import ChipEight.Proofs.Machine.DumpLayout

/-!
# What a restored machine holds

The layout says which bytes are a dump; here is what comes of them. `Gives` says of a reader which
succeeds from one place on that it has read up to another one, and what holds of its value. Readers
in sequence give what the last of them gives, which may depend on the values before (`Gives.bind`).
So one such step per field tells every field of a machine from the bytes at its place in the layout:
`Describes`.

Most fields are the bytes themselves. Truth values, the window and the switches lose something on
the way, breakpoints are put in order, and the screen is always to be drawn.
-/

namespace ChipEight

/-- The words of an even number of bytes are all of them. -/
theorem flatMap_splitWord_words_of_even {bytes : List UInt8} {n : Nat}
    (h : bytes.length = 2 * n) : (words bytes).flatMap splitWord = bytes := by
  have hparts := flatMap_splitWord_words bytes
  have hlength := congrArg List.length hparts
  rw [List.length_append, length_flatMap_splitWord, length_words, h] at hlength
  have hodd : (oddByte? bytes).toList = [] := List.eq_nil_of_length_eq_zero (by omega)
  rwa [hodd, List.append_nil] at hparts

namespace Dump

/-! ## Values of single readers -/

section

variable {α : Type} {reader : Reader α} {taken : List UInt8} {a b : α}

theorem Takes.unique (h : Takes reader taken a) (h' : Takes reader taken b) : a = b :=
  congrArg Prod.fst (Except.ok.inj ((h []).symm.trans (h' [])))

theorem eq_of_takes_byte {c : UInt8} (hlength : taken.length = 1) (h : Takes byte taken c) :
    taken = [c] := by
  obtain ⟨b, rfl⟩ := List.length_eq_one_iff.mp hlength
  rw [h.unique (takes_byte b)]

theorem splitWord_of_takes_word {w : UInt16} (hlength : taken.length = 2) (h : Takes word taken w) :
    splitWord w = taken := by
  obtain ⟨high, low, rfl⟩ : ∃ high low, taken = [high, low] := by
    match taken, hlength with
    | [high, low], _ => exact ⟨high, low, rfl⟩
  have hvalue : joinBytes high low = w := congrArg Prod.fst (Except.ok.inj (h []))
  rw [← hvalue, splitWord_joinBytes]

theorem ofDouble_of_takes_double {d : UInt32} (hlength : taken.length = 4)
    (h : Takes double taken d) : ofDouble d = taken := by
  obtain ⟨a, b, c, e, rfl⟩ : ∃ a b c e, taken = [a, b, c, e] := by
    match taken, hlength with
    | [a, b, c, e], _ => exact ⟨a, b, c, e, rfl⟩
  have hvalue : UInt32.ofNat (65536 * (joinBytes a b).toNat + (joinBytes c e).toNat) = d :=
    congrArg Prod.fst (Except.ok.inj (h []))
  have ha := a.toNat_lt
  have hb := b.toNat_lt
  have hc := c.toNat_lt
  have he := e.toNat_lt
  rw [← hvalue, ofDouble, UInt32.toNat_ofNat', toNat_joinBytes, toNat_joinBytes]
  simp only [List.cons.injEq, and_true, ← UInt8.toNat_inj, UInt8.toNat_ofNat',
    Nat.shiftRight_eq_div_pow]
  omega

theorem toList_of_takes_block {n : Nat} {v : Vector UInt8 n} (hlength : taken.length = n)
    (h : Takes (block n) taken v) : v.toList = taken := by
  rw [h.unique (takes_block ⟨taken.toArray, hlength⟩)]
  rfl

theorem toList_of_takes_bools {n : Nat} {v : Vector Bool n} (hlength : taken.length = n)
    (h : Takes (bools n) taken v) : v.toList = taken.map (· != 0) := by
  have hvalue := (takes_block ⟨taken.toArray, hlength⟩).map fun bytes => bytes.map (· != 0)
  rw [h.unique hvalue, Vector.toList_map]
  rfl

theorem flatMap_of_takes_wordBlock {n : Nat} {v : Vector UInt16 n} (hlength : taken.length = 2 * n)
    (h : Takes (wordBlock n) taken v) : v.toList.flatMap splitWord = taken := by
  have hwords : (words taken).length = n := by
    rw [length_words]
    omega
  have htakes := takes_wordBlock ⟨(words taken).toArray, hwords⟩
  have htaken := flatMap_splitWord_words_of_even hlength
  change Takes _ ((words taken).flatMap splitWord) _ at htakes
  rw [htaken] at htakes
  rw [h.unique htakes]
  exact htaken

theorem eq_words_of_takes_wordList {n : Nat} {ws : List UInt16} (hlength : taken.length = 2 * n)
    (h : Takes (wordList n) taken ws) : ws = words taken := by
  have hwords : (words taken).length = n := by
    rw [length_words]
    omega
  have htakes := takes_wordList (words taken)
  rw [flatMap_splitWord_words_of_even hlength, hwords] at htakes
  exact h.unique htakes

end

/-! ## Readers in sequence -/

/-- The bytes of a field. -/
def piece (bytes : List UInt8) (start size : Nat) : List UInt8 := (bytes.drop start).take size

theorem piece_append_drop (bytes : List UInt8) (start size : Nat) :
    piece bytes start size ++ bytes.drop (start + size) = bytes.drop start := by
  rw [piece, ← List.drop_drop, List.take_append_drop]

theorem length_piece {bytes : List UInt8} {start size : Nat} (h : start + size ≤ bytes.length) :
    (piece bytes start size).length = size := by
  rw [piece, List.length_take, List.length_drop]
  omega

/-- From `start` on, a reader that succeeds reads up to `stop`, and gives a value like this. -/
def Gives {α : Type} (reader : Reader α) (bytes : List UInt8) (start stop : Nat) (P : α → Prop) :
    Prop :=
  ∀ a rest, reader.run (bytes.drop start) = .ok (a, rest) → rest = bytes.drop stop ∧ P a

section

variable {α β : Type} {bytes : List UInt8} {start mid stop : Nat} {P : α → Prop} {Q : β → Prop}

theorem Gives.pure {a : α} (h : P a) : Gives (Pure.pure a) bytes start start P := by
  rintro b rest hrun
  obtain ⟨rfl, rfl⟩ := Prod.mk.inj (Except.ok.inj hrun)
  exact ⟨rfl, h⟩

theorem Gives.bind {reader : Reader α} {next : α → Reader β} (h₁ : Gives reader bytes start mid P)
    (h₂ : ∀ a, P a → Gives (next a) bytes mid stop Q) :
    Gives (reader >>= next) bytes start stop Q := by
  intro b rest hrun
  rw [StateT.run_bind] at hrun
  cases hfirst : reader.run (bytes.drop start) with
  | error failure =>
    rw [hfirst] at hrun
    cases hrun
  | ok result =>
    obtain ⟨a, middle⟩ := result
    obtain ⟨rfl, ha⟩ := h₁ a middle hfirst
    rw [hfirst] at hrun
    exact h₂ a ha b rest hrun

theorem Gives.mono {reader : Reader α} {P' : α → Prop} (h : Gives reader bytes start stop P)
    (himp : ∀ a, P a → P' a) : Gives reader bytes start stop P' := fun a rest hrun =>
  ⟨(h a rest hrun).1, himp a (h a rest hrun).2⟩

/-- A reader of a fixed number of bytes gives what it takes off them. -/
theorem Sized.gives {reader : Reader α} {size : Nat} (h : Sized reader size) :
    Gives reader bytes start (start + size) fun a =>
      (piece bytes start size).length = size ∧ Takes reader (piece bytes start size) a := by
  intro a rest hrun
  by_cases hsize : (bytes.drop start).length < size
  · rw [h.short _ hsize] at hrun
    cases hrun
  · have hlength : (piece bytes start size).length = size := by
      rw [piece, List.length_take]
      omega
    obtain ⟨b, hb⟩ := h.takes _ hlength
    have htaken := hb (bytes.drop (start + size))
    rw [piece_append_drop, hrun] at htaken
    obtain ⟨rfl, rfl⟩ := Prod.mk.inj (Except.ok.inj htaken)
    exact ⟨rfl, hlength, hb⟩

theorem gives_byte : Gives byte bytes start (start + 1) (· = byteAt bytes start) := by
  refine sized_byte.gives.mono fun b ⟨hlength, htakes⟩ => ?_
  have hpiece := eq_of_takes_byte hlength htakes
  have hhead := congrArg (fun taken => List.getD taken 0 0) hpiece
  simpa [piece, byteAt] using hhead.symm

theorem gives_word : Gives word bytes start (start + 2) (splitWord · = piece bytes start 2) :=
  sized_word.gives.mono fun _ h => splitWord_of_takes_word h.1 h.2

theorem gives_double : Gives double bytes start (start + 4) (ofDouble · = piece bytes start 4) :=
  sized_double.gives.mono fun _ h => ofDouble_of_takes_double h.1 h.2

theorem gives_block (n : Nat) :
    Gives (block n) bytes start (start + n) (·.toList = piece bytes start n) :=
  (sized_block n).gives.mono fun _ h => toList_of_takes_block h.1 h.2

theorem gives_bools (n : Nat) :
    Gives (bools n) bytes start (start + n) (·.toList = (piece bytes start n).map (· != 0)) :=
  (sized_bools n).gives.mono fun _ h => toList_of_takes_bools h.1 h.2

theorem gives_wordBlock (n : Nat) :
    Gives (wordBlock n) bytes start (start + 2 * n)
      (·.toList.flatMap splitWord = piece bytes start (2 * n)) :=
  (sized_wordBlock n).gives.mono fun _ h => flatMap_of_takes_wordBlock h.1 h.2

theorem gives_wordList (n : Nat) :
    Gives (wordList n) bytes start (start + 2 * n) (· = words (piece bytes start (2 * n))) :=
  (sized_wordList n).gives.mono fun _ h => eq_words_of_takes_wordList h.1 h.2

/-- A byte that must stand for a value gives the value it stands for. -/
theorem Gives.limited {flaw : DumpFlaw} {decode : UInt8 → Option α} {next : α → Reader β}
    (h : ∀ a, decode (byteAt bytes start) = some a → Gives (next a) bytes (start + 1) stop Q) :
    Gives (byte >>= fun b => require flaw (decode b) >>= next) bytes start stop Q := by
  refine gives_byte.bind fun b hb => ?_
  subst hb
  refine Gives.bind (P := fun a => decode (byteAt bytes start) = some a) ?_ h
  intro a rest hrun
  cases hvalue : decode (byteAt bytes start) with
  | none =>
    rw [hvalue] at hrun
    cases hrun
  | some c =>
    rw [hvalue] at hrun
    obtain ⟨rfl, rfl⟩ := Prod.mk.inj (Except.ok.inj hrun)
    exact ⟨rfl, rfl⟩

end

/-! ## Values that stand for a byte -/

theorem ofNat_of_depth? {b : UInt8} {depth : Fin 17} (h : depth? b = some depth) :
    UInt8.ofNat depth.val = b := by
  rw [depth?] at h
  split at h
  · obtain rfl := Option.some.inj h
    exact UInt8.ofNat_toNat
  · cases h

theorem ofAwaiting_of_awaiting? {b : UInt8} {awaiting : Option (Fin 16)}
    (h : awaiting? b = some awaiting) : ofAwaiting awaiting = b := by
  rw [awaiting?] at h
  split at h
  · obtain rfl := Option.some.inj h
    exact Eq.symm ‹_›
  · split at h
    · obtain rfl := Option.some.inj h
      exact UInt8.ofNat_toNat
    · cases h

theorem ofResolution_of_resolution? {b : UInt8} {resolution : Resolution}
    (h : resolution? b = some resolution) : ofResolution resolution = b := by
  rw [resolution?] at h
  split at h
  · obtain rfl := Option.some.inj h
    exact Eq.symm ‹_›
  · split at h
    · obtain rfl := Option.some.inj h
      exact Eq.symm ‹_›
    · cases h

theorem rank_of_ofRank? {n : Nat} {dialect : Dialect} (h : Dialect.ofRank? n = some dialect) :
    dialect.rank = n := by
  match n, h with
  | 0, h | 1, h | 2, h =>
    obtain rfl := Option.some.inj h
    rfl

/-! ## The whole machine -/

/-- The addresses of the breakpoints, in the order of the bytes. -/
def addresses (bytes : List UInt8) : List UInt16 := words (piece bytes 12387 (2 * count bytes))

/-- A screen as the bytes from 4177 on say. -/
structure DescribesScreen (bytes : List UInt8) (s : Raster) : Prop where
  cells : s.cells.toList = (piece bytes 4177 8192).map (· != 0)
  resolution : ofResolution s.resolution = byteAt bytes 12369
  left : s.left.val = (byteAt bytes 12370).toNat % 128
  top : s.top.val = (byteAt bytes 12371).toNat % 64

/-- A machine as the bytes say, field by field along the layout. -/
structure Describes (bytes : List UInt8) (m : Machine) : Prop where
  ram : m.ram.toList = piece bytes 0 4096
  flags : m.flags.toList = piece bytes 4096 8
  v : m.v.toList = piece bytes 4104 16
  depth : UInt8.ofNat m.depth.val = byteAt bytes 4120
  delay : m.delay = byteAt bytes 4121
  sound : m.sound = byteAt bytes 4122
  stack : m.stack.toList.flatMap splitWord = piece bytes 4123 32
  pc : splitWord m.pc = piece bytes 4155 2
  index : splitWord m.index = piece bytes 4157 2
  keys : m.keys.toList = (piece bytes 4159 16).map (· != 0)
  awaiting : ofAwaiting m.awaiting = byteAt bytes 4175
  running : m.running = (byteAt bytes 4176 != 0)
  screen : DescribesScreen bytes m.screen
  switches : m.switches = Switches.ofBits (byteAt bytes 12372).toNat
  dialect : m.dialect.rank = (byteAt bytes 12373).toNat
  redraw : m.redraw = true
  small : Font.ofNumber? .small (byteAt bytes 12375).toNat = some m.fonts.small
  big : Font.ofNumber? .big (byteAt bytes 12376).toNat = some m.fonts.big
  background : ofDouble m.palette.background = piece bytes 12377 4
  foreground : ofDouble m.palette.foreground = piece bytes 12381 4
  breakpoints : m.breakpoints = AddressSet.ofList (addresses bytes)

/-- Fonts that were found by their numbers are listed. -/
theorem Describes.isListed {bytes : List UInt8} {m : Machine} (h : Describes bytes m) :
    m.fonts.IsListed :=
  ⟨Font.isListed_of_ofNumber? h.small, Font.isListed_of_ofNumber? h.big⟩

theorem gives_raster (bytes : List UInt8) :
    Gives raster bytes 4177 12372 (DescribesScreen bytes) := by
  refine (gives_bools 8192).bind fun cells hcells => .limited fun resolution hresolution => ?_
  refine gives_byte.bind fun left hleft => gives_byte.bind fun top htop => .pure ?_
  subst hleft htop
  exact ⟨hcells, ofResolution_of_resolution? hresolution, rfl, rfl⟩

theorem gives_breakpoints (bytes : List UInt8) :
    Gives breakpoints bytes 12385 (extent bytes) (· = AddressSet.ofList (addresses bytes)) := by
  refine sized_word.gives.bind fun announced ⟨hlength, htakes⟩ => ?_
  have hcount : announced.toNat = count bytes := by
    have hbetween : piece bytes 12385 2 = (bytes.take (12385 + 2)).drop 12385 := by
      rw [piece, List.drop_take, Nat.add_sub_cancel_left]
    have hstop : 12385 + 2 ≤ bytes.length := by
      rw [piece, List.length_take, List.length_drop] at hlength
      omega
    rw [hbetween] at htakes
    exact toNat_of_takes_word hstop htakes
  rw [hcount]
  exact (gives_wordList (count bytes)).bind fun ws hws => .pure (congrArg AddressSet.ofList hws)

/-- A machine that is read is as the bytes say. -/
theorem gives_machine (noise : Noise) (bytes : List UInt8) :
    Gives (machine noise) bytes 0 (extent bytes) fun m => Describes bytes m ∧ m.noise = noise := by
  refine (gives_block 4096).bind fun memory hmemory => (gives_block 8).bind fun flags hflags => ?_
  refine (gives_block 16).bind fun v hv => .limited fun depth hdepth => ?_
  refine gives_byte.bind fun delay hdelay => gives_byte.bind fun sound hsound => ?_
  refine (gives_wordBlock 16).bind fun stack hstack => gives_word.bind fun pc hpc => ?_
  refine gives_word.bind fun index hindex => (gives_bools 16).bind fun keys hkeys => ?_
  refine .limited fun awaiting hawaiting => gives_byte.bind fun running hrunning => ?_
  refine (gives_raster bytes).bind fun screen hscreen => ?_
  refine gives_byte.bind fun switches hswitches => .limited fun dialect hdialect => ?_
  refine gives_byte.bind fun _ _ => ?_
  refine .limited fun small hsmall => .limited fun big hbig => ?_
  refine gives_double.bind fun background hbackground => ?_
  refine gives_double.bind fun foreground hforeground => ?_
  refine (gives_breakpoints bytes).bind fun breakpoints hbreakpoints => .pure ⟨?_, rfl⟩
  subst hrunning hswitches
  exact {
    ram := hmemory, flags := hflags, v := hv, depth := ofNat_of_depth? hdepth
    delay := hdelay, sound := hsound, stack := hstack, pc := hpc, index := hindex, keys := hkeys
    awaiting := ofAwaiting_of_awaiting? hawaiting, running := rfl, screen := hscreen
    switches := rfl, dialect := rank_of_ofRank? hdialect, redraw := rfl
    small := hsmall, big := hbig
    background := hbackground, foreground := hforeground, breakpoints := hbreakpoints }

end Dump

namespace Machine

open Dump

/-- A restored machine is as the bytes say, and keeps the random bytes of the machine before. -/
theorem describes_of_restore {m next : Machine} {bytes : List UInt8}
    (h : m.restore bytes = .ok next) : Describes bytes next ∧ next.noise = m.noise := by
  rw [restore] at h
  cases hrun : (Dump.machine m.noise).run bytes with
  | error failure =>
    rw [hrun] at h
    cases h
  | ok result =>
    rw [hrun] at h
    obtain rfl := Except.ok.inj h
    exact (gives_machine m.noise bytes result.1 result.2 hrun).2

end Machine
end ChipEight
