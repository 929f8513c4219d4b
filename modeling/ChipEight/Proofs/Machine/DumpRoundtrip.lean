import ChipEight.Machine.Dump
import ChipEight.Proofs.Words

/-!
# A dump gives its machine back

Reading is undone field by field. `Takes reader bytes a` says that a reader takes `a` off any row of
bytes that starts with `bytes`, and leaves exactly what follows them. Readers in sequence take
the concatenation (`Takes.bind`), so the dump of a machine is read by one such step per field, in
the order in which it was written.

Two things are written with a loss. The number of breakpoints has sixteen bits, one too few for the
set of all addresses. And a font is written by its number in the table, which for a name that is not
in the table is that of the first font.
-/

namespace ChipEight

open Dump in
/-- A dump, field after field. -/
theorem Machine.dump_eq (m : Machine) : m.dump =
    m.ram.toList ++ (m.flags.toList ++ (m.v.toList ++
    (UInt8.ofNat m.depth.val :: (m.delay :: (m.sound ::
    (m.stack.toList.flatMap splitWord ++ (splitWord m.pc ++ (splitWord m.index ++
    (m.keys.toList.map ofBool ++ (ofAwaiting m.awaiting :: (ofBool m.running ::
    (ofRaster m.screen ++ (UInt8.ofNat m.switches.bits ::
    (UInt8.ofNat m.dialect.rank :: (ofBool m.redraw ::
    (UInt8.ofNat m.fonts.small.number :: (UInt8.ofNat m.fonts.big.number ::
    (ofDouble m.palette.background ++ (ofDouble m.palette.foreground ++
    ofBreakpoints m.breakpoints))))))))))))))))))) := by
  simp only [dump, List.append_assoc, List.cons_append, List.nil_append]

namespace Dump

/-! ## Readers and the bytes they take -/

/-- A reader takes a value off the front of bytes, whatever follows them. -/
def Takes {α : Type} (reader : Reader α) (bytes : List UInt8) (a : α) : Prop :=
  ∀ rest, reader.run (bytes ++ rest) = .ok (a, rest)

theorem Takes.pure {α : Type} (a : α) : Takes (pure a) [] a := fun _ => rfl

theorem Takes.bind {α β : Type} {reader : Reader α} {next : α → Reader β} {bs cs : List UInt8}
    {a : α} {b : β} (h₁ : Takes reader bs a) (h₂ : Takes (next a) cs b) :
    Takes (reader >>= next) (bs ++ cs) b := by
  intro rest
  rw [StateT.run_bind, List.append_assoc, h₁]
  exact h₂ rest

/-- A value computed from what was read takes no further bytes. -/
theorem Takes.map {α β : Type} {reader : Reader α} {bs : List UInt8} {a : α}
    (h : Takes reader bs a) (f : α → β) : Takes (reader >>= fun a => Pure.pure (f a)) bs (f a) := by
  rw [← List.append_nil bs]
  exact h.bind (.pure (f a))

/-- A field that has the value it must have takes no further bytes. -/
theorem takes_require {α : Type} (flaw : DumpFlaw) {value : Option α} {a : α}
    (h : value = some a) : Takes (require flaw value) [] a := by
  rw [h]
  exact .pure a

/-- A byte that stands for a value is read as that value. -/
theorem Takes.require {α β : Type} {flaw : DumpFlaw} {decode : UInt8 → Option α} {b : UInt8} {a : α}
    {next : α → Reader β} {bs : List UInt8} {c : β} (hb : decode b = some a)
    (h : Takes (next a) bs c) :
    Takes (byte >>= fun b => require flaw (decode b) >>= next) (b :: bs) c := by
  intro rest
  show (Dump.require flaw (decode b) >>= next).run (bs ++ rest) = .ok (c, rest)
  exact ((takes_require flaw hb).bind h) rest

/-! ## Bytes, words and blocks -/

theorem takes_byte (b : UInt8) : Takes byte [b] b := fun _ => rfl

theorem takes_word (w : UInt16) : Takes word (splitWord w) w := by
  have h : Takes word (splitWord w)
      (joinBytes (UInt8.ofNat (w.toNat / 256)) (UInt8.ofNat w.toNat)) := fun _ => rfl
  rwa [joinBytes_splitWord] at h

theorem takes_double (d : UInt32) : Takes double (ofDouble d) d := by
  have hd := d.toNat_lt
  have hbytes : ofDouble d =
      splitWord (UInt16.ofNat (d.toNat / 65536)) ++ splitWord (UInt16.ofNat d.toNat) := by
    simp only [ofDouble, splitWord, UInt16.toNat_ofNat', List.cons_append, List.nil_append,
      List.cons.injEq, and_true, ← UInt8.toNat_inj, UInt8.toNat_ofNat']
    omega
  have hvalue : UInt32.ofNat (65536 * (UInt16.ofNat (d.toNat / 65536)).toNat +
      (UInt16.ofNat d.toNat).toNat) = d := by
    refine UInt32.toNat_inj.mp ?_
    rw [UInt32.toNat_ofNat', UInt16.toNat_ofNat', UInt16.toNat_ofNat']
    omega
  -- Four bytes are written one by one but read as two words.
  rw [hbytes]
  refine (takes_word (UInt16.ofNat (d.toNat / 65536))).bind ?_
  have h := (takes_word (UInt16.ofNat d.toNat)).map fun low =>
    UInt32.ofNat (65536 * (UInt16.ofNat (d.toNat / 65536)).toNat + low.toNat)
  rwa [hvalue] at h

theorem takes_block {n : Nat} (v : Vector UInt8 n) : Takes (block n) v.toList v := by
  intro rest
  have hn : n ≤ (v.toList ++ rest).length := by simp
  show block n (v.toList ++ rest) = _
  rw [block, dif_pos hn]
  simp [Vector.toList]

theorem ofBool_ne_zero (b : Bool) : (ofBool b != 0) = b := by cases b <;> rfl

theorem takes_bools {n : Nat} (v : Vector Bool n) : Takes (bools n) (v.toList.map ofBool) v := by
  have h := (takes_block (v.map ofBool)).map fun bytes => bytes.map (· != 0)
  have hvalue : (v.map ofBool).map (· != 0) = v := by
    ext i hi
    simp [ofBool_ne_zero]
  rw [hvalue, Vector.toList_map] at h
  exact h

theorem takes_wordList (ws : List UInt16) :
    Takes (wordList ws.length) (ws.flatMap splitWord) ws := by
  intro rest
  have hlength := length_flatMap_splitWord ws
  have hle : 2 * ws.length ≤ (ws.flatMap splitWord ++ rest).length := by
    rw [List.length_append]
    omega
  show wordList ws.length (ws.flatMap splitWord ++ rest) = _
  rw [wordList, if_pos hle, List.take_left' hlength, List.drop_left' hlength,
    words_flatMap_splitWord]

theorem takes_wordBlock {n : Nat} (v : Vector UInt16 n) :
    Takes (wordBlock n) (v.toList.flatMap splitWord) v := by
  have hlength : (v.toList.flatMap splitWord).length = 2 * n := by
    rw [length_flatMap_splitWord, Vector.length_toList]
  let bytes : Vector UInt8 (2 * n) := ⟨(v.toList.flatMap splitWord).toArray, hlength⟩
  have hvalue : (Vector.ofFn fun i : Fin n =>
      joinBytes (bytes.get ⟨2 * i.val, high_lt i⟩) (bytes.get ⟨2 * i.val + 1, low_lt i⟩)) = v := by
    ext i hi
    have hbytes := getElem?_flatMap_splitWord v.toList i (by simpa using hi)
    have hhigh : bytes.get ⟨2 * i, high_lt ⟨i, hi⟩⟩ = UInt8.ofNat (v[i].toNat / 256) :=
      (List.getElem?_eq_some_iff.mp hbytes.1).2
    have hlow : bytes.get ⟨2 * i + 1, low_lt ⟨i, hi⟩⟩ = UInt8.ofNat v[i].toNat :=
      (List.getElem?_eq_some_iff.mp hbytes.2).2
    rw [Vector.getElem_ofFn, hhigh, hlow, joinBytes_splitWord]
  have h := (takes_block bytes).map fun bytes =>
    Vector.ofFn fun i : Fin n =>
      joinBytes (bytes.get ⟨2 * i.val, high_lt i⟩) (bytes.get ⟨2 * i.val + 1, low_lt i⟩)
  rw [hvalue] at h
  exact h

/-! ## Fields with few values -/

theorem depth?_ofNat (d : Fin 17) : depth? (UInt8.ofNat d.val) = some d := by
  revert d
  decide

theorem awaiting?_ofAwaiting (awaiting : Option (Fin 16)) :
    awaiting? (ofAwaiting awaiting) = some awaiting := by
  cases awaiting with
  | none => rfl
  | some x =>
    revert x
    decide

theorem resolution?_ofResolution (r : Resolution) : resolution? (ofResolution r) = some r := by
  cases r <;> rfl

theorem ofRank?_ofNat (d : Dialect) : Dialect.ofRank? (UInt8.ofNat d.rank).toNat = some d := by
  cases d <;> rfl

/-- The byte of a font stands for the font, or for the first one if it is not listed. -/
theorem fontNumber?_ofNat {size : GlyphSize} (f : Font size) :
    Font.ofNumber? size (UInt8.ofNat f.number).toNat = some f.listed := by
  rw [UInt8.toNat_ofNat_of_lt' f.number_lt_256, f.ofNumber?_number]

/-! ## Groups of fields -/

/-- A window that lies on the cells does not wrap. -/
theorem setOffset_val (s : Raster) (left : Fin 128) (top : Fin 64) :
    s.setOffset left.val top.val = { s with left, top } := by
  rw [Raster.setOffset]
  simp only [Nat.mod_eq_of_lt left.isLt, Nat.mod_eq_of_lt top.isLt]

theorem takes_raster (s : Raster) : Takes raster (ofRaster s) s := by
  have hleft : (UInt8.ofNat s.left.val).toNat = s.left.val := by
    rw [UInt8.toNat_ofNat']
    omega
  have htop : (UInt8.ofNat s.top.val).toNat = s.top.val := by
    rw [UInt8.toNat_ofNat']
    omega
  refine (takes_bools s.cells).bind (.require (resolution?_ofResolution s.resolution) ?_)
  refine (takes_byte (UInt8.ofNat s.left.val)).bind ?_
  have h := (takes_byte (UInt8.ofNat s.top.val)).map fun top =>
    ({ cells := s.cells, resolution := s.resolution } : Raster).setOffset
      (UInt8.ofNat s.left.val).toNat top.toNat
  rw [hleft, htop, setOffset_val] at h
  rw [hleft]
  exact h

/-- Breakpoints are read back, unless they are all addresses. -/
theorem takes_breakpoints {s : AddressSet} (h : s.size ≤ 65535) :
    Takes breakpoints (ofBreakpoints s) s := by
  have hcount : (UInt16.ofNat s.size).toNat = s.toList.length := by
    rw [UInt16.toNat_ofNat']
    exact Nat.mod_eq_of_lt (Nat.lt_succ_of_le h)
  refine (takes_word (UInt16.ofNat s.size)).bind ?_
  have hlist := (takes_wordList s.toList).map AddressSet.ofList
  rw [AddressSet.ofList_toList] at hlist
  rw [hcount]
  exact hlist

/-! ## The whole machine -/

/-- Reading takes the dump of a machine and nothing else. -/
theorem takes_machine {m : Machine} (h : m.breakpoints.size ≤ 65535) (noise : Noise) :
    Takes (machine noise) m.dump { m with redraw := true, fonts := m.fonts.listed, noise } := by
  have hswitches : Switches.ofBits (UInt8.ofNat m.switches.bits).toNat = m.switches := by
    have hlt := m.switches.bits_lt
    rw [UInt8.toNat_ofNat', Nat.mod_eq_of_lt (by omega), Switches.ofBits_bits]
  rw [m.dump_eq]
  refine (takes_block m.ram.cells).bind ((takes_block m.flags).bind ((takes_block m.v).bind ?_))
  refine .require (depth?_ofNat m.depth) ?_
  refine (takes_byte m.delay).bind ((takes_byte m.sound).bind ?_)
  refine (takes_wordBlock m.stack).bind ((takes_word m.pc).bind ((takes_word m.index).bind ?_))
  refine (takes_bools m.keys).bind (.require (awaiting?_ofAwaiting m.awaiting) ?_)
  refine (takes_byte (ofBool m.running)).bind ((takes_raster m.screen).bind ?_)
  refine (takes_byte (UInt8.ofNat m.switches.bits)).bind (.require (ofRank?_ofNat m.dialect) ?_)
  refine (takes_byte (ofBool m.redraw)).bind ?_
  refine .require (fontNumber?_ofNat m.fonts.small) (.require (fontNumber?_ofNat m.fonts.big) ?_)
  refine (takes_double m.palette.background).bind ((takes_double m.palette.foreground).bind ?_)
  have hlast := (takes_breakpoints h).map fun breakpoints =>
    { m with
      running := ofBool m.running != 0, redraw := true,
      switches := Switches.ofBits (UInt8.ofNat m.switches.bits).toNat
      fonts := m.fonts.listed, breakpoints, noise }
  rw [ofBool_ne_zero, hswitches] at hlast
  rw [ofBool_ne_zero, hswitches]
  exact hlast

end Dump

namespace Machine

theorem restore_dump_append (m t : Machine) (extra : List UInt8)
    (h : m.breakpoints.size ≤ 65535) :
    t.restore (m.dump ++ extra) =
      .ok { m with redraw := true, fonts := m.fonts.listed, noise := t.noise } := by
  rw [restore, Dump.takes_machine h t.noise extra]
  rfl

theorem restore_whole_dump (m t : Machine) (h : m.breakpoints.size ≤ 65535) :
    t.restore m.dump = .ok { m with redraw := true, fonts := m.fonts.listed, noise := t.noise } := by
  have hrestore := m.restore_dump_append t [] h
  rwa [List.append_nil] at hrestore

/-- Restoring a dump gives its machine, with the screen to be drawn, the random bytes of the machine
that restores it, and the first font of the table in place of one that is not listed. The fonts are
those of the machine if and only if both are listed. The bytes behind the dump are left over, and no
other. -/
theorem restore_dump (m t : Machine) (extra : List UInt8) (h : m.breakpoints.size ≤ 65535) :
    t.restore (m.dump ++ extra) =
        .ok { m with redraw := true, fonts := m.fonts.listed, noise := t.noise } ∧
      (Dump.machine t.noise).run (m.dump ++ extra) =
        .ok ({ m with redraw := true, fonts := m.fonts.listed, noise := t.noise }, extra) ∧
      (m.fonts.listed = m.fonts ↔ m.fonts.IsListed) :=
  ⟨m.restore_dump_append t extra h, Dump.takes_machine h t.noise extra, Fonts.listed_eq_self_iff⟩

/-- A machine with a listed font and two breakpoints, restored by another one from a dump with two
more bytes. -/
theorem restore_dump_breakpoints :
    let fonts : Fonts := { small := ⟨"vip"⟩ }
    let m := (((ofSeed 7).setFonts fonts).addBreakpoint 0x204).addBreakpoint 0x200
    m.breakpoints.size ≤ 65535 ∧
      (ofSeed 1).restore (m.dump ++ [0x12, 0x34]) =
        .ok { m with redraw := true, noise := .ofSeed 1 } := by
  intro fonts m
  have hsize : m.breakpoints.size ≤ 65535 := by decide
  obtain ⟨hrestore, -, hfonts⟩ := restore_dump m (ofSeed 1) [0x12, 0x34] hsize
  have hlisted : m.fonts.listed = m.fonts := hfonts.mpr (by decide : fonts.IsListed)
  rw [hlisted] at hrestore
  exact ⟨hsize, hrestore⟩

/-- A font whose name is spelled otherwise than in the table comes back as the first font, though
its glyphs are in memory before and after. -/
theorem restore_dump_unlisted :
    let m := (ofSeed 0).setFonts { small := ⟨"VIP"⟩ }
    m.breakpoints.size ≤ 65535 ∧ m.fonts.small.glyphs = Glyph.vipSmall ∧
      ∃ next, (ofSeed 0).restore m.dump = .ok next ∧ next.ram = m.ram ∧
        next.fonts.small.name = "octo" ∧ next.fonts ≠ m.fonts := by
  intro m
  have hsize : m.breakpoints.size ≤ 65535 := by decide
  have hglyphs : (⟨"VIP"⟩ : SmallFont).glyphs = Glyph.vipSmall := by decide
  have hname : m.fonts.listed.small.name = "octo" := by decide
  have hchanged : m.fonts.listed ≠ m.fonts := by decide
  exact ⟨hsize, hglyphs, _, m.restore_whole_dump (ofSeed 0) hsize, rfl, hname, hchanged⟩

end Machine
end ChipEight
