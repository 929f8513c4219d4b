import ChipEight.Proofs.Machine.DumpRoundtrip
import ChipEight.Proofs.Machine.Requests

/-!
# Which bytes are a dump

Reading is compared with the table of fields. `Reads reader bytes start fields stop` says that from
`start` on a reader does what the table says of these fields: it fails with the fault of the first
that has one, and otherwise takes the bytes up to `stop` and no other. Readers in sequence read the
fields of both (`Reads.bind`), so the table of the whole machine (`layout`) is compared with
`Dump.machine` by one such step per field.

The size of the last field is itself read from the dump, so the table depends on the bytes.
-/

namespace ChipEight
namespace Dump

/-! ## Fields -/

/-- A field of a dump. Some fields of one byte are limited: not every value will do. -/
structure Field where
  start : Nat
  size : Nat
  limit : Option (DumpFlaw × (UInt8 → Bool)) := none

/-- A byte of a dump, by its offset. -/
def byteAt (bytes : List UInt8) (i : Nat) : UInt8 := bytes.getD i 0

/-- Why reading stops at a field, if it does: it is cut short or out of range. -/
def Field.fault? (bytes : List UInt8) (field : Field) : Option Failure :=
  if bytes.length < field.start + field.size then some (.io .shortRead)
  else
    match field.limit with
    | none => none
    | some (flaw, allowed) =>
      if allowed (byteAt bytes field.start) then none else some (.badDump flaw)

/-- The fault of the first field that has one. -/
def firstFault? (bytes : List UInt8) (fields : List Field) : Option Failure :=
  fields.findSome? (Field.fault? bytes)

theorem firstFault?_append (bytes : List UInt8) (fields more : List Field) :
    firstFault? bytes (fields ++ more) =
      (firstFault? bytes fields).or (firstFault? bytes more) := List.findSome?_append

theorem firstFault?_eq_none_iff {bytes : List UInt8} {fields : List Field} :
    firstFault? bytes fields = none ↔ ∀ field ∈ fields, field.fault? bytes = none :=
  List.findSome?_eq_none_iff

theorem Field.fault?_free {bytes : List UInt8} {start size : Nat} :
    Field.fault? bytes { start, size } = none ↔ start + size ≤ bytes.length := by
  simp [Field.fault?]

theorem Field.fault?_limited {bytes : List UInt8} {start size : Nat} {flaw : DumpFlaw}
    {allowed : UInt8 → Bool} :
    Field.fault? bytes { start, size, limit := some (flaw, allowed) } = none ↔
      start + size ≤ bytes.length ∧ allowed (byteAt bytes start) = true := by
  by_cases hsize : bytes.length < start + size
  · simp only [Field.fault?, if_pos hsize]
    constructor
    · intro h
      cases h
    · intro h
      omega
  · simp only [Field.fault?, if_neg hsize]
    by_cases hallowed : allowed (byteAt bytes start) = true
    · simp only [hallowed, if_true, and_true, true_iff]
      omega
    · simp [hallowed]

/-! ## Bytes between two offsets -/

theorem drop_eq_byteAt_cons {bytes : List UInt8} {i : Nat} (h : i < bytes.length) :
    bytes.drop i = byteAt bytes i :: bytes.drop (i + 1) := by
  rw [List.drop_eq_getElem_cons h, byteAt, List.getD_eq_getElem?_getD,
    List.getElem?_eq_getElem h, Option.getD_some]

theorem byteAt_length (before : List UInt8) (b : UInt8) (rest : List UInt8) :
    byteAt (before ++ b :: rest) before.length = b := by
  simp [byteAt]

theorem drop_eq_between_append (bytes : List UInt8) {start stop : Nat} (hle : start ≤ stop) :
    bytes.drop start = (bytes.take stop).drop start ++ bytes.drop stop := by
  by_cases h : stop ≤ bytes.length
  · have hlength : start ≤ (bytes.take stop).length := by
      rw [List.length_take]
      omega
    rw [← List.drop_append_of_le_length hlength, List.take_append_drop]
  · rw [List.take_of_length_le (by omega), List.drop_eq_nil_of_le (by omega : bytes.length ≤ stop),
      List.append_nil]

theorem between_append_between {bytes : List UInt8} {start mid stop : Nat} (hmid : start ≤ mid)
    (hstop : mid ≤ stop) :
    (bytes.take mid).drop start ++ (bytes.take stop).drop mid = (bytes.take stop).drop start := by
  rw [drop_eq_between_append (bytes.take stop) hmid, List.take_take, Nat.min_eq_left hstop]

/-! ## Readers of a fixed number of bytes -/

/-- A reader takes any `size` bytes, and fails for want of bytes on fewer. -/
structure Sized {α : Type} (reader : Reader α) (size : Nat) : Prop where
  takes : ∀ taken : List UInt8, taken.length = size → ∃ a, Takes reader taken a
  short : ∀ given : List UInt8, given.length < size → reader.run given = .error (.io .shortRead)

theorem Sized.pure {α : Type} (a : α) : Sized (Pure.pure a : Reader α) 0 where
  takes := by
    intro taken h
    rw [List.eq_nil_of_length_eq_zero h]
    exact ⟨a, .pure a⟩
  short _ h := absurd h (Nat.not_lt_zero _)

theorem Sized.bind {α β : Type} {reader : Reader α} {next : α → Reader β} {n k : Nat}
    (h₁ : Sized reader n) (h₂ : ∀ a, Sized (next a) k) : Sized (reader >>= next) (n + k) where
  takes := by
    intro taken h
    obtain ⟨a, ha⟩ := h₁.takes (taken.take n) (by rw [List.length_take]; omega)
    obtain ⟨b, hb⟩ := (h₂ a).takes (taken.drop n) (by rw [List.length_drop]; omega)
    refine ⟨b, ?_⟩
    rw [← List.take_append_drop n taken]
    exact ha.bind hb
  short := by
    intro given h
    by_cases hn : given.length < n
    · rw [StateT.run_bind, h₁.short given hn]
      rfl
    · obtain ⟨a, ha⟩ := h₁.takes (given.take n) (by rw [List.length_take]; omega)
      rw [StateT.run_bind, ← List.take_append_drop n given, ha]
      exact (h₂ a).short _ (by rw [List.length_drop]; omega)

theorem sized_byte : Sized byte 1 where
  takes := by
    intro taken h
    obtain ⟨b, rfl⟩ := List.length_eq_one_iff.mp h
    exact ⟨b, takes_byte b⟩
  short := by
    intro given h
    rw [List.eq_nil_of_length_eq_zero (Nat.lt_one_iff.mp h)]
    rfl

theorem sized_word : Sized word 2 := sized_byte.bind fun _ => sized_byte.bind fun _ => .pure _

theorem sized_double : Sized double 4 := sized_word.bind fun _ => sized_word.bind fun _ => .pure _

theorem sized_block (n : Nat) : Sized (block n) n where
  takes := by
    intro taken h
    exact ⟨⟨taken.toArray, by simp [h]⟩, takes_block ⟨taken.toArray, by simp [h]⟩⟩
  short := by
    intro given h
    show block n given = _
    rw [block, dif_neg (by omega)]

theorem sized_bools (n : Nat) : Sized (bools n) n := (sized_block n).bind fun _ => .pure _

theorem sized_wordBlock (n : Nat) : Sized (wordBlock n) (2 * n) :=
  (sized_block (2 * n)).bind fun _ => .pure _

theorem sized_wordList (n : Nat) : Sized (wordList n) (2 * n) where
  takes := by
    intro taken h
    refine ⟨words taken, fun rest => ?_⟩
    show wordList n (taken ++ rest) = _
    rw [wordList, if_pos (by rw [List.length_append]; omega), List.take_left' h, List.drop_left' h]
  short := by
    intro given h
    show wordList n given = _
    rw [wordList, if_neg (by omega)]

/-! ## Readers against fields -/

/-- From `start` on, a reader reads these fields of the bytes, the last of which ends at `stop`. -/
def Reads {α : Type} (reader : Reader α) (bytes : List UInt8) (start : Nat) (fields : List Field)
    (stop : Nat) : Prop :=
  start ≤ bytes.length →
    match firstFault? bytes fields with
    | some failure => reader.run (bytes.drop start) = .error failure
    | none =>
      start ≤ stop ∧ stop ≤ bytes.length ∧ ∃ a, Takes reader ((bytes.take stop).drop start) a

section

variable {α β : Type} {bytes : List UInt8} {start mid stop : Nat} {fields more : List Field}

theorem Reads.pure (a : α) : Reads (Pure.pure a) bytes start [] start := by
  intro hstart
  refine ⟨Nat.le_refl _, hstart, a, ?_⟩
  rw [List.drop_eq_nil_of_le (List.length_take_le _ _)]
  exact .pure a

/-- Fields one after another. What follows may depend on the value that was read. -/
theorem Reads.bind {reader : Reader α} {next : α → Reader β}
    (h₁ : Reads reader bytes start fields mid)
    (h₂ : ∀ a, mid ≤ bytes.length → Takes reader ((bytes.take mid).drop start) a →
      Reads (next a) bytes mid more stop) :
    Reads (reader >>= next) bytes start (fields ++ more) stop := by
  intro hstart
  have hfirst := h₁ hstart
  rw [firstFault?_append]
  cases hfields : firstFault? bytes fields with
  | some failure =>
    rw [hfields] at hfirst
    show (reader >>= next).run (bytes.drop start) = .error failure
    rw [StateT.run_bind, hfirst]
    rfl
  | none =>
    rw [hfields] at hfirst
    obtain ⟨hmid, hlength, a, ha⟩ := hfirst
    have hsecond := h₂ a hlength ha hlength
    rw [Option.none_or]
    cases hmore : firstFault? bytes more with
    | some failure =>
      rw [hmore] at hsecond
      show (reader >>= next).run (bytes.drop start) = .error failure
      rw [StateT.run_bind, drop_eq_between_append bytes hmid, ha]
      exact hsecond
    | none =>
      rw [hmore] at hsecond
      obtain ⟨hstop, hend, b, hb⟩ := hsecond
      refine ⟨Nat.le_trans hmid hstop, hend, b, ?_⟩
      rw [← between_append_between hmid hstop]
      exact ha.bind hb

/-- A reader of a fixed number of bytes reads one field without a limit. -/
theorem Sized.reads {reader : Reader α} {size : Nat} (h : Sized reader size) :
    Reads reader bytes start [{ start, size }] (start + size) := by
  intro hstart
  by_cases hsize : bytes.length < start + size
  · have hfault : firstFault? bytes [{ start, size }] = some (.io .shortRead) := by
      simp [firstFault?, Field.fault?, hsize]
    rw [hfault]
    exact h.short _ (by rw [List.length_drop]; omega)
  · have hfault : firstFault? bytes [{ start, size }] = none := by
      simp [firstFault?, Field.fault?, hsize]
    rw [hfault]
    refine ⟨by omega, by omega, h.takes _ ?_⟩
    rw [List.length_drop, List.length_take]
    omega

theorem Reads.free {reader : Reader α} {next : α → Reader β} {size : Nat} (h : Sized reader size)
    (hnext : ∀ a, Reads (next a) bytes (start + size) more stop) :
    Reads (reader >>= next) bytes start ({ start, size } :: more) stop :=
  h.reads.bind fun a _ _ => hnext a

/-- A byte that must stand for a value reads a field that is limited to the bytes which do. -/
theorem Reads.limited {flaw : DumpFlaw} {decode : UInt8 → Option α} {allowed : UInt8 → Bool}
    {next : α → Reader β} (hallowed : ∀ b, (decode b).isSome = allowed b)
    (hnext : ∀ a, Reads (next a) bytes (start + 1) more stop) :
    Reads (byte >>= fun b => require flaw (decode b) >>= next) bytes start
      ({ start, size := 1, limit := some (flaw, allowed) } :: more) stop := by
  suffices h : Reads (byte >>= fun b => require flaw (decode b)) bytes start
      [{ start, size := 1, limit := some (flaw, allowed) }] (start + 1) by
    have hbind := h.bind fun a _ _ => hnext a
    rwa [bind_assoc] at hbind
  intro hstart
  by_cases hlength : start < bytes.length
  · have hdrop := drop_eq_byteAt_cons hlength
    have hbetween : (bytes.take (start + 1)).drop start = [byteAt bytes start] := by
      rw [List.drop_take, hdrop, Nat.add_sub_cancel_left]
      rfl
    have hfault : firstFault? bytes [{ start, size := 1, limit := some (flaw, allowed) }] =
        if (decode (byteAt bytes start)).isSome then none else some (.badDump flaw) := by
      rw [hallowed]
      simp only [firstFault?, List.findSome?_cons, Field.fault?,
        if_neg (by omega : ¬bytes.length < start + 1)]
      split <;> simp_all
    rw [hfault]
    cases hvalue : decode (byteAt bytes start) with
    | none =>
      show (byte >>= fun b => require flaw (decode b)).run (bytes.drop start) = _
      rw [hdrop]
      show (require flaw (decode (byteAt bytes start))).run _ = _
      rw [hvalue]
      rfl
    | some a =>
      refine ⟨by omega, hlength, a, ?_⟩
      rw [hbetween]
      exact (takes_byte _).bind (takes_require flaw hvalue)
  · have hfault : firstFault? bytes [{ start, size := 1, limit := some (flaw, allowed) }] =
        some (.io .shortRead) := by
      simp [firstFault?, Field.fault?, show bytes.length < start + 1 by omega]
    rw [hfault, List.drop_eq_nil_of_le (by omega)]
    rfl

end

/-! ## The fields of a machine -/

/-- The number of breakpoints that a dump announces. -/
def count (bytes : List UInt8) : Nat :=
  256 * (byteAt bytes 12385).toNat + (byteAt bytes 12386).toNat

/-- The bytes that are read of a dump: all fields up to the last breakpoint. -/
def extent (bytes : List UInt8) : Nat := 12387 + 2 * count bytes

/-- The fields of a dump with `n` breakpoints, in the order of the layout. -/
def layout (n : Nat) : List Field :=
  [{ start := 0, size := 4096 },
   { start := 4096, size := 8 },
   { start := 4104, size := 16 },
   { start := 4120, size := 1, limit := some (.stackPointer, (·.toNat ≤ 16)) },
   { start := 4121, size := 1 },
   { start := 4122, size := 1 },
   { start := 4123, size := 32 },
   { start := 4155, size := 2 },
   { start := 4157, size := 2 },
   { start := 4159, size := 16 },
   { start := 4175, size := 1, limit := some (.keyWait, fun b => b.toNat < 16 ∨ b = 0xFF) },
   { start := 4176, size := 1 },
   { start := 4177, size := 8192 },
   { start := 12369, size := 1, limit := some (.displayMode, (·.toNat ≤ 1)) },
   { start := 12370, size := 1 },
   { start := 12371, size := 1 },
   { start := 12372, size := 1 },
   { start := 12373, size := 1, limit := some (.dialect, (·.toNat ≤ 2)) },
   { start := 12374, size := 1 },
   { start := 12375, size := 1, limit := some (.smallFont, (·.toNat ≤ 1)) },
   { start := 12376, size := 1, limit := some (.bigFont, (·.toNat = 0)) },
   { start := 12377, size := 4 },
   { start := 12381, size := 4 },
   { start := 12385, size := 2 },
   { start := 12387, size := 2 * n }]

/-- Bytes that are a dump, whatever follows their last breakpoint. -/
structure IsDump (bytes : List UInt8) : Prop where
  length : extent bytes ≤ bytes.length
  depth : (byteAt bytes 4120).toNat ≤ 16
  awaiting : (byteAt bytes 4175).toNat < 16 ∨ byteAt bytes 4175 = 0xFF
  resolution : (byteAt bytes 12369).toNat ≤ 1
  dialect : (byteAt bytes 12373).toNat ≤ 2
  small : (byteAt bytes 12375).toNat ≤ 1
  big : (byteAt bytes 12376).toNat = 0

/-- A dump is what has no fault in any field. -/
theorem firstFault?_layout {bytes : List UInt8} :
    firstFault? bytes (layout (count bytes)) = none ↔ IsDump bytes := by
  simp only [firstFault?_eq_none_iff, layout, List.forall_mem_cons, List.not_mem_nil,
    Field.fault?_free, Field.fault?_limited, decide_eq_true_eq, false_implies, implies_true]
  constructor
  · rintro ⟨-, -, -, ⟨-, hdepth⟩, -, -, -, -, -, -, ⟨-, hawaiting⟩, -, -, ⟨-, hresolution⟩, -, -, -,
      ⟨-, hdialect⟩, -, ⟨-, hsmall⟩, ⟨-, hbig⟩, -, -, -, hlength, -⟩
    exact ⟨hlength, hdepth, hawaiting, hresolution, hdialect, hsmall, hbig⟩
  · rintro ⟨hlength, hdepth, hawaiting, hresolution, hdialect, hsmall, hbig⟩
    rw [extent] at hlength
    simp only [hdepth, hawaiting, hresolution, hdialect, hsmall, hbig, and_true]
    omega

instance (bytes : List UInt8) : Decidable (IsDump bytes) :=
  decidable_of_iff _ firstFault?_layout

/-! ## Which bytes stand for a value -/

theorem isSome_depth? (b : UInt8) : (depth? b).isSome = decide (b.toNat ≤ 16) := by
  rw [depth?]
  split <;> simp <;> omega

theorem isSome_awaiting? (b : UInt8) :
    (awaiting? b).isSome = decide (b.toNat < 16 ∨ b = 0xFF) := by
  rw [awaiting?]
  by_cases hnone : b = noAwaiting
  · rw [if_pos hnone]
    exact (decide_eq_true (.inr hnone)).symm
  · have hnot : ¬b = 0xFF := hnone
    rw [if_neg hnone]
    by_cases hlt : b.toNat < 16 <;> simp [hlt, hnot]

theorem isSome_resolution? (b : UInt8) :
    (resolution? b).isSome = decide (b.toNat ≤ 1) := by
  rw [resolution?]
  by_cases hzero : b = 0
  · simp [hzero]
  · by_cases hone : b = 1
    · simp [hone]
    · rw [if_neg hzero, if_neg hone]
      simp only [← UInt8.toNat_inj, UInt8.toNat_zero, UInt8.toNat_one] at hzero hone
      simp
      omega

theorem isSome_ofRank? (b : UInt8) :
    (Dialect.ofRank? b.toNat).isSome = decide (b.toNat ≤ 2) := by
  match b.toNat with
  | 0 | 1 | 2 => rfl
  | n + 3 => simp [Dialect.ofRank?]

theorem isSome_smallNumber? (b : UInt8) :
    (Font.ofNumber? .small b.toNat).isSome = decide (b.toNat ≤ 1) := by
  match b.toNat with
  | 0 | 1 => rfl
  | n + 2 => simp [Font.ofNumber?, GlyphSize.names, GlyphSize.table, GlyphSize.others]

theorem isSome_bigNumber? (b : UInt8) :
    (Font.ofNumber? .big b.toNat).isSome = decide (b.toNat = 0) := by
  match b.toNat with
  | 0 => rfl
  | n + 1 => simp [Font.ofNumber?, GlyphSize.names, GlyphSize.table, GlyphSize.others]

/-! ## The whole machine -/

theorem reads_raster (bytes : List UInt8) :
    Reads raster bytes 4177
      [{ start := 4177, size := 8192 },
       { start := 12369, size := 1, limit := some (.displayMode, (·.toNat ≤ 1)) },
       { start := 12370, size := 1 }, { start := 12371, size := 1 }] 12372 := by
  refine .free (sized_bools 8192) fun cells => .limited isSome_resolution? fun resolution => ?_
  exact .free sized_byte fun left => .free sized_byte fun top => .pure _

/-- The two bytes of a word are its value. -/
theorem toNat_of_takes_word {bytes : List UInt8} {start : Nat} {w : UInt16}
    (hlength : start + 2 ≤ bytes.length)
    (h : Takes word ((bytes.take (start + 2)).drop start) w) :
    w.toNat = 256 * (byteAt bytes start).toNat + (byteAt bytes (start + 1)).toNat := by
  have hbetween : (bytes.take (start + 2)).drop start =
      [byteAt bytes start, byteAt bytes (start + 1)] := by
    rw [List.drop_take, drop_eq_byteAt_cons (by omega), drop_eq_byteAt_cons (by omega),
      Nat.add_sub_cancel_left]
    rfl
  rw [hbetween] at h
  have hjoin : joinBytes (byteAt bytes start) (byteAt bytes (start + 1)) = w :=
    congrArg Prod.fst (Except.ok.inj (h []))
  rw [← hjoin, toNat_joinBytes]

theorem reads_breakpoints (bytes : List UInt8) :
    Reads breakpoints bytes 12385
      [{ start := 12385, size := 2 }, { start := 12387, size := 2 * count bytes }]
      (extent bytes) := by
  -- The next field is as long as this word says, so here its value counts.
  refine Reads.bind sized_word.reads fun announced hlength htakes => ?_
  have hcount : announced.toNat = count bytes := toNat_of_takes_word hlength htakes
  rw [hcount]
  exact .free (sized_wordList (count bytes)) fun ws => .pure _

/-- A machine is read field by field along the layout. -/
theorem reads_machine (noise : Noise) (bytes : List UInt8) :
    Reads (machine noise) bytes 0 (layout (count bytes)) (extent bytes) := by
  refine .free (sized_block 4096) fun memory => .free (sized_block 8) fun flags => ?_
  refine .free (sized_block 16) fun v => .limited isSome_depth? fun depth => ?_
  refine .free sized_byte fun delay => .free sized_byte fun sound => ?_
  refine .free (sized_wordBlock 16) fun stack => .free sized_word fun pc => ?_
  refine .free sized_word fun index => .free (sized_bools 16) fun keys => ?_
  refine .limited isSome_awaiting? fun awaiting => .free sized_byte fun running => ?_
  refine (reads_raster bytes).bind fun screen _ _ => .free sized_byte fun switches => ?_
  refine .limited isSome_ofRank? fun dialect => .free sized_byte fun _ => ?_
  refine .limited isSome_smallNumber? fun small => .limited isSome_bigNumber? fun big => ?_
  refine .free sized_double fun background => .free sized_double fun foreground => ?_
  exact (reads_breakpoints bytes).bind fun breakpoints _ _ => .pure _

/-- A machine is taken off exactly the bytes of the dump, or reading fails with the first fault. -/
theorem run_machine (noise : Noise) (bytes : List UInt8) :
    (∃ failure, firstFault? bytes (layout (count bytes)) = some failure ∧
      (machine noise).run bytes = .error failure) ∨
    (IsDump bytes ∧ ∃ m, Takes (machine noise) (bytes.take (extent bytes)) m) := by
  have hreads := reads_machine noise bytes (Nat.zero_le _)
  cases hfault : firstFault? bytes (layout (count bytes)) with
  | some failure =>
    rw [hfault] at hreads
    exact .inl ⟨failure, rfl, hreads⟩
  | none =>
    rw [hfault] at hreads
    obtain ⟨-, -, m, hm⟩ := hreads
    exact .inr ⟨firstFault?_layout.mp hfault, m, hm⟩

end Dump

namespace Machine

open Dump

theorem restore_of_takes {m next : Machine} {bytes : List UInt8} {n : Nat}
    (h : Takes (Dump.machine m.noise) (bytes.take n) next) : m.restore bytes = .ok next := by
  have hrun := h (bytes.drop n)
  rw [List.take_append_drop] at hrun
  rw [restore, hrun]
  rfl

/-- What is no dump is refused with the first fault along the layout. -/
theorem restore_of_not_isDump (m : Machine) {bytes : List UInt8} (h : ¬IsDump bytes) :
    ∃ failure, firstFault? bytes (layout (count bytes)) = some failure ∧
      m.restore bytes = .error failure := by
  obtain ⟨failure, hfault, hrun⟩ | ⟨hdump, -⟩ := run_machine m.noise bytes
  · refine ⟨failure, hfault, ?_⟩
    rw [restore, hrun]
    rfl
  · exact absurd hdump h

/-- The bytes of a dump are taken off whatever follows them. -/
theorem takes_of_isDump (m : Machine) {bytes : List UInt8} (h : IsDump bytes) :
    ∃ next, Takes (Dump.machine m.noise) (bytes.take (extent bytes)) next := by
  obtain ⟨failure, hfault, -⟩ | ⟨-, htakes⟩ := run_machine m.noise bytes
  · rw [firstFault?_layout.mpr h] at hfault
    cases hfault
  · exact htakes

/-- Restoring succeeds on a dump and on nothing else. -/
theorem exists_restore_iff (m : Machine) (bytes : List UInt8) :
    (∃ next, m.restore bytes = .ok next) ↔ IsDump bytes := by
  constructor
  · rintro ⟨next, hok⟩
    refine Classical.byContradiction fun hnot => ?_
    obtain ⟨failure, -, herror⟩ := m.restore_of_not_isDump hnot
    rw [herror] at hok
    cases hok
  · intro hdump
    obtain ⟨next, hnext⟩ := m.takes_of_isDump hdump
    exact ⟨next, restore_of_takes hnext⟩

/-- Restoring succeeds on a dump and on nothing else. The machine that it gives depends on the
bytes of the dump and on the random bytes of the machine that restores it, and on nothing else.
Otherwise it fails with the first fault along the layout, and the machine stays as it was. -/
theorem restore_along_layout (m : Machine) (bytes : List UInt8) :
    ((∃ next, m.restore bytes = .ok next) ↔ IsDump bytes) ∧
    (IsDump bytes → ∀ (t : Machine) (others : List UInt8), t.noise = m.noise →
      others.take (extent bytes) = bytes.take (extent bytes) →
      t.restore others = m.restore bytes) ∧
    (¬IsDump bytes → ∃ failure, firstFault? bytes (layout (count bytes)) = some failure ∧
      m.restore bytes = .error failure ∧ m.serve (.restore bytes) = m) := by
  refine ⟨m.exists_restore_iff bytes, fun hdump t others hnoise htake => ?_, fun hnot => ?_⟩
  · -- What follows the bytes of a dump does not matter.
    obtain ⟨next, hnext⟩ := m.takes_of_isDump hdump
    have hok : m.restore bytes = .ok next := restore_of_takes hnext
    rw [← hnoise, ← htake] at hnext
    rw [hok, restore_of_takes hnext]
  · obtain ⟨failure, hfault, herror⟩ := m.restore_of_not_isDump hnot
    refine ⟨failure, hfault, herror, ?_⟩
    show m.orKeep (m.restore bytes) = m
    rw [herror]
    rfl

/-- A dump that is both cut short and out of range fails with what comes first in the layout. -/
theorem firstFault?_of_depth {bytes : List UInt8} (hlength : bytes.length = 4121)
    (hdepth : 16 < (byteAt bytes 4120).toNat) :
    firstFault? bytes (layout (count bytes)) = some (.badDump .stackPointer) := by
  simp [firstFault?, layout, Field.fault?, hlength, show ¬(byteAt bytes 4120).toNat ≤ 16 by omega]

/-- A dump with a byte behind it, and bytes that end behind a depth of 17. -/
theorem restore_along_layout_instances :
    let cut := List.replicate 4120 0 ++ [17]
    (IsDump (ofSeed 7).dump ∧
      (ofSeed 1).restore ((ofSeed 7).dump ++ [0x12]) = (ofSeed 1).restore (ofSeed 7).dump) ∧
    ¬IsDump cut ∧ (ofSeed 1).restore cut = .error (.badDump .stackPointer) ∧
      (ofSeed 1).serve (.restore cut) = ofSeed 1 := by
  intro cut
  have hdump : IsDump (ofSeed 7).dump :=
    (restore_along_layout (ofSeed 1) (ofSeed 7).dump).1.mp
      ⟨_, restore_whole_dump (ofSeed 7) (ofSeed 1) (by decide)⟩
  have hlength : cut.length = 4121 := by
    rw [List.length_append, List.length_replicate]
    rfl
  have hdepth : byteAt cut 4120 = 17 := by
    have hlast := byteAt_length (List.replicate 4120 0) 17 []
    rwa [List.length_replicate] at hlast
  have hfirst := firstFault?_of_depth hlength (by rw [hdepth]; decide)
  have hcut : ¬IsDump cut := by
    intro h
    rw [firstFault?_layout.mpr h] at hfirst
    cases hfirst
  refine ⟨⟨hdump, ?_⟩, hcut, ?_⟩
  · refine (restore_along_layout (ofSeed 1) (ofSeed 7).dump).2.1 hdump (ofSeed 1) _ rfl ?_
    exact List.take_append_of_le_length hdump.length
  · obtain ⟨failure, hfault, herror, hkept⟩ := (restore_along_layout (ofSeed 1) cut).2.2 hcut
    rw [hfirst] at hfault
    cases hfault
    exact ⟨herror, hkept⟩

end Machine
end ChipEight
