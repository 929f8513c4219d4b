import ChipEight.Proofs.Machine.DumpFields

/-!
# Which bytes are written

A machine can be read off many byte strings but is written as one of them. The fields of a machine
are known from the bytes it was restored from, so its dump is compared with these bytes field by
field (`dump_eq_iff`): most fields are written as they were read, and each of the others asks for
one condition on its bytes. Together these conditions are `IsCanonical`.

The number of breakpoints stands in front of them, so bytes with a breakpoint given twice have
another count than the dump, which is shorter then.
-/

namespace ChipEight

/-! ## Lists of addresses -/

namespace AddressSet

theorem size_insert_le (s : AddressSet) (a : UInt16) : (s.insert a).size ≤ s.size + 1 := by
  show (place a s.toList).length ≤ s.toList.length + 1
  induction s.toList with
  | nil => exact Nat.le_refl 1
  | cons b rest ih =>
    unfold place
    split
    · exact Nat.le_refl _
    · split
      · exact Nat.le_succ _
      · exact Nat.succ_le_succ ih

/-- A list has at least as many elements as the set of them. -/
theorem size_ofList_le (l : List UInt16) : (ofList l).size ≤ l.length := by
  induction l with
  | nil => exact Nat.le_refl 0
  | cons a rest ih => exact Nat.le_trans (size_insert_le _ a) (Nat.succ_le_succ ih)

/-- The members of a set are written as the list they come from if this is in order. -/
theorem toList_ofList_eq_iff {l : List UInt16} : (ofList l).toList = l ↔ l.Pairwise (· < ·) :=
  ⟨fun h => h ▸ (ofList l).ascending, fun h => congrArg toList (ofList_toList ⟨l, h⟩)⟩

end AddressSet

/-! ## Switches in a byte -/

theorem Switches.bits_ofBits (n : Nat) : (Switches.ofBits n).bits = n % 32 := by
  simp only [ofBits, bits, Nat.toNat_testBit]
  omega

namespace Dump

/-! ## Canonical bytes -/

/-- Bytes as a dump has them: of all the bytes that a machine is restored from, those that say it in
the one way in which it is written. -/
structure IsCanonical (bytes : List UInt8) : Prop where
  keys : ∀ b ∈ piece bytes 4159 16, b.toNat ≤ 1
  running : (byteAt bytes 4176).toNat ≤ 1
  cells : ∀ b ∈ piece bytes 4177 8192, b.toNat ≤ 1
  left : (byteAt bytes 12370).toNat < 128
  top : (byteAt bytes 12371).toNat < 64
  switches : (byteAt bytes 12372).toNat < 32
  redraw : byteAt bytes 12374 = 1
  breakpoints : (addresses bytes).Pairwise (· < ·)
  length : bytes.length = extent bytes

/-! ## Fields that are written as they were read, or not -/

section

variable {bytes rest written : List UInt8} {start size : Nat} {b : UInt8}

theorem append_eq_drop_iff (h : written = piece bytes start size) :
    written ++ rest = bytes.drop start ↔ rest = bytes.drop (start + size) := by
  rw [h, ← piece_append_drop bytes start size, List.append_right_inj]

theorem append_eq_drop_iff_and (hstop : start + size ≤ bytes.length)
    (hlength : written.length = size) :
    written ++ rest = bytes.drop start ↔
      written = piece bytes start size ∧ rest = bytes.drop (start + size) := by
  rw [← piece_append_drop bytes start size]
  constructor
  · intro h
    exact List.append_inj h (hlength.trans (length_piece hstop).symm)
  · rintro ⟨rfl, rfl⟩
    rfl

theorem cons_eq_drop_iff (hstart : start < bytes.length) :
    b :: rest = bytes.drop start ↔ b = byteAt bytes start ∧ rest = bytes.drop (start + 1) := by
  rw [drop_eq_byteAt_cons hstart, List.cons.injEq]

theorem ofBool_ne_zero_eq_iff : ofBool (b != 0) = b ↔ b.toNat ≤ 1 := by
  by_cases hzero : b = 0
  · subst hzero
    decide
  · rw [bne_iff_ne.mpr hzero, ← UInt8.toNat_inj]
    rw [← UInt8.toNat_inj] at hzero
    show 1 = b.toNat ↔ _
    change b.toNat ≠ 0 at hzero
    omega

/-- Truth values are written as they were read if every byte was 0 or 1. -/
theorem map_ofBool_eq_iff {bools : List Bool} (h : bools = written.map (· != 0)) :
    bools.map ofBool = written ↔ ∀ b ∈ written, b.toNat ≤ 1 := by
  have hsame : bools.map ofBool = written ↔
      written.map (ofBool ∘ (· != 0)) = written.map id := by
    rw [h, List.map_map, List.map_id]
  rw [hsame, List.map_inj_left]
  exact forall₂_congr fun b _ => ofBool_ne_zero_eq_iff

theorem ofNat_mod_eq_iff {n : Nat} (h : 0 < n) (hn : n ≤ 256) :
    UInt8.ofNat (b.toNat % n) = b ↔ b.toNat < n := by
  have hlt := Nat.mod_lt b.toNat h
  rw [← UInt8.toNat_inj, UInt8.toNat_ofNat_of_lt' (Nat.lt_of_lt_of_le hlt hn)]
  exact Nat.mod_eq_iff_lt (Nat.ne_of_gt h)

end

/-! ## Groups of fields -/

section

variable {bytes rest : List UInt8} {m : Machine}

/-- A screen is written as it was read if its truth values are, and its window lies on the cells. -/
theorem ofRaster_append_eq_iff {s : Raster} (h : DescribesScreen bytes s)
    (hlength : 12372 ≤ bytes.length) :
    ofRaster s ++ rest = bytes.drop 4177 ↔
      (∀ b ∈ piece bytes 4177 8192, b.toNat ≤ 1) ∧ (byteAt bytes 12370).toNat < 128 ∧
        (byteAt bytes 12371).toNat < 64 ∧ rest = bytes.drop 12372 := by
  have hcells : (s.cells.toList.map ofBool).length = 8192 := by simp
  rw [ofRaster, List.append_assoc, append_eq_drop_iff_and (by omega) hcells,
    map_ofBool_eq_iff h.cells]
  refine and_congr_right' ?_
  refine (cons_eq_drop_iff (by omega)).trans ((and_iff_right h.resolution).trans ?_)
  refine (cons_eq_drop_iff (by omega)).trans (and_congr ?_ ?_)
  · rw [h.left]
    exact ofNat_mod_eq_iff (by decide) (by decide)
  · refine (cons_eq_drop_iff (by omega)).trans (and_congr_left' ?_)
    rw [h.top]
    exact ofNat_mod_eq_iff (by decide) (by decide)

theorem length_addresses (h : extent bytes ≤ bytes.length) :
    (addresses bytes).length = count bytes := by
  rw [extent] at h
  rw [addresses, length_words, length_piece h]
  omega

/-- Breakpoints are written as they were read if they ascend and nothing follows them. -/
theorem ofBreakpoints_eq_iff (h : extent bytes ≤ bytes.length) :
    ofBreakpoints (AddressSet.ofList (addresses bytes)) = bytes.drop 12385 ↔
      (addresses bytes).Pairwise (· < ·) ∧ bytes.length = extent bytes := by
  have hcount := length_addresses h
  have hpiece : (addresses bytes).flatMap splitWord = piece bytes 12387 (2 * count bytes) :=
    flatMap_splitWord_words_of_even (length_piece h)
  have hlast : (bytes.drop 12387).length = 2 * count bytes →
      piece bytes 12387 (2 * count bytes) = bytes.drop 12387 := fun hlength =>
    List.take_of_length_le (Nat.le_of_eq hlength)
  rw [extent] at h ⊢
  have hword (w : UInt16) : (splitWord w).length = 2 := rfl
  rw [ofBreakpoints, append_eq_drop_iff_and (by omega) (hword _)]
  constructor
  · rintro ⟨-, hwritten⟩
    -- No more breakpoints are written than were read, and no fewer than there are bytes.
    have hsize := AddressSet.size_ofList_le (addresses bytes)
    have hlength := congrArg List.length hwritten
    rw [length_flatMap_splitWord, List.length_drop] at hlength
    change 2 * (AddressSet.ofList (addresses bytes)).size = _ at hlength
    have hrest : (bytes.drop 12387).length = 2 * count bytes := by
      rw [List.length_drop]
      omega
    rw [← hlast hrest, ← hpiece] at hwritten
    have hsame := congrArg words hwritten
    rw [words_flatMap_splitWord, words_flatMap_splitWord] at hsame
    exact ⟨AddressSet.toList_ofList_eq_iff.mp hsame, by omega⟩
  · rintro ⟨hascending, hlength⟩
    have hsame := AddressSet.toList_ofList_eq_iff.mpr hascending
    have hrest : (bytes.drop 12387).length = 2 * count bytes := by
      rw [List.length_drop]
      omega
    have hannounced : piece bytes 12385 2 = [byteAt bytes 12385, byteAt bytes 12386] := by
      rw [piece, drop_eq_byteAt_cons (by omega), drop_eq_byteAt_cons (by omega)]
      rfl
    rw [AddressSet.size, hsame, hcount, hpiece, hlast hrest, hannounced]
    exact ⟨splitWord_joinBytes _ _, rfl⟩

/-- Settings are written as they were read if the bytes have no switches but the five, say that the
screen is to be drawn, and have the breakpoints in order at their end. -/
theorem settings_eq_iff (h : Describes bytes m) (hlength : extent bytes ≤ bytes.length) :
    UInt8.ofNat m.switches.bits :: (UInt8.ofNat m.dialect.rank :: (ofBool m.redraw ::
      (UInt8.ofNat m.fonts.small.number :: (UInt8.ofNat m.fonts.big.number ::
      (ofDouble m.palette.background ++ (ofDouble m.palette.foreground ++
      ofBreakpoints m.breakpoints)))))) = bytes.drop 12372 ↔
    (byteAt bytes 12372).toNat < 32 ∧ byteAt bytes 12374 = 1 ∧
      (addresses bytes).Pairwise (· < ·) ∧ bytes.length = extent bytes := by
  have hfixed : 12387 ≤ bytes.length := Nat.le_trans (Nat.le_add_right _ _) hlength
  have hswitches : UInt8.ofNat m.switches.bits = byteAt bytes 12372 ↔
      (byteAt bytes 12372).toNat < 32 := by
    rw [h.switches, Switches.bits_ofBits]
    exact ofNat_mod_eq_iff (by decide) (by decide)
  have hdialect : UInt8.ofNat m.dialect.rank = byteAt bytes 12373 := by
    rw [h.dialect, UInt8.ofNat_toNat]
  have hredraw : ofBool m.redraw = byteAt bytes 12374 ↔ byteAt bytes 12374 = 1 := by
    rw [h.redraw, eq_comm]
    rfl
  have hsmall : UInt8.ofNat m.fonts.small.number = byteAt bytes 12375 := by
    rw [Font.number_of_ofNumber? h.small, UInt8.ofNat_toNat]
  have hbig : UInt8.ofNat m.fonts.big.number = byteAt bytes 12376 := by
    rw [Font.number_of_ofNumber? h.big, UInt8.ofNat_toNat]
  refine (cons_eq_drop_iff (by omega)).trans (and_congr hswitches ?_)
  refine (cons_eq_drop_iff (by omega)).trans ((and_iff_right hdialect).trans ?_)
  refine (cons_eq_drop_iff (by omega)).trans (and_congr hredraw ?_)
  refine (cons_eq_drop_iff (by omega)).trans ((and_iff_right hsmall).trans ?_)
  refine (cons_eq_drop_iff (by omega)).trans ((and_iff_right hbig).trans ?_)
  refine (append_eq_drop_iff h.background).trans ((append_eq_drop_iff h.foreground).trans ?_)
  rw [h.breakpoints]
  exact ofBreakpoints_eq_iff hlength

/-- The bytes of a machine are those that it was read off exactly if these are canonical. -/
theorem dump_eq_iff (h : Describes bytes m) (hlength : extent bytes ≤ bytes.length) :
    m.dump = bytes ↔ IsCanonical bytes := by
  have hfixed : 12387 ≤ bytes.length := Nat.le_trans (Nat.le_add_right _ _) hlength
  have hstart : m.dump = bytes ↔ m.dump = bytes.drop 0 := Iff.rfl
  have hkeys : (m.keys.toList.map ofBool).length = 16 := by simp
  have hrunning : ofBool m.running = byteAt bytes 4176 ↔ (byteAt bytes 4176).toNat ≤ 1 := by
    rw [h.running]
    exact ofBool_ne_zero_eq_iff
  have hfields : m.dump = bytes ↔ (∀ b ∈ piece bytes 4159 16, b.toNat ≤ 1) ∧
      (byteAt bytes 4176).toNat ≤ 1 ∧ (∀ b ∈ piece bytes 4177 8192, b.toNat ≤ 1) ∧
      (byteAt bytes 12370).toNat < 128 ∧ (byteAt bytes 12371).toNat < 64 ∧
      (byteAt bytes 12372).toNat < 32 ∧ byteAt bytes 12374 = 1 ∧
      (addresses bytes).Pairwise (· < ·) ∧ bytes.length = extent bytes := by
    rw [hstart, m.dump_eq]
    -- Field by field: what is written as it was read, and what asks for a condition.
    refine (append_eq_drop_iff h.ram).trans ?_
    refine (append_eq_drop_iff h.flags).trans ((append_eq_drop_iff h.v).trans ?_)
    refine (cons_eq_drop_iff (by omega)).trans ((and_iff_right h.depth).trans ?_)
    refine (cons_eq_drop_iff (by omega)).trans ((and_iff_right h.delay).trans ?_)
    refine (cons_eq_drop_iff (by omega)).trans ((and_iff_right h.sound).trans ?_)
    refine (append_eq_drop_iff h.stack).trans ?_
    refine (append_eq_drop_iff h.pc).trans ((append_eq_drop_iff h.index).trans ?_)
    refine (append_eq_drop_iff_and (by omega) hkeys).trans
      (and_congr (map_ofBool_eq_iff h.keys) ?_)
    refine (cons_eq_drop_iff (by omega)).trans ((and_iff_right h.awaiting).trans ?_)
    refine (cons_eq_drop_iff (by omega)).trans (and_congr hrunning ?_)
    refine (ofRaster_append_eq_iff h.screen (by omega)).trans ?_
    rw [settings_eq_iff h hlength]
  rw [hfields]
  constructor
  · rintro ⟨keys, running, cells, left, top, switches, redraw, breakpoints, length⟩
    exact { keys, running, cells, left, top, switches, redraw, breakpoints, length }
  · intro c
    exact ⟨c.keys, c.running, c.cells, c.left, c.top, c.switches, c.redraw, c.breakpoints, c.length⟩

end

end Dump

namespace Machine

open Dump

/-- A restored machine has a dump that gives it back, but for the random bytes, and then stays the
same. That dump is what the machine was restored from exactly if this was canonical. -/
theorem dump_of_restored {m next : Machine} {bytes : List UInt8}
    (h : m.restore bytes = .ok next) :
    (∀ t : Machine, t.restore next.dump = .ok { next with noise := t.noise } ∧
      ({ next with noise := t.noise } : Machine).dump = next.dump) ∧
    (next.dump = bytes ↔ IsCanonical bytes) := by
  have hdescribes := (describes_of_restore h).1
  have hlength : extent bytes ≤ bytes.length :=
    ((m.exists_restore_iff bytes).mp ⟨next, h⟩).length
  -- The count of breakpoints has sixteen bits, and there are no more of them than that.
  have hsize : next.breakpoints.size ≤ 65535 := by
    have hcount : count bytes ≤ 65535 := by
      have hhigh := (byteAt bytes 12385).toNat_lt
      have hlow := (byteAt bytes 12386).toNat_lt
      rw [count]
      omega
    rw [hdescribes.breakpoints]
    refine Nat.le_trans (AddressSet.size_ofList_le _) ?_
    rwa [length_addresses hlength]
  have hfonts : next.fonts.listed = next.fonts := Fonts.listed_eq_self_iff.mpr hdescribes.isListed
  refine ⟨fun t => ⟨?_, rfl⟩, dump_eq_iff hdescribes hlength⟩
  rw [next.restore_whole_dump t hsize, hfonts, ← hdescribes.redraw]

/-- A dump with two breakpoints is canonical, but no longer with a byte behind it. -/
theorem dump_of_restored_breakpoints :
    let m := { ((ofSeed 7).addBreakpoint 0x204).addBreakpoint 0x200 with redraw := true }
    (m.restore m.dump = .ok m ∧ IsCanonical m.dump) ∧
      m.restore (m.dump ++ [0x12]) = .ok m ∧ ¬IsCanonical (m.dump ++ [0x12]) := by
  intro m
  have hplain : m.restore m.dump = .ok m := m.restore_whole_dump m (by decide)
  have hlonger : m.restore (m.dump ++ [0x12]) = .ok m := m.restore_dump_append m [0x12] (by decide)
  refine ⟨⟨hplain, (dump_of_restored hplain).2.mp rfl⟩, hlonger, fun hcanonical => ?_⟩
  have hsame := (dump_of_restored hlonger).2.mpr hcanonical
  have hlength := congrArg List.length hsame
  rw [List.length_append] at hlength
  exact absurd hlength (Nat.ne_of_lt (Nat.lt_succ_self _))

end Machine
end ChipEight
