import Mathlib.Algebra.GroupWithZero.Nat
import Mathlib.Data.List.Induction
import Mathlib.Data.List.Infix
import ChipEight.Proofs.Machine.Requests
import ChipEight.Proofs.Machine.Transfers

/-!
# Chained transfers

With the switch on, a transfer of the registers below one moves the index register by one more than
it has bytes. So transfers one after another do not join: behind each block there is a byte that is
neither written nor read, and the next block starts behind that one. Stores and loads move alike, so
a row of loads visits the blocks of the row of stores.
-/

namespace ChipEight

/-! ## Places of blocks -/

/-- A block from an offset on, as far as memory goes, has the cells with its offsets. -/
theorem within_add_iff {a : UInt16} {place offset count : Nat} {i : Fin 4096}
    (hi : i.val = (a.toNat + place) % 4096) (hplace : place < 4096)
    (hfits : offset + count ≤ 4096) :
    Within (a + UInt16.ofNat offset) count i ↔ offset ≤ place ∧ place < offset + count := by
  have hstart : (a + UInt16.ofNat offset).toNat = (a.toNat + offset % 65536) % 65536 := by
    rw [UInt16.toNat_add, UInt16.toNat_ofNat']
  constructor
  · rintro ⟨n, hn, hcell⟩
    omega
  · rintro ⟨hle, hlt⟩
    exact ⟨place - offset, by omega, by omega⟩

/-- How far transfers one after another move the index register. -/
def stride (xs : List (Fin 16)) : Nat := (xs.map fun x => x.val + 1).sum

theorem stride_append (xs ys : List (Fin 16)) : stride (xs ++ ys) = stride xs + stride ys := by
  rw [stride, List.map_append, List.sum_append]
  rfl

theorem stride_concat (xs : List (Fin 16)) (x : Fin 16) :
    stride (xs ++ [x]) = stride xs + (x.val + 1) := by
  rw [stride_append]
  rfl

theorem stride_mono {xs ys : List (Fin 16)} (h : xs <+: ys) : stride xs ≤ stride ys := by
  obtain ⟨later, rfl⟩ := h
  rw [stride_append]
  exact Nat.le_add_right _ _

/-- Of two transfers of a row, one comes behind the other and the byte after it. -/
theorem stride_apart {xs earlier before : List (Fin 16)} {x y : Fin 16}
    (hx : earlier ++ [x] <+: xs) (hy : before ++ [y] <+: xs) :
    before = earlier ∧ y = x ∨ stride before + (y.val + 1) ≤ stride earlier ∨
      stride earlier + (x.val + 1) ≤ stride before := by
  have hearlier := (List.prefix_append earlier [x]).trans hx
  have hbefore := (List.prefix_append before [y]).trans hy
  rcases Nat.lt_trichotomy before.length earlier.length with hlt | heq | hgt
  · have hprefix : before ++ [y] <+: earlier := by
      refine List.prefix_of_prefix_length_le hy hearlier ?_
      rwa [List.length_append]
    rw [← stride_concat before]
    exact .inr (.inl (stride_mono hprefix))
  · refine .inl ?_
    have hsame : before ++ [y] = earlier ++ [x] :=
      (List.prefix_of_prefix_length_le hy hx (by simp [heq])).eq_of_length (by simp [heq])
    obtain ⟨rfl, hlast⟩ := List.append_inj hsame heq
    exact ⟨rfl, List.singleton_inj.mp hlast⟩
  · have hprefix : earlier ++ [x] <+: before := by
      refine List.prefix_of_prefix_length_le hx hbefore ?_
      rwa [List.length_append]
    rw [← stride_concat earlier]
    exact .inr (.inr (stride_mono hprefix))

/-! ## Transfers -/

/-- The registers below one are stored or loaded. -/
inductive Transfer
  | store
  | load

/-- The word of a transfer. -/
def Transfer.word (x : Fin 16) : Transfer → UInt16
  | store => UInt16.ofNat (0xF055 + 256 * x.val)
  | load => UInt16.ofNat (0xF065 + 256 * x.val)

theorem Transfer.word_store (x : Fin 16) : store.word x = ofDigits 0xF x 5 5 := by
  revert x
  decide

theorem Transfer.word_load (x : Fin 16) : load.word x = ofDigits 0xF x 6 5 := by
  revert x
  decide

namespace Machine

/-- The machine whose registers below one, or the memory for them, are transferred. -/
def transfer (m : Machine) (x : Fin 16) : Transfer → Machine
  | .store => m.storeList (registersBelow x)
  | .load => m.loadBelow x

/-- The machine after transfers, one after another. -/
def transferAll (m : Machine) (t : Transfer) (xs : List (Fin 16)) : Machine :=
  m.serveAll (xs.map fun x => .execute (t.word x))

/-- Where the index register is after transfers. -/
def indexAfter (m : Machine) (xs : List (Fin 16)) : UInt16 := m.index + UInt16.ofNat (stride xs)

theorem indexAfter_concat (m : Machine) (xs : List (Fin 16)) (x : Fin 16) :
    m.indexAfter (xs ++ [x]) = m.indexAfter xs + UInt16.ofNat x.val + 1 := by
  rw [indexAfter, indexAfter, stride_concat, UInt16.ofNat_add, UInt16.ofNat_add, UInt16.add_assoc,
    UInt16.add_assoc]
  rfl

variable {m : Machine}

theorem execute_transfer (m : Machine) (t : Transfer) (x : Fin 16) :
    m.execute (t.word x) = .ok (.next, (m.transfer x t).moveIndex x) := by
  cases t with
  | store =>
    rw [Transfer.word_store, execute_storeRegisters]
    rfl
  | load =>
    rw [Transfer.word_load, execute_loadRegisters]
    rfl

theorem transferAll_concat (m : Machine) (t : Transfer) (xs : List (Fin 16)) (x : Fin 16) :
    m.transferAll t (xs ++ [x]) = ((m.transferAll t xs).transfer x t).moveIndex x := by
  rw [transferAll, List.map_append, List.map_singleton, serveAll_concat, serve, execute_transfer]
  rfl

theorem switches_moveIndex (m : Machine) (x : Fin 16) :
    (m.moveIndex x).switches = m.switches := by
  unfold moveIndex
  split <;> rfl

theorem switches_transfer (m : Machine) (x : Fin 16) (t : Transfer) :
    (m.transfer x t).switches = m.switches := by
  cases t with
  | store => rw [transfer, storeList]
  | load => rw [transfer, loadBelow]

theorem index_transfer (m : Machine) (x : Fin 16) (t : Transfer) :
    (m.transfer x t).index = m.index := by
  cases t with
  | store => rw [transfer, storeList]
  | load => rw [transfer, loadBelow]

theorem switches_transferAll (m : Machine) (t : Transfer) (xs : List (Fin 16)) :
    (m.transferAll t xs).switches = m.switches := by
  induction xs using List.reverseRecOn with
  | nil => rfl
  | append_singleton xs x ih =>
    rw [transferAll_concat, switches_moveIndex, switches_transfer, ih]

/-- Stores and loads move the index register alike. -/
theorem index_transferAll (h : m.switches.moveIndex = true) (t : Transfer) (xs : List (Fin 16)) :
    (m.transferAll t xs).index = m.indexAfter xs := by
  induction xs using List.reverseRecOn with
  | nil => exact (UInt16.add_zero m.index).symm
  | append_singleton xs x ih =>
    have hon : ((m.transferAll t xs).transfer x t).switches.moveIndex = true := by
      rw [switches_transfer, switches_transferAll, h]
    rw [transferAll_concat, index_moveIndex, if_pos hon, index_transfer, ih, indexAfter_concat,
      UInt16.ofNat_add, UInt16.add_assoc]
    rfl

/-! ## Rows of stores -/

theorem register_transferAll_store (m : Machine) (xs : List (Fin 16)) (r : Fin 16) :
    (m.transferAll .store xs).register r = m.register r := by
  induction xs using List.reverseRecOn with
  | nil => rfl
  | append_singleton xs x ih =>
    rw [transferAll_concat, register_moveIndex]
    exact ih

/-- Each store of a row writes the registers as they were at first, behind the store before it. -/
theorem ram_transferAll_store (h : m.switches.moveIndex = true) (xs : List (Fin 16)) (x : Fin 16) :
    (m.transferAll .store (xs ++ [x])).ram = (m.transferAll .store xs).ram.writeAll
      (m.indexAfter xs) ((registersBelow x).map m.register) := by
  have hregisters : (m.transferAll .store xs).register = m.register :=
    funext (m.register_transferAll_store xs)
  rw [transferAll_concat, ram_moveIndex, ← index_transferAll h .store xs, ← hregisters]
  rfl

/-- Cells outside all blocks stay as they were. -/
theorem get_transferAll_store (h : m.switches.moveIndex = true) {xs : List (Fin 16)}
    {i : Fin 4096}
    (hout : ∀ earlier x, earlier ++ [x] <+: xs → ¬Within (m.indexAfter earlier) x.val i) :
    (m.transferAll .store xs).ram.cells.get i = m.ram.cells.get i := by
  induction xs using List.reverseRecOn with
  | nil => rfl
  | append_singleton xs x ih =>
    have hlast := hout xs x (List.prefix_refl _)
    rw [ram_transferAll_store h, Ram.get_writeAll_of_not_within]
    · exact ih fun earlier y hy => hout earlier y (hy.trans (List.prefix_append xs [x]))
    · rwa [List.length_map, length_registersBelow]

theorem val_cell_indexAfter (m : Machine) (xs : List (Fin 16)) (n : Nat) :
    (Ram.cell (m.indexAfter xs + UInt16.ofNat n)).val =
      (m.index.toNat + (stride xs + n)) % 4096 := by
  rw [Ram.val_cell_add, indexAfter, UInt16.toNat_add, UInt16.toNat_ofNat']
  omega

/-- As long as memory is not gone round, the byte behind a block stays as it was. -/
theorem read_gap (h : m.switches.moveIndex = true) {xs earlier : List (Fin 16)} {x : Fin 16}
    (hfits : stride xs ≤ 4096) (hx : earlier ++ [x] <+: xs) :
    (m.transferAll .store xs).ram.read (m.indexAfter earlier + UInt16.ofNat x.val) =
      m.ram.read (m.indexAfter earlier + UInt16.ofNat x.val) := by
  have hxs := stride_mono hx
  rw [stride_concat] at hxs
  refine get_transferAll_store h fun before y hy => ?_
  have hys := stride_mono hy
  rw [stride_concat] at hys
  rw [indexAfter, within_add_iff (m.val_cell_indexAfter earlier x.val) (by omega) (by omega)]
  rcases stride_apart hx hy with ⟨rfl, rfl⟩ | hbefore | hbehind <;> omega

/-- As long as memory is not gone round, every block holds what was stored there. -/
theorem readAll_block (h : m.switches.moveIndex = true) {xs earlier : List (Fin 16)} {x : Fin 16}
    (hfits : stride xs ≤ 4096) (hx : earlier ++ [x] <+: xs) :
    (m.transferAll .store xs).ram.readAll (m.indexAfter earlier) x.val =
      (registersBelow x).map m.register := by
  have hcount : ((registersBelow x).map m.register).length = x.val := by
    rw [List.length_map, length_registersBelow]
  induction xs using List.reverseRecOn with
  | nil => exact absurd (List.prefix_nil.mp hx) (List.concat_ne_nil x earlier)
  | append_singleton xs y ih =>
    rw [stride_concat] at hfits
    rw [ram_transferAll_store h]
    rcases List.prefix_concat_iff.mp hx with hsame | hbefore
    · obtain ⟨rfl, hlast⟩ := List.append_inj' hsame rfl
      obtain rfl := List.singleton_inj.mp hlast
      have hfew : ((registersBelow x).map m.register).length ≤ 4096 := by omega
      have hread :=
        (m.transferAll .store earlier).ram.readAll_writeAll (m.indexAfter earlier) hfew
      rwa [hcount] at hread
    · have hxs := stride_mono hbefore
      rw [stride_concat] at hxs
      rw [← ih (by omega) hbefore, Ram.readAll_eq_map, Ram.readAll_eq_map]
      refine List.map_congr_left fun n hn => Ram.get_writeAll_of_not_within _ _ _ ?_
      have hlt := List.mem_range.mp hn
      rw [List.length_map, length_registersBelow, indexAfter,
        within_add_iff (m.val_cell_indexAfter earlier n) (by omega) (by omega)]
      omega

/-! ## Rows of loads -/

theorem ram_transferAll_load (m : Machine) (xs : List (Fin 16)) :
    (m.transferAll .load xs).ram = m.ram := by
  induction xs using List.reverseRecOn with
  | nil => rfl
  | append_singleton xs x ih =>
    rw [transferAll_concat, ram_moveIndex, transfer, loadBelow]
    exact ih

/-- Each load of a row reads memory as it was at first, from where a store would have written. -/
theorem register_transferAll_load (h : m.switches.moveIndex = true) (xs : List (Fin 16))
    (x r : Fin 16) :
    (m.transferAll .load (xs ++ [x])).register r =
      if r < x then m.ram.read (m.indexAfter xs + UInt16.ofNat r.val)
      else (m.transferAll .load xs).register r := by
  rw [transferAll_concat, register_moveIndex, transfer, register_loadBelow, ram_transferAll_load,
    index_transferAll h]

/-! ## Rows of transfers -/

/-- Transfers behind others succeed, and lead on to the next one. -/
theorem execute_transferAll (m : Machine) (t : Transfer) (xs : List (Fin 16)) (x : Fin 16) :
    (m.transferAll t xs).execute (t.word x) = .ok (.next, m.transferAll t (xs ++ [x])) := by
  rw [execute_transfer, transferAll_concat]

/-- Every transfer of a row leaves the index register where the bytes it transfers end. -/
def LeavesIndexBehind (m : Machine) (t : Transfer) (xs : List (Fin 16)) : Prop :=
  ∀ earlier x, earlier ++ [x] <+: xs →
    (m.transferAll t (earlier ++ [x])).index =
      (m.transferAll t earlier).index + UInt16.ofNat x.val

/-- With the switch on, every transfer of a row succeeds and leaves the index register one byte
behind the end of the bytes it transfers, where the next one starts, and loads go to the places of
the stores. As long as memory is not gone round, all blocks of a row of stores are in memory
afterwards, each of them followed by one byte that was not written. So no row but the empty one
leaves the index register at the end of each of its blocks. -/
theorem transfers_leave_gaps (m : Machine) (h : m.switches.moveIndex = true)
    (xs : List (Fin 16)) :
    (∀ t earlier x, earlier ++ [x] <+: xs →
      (m.transferAll t earlier).execute (t.word x) = .ok (.next, m.transferAll t (earlier ++ [x])) ∧
      (m.transferAll t earlier).index = m.indexAfter earlier ∧
      (m.transferAll t (earlier ++ [x])).index =
        m.indexAfter earlier + UInt16.ofNat x.val + 1) ∧
    (∀ earlier x, earlier ++ [x] <+: xs →
      (m.transferAll .store (earlier ++ [x])).ram = (m.transferAll .store earlier).ram.writeAll
        (m.indexAfter earlier) ((registersBelow x).map m.register) ∧
      ∀ r, (m.transferAll .load (earlier ++ [x])).register r =
        if r < x then m.ram.read (m.indexAfter earlier + UInt16.ofNat r.val)
        else (m.transferAll .load earlier).register r) ∧
    (stride xs ≤ 4096 → ∀ earlier x, earlier ++ [x] <+: xs →
      (m.transferAll .store xs).ram.readAll (m.indexAfter earlier) x.val =
        (registersBelow x).map m.register ∧
      (m.transferAll .store xs).ram.read (m.indexAfter earlier + UInt16.ofNat x.val) =
        m.ram.read (m.indexAfter earlier + UInt16.ofNat x.val)) ∧
    ∀ t, m.LeavesIndexBehind t xs ↔ xs = [] := by
  have hindex := index_transferAll h
  refine ⟨fun t earlier x _ => ⟨m.execute_transferAll t earlier x, hindex t earlier, ?_⟩,
    fun earlier x _ => ⟨ram_transferAll_store h earlier x, register_transferAll_load h earlier x⟩,
    fun hfits earlier x hx => ⟨readAll_block h hfits hx, read_gap h hfits hx⟩,
    fun t => ⟨fun hbehind => ?_, ?_⟩⟩
  · rw [hindex, indexAfter_concat]
  · by_contra hne
    obtain ⟨x, rest, rfl⟩ := List.exists_cons_of_ne_nil hne
    have hfirst := hbehind [] x ⟨rest, rfl⟩
    rw [hindex, hindex, indexAfter_concat] at hfirst
    exact absurd (UInt16.add_eq_left.mp hfirst) (by decide)
  · rintro rfl earlier x hx
    exact absurd (List.prefix_nil.mp hx) (List.concat_ne_nil x earlier)

/-- Two registers and then three, across the end of memory. -/
theorem transfers_leave_gaps_wrapped :
    let m : Machine := {
      ram := {}
      index := 0xFFD
      v := Vector.ofFn fun r => UInt8.ofNat r.val + 1
      switches := { moveIndex := true } }
    let stored := m.transferAll .store [2, 3]
    stored.ram.readAll 0xFFD 2 = [1, 2] ∧ stored.ram.read 0xFFF = 0 ∧
      stored.ram.readAll 0x1000 3 = [1, 2, 3] ∧ stored.ram.read 0x003 = 0 ∧
      stored.index = 0x1004 ∧ (m.transferAll .load [2, 3]).index = 0x1004 := by
  intro m stored
  have hfirst : m.indexAfter [] = 0xFFD := by decide
  have hnext : m.indexAfter [2] = 0x1000 := by decide
  have hsecond : [2] ++ [3] <+: [(2 : Fin 16), 3] := List.prefix_refl _
  obtain ⟨hmoves, -, hblocks, -⟩ := transfers_leave_gaps m rfl [2, 3]
  obtain ⟨htwo, hgap⟩ := hblocks (by decide) [] 2 ⟨[3], rfl⟩
  obtain ⟨hthree, hlast⟩ := hblocks (by decide) [2] 3 hsecond
  have hstore := (hmoves .store [2] 3 hsecond).2.2
  have hload := (hmoves .load [2] 3 hsecond).2.2
  rw [hfirst] at htwo hgap
  rw [hnext] at hthree hlast hstore hload
  exact ⟨htwo.trans (by decide), hgap.trans (by decide +kernel), hthree.trans (by decide),
    hlast.trans (by decide +kernel), hstore, hload⟩

/-- A store of one register at 0x400, which ends at 0x401, leaves the index register at 0x402. -/
theorem index_not_behind_store :
    let m : Machine := { ofSeed 0 with index := 0x400, switches := { moveIndex := true } }
    Transfer.store.word 1 = 0xF155 ∧ (m.transferAll .store [1]).index = 0x402 ∧
      ¬m.LeavesIndexBehind .store [1] := by
  intro m
  have hindex : (m.transferAll .store [1]).index = 0x402 := index_transferAll rfl .store [1]
  refine ⟨by decide, hindex, fun hbehind => ?_⟩
  have hend : (m.transferAll .store [1]).index = 0x400 + UInt16.ofNat 1 :=
    hbehind [] 1 (List.prefix_refl _)
  rw [hindex] at hend
  exact absurd hend (by decide)

end Machine
end ChipEight
