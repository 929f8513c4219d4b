import ChipEight.Proofs.Machine.Footprint

/-!
# Block transfers

Registers are stored one after another, and loaded in the same order. Memory has more cells than the
machine has registers, so no cell of a block is written twice, wherever the block begins: reading a
block back gives what was written. So a load returns what the store before it kept.
-/

namespace ChipEight

/-! ## Blocks of memory -/

namespace Ram

theorem readAll_eq_map (m : Ram) (a : UInt16) (n : Nat) :
    m.readAll a n = (List.range n).map fun k => m.read (a + UInt16.ofNat k) := by
  induction n generalizing a with
  | zero => rfl
  | succ n ih =>
    rw [readAll, ih, List.range_succ_eq_map, List.map_cons, List.map_map]
    congr 1
    · exact congrArg m.read (UInt16.add_zero a).symm
    · refine List.map_congr_left fun k _ => congrArg m.read ?_
      show a + 1 + UInt16.ofNat k = a + UInt16.ofNat (k + 1)
      rw [Nat.add_comm k 1, UInt16.ofNat_add, UInt16.add_assoc]
      rfl

/-- What was written to a block is read from it, unless the block is larger than memory. -/
theorem readAll_writeAll (m : Ram) (a : UInt16) {bytes : List UInt8} (h : bytes.length ≤ 4096) :
    (m.writeAll a bytes).readAll a bytes.length = bytes := by
  induction bytes generalizing m a with
  | nil => rfl
  | cons b rest ih =>
    rw [List.length_cons] at h
    -- The rest goes to other cells than the first byte.
    have hout : ¬Within (a + 1) rest.length (cell a) := by
      rintro ⟨n, hn, hcell⟩
      have ha : (a + 1).toNat = (a.toNat + 1) % 65536 := UInt16.toNat_add a 1
      have hval : (cell a).val = a.toNat % 4096 := rfl
      omega
    have hfirst : ((m.write a b).writeAll (a + 1) rest).read a = b := by
      show ((m.write a b).writeAll (a + 1) rest).cells.get (cell a) = b
      rw [get_writeAll_of_not_within _ _ _ hout]
      exact m.read_write_same a b
    rw [writeAll, List.length_cons, readAll, hfirst, ih _ _ (by omega)]

end Ram

/-! ## Stores and loads -/

namespace Machine

/-- A block that was stored is read back from the index register on. -/
theorem readAll_storeList (m : Machine) {registers : List (Fin 16)} (h : registers.length ≤ 16) :
    (m.storeList registers).ram.readAll m.index registers.length = registers.map m.register := by
  have hfits : (registers.map m.register).length ≤ 4096 := by
    rw [List.length_map]
    omega
  have hread := m.ram.readAll_writeAll m.index hfits
  rwa [List.length_map] at hread

theorem register_loadBelow (m : Machine) (x r : Fin 16) :
    (m.loadBelow x).register r =
      if r < x then m.ram.read (m.index + UInt16.ofNat r.val) else m.register r :=
  Vector.getElem_ofFn _

theorem register_loadBetween (m : Machine) (x y r : Fin 16) :
    (m.loadBetween x y).register r =
      if isBetween x y r then m.ram.read (m.index + UInt16.ofNat (registerDistance x r))
      else m.register r :=
  Vector.getElem_ofFn _

/-- Registers that are loaded in order, from where as many were stored, get what was stored. -/
theorem map_register_of_stored {m later loaded : Machine} {stored registers : List (Fin 16)}
    {place : Fin 16 → Nat} {n : Nat} (hram : later.ram = (m.storeList stored).ram)
    (hindex : later.index = m.index) (hlength : stored.length = n) (hn : n ≤ 16)
    (hplaces : registers.map place = List.range n)
    (hload : ∀ r ∈ registers,
      loaded.register r = later.ram.read (later.index + UInt16.ofNat (place r))) :
    registers.map loaded.register = stored.map m.register := by
  have hblock : registers.map loaded.register = later.ram.readAll later.index n := by
    rw [Ram.readAll_eq_map, ← hplaces, List.map_map]
    exact List.map_congr_left hload
  subst hlength
  rw [hblock, hram, hindex, m.readAll_storeList hn]

/-- Loading registers below one gives them back from where as many were stored. -/
theorem register_loadBelow_of_stored {m later : Machine} {x : Fin 16}
    (hram : later.ram = (m.storeList (registersBelow x)).ram) (hindex : later.index = m.index)
    (r : Fin 16) :
    (later.loadBelow x).register r = if r < x then m.register r else later.register r := by
  have hblock : (registersBelow x).map (later.loadBelow x).register =
      (registersBelow x).map m.register := by
    refine map_register_of_stored hram hindex (length_registersBelow x)
      (Nat.le_of_lt x.isLt) (map_val_registersBelow x) fun r hr => ?_
    rw [register_loadBelow, if_pos (mem_registersBelow.mp hr)]
  by_cases hr : r < x
  · rw [if_pos hr]
    exact List.map_inj_left.mp hblock r (mem_registersBelow.mpr hr)
  · rw [if_neg hr, register_loadBelow, if_neg hr]

/-- Loading a range of registers gives those that were stored, in the order of the range. -/
theorem map_register_loadBetween_of_stored {m later : Machine} {stored : List (Fin 16)}
    {x y : Fin 16} (hlength : stored.length = (registerRange x y).length)
    (hram : later.ram = (m.storeList stored).ram) (hindex : later.index = m.index) :
    (registerRange x y).map (later.loadBetween x y).register = stored.map m.register := by
  have hfits : (registerRange x y).length ≤ 16 := by
    rw [length_registerRange, registerDistance]
    omega
  refine map_register_of_stored hram hindex hlength hfits (map_registerDistance x y)
    fun r hr => ?_
  rw [register_loadBetween, if_pos (mem_registerRange.mp hr)]

theorem register_keepFlags (m : Machine) (x : Fin 16) (r : Fin 8) :
    (m.keepFlags x).flag r =
      if r.val < x.val then m.register (r.castLE (by decide)) else m.flag r :=
  Vector.getElem_ofFn _

/-- Recalling flag registers gives back the registers that were kept in them. -/
theorem register_recallFlags_of_kept {m later : Machine} {x : Fin 16}
    (hflags : later.flags = (m.keepFlags x).flags) (r : Fin 16) :
    (later.recallFlags x).register r =
      if r.val < min x.val 8 then m.register r else later.register r := by
  have hrecall : (later.recallFlags x).register r =
      if h : r.val < 8 ∧ r.val < x.val then later.flag ⟨r.val, h.1⟩ else later.register r :=
    Vector.getElem_ofFn _
  by_cases h : r.val < 8 ∧ r.val < x.val
  · have hkept : later.flag ⟨r.val, h.1⟩ = (m.keepFlags x).flag ⟨r.val, h.1⟩ :=
      congrArg (fun flags : Vector UInt8 8 => flags.get ⟨r.val, h.1⟩) hflags
    rw [hrecall, dif_pos h, hkept, register_keepFlags, if_pos h.2, if_pos (by omega)]
    rfl
  · rw [hrecall, dif_neg h, if_neg (by omega)]

theorem ram_moveIndex (m : Machine) (x : Fin 16) : (m.moveIndex x).ram = m.ram := by
  unfold moveIndex
  split <;> rfl

theorem register_moveIndex (m : Machine) (x r : Fin 16) :
    (m.moveIndex x).register r = m.register r := by
  unfold moveIndex
  split <;> rfl

theorem index_moveIndex (m : Machine) (x : Fin 16) :
    (m.moveIndex x).index =
      if m.switches.moveIndex then m.index + UInt16.ofNat (x.val + 1) else m.index := by
  unfold moveIndex
  split <;> rfl

/-! ## Words -/

/-- The word of four digits performs the operation of a shape that they fit. -/
theorem execute_ofDigits {m : Machine} {a b c d : Fin 16} {dialect : Dialect} (s : Shape)
    (operation : Operation) (hrow : ∃ f ∈ Form.table,
      f.shape = s ∧ f.operation = operation ∧ f.dialect = dialect)
    (hle : dialect ≤ m.dialect) (hfits : s.fits a b c d = true) :
    m.execute (ofDigits a b c d) = m.perform (Operands.ofWord (ofDigits a b c d)) operation :=
  execute_of_covers operation hrow hle ((s.covers_ofDigits a b c d).mpr hfits)

theorem execute_storeRegisters (m : Machine) (x : Fin 16) :
    m.execute (ofDigits 0xF x 5 5) =
      .ok (.next, (m.storeList (registersBelow x)).moveIndex x) := by
  rw [execute_ofDigits ⟨0xF, .free, 5, 5⟩ .storeRegisters (by decide) (Dialect.chip8_le _) rfl,
    perform, Operands.x_ofDigits]

theorem execute_loadRegisters (m : Machine) (x : Fin 16) :
    m.execute (ofDigits 0xF x 6 5) = .ok (.next, (m.loadBelow x).moveIndex x) := by
  rw [execute_ofDigits ⟨0xF, .free, 6, 5⟩ .loadRegisters (by decide) (Dialect.chip8_le _) rfl,
    perform, Operands.x_ofDigits]

theorem execute_saveRange (m : Machine) (h : Dialect.xoChip ≤ m.dialect) (x y : Fin 16) :
    m.execute (ofDigits 5 x y 2) = .ok (.next, m.storeList (registerRange x y)) := by
  rw [execute_ofDigits ⟨5, .free, .free, 2⟩ .saveRange (by decide) h rfl, perform,
    Operands.x_ofDigits, Operands.y_ofDigits]

theorem execute_loadRange (m : Machine) (h : Dialect.xoChip ≤ m.dialect) (x y : Fin 16) :
    m.execute (ofDigits 5 x y 3) = .ok (.next, m.loadBetween x y) := by
  rw [execute_ofDigits ⟨5, .free, .free, 3⟩ .loadRange (by decide) h rfl, perform,
    Operands.x_ofDigits, Operands.y_ofDigits]

theorem execute_storeFlags (m : Machine) (h : Dialect.superChip ≤ m.dialect) (x : Fin 16) :
    m.execute (ofDigits 0xF x 7 5) = .ok (.next, m.keepFlags x) := by
  rw [execute_ofDigits ⟨0xF, .free, 7, 5⟩ .storeFlags (by decide) h rfl, perform,
    Operands.x_ofDigits]

theorem execute_loadFlags (m : Machine) (h : Dialect.superChip ≤ m.dialect) (x : Fin 16) :
    m.execute (ofDigits 0xF x 8 5) = .ok (.next, m.recallFlags x) := by
  rw [execute_ofDigits ⟨0xF, .free, 8, 5⟩ .loadFlags (by decide) h rfl, perform,
    Operands.x_ofDigits]

/-! ## Stores and loads in turn -/

/-- The machine with other registers, and the index register set. -/
def overwrite (m : Machine) (v : Vector UInt8 16) (index : UInt16) : Machine := { m with v, index }

theorem register_overwrite (m : Machine) (v : Vector UInt8 16) (index : UInt16) (r : Fin 16) :
    (m.overwrite v index).register r = v.get r := rfl

/-- One word is executed, then another with all registers overwritten and the same index
register. -/
def Transfers (m : Machine) (store load : UInt16) (v : Vector UInt8 16) (loaded : Machine) : Prop :=
  ∃ stored, m.execute store = .ok (.next, stored) ∧
    (stored.overwrite v m.index).execute load = .ok (.next, loaded)

variable {m : Machine}

theorem exists_transfers_below (m : Machine) (x : Fin 16) (v : Vector UInt8 16) :
    ∃ loaded, m.Transfers (ofDigits 0xF x 5 5) (ofDigits 0xF x 6 5) v loaded ∧
      ∀ r, loaded.register r = if r < x then m.register r else v.get r := by
  let later := ((m.storeList (registersBelow x)).moveIndex x).overwrite v m.index
  have hram : later.ram = (m.storeList (registersBelow x)).ram := ram_moveIndex _ x
  refine ⟨(later.loadBelow x).moveIndex x, ⟨_, m.execute_storeRegisters x,
    later.execute_loadRegisters x⟩, fun r => ?_⟩
  rw [register_moveIndex, register_loadBelow_of_stored hram rfl, register_overwrite]

theorem exists_transfers_between (h : Dialect.xoChip ≤ m.dialect) (x y : Fin 16)
    (v : Vector UInt8 16) :
    ∃ loaded, m.Transfers (ofDigits 5 x y 2) (ofDigits 5 x y 3) v loaded ∧
      ∀ r, loaded.register r = if isBetween x y r then m.register r else v.get r := by
  let later := (m.storeList (registerRange x y)).overwrite v m.index
  refine ⟨later.loadBetween x y, ⟨_, m.execute_saveRange h x y, later.execute_loadRange h x y⟩,
    fun r => ?_⟩
  have hblock : (registerRange x y).map (later.loadBetween x y).register =
      (registerRange x y).map m.register := map_register_loadBetween_of_stored rfl rfl rfl
  by_cases hr : isBetween x y r = true
  · rw [if_pos hr]
    exact List.map_inj_left.mp hblock r (mem_registerRange.mpr hr)
  · rw [if_neg hr, register_loadBetween, if_neg hr, register_overwrite]

theorem exists_transfers_reversed (h : Dialect.xoChip ≤ m.dialect) (x y : Fin 16)
    (v : Vector UInt8 16) :
    ∃ loaded, m.Transfers (ofDigits 5 x y 2) (ofDigits 5 y x 3) v loaded ∧
      (registerRange x y).map loaded.register = ((registerRange x y).map m.register).reverse ∧
      ∀ r, isBetween x y r = false → loaded.register r = v.get r := by
  let later := (m.storeList (registerRange x y)).overwrite v m.index
  refine ⟨later.loadBetween y x, ⟨_, m.execute_saveRange h x y, later.execute_loadRange h y x⟩,
    ?_, fun r hr => ?_⟩
  · have hlength : (registerRange x y).length = (registerRange y x).length := by
      rw [registerRange_swap, List.length_reverse]
    have hblock : (registerRange y x).map (later.loadBetween y x).register =
        (registerRange x y).map m.register := map_register_loadBetween_of_stored hlength rfl rfl
    rw [← hblock, registerRange_swap x y, List.map_reverse, List.reverse_reverse]
  · have hswap : ¬isBetween y x r = true := by
      rw [isBetween, Bool.or_comm]
      exact Bool.not_eq_true _ ▸ hr
    rw [register_loadBetween, if_neg hswap, register_overwrite]

theorem exists_transfers_flags (h : Dialect.superChip ≤ m.dialect) (x : Fin 16)
    (v : Vector UInt8 16) :
    ∃ loaded, m.Transfers (ofDigits 0xF x 7 5) (ofDigits 0xF x 8 5) v loaded ∧
      ∀ r, loaded.register r = if r.val < min x.val 8 then m.register r else v.get r := by
  let later := (m.keepFlags x).overwrite v m.index
  refine ⟨later.recallFlags x, ⟨_, m.execute_storeFlags h x, later.execute_loadFlags h x⟩,
    fun r => ?_⟩
  have hflags : later.flags = (m.keepFlags x).flags := rfl
  rw [register_recallFlags_of_kept hflags, register_overwrite]

/-- Where a word of block transfers leaves the index register. -/
def LeavesIndex (m : Machine) (w index : UInt16) : Prop :=
  ∃ next, m.execute w = .ok (.next, next) ∧ next.index = index

/-- Whatever the index register, a load gives back the registers of the store before it and leaves
the others as they are. A range that is loaded the other way comes back reversed. The index register
moves with registers below one if a switch says so, and with no range. -/
theorem transfers_restore (m : Machine) (x y : Fin 16) (v : Vector UInt8 16) :
    (∃ loaded, m.Transfers (ofDigits 0xF x 5 5) (ofDigits 0xF x 6 5) v loaded ∧
      ∀ r, loaded.register r = if r < x then m.register r else v.get r) ∧
    (Dialect.xoChip ≤ m.dialect →
      (∃ loaded, m.Transfers (ofDigits 5 x y 2) (ofDigits 5 x y 3) v loaded ∧
        ∀ r, loaded.register r = if isBetween x y r then m.register r else v.get r) ∧
      (∃ loaded, m.Transfers (ofDigits 5 x y 2) (ofDigits 5 y x 3) v loaded ∧
        (registerRange x y).map loaded.register = ((registerRange x y).map m.register).reverse ∧
        ∀ r, isBetween x y r = false → loaded.register r = v.get r) ∧
      ∀ w ∈ [ofDigits 5 x y 2, ofDigits 5 x y 3], m.LeavesIndex w m.index) ∧
    (Dialect.superChip ≤ m.dialect →
      ∃ loaded, m.Transfers (ofDigits 0xF x 7 5) (ofDigits 0xF x 8 5) v loaded ∧
        ∀ r, loaded.register r = if r.val < min x.val 8 then m.register r else v.get r) ∧
    ∀ w ∈ [ofDigits 0xF x 5 5, ofDigits 0xF x 6 5], m.LeavesIndex w
      (if m.switches.moveIndex then m.index + UInt16.ofNat (x.val + 1) else m.index) := by
  refine ⟨m.exists_transfers_below x v, fun h => ⟨exists_transfers_between h x y v,
    exists_transfers_reversed h x y v, ?_⟩, fun h => exists_transfers_flags h x v, ?_⟩
  · refine List.forall_mem_cons.mpr ⟨?_, List.forall_mem_singleton.mpr ?_⟩
    · exact ⟨_, m.execute_saveRange h x y, rfl⟩
    · exact ⟨_, m.execute_loadRange h x y, by rw [loadBetween]⟩
  · refine List.forall_mem_cons.mpr ⟨?_, List.forall_mem_singleton.mpr ?_⟩
    · exact ⟨_, m.execute_storeRegisters x, index_moveIndex _ x⟩
    · exact ⟨_, m.execute_loadRegisters x, by rw [index_moveIndex, loadBelow]⟩

/-- Blocks across the end of memory, a range downwards that comes back reversed, and one register
more than there are flag registers. -/
theorem transfers_restore_wrapped :
    let m : Machine := {
      ram := {}
      index := 0xFFFE
      v := Vector.ofFn fun r => UInt8.ofNat r.val + 1
      dialect := .xoChip
      switches := { moveIndex := true } }
    let v := Vector.replicate 16 0
    (∃ loaded, m.Transfers 0xF955 0xF965 v loaded ∧
      loaded.register 8 = 9 ∧ loaded.register 9 = 0) ∧
    (∃ loaded, m.Transfers 0x5972 0x5973 v loaded ∧
      loaded.register 9 = 10 ∧ loaded.register 7 = 8 ∧ loaded.register 6 = 0) ∧
    (∃ loaded, m.Transfers 0x5972 0x5793 v loaded ∧
      loaded.register 9 = 8 ∧ loaded.register 8 = 9 ∧ loaded.register 7 = 10) ∧
    (∃ loaded, m.Transfers 0xF975 0xF985 v loaded ∧
      loaded.register 7 = 8 ∧ loaded.register 8 = 0) ∧
    m.LeavesIndex 0xF955 8 := by
  intro m v
  obtain ⟨⟨below, hbelow, hlow⟩, hrange, hflag, hindex⟩ := transfers_restore m 9 7 v
  obtain ⟨⟨range, hsame, hbetween⟩, ⟨reversed, hother, hmap, -⟩, -⟩ := hrange (by decide)
  obtain ⟨kept, hkept, hfew⟩ := hflag (by decide)
  have hvalues : [reversed.register 9, reversed.register 8, reversed.register 7] = [8, 9, 10] :=
    hmap
  simp only [List.cons.injEq, and_true] at hvalues
  have hmoved : m.index + UInt16.ofNat 10 = 8 := by decide
  refine ⟨⟨below, hbelow, ?_, ?_⟩, ⟨range, hsame, ?_, ?_, ?_⟩, ⟨reversed, hother, hvalues⟩,
    ⟨kept, hkept, ?_, ?_⟩, hmoved ▸ hindex _ List.mem_cons_self⟩
  · exact hlow 8
  · exact hlow 9
  · exact hbetween 9
  · exact hbetween 7
  · exact hbetween 6
  · exact hfew 7
  · exact hfew 8

end Machine
end ChipEight
