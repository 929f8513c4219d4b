import ChipEight.Proofs.Alternation
import ChipEight.Run.Loop

/-!
# The key changes of a keyboard

A keyboard tells of a key of the keypad exactly when the key begins or ceases to count as held. So
what it tells of a key alternates, and whoever applies everything it tells has the keys down that
the keyboard holds. What it holds of a key is the time of its last report, whatever the clock does,
and a key is released when that is too long ago.
-/

namespace ChipEight

open Loop (applyKeys)

/-! ## Key changes -/

/-- Which way changes switch a key of the keypad. -/
def switchesOf (key : Fin 16) (changes : List KeyChange) : List Bool :=
  changes.filterMap fun c => if Machine.keyNumber c.key = key then some c.down else none

theorem switchesOf_append (key : Fin 16) (xs ys : List KeyChange) :
    switchesOf key (xs ++ ys) = switchesOf key xs ++ switchesOf key ys := List.filterMap_append

theorem switchesOf_cons (key : Fin 16) (c : KeyChange) (rest : List KeyChange) :
    switchesOf key (c :: rest) =
      (if Machine.keyNumber c.key = key then [c.down] else []) ++ switchesOf key rest := by
  rw [switchesOf, List.filterMap_cons]
  split <;> simp_all [switchesOf]

theorem Machine.keyNumber_ofNat (key : Fin 16) : keyNumber (UInt8.ofNat key.val) = key := by
  apply Fin.ext
  show (UInt8.ofNat key.val).toNat % 16 = key.val
  rw [UInt8.toNat_ofNat']
  omega

theorem switchesOf_map (key : Fin 16) (down : Bool) (keys : List (Fin 16)) :
    switchesOf key (keys.map fun k => ⟨UInt8.ofNat k.val, down⟩) =
      List.replicate (keys.count key) down := by
  induction keys with
  | nil => rfl
  | cons k rest ih =>
    rw [List.map_cons, switchesOf_cons, Machine.keyNumber_ofNat, ih, List.count_cons]
    by_cases hk : k = key
    · simp [hk, List.replicate_succ]
    · simp [hk]

/-- A key of a machine is as it was switched last. -/
theorem keys_applyKeys (m : Machine) (changes : List KeyChange) (key : Fin 16) :
    (applyKeys m changes).keys.get key =
      ((switchesOf key changes).getLast?).getD (m.keys.get key) := by
  induction changes generalizing m with
  | nil => rfl
  | cons c rest ih =>
    have hset : (m.setKey c.key c.down).keys.get key =
        if Machine.keyNumber c.key = key then c.down else m.keys.get key := by
      show (m.setKey c.key c.down).keys[key.val] = _
      simp only [Machine.setKey, Vector.getElem_set, Fin.ext_iff]
      rfl
    show (applyKeys (m.setKey c.key c.down) rest).keys.get key = _
    rw [ih, hset, switchesOf_cons, List.getLast?_append]
    cases (switchesOf key rest).getLast? with
    | some down => rfl
    | none => split <;> rfl

/-! ## What a keyboard is told -/

/-- The key of the keypad that a report is about. -/
def KeyReport.key? (r : KeyReport) : Option (Fin 16) :=
  match r.code with
  | .char c => if c = 'c' ∧ r.control then none else Keyboard.keyOf c
  | .escape | .function _ | .other => none

namespace Keyboard

/-- Something that a keyboard is told. -/
inductive Call
  /-- The terminal reports something at a time. -/
  | report (now : Nat) (r : KeyReport)
  /-- Keys whose last report is too old at a time are to be released. -/
  | expire (now : Nat)

/-- The keyboard after a call, and the events that it tells of. -/
def hear (k : Keyboard) : Call → Keyboard × Events
  | .report now r => ((k.report now r).1, (k.report now r).2.1)
  | .expire now => k.expire now

/-- The keyboard after calls one after another. -/
def hearAll (k : Keyboard) (calls : List Call) : Keyboard :=
  calls.foldl (fun k call => (k.hear call).1) k

/-- Everything that a keyboard tells of keys in calls one after another. -/
def changes (k : Keyboard) : List Call → List KeyChange
  | [] => []
  | call :: rest => (k.hear call).2.changes ++ (k.hear call).1.changes rest

/-- Whether a key counts as held. -/
def isHeld (k : Keyboard) (key : Fin 16) : Bool := (k.held.get key).isSome

/-- When a call reports a key, if it does. -/
def Call.time? (key : Fin 16) : Call → Option Nat
  | .report now r => if r.key? = some key then some now else none
  | .expire _ => none

/-- When calls reported a key last. -/
def latest? (key : Fin 16) (calls : List Call) : Option Nat :=
  (calls.filterMap (·.time? key)).getLast?

variable {k : Keyboard} {now : Nat} {key : Fin 16}

theorem mem_heldKeys : key ∈ k.heldKeys ↔ k.isHeld key = true := by
  simp [heldKeys, isHeld]

/-! ## One call -/

/-- A report that is about a key refreshes it. -/
theorem report_of_key? {r : KeyReport} (h : r.key? = some key) :
    k.report now r = ((k.refresh now key).1, (k.refresh now key).2, []) := by
  obtain ⟨code, control⟩ := r
  unfold KeyReport.key? at h
  cases code with
  | escape | function | other => cases h
  | char c =>
    dsimp only at h
    split at h
    · cases h
    · unfold report
      dsimp only
      rw [if_neg ‹_›, h]

/-- Any other report changes no key. -/
theorem report_of_key?_eq_none {r : KeyReport} (h : r.key? = none) :
    (k.report now r).1 = k ∧ (k.report now r).2.1.changes = [] := by
  obtain ⟨code, control⟩ := r
  unfold KeyReport.key? at h
  unfold report
  cases code with
  | escape | other => exact ⟨rfl, rfl⟩
  | function n =>
    rcases n with _ | _ | _ | n <;> exact ⟨rfl, rfl⟩
  | char c =>
    dsimp only at h ⊢
    split
    · exact ⟨rfl, rfl⟩
    · rw [if_neg ‹_›] at h
      rw [h]
      exact ⟨rfl, rfl⟩

/-- What a call comes to: keys are released, one is refreshed, or none is concerned. -/
theorem hear_cases (k : Keyboard) (call : Call) :
    (∃ now, call = .expire now) ∨
    (∃ now reported, (∀ key, call.time? key = if reported = key then some now else none) ∧
      (k.hear call).1 = (k.refresh now reported).1 ∧
      (k.hear call).2.changes = (k.refresh now reported).2.changes) ∨
    (∀ key, call.time? key = none) ∧ (k.hear call).1 = k ∧ (k.hear call).2.changes = [] := by
  cases call with
  | expire now => exact .inl ⟨now, rfl⟩
  | report now r =>
    cases hkey : r.key? with
    | some reported =>
      refine .inr (.inl ⟨now, reported, fun key => ?_, ?_⟩)
      · simp only [Call.time?, hkey, Option.some_inj]
      · rw [hear, report_of_key? hkey]
        exact ⟨rfl, rfl⟩
    | none =>
      refine .inr (.inr ⟨fun key => ?_, report_of_key?_eq_none hkey⟩)
      rw [Call.time?, hkey]
      rfl

theorem get_refresh (k : Keyboard) (now : Nat) (key other : Fin 16) :
    (k.refresh now key).1.held.get other =
      if key = other then some now else k.held.get other := by
  show (k.held.setIfInBounds key (some now))[other.val] = _
  rw [Vector.getElem_setIfInBounds other.isLt]
  simp only [Fin.ext_iff]
  rfl

theorem get_expire (k : Keyboard) (now : Nat) (key : Fin 16) :
    (k.expire now).1.held.get key = (k.held.get key).filter fun t => !k.overdue now t := by
  show (k.held.map fun since => since.filter fun t => !k.overdue now t)[key.val] = _
  rw [Vector.getElem_map]
  rfl

/-- A refreshed key is told of if it did not count as held. -/
theorem switchesOf_refresh (k : Keyboard) (now : Nat) (key other : Fin 16) :
    switchesOf other (k.refresh now key).2.changes =
      change (k.isHeld other) ((k.refresh now key).1.isHeld other) := by
  have hpress : switchesOf other (Events.press (UInt8.ofNat key.val)).changes =
      if key = other then [true] else [] := by
    rw [Events.press, switchesOf_cons, Machine.keyNumber_ofNat]
    exact List.append_nil _
  have hafter : (k.refresh now key).1.isHeld other = (decide (key = other) || k.isHeld other) := by
    rw [isHeld, get_refresh]
    split <;> simp [*, isHeld]
  rw [hafter]
  show switchesOf other (if k.isHeld key then ({} : Events) else _).changes = _
  by_cases hkey : key = other
  · subst hkey
    cases hheld : k.isHeld key with
    | true => simp [change, switchesOf]
    | false => simpa [change] using hpress
  · rw [decide_eq_false hkey, Bool.false_or, change_self]
    split
    · rfl
    · rw [hpress, if_neg hkey]

/-- The keys that are released at a time are the held ones whose last report is too old. -/
theorem changes_expire (k : Keyboard) (now : Nat) :
    (k.expire now).2.changes =
      (k.heldKeys.filter fun key => (k.held.get key).any (k.overdue now)).map
        fun key => ⟨UInt8.ofNat key.val, false⟩ := by
  have hheld : ∀ since : Option Nat,
      since.any (k.overdue now) = (since.any (k.overdue now) && since.isSome) := by
    intro since
    cases since <;> simp
  rw [heldKeys, List.filter_filter]
  show List.map _ ((List.finRange 16).filter fun key => (k.held.get key).any (k.overdue now)) = _
  rw [List.filter_congr fun key _ => hheld (k.held.get key)]

/-- The others stay held. -/
theorem heldKeys_expire (k : Keyboard) (now : Nat) :
    (k.expire now).1.heldKeys =
      k.heldKeys.filter fun key => (k.held.get key).any fun t => !k.overdue now t := by
  have hkept : ∀ since : Option Nat, (since.filter fun t => !k.overdue now t).isSome =
      ((since.any fun t => !k.overdue now t) && since.isSome) := by
    intro since
    cases since with
    | none => rfl
    | some t => cases hoverdue : k.overdue now t <;> simp [hoverdue]
  rw [heldKeys, heldKeys, List.filter_filter]
  refine List.filter_congr fun key _ => ?_
  rw [get_expire]
  exact hkept _

theorem switchesOf_expire (k : Keyboard) (now : Nat) (key : Fin 16) :
    switchesOf key (k.expire now).2.changes =
      change (k.isHeld key) ((k.expire now).1.isHeld key) := by
  have hnodup : (k.heldKeys.filter fun key => (k.held.get key).any (k.overdue now)).Nodup :=
    ((List.nodup_finRange 16).filter _).filter _
  rw [changes_expire, switchesOf_map, hnodup.count, isHeld, isHeld, get_expire]
  simp only [List.mem_filter, mem_heldKeys, isHeld]
  cases k.held.get key with
  | none => rfl
  | some since => cases hoverdue : k.overdue now since <;> simp [change, hoverdue]

/-- A call tells of a key exactly if the key begins or ceases to count as held. -/
theorem switchesOf_hear (k : Keyboard) (call : Call) (key : Fin 16) :
    switchesOf key (k.hear call).2.changes =
      change (k.isHeld key) ((k.hear call).1.isHeld key) := by
  obtain ⟨now, rfl⟩ | ⟨now, reported, -, hafter, hchanges⟩ | ⟨-, hafter, hchanges⟩ :=
    k.hear_cases call
  · exact k.switchesOf_expire now key
  · rw [hafter, hchanges]
    exact k.switchesOf_refresh now reported key
  · rw [hafter, hchanges, change_self]
    rfl

/-- A held key was held before the call, or the call reports it; and then its time is the call's. -/
theorem get_hear (k : Keyboard) (call : Call) {t : Nat} (h : (k.hear call).1.held.get key = some t) :
    (call.time? key).or (k.held.get key) = some t := by
  obtain ⟨now, rfl⟩ | ⟨now, reported, htime, hafter, -⟩ | ⟨htime, hafter, -⟩ := k.hear_cases call
  · rw [hear, get_expire] at h
    exact (Option.filter_eq_some_iff.mp h).1
  · rw [hafter, get_refresh] at h
    rw [htime]
    by_cases hreported : reported = key
    · rw [if_pos hreported] at h ⊢
      exact h
    · rw [if_neg hreported] at h ⊢
      exact h
  · rw [htime, ← hafter]
    exact h

/-- A call tells of keys of the keypad only. -/
theorem toNat_lt_of_mem_changes_hear (call : Call) {c : KeyChange}
    (hc : c ∈ (k.hear call).2.changes) : c.key.toNat < 16 := by
  have hkeys : ∀ key : Fin 16, (UInt8.ofNat key.val).toNat < 16 := by decide
  obtain ⟨now, rfl⟩ | ⟨now, reported, -, -, hchanges⟩ | ⟨-, -, hchanges⟩ := k.hear_cases call
  · rw [hear, changes_expire] at hc
    obtain ⟨key, -, rfl⟩ := List.mem_map.mp hc
    exact hkeys key
  · rw [hchanges] at hc
    unfold refresh at hc
    dsimp only at hc
    split at hc
    · exact absurd hc List.not_mem_nil
    · rw [List.mem_singleton.mp hc]
      exact hkeys reported
  · rw [hchanges] at hc
    exact absurd hc List.not_mem_nil

/-! ## Calls one after another -/

theorem hold_hear (k : Keyboard) (call : Call) : (k.hear call).1.hold = k.hold := by
  obtain ⟨now, rfl⟩ | ⟨now, reported, -, hafter, -⟩ | ⟨-, hafter, -⟩ := k.hear_cases call
  · rfl
  · rw [hafter]
    rfl
  · rw [hafter]

theorem hold_hearAll (k : Keyboard) (calls : List Call) : (k.hearAll calls).hold = k.hold := by
  induction calls generalizing k with
  | nil => rfl
  | cons call rest ih => exact (ih (k.hear call).1).trans (k.hold_hear call)

theorem toNat_lt_of_mem_changes {calls : List Call} {c : KeyChange} (hc : c ∈ k.changes calls) :
    c.key.toNat < 16 := by
  induction calls generalizing k with
  | nil => exact absurd hc List.not_mem_nil
  | cons call rest ih =>
    obtain hc | hc := List.mem_append.mp hc
    · exact toNat_lt_of_mem_changes_hear call hc
    · exact ih hc

/-- What a keyboard tells of a key alternates. -/
theorem alternates_changes (k : Keyboard) (calls : List Call) (key : Fin 16) :
    Alternates (k.isHeld key) (switchesOf key (k.changes calls)) := by
  induction calls generalizing k with
  | nil => exact alternates_nil _
  | cons call rest ih =>
    rw [changes, switchesOf_append, switchesOf_hear]
    exact (ih (k.hear call).1).change_append (k.isHeld key)

/-- Keys to which all changes are applied stay those that the keyboard holds. -/
theorem keys_applyKeys_changes {m : Machine} (calls : List Call)
    (h : ∀ key, m.keys.get key = k.isHeld key) (key : Fin 16) :
    (applyKeys m (k.changes calls)).keys.get key = (k.hearAll calls).isHeld key := by
  induction calls generalizing k m with
  | nil => exact h key
  | cons call rest ih =>
    have hnext : ∀ key, (applyKeys m (k.hear call).2.changes).keys.get key =
        (k.hear call).1.isHeld key := by
      intro key
      rw [keys_applyKeys, switchesOf_hear, h, getLast?_change]
    have happly : applyKeys m (k.changes (call :: rest)) =
        applyKeys (applyKeys m (k.hear call).2.changes) ((k.hear call).1.changes rest) :=
      List.foldl_append
    rw [happly]
    exact ih hnext

/-- What a keyboard that held nothing at first has kept of a key is when it was reported last. -/
theorem latest?_of_get {hold : Nat} {calls : List Call} {t : Nat}
    (h : (({ hold } : Keyboard).hearAll calls).held.get key = some t) :
    latest? key calls = some t := by
  induction calls using List.reverseRecOn generalizing t with
  | nil =>
    have hnone : ({ hold } : Keyboard).held.get key = none := Vector.getElem_replicate key.isLt
    cases hnone.symm.trans h
  | append_singleton calls call ih =>
    rw [hearAll, List.foldl_append] at h
    rw [latest?, List.filterMap_append, List.getLast?_append]
    have hkept := get_hear _ call h
    cases htime : call.time? key with
    | some time =>
      rw [htime] at hkept
      rw [List.filterMap_cons_some htime]
      exact hkept
    | none =>
      rw [htime] at hkept
      rw [List.filterMap_cons_none htime]
      exact ih hkept

theorem get_eq_latest? {hold : Nat} {calls : List Call}
    (h : key ∈ (({ hold } : Keyboard).hearAll calls).heldKeys) :
    (({ hold } : Keyboard).hearAll calls).held.get key = latest? key calls := by
  obtain ⟨t, ht⟩ := Option.isSome_iff_exists.mp (mem_heldKeys.mp h)
  rw [ht, latest?_of_get ht]

/-- The stream of key changes. Whatever a keyboard is told, at whatever times, it tells of keys of
the keypad only, and what it tells of a key alternates, the first change pressing it. Whoever has no
key down at first and applies all changes has the keys down that the keyboard holds. And when old
keys are released, they are exactly the held ones whose last report is at least the hold time ago,
while the others stay held. Time that runs backwards counts as no time. -/
theorem key_stream (hold : Nat) (calls : List Call) :
    let k := ({ hold } : Keyboard).hearAll calls
    let changes := ({ hold } : Keyboard).changes calls
    (∀ c ∈ changes, c.key.toNat < 16) ∧
    (∀ key, Alternates false (switchesOf key changes)) ∧
    (∀ m : Machine, m.keys = Vector.replicate 16 false → ∀ key,
      (applyKeys m changes).keys.get key = true ↔ key ∈ k.heldKeys) ∧
    ∀ now,
      (k.expire now).2.changes =
        (k.heldKeys.filter fun key => (latest? key calls).any fun t => hold ≤ now - t).map
          (fun key => ⟨UInt8.ofNat key.val, false⟩) ∧
      (k.expire now).1.heldKeys =
        k.heldKeys.filter fun key => (latest? key calls).any fun t => now - t < hold := by
  intro k changes
  have hfresh : ∀ key, ({ hold } : Keyboard).isHeld key = false := by
    intro key
    have hnone : ({ hold } : Keyboard).held.get key = none := Vector.getElem_replicate key.isLt
    rw [isHeld, hnone]
    rfl
  have hhold : k.hold = hold := hold_hearAll _ calls
  refine ⟨fun c => toNat_lt_of_mem_changes, ?_, ?_, ?_⟩
  · intro key
    rw [← hfresh key]
    exact alternates_changes _ calls key
  · intro m hm key
    have hsame : ∀ key, m.keys.get key = ({ hold } : Keyboard).isHeld key := by
      intro key
      rw [hm, hfresh]
      exact Vector.getElem_replicate key.isLt
    rw [keys_applyKeys_changes calls hsame]
    exact mem_heldKeys.symm
  · intro now
    constructor
    · rw [changes_expire]
      refine congrArg (List.map _) (List.filter_congr fun key hkey => ?_)
      rw [get_eq_latest? hkey, ← hhold]
      rfl
    · rw [heldKeys_expire]
      refine List.filter_congr fun key hkey => ?_
      have hyoung : ∀ t, (!k.overdue now t) = decide (now - t < hold) := by
        intro t
        rw [overdue, hhold, Bool.eq_iff_iff]
        simp
      rw [get_eq_latest? hkey]
      simp only [hyoung]

/-- A key that is reported again before its time is up, once as a capital, and a clock that goes
backwards in between. -/
theorem key_stream_refreshed :
    let w : KeyReport := { code := .char 'w' }
    let capital : KeyReport := { code := .char 'W' }
    let calls : List Call := [.report 100 w, .expire 40, .report 150 capital, .expire 220]
    let k := ({ hold := 100 } : Keyboard).hearAll calls
    let changes := ({ hold := 100 } : Keyboard).changes calls
    ⟨5, true⟩ ∈ changes ∧ (5 : UInt8).toNat < 16 ∧ switchesOf 5 changes = [true] ∧
      (applyKeys {} changes).keys.get 5 = true ∧ latest? 5 calls = some 150 ∧
      (k.expire 249).2.changes = [] ∧ (k.expire 250).2.changes = [⟨5, false⟩] := by
  intro w capital calls k changes
  obtain ⟨hkeys, -, happlied, hreleased⟩ := key_stream 100 calls
  have hheld : k.heldKeys = [5] := by decide +kernel
  have hlatest : latest? 5 calls = some 150 := by decide +kernel
  have hmem : 5 ∈ k.heldKeys := by
    rw [hheld]
    exact List.mem_singleton_self 5
  have hpress : ⟨5, true⟩ ∈ changes := by decide +kernel
  refine ⟨hpress, hkeys _ hpress, by decide +kernel, (happlied {} rfl 5).mpr hmem, hlatest, ?_, ?_⟩
  · refine (hreleased 249).1.trans ?_
    show (k.heldKeys.filter _).map _ = []
    rw [hheld, List.filter_cons_of_neg]
    · rfl
    · rw [hlatest]
      decide
  · refine (hreleased 250).1.trans ?_
    show (k.heldKeys.filter _).map _ = _
    rw [hheld, List.filter_cons_of_pos]
    · rfl
    · rw [hlatest]
      decide

end Keyboard
end ChipEight
