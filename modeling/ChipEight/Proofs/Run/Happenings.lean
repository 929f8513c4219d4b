import ChipEight.Run.Loop

/-!
# Happenings and parts of a tick

Something outside the loop, the beeper or the display, is known by what happened to it last. A
function that reads such a change off a single happening is extended to rows of happenings here.

The parts of a tick before the machine has its turn touch little of it: key changes the keys, and
the user's wishes about the debugger nothing.
-/

namespace ChipEight

/-! ## Reading happenings -/

variable {α : Type} {f : Happening → Option α}

/-- The last change that was read from happenings, if there was one. -/
def lastOf (f : Happening → Option α) (happenings : List Happening) : Option α :=
  (happenings.filterMap f).getLast?

/-- What something has become after happenings. -/
def heldAfter (f : Happening → Option α) (was : α) (happenings : List Happening) : α :=
  (lastOf f happenings).getD was

/-- Nothing is read from any of the happenings. -/
def Silent (f : Happening → Option α) (happenings : List Happening) : Prop :=
  ∀ x ∈ happenings, f x = none

theorem lastOf_append (xs ys : List Happening) :
    lastOf f (xs ++ ys) = (lastOf f ys).or (lastOf f xs) := by
  rw [lastOf, List.filterMap_append, List.getLast?_append]
  rfl

theorem heldAfter_append (was : α) (xs ys : List Happening) :
    heldAfter f was (xs ++ ys) = heldAfter f (heldAfter f was xs) ys := by
  rw [heldAfter, lastOf_append, heldAfter, heldAfter]
  cases lastOf f ys <;> rfl

theorem lastOf_eq_none_iff {happenings : List Happening} :
    lastOf f happenings = none ↔ Silent f happenings := by
  rw [lastOf, List.getLast?_eq_none_iff, List.filterMap_eq_nil_iff]
  rfl

theorem silent_nil : Silent f [] := nofun

theorem silent_singleton {x : Happening} (h : f x = none) : Silent f [x] := by
  intro y hy
  rw [List.mem_singleton.mp hy]
  exact h

theorem silent_of_forall_eq {x : Happening} (hx : f x = none) {happenings : List Happening}
    (h : ∀ y ∈ happenings, y = x) : Silent f happenings := by
  intro y hy
  rw [h y hy]
  exact hx

theorem Silent.cons {x : Happening} {xs : List Happening} (h : Silent f xs) (hx : f x = none) :
    Silent f (x :: xs) :=
  List.forall_mem_cons.mpr ⟨hx, h⟩

theorem silent_map {β : Type} {g : β → Happening} (h : ∀ b, f (g b) = none) (bs : List β) :
    Silent f (bs.map g) := by
  intro x hx
  obtain ⟨b, -, rfl⟩ := List.mem_map.mp hx
  exact h b

theorem Silent.append {xs ys : List Happening} (hx : Silent f xs) (hy : Silent f ys) :
    Silent f (xs ++ ys) :=
  List.forall_mem_append.mpr ⟨hx, hy⟩

theorem Silent.heldAfter_eq {happenings : List Happening} (h : Silent f happenings) (was : α) :
    heldAfter f was happenings = was := by
  rw [heldAfter, lastOf_eq_none_iff.mpr h]
  rfl

/-! ## Parts of a tick -/

/-- A machine with other keys down. -/
def Machine.withKeys (m : Machine) (keys : Vector Bool 16) : Machine := { m with keys }

namespace Loop

/-- Key changes change the keys and nothing else. -/
theorem applyKeys_eq (m : Machine) (changes : List KeyChange) :
    applyKeys m changes = m.withKeys (applyKeys m changes).keys := by
  induction changes generalizing m with
  | nil => rfl
  | cons change rest ih => exact ih (m.setKey change.key change.down)

theorem deliver_of_no_press (m : Machine) {events : Events} (hpress : events.firstPress = none) :
    deliver m events = m := by
  rw [deliver, hpress]
  split
  · contradiction
  · rfl

/-- The user's wishes turn the debugger on and off, the latter if in doubt, and do nothing else. -/
theorem loop_turnDebugger (l : Loop) (events : Events) (attached : Bool) :
    (l.turnDebugger events attached).1 =
      { l with
        debugging := !events.exitDebug && (l.debugging || events.enterDebug && attached)
        stepping := !events.exitDebug && (l.stepping || events.enterDebug && attached) } := by
  obtain ⟨changes, quit, enterDebug, exitDebug⟩ := events
  obtain ⟨machine, clock, debugging, stepping, verbose, beeping⟩ := l
  cases enterDebug <;> cases exitDebug <;> cases attached <;> cases debugging <;>
    cases stepping <;> rfl

theorem machine_turnDebugger (l : Loop) (events : Events) (attached : Bool) :
    (l.turnDebugger events attached).1.machine = l.machine := by
  rw [loop_turnDebugger]

theorem loop_setBeeper (l : Loop) (on : Bool) (answer : Option String) :
    (l.setBeeper on answer).1 = { l with beeping := on } := by
  unfold setBeeper
  split
  · rw [‹on = l.beeping›]
  · rfl

theorem loop_paint {δ : Type} (l : Loop) (s : Surroundings δ) :
    (l.paint s).loop = { l with machine := { l.machine with redraw := false } } := by
  unfold paint
  dsimp only [Machine.takeRedraw]
  split
  · split <;> rfl
  · rfl

/-! ## What parts of a tick tell -/

theorem silent_trace (hnotice : ∀ n, f (.notice n) = none) (l : Loop) : Silent f l.trace := by
  unfold trace
  split
  · exact silent_singleton (hnotice _)
  · exact silent_nil

theorem mem_turnDebugger {l : Loop} {events : Events} {attached : Bool} {x : Happening}
    (hx : x ∈ (l.turnDebugger events attached).2) : x = .notice .noDebugger := by
  unfold turnDebugger at hx
  dsimp only at hx
  split at hx
  · split at hx
    · exact absurd hx List.not_mem_nil
    · exact List.mem_singleton.mp hx
  · exact absurd hx List.not_mem_nil

theorem silent_turnDebugger (hnone : f (.notice .noDebugger) = none) (l : Loop) (events : Events)
    (attached : Bool) : Silent f (l.turnDebugger events attached).2 :=
  silent_of_forall_eq hnone fun _ hx => mem_turnDebugger hx

theorem silent_setBeeper (hbeep : f .beep = none) (hstop : f .stop = none)
    (hfailed : ∀ text, f (.notice (.beeperFailed text)) = none) (l : Loop) (on : Bool)
    (answer : Option String) : Silent f (l.setBeeper on answer).2 := by
  unfold setBeeper
  split
  · exact silent_nil
  · have hcall : Silent f [if on then .beep else .stop] :=
      silent_singleton (by cases on <;> assumption)
    exact hcall.append (silent_map hfailed _)

end Loop
end ChipEight
