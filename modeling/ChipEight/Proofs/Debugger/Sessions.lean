import ChipEight.Proofs.Debugger.Refusals

/-!
# Sessions share out a script

A debugger that reads a script is called again and again, each time with the machine as the program
has left it. Every pause takes a block of lines: the first ones that no pause before has taken, up
to one that lets the program go on. So the blocks of the pauses, in order, are the script from its
start, and every command of it is performed once.

A line that is no UTF-8 ends a pause too, and is the last of its block.
-/

namespace ChipEight.Debugger

open Text

/-! ## Lines of a script -/

/-- Lines that end with a line feed and have no other one in them. The last one may lack it, and is
not empty then. -/
inductive EachEnded : List (List UInt8) → Prop
  | nil : EachEnded []
  | last {line : List UInt8} (hne : line ≠ []) (hplain : 10 ∉ line) : EachEnded [line]
  | cons {text : List UInt8} {rest : List (List UInt8)} (hplain : 10 ∉ text)
      (hrest : EachEnded rest) : EachEnded ((text ++ [10]) :: rest)

theorem eachEnded_scriptLines (script : List UInt8) : EachEnded (scriptLines script) := by
  induction script with
  | nil => exact .nil
  | cons b rest ih =>
    rw [scriptLines]
    by_cases hb : b = 10
    · obtain rfl := hb
      rw [if_pos rfl]
      exact .cons (List.not_mem_nil (a := 10)) ih
    · have hplain : ∀ {text : List UInt8}, 10 ∉ text → 10 ∉ b :: text :=
        List.not_mem_cons_of_ne_of_not_mem (Ne.symm hb)
      rw [if_neg hb]
      -- The byte goes to the first of the lines behind it.
      generalize scriptLines rest = lines at ih
      cases ih with
      | nil => exact .last (List.cons_ne_nil b []) (hplain List.not_mem_nil)
      | last hne htext => exact .last (List.cons_ne_nil b _) (hplain htext)
      | cons htext hrest => exact .cons (hplain htext) hrest

/-! ## Lines that end a pause -/

/-- How a verb ends a pause, if it does. -/
def Verb.action? : Verb → Option Action
  | .resume => some .resume
  | .step => some .step
  | .quit => some .quit
  | _ => none

/-- How a line ends a pause, if it does. A line that is no UTF-8 means to quit. -/
def ending? (line : List UInt8) : Option Action :=
  match ofUtf8? line with
  | none => some .quit
  | some text => (Verb.ofText? (headAndRest (trim text)).1).bind Verb.action?

theorem map_perform_ne_leave {α : Type} (x : Except CommandFlaw α) (f : α → Command)
    (action : Action) : x.map (fun a => Request.perform (f a)) ≠ .ok (.leave action) := by
  cases x <;> exact nofun

theorem ofVerb_eq_leave_iff {s : List Char} {verb : Verb} {action : Action} :
    Request.ofVerb s verb = .ok (.leave action) ↔ verb.action? = some action := by
  cases verb with
  | resume | step | quit =>
    exact ⟨fun h => congrArg some (Request.leave.inj (Except.ok.inj h)),
      fun h => congrArg (Except.ok ∘ Request.leave) (Option.some.inj h)⟩
  | help => exact ⟨nofun, nofun⟩
  | print =>
    refine ⟨fun h => ?_, nofun⟩
    rw [Request.ofVerb] at h
    by_cases hempty : s.isEmpty
    · rw [if_pos hempty] at h
      cases h
    · rw [if_neg hempty] at h
      exact absurd h (map_perform_ne_leave _ Command.print action)
  | set => exact ⟨fun h => absurd h (map_perform_ne_leave (setArguments s) id action), nofun⟩
  | addBreakpoint | removeBreakpoint | load | save | loadFlags | saveFlags =>
    exact ⟨fun h => absurd h (map_perform_ne_leave _ _ action), nofun⟩

theorem requestOf_eq_leave_iff {text : List Char} {action : Action} :
    requestOf text = some (.ok (.leave action)) ↔
      (Verb.ofText? (headAndRest (trim text)).1).bind Verb.action? = some action := by
  unfold requestOf Request.ofText
  by_cases hblank : (trim text).isEmpty
  · rw [if_pos hblank, List.isEmpty_iff.mp hblank]
    exact ⟨nofun, nofun⟩
  · rw [if_neg hblank, Option.some_inj]
    dsimp only
    cases Verb.ofText? (headAndRest (trim text)).1 with
    | none => exact ⟨nofun, nofun⟩
    | some verb => exact ofVerb_eq_leave_iff

/-- A line ends a pause if it is no text, and means to quit, or if it asks to leave. -/
theorem ending?_eq_some_iff {line : List UInt8} {action : Action} :
    ending? line = some action ↔
      (asked? line = none ∧ action = .quit) ∨
        asked? line = some (some (.ok (.leave action))) := by
  unfold ending? asked?
  cases ofUtf8? line with
  | none =>
    rw [Option.map_none, Option.some_inj, eq_comm]
    exact ⟨fun h => .inl ⟨rfl, h⟩, fun h => (h.resolve_right nofun).2⟩
  | some text =>
    rw [Option.map_some, Option.some_inj, requestOf_eq_leave_iff]
    exact ⟨.inr, fun h => h.resolve_left nofun⟩

/-- The lines `n`, an empty one, one that is no UTF-8, and `q` without a line feed. -/
example : (scriptLines [0x6E, 10, 10, 0xFF, 10, 0x71]).map ending? =
    [some .step, none, some .quit, some .quit] := by decide +kernel

/-! ## What a block does -/

/-- The command of a line, if it has one. Lines that are blank, make no sense or end the pause have
none. -/
def command? (line : List UInt8) : Option Command :=
  match asked? line with
  | some (some (.ok (.perform command))) => some command
  | _ => none

/-- A machine and its files after commands, which are performed one after another. -/
def performAll (m : Machine) (folder : Folder) : List Command → Machine × Folder
  | [] => (m, folder)
  | command :: rest =>
    performAll (command.perform m folder).machine (command.perform m folder).folder rest

/-- What a pause takes of the lines that are left, and makes of the machine. -/
structure Takes (m : Machine) (s : Session) (block : List (List UInt8)) (p : Pause) : Prop where
  /-- It takes the first lines, and leaves the rest to the next pause. -/
  lines : s.lines = block ++ p.rest
  /-- The last line of the block, and no line before it, ends the pause; or there is no such line,
  and the script is at its end. -/
  ends : (∃ before last, block = before ++ [last] ∧ (∀ line ∈ before, ending? line = none) ∧
      ending? last = some p.action) ∨
    ((∀ line ∈ block, ending? line = none) ∧ p.rest = [] ∧ p.action = .quit)
  /-- The commands of the block are performed in their order, each once. -/
  performs : (p.machine, p.folder) = performAll m s.folder (block.filterMap command?)

variable {m : Machine} {folder : Folder} {line : List UInt8} {rest : List (List UInt8)}

/-- A line that ends a pause does nothing else. -/
theorem converse_of_ending (m : Machine) (folder : Folder) (rest : List (List UInt8))
    {action : Action} (h : ending? line = some action) :
    ∃ notices, converse m folder (line :: rest) =
      { action, machine := m, folder, rest, written := prompt, notices } := by
  rw [ending?_eq_some_iff] at h
  unfold asked? at h
  rw [converse]
  cases htext : ofUtf8? line with
  | none =>
    rw [htext] at h
    obtain ⟨-, rfl⟩ | h := h
    · exact ⟨_, rfl⟩
    · cases h
  | some text =>
    rw [htext] at h
    obtain ⟨h, -⟩ | h := h
    · cases h
    · dsimp only
      rw [Option.some.inj h]
      exact ⟨_, rfl⟩

theorem command?_of_ending {action : Action} (h : ending? line = some action) :
    command? line = none := by
  unfold command?
  obtain ⟨hasked, -⟩ | hasked := ending?_eq_some_iff.mp h
  · rw [hasked]
  · rw [hasked]

/-- Any other line has its command performed, if it has one. -/
theorem reply?_of_not_ending (m : Machine) (folder : Folder) (h : ending? line = none) :
    ∃ r, reply? m folder line = some r ∧
      (r.machine, r.folder) = performAll m folder (command? line).toList := by
  unfold reply? command?
  rcases hasked : asked? line with _ | _ | flaw | command | action
  · cases h.symm.trans (ending?_eq_some_iff.mpr (.inl ⟨hasked, rfl⟩))
  · exact ⟨_, rfl, rfl⟩
  · exact ⟨_, rfl, rfl⟩
  · exact ⟨_, rfl, rfl⟩
  · cases h.symm.trans (ending?_eq_some_iff.mpr (.inr hasked))

/-- A line that does not end the pause is one more for the block. -/
theorem Takes.cons {block : List (List UInt8)} {p : Pause} {next : Machine} {files : Folder}
    (hending : ending? line = none)
    (hperforms : (next, files) = performAll m folder (command? line).toList)
    (h : Takes next ⟨rest, files⟩ block p) : Takes m ⟨line :: rest, folder⟩ (line :: block) p where
  lines := congrArg (line :: ·) h.lines
  ends := by
    obtain ⟨before, last, rfl, hbefore, hlast⟩ | ⟨hblock, hend⟩ := h.ends
    · exact .inl ⟨line :: before, last, rfl, List.forall_mem_cons.mpr ⟨hending, hbefore⟩, hlast⟩
    · exact .inr ⟨List.forall_mem_cons.mpr ⟨hending, hblock⟩, hend⟩
  performs := by
    rw [h.performs, List.filterMap_cons]
    cases hcommand : command? line with
    | none =>
      rw [hcommand] at hperforms
      obtain ⟨rfl, rfl⟩ := Prod.mk.inj hperforms
      rfl
    | some command =>
      rw [hcommand] at hperforms
      obtain ⟨rfl, rfl⟩ := Prod.mk.inj hperforms
      rfl

/-- A block is as long as the lines that are left afterwards let it be. -/
theorem Takes.eq_take {s : Session} {block : List (List UInt8)} {p : Pause}
    (h : Takes m s block p) : block = s.lines.take (s.lines.length - p.rest.length) := by
  rw [h.lines, List.length_append, Nat.add_sub_cancel, List.take_left]

/-- What a pause writes and tells has no part in it. -/
theorem Takes.after {s : Session} {block : List (List UInt8)} {p : Pause} (h : Takes m s block p)
    (written : String) (notices : List Notice) : Takes m s block (p.after written notices) :=
  ⟨h.lines, h.ends, h.performs⟩

theorem exists_takes_converse (m : Machine) (folder : Folder) (lines : List (List UInt8)) :
    ∃ block, Takes m ⟨lines, folder⟩ block (converse m folder lines) := by
  induction lines generalizing m folder with
  | nil => exact ⟨[], rfl, .inr ⟨nofun, rfl, rfl⟩, rfl⟩
  | cons line rest ih =>
    cases hending : ending? line with
    | some action =>
      obtain ⟨notices, hconverse⟩ := converse_of_ending m folder rest hending
      rw [hconverse]
      refine ⟨[line], rfl, .inl ⟨[], line, rfl, nofun, hending⟩, ?_⟩
      rw [List.filterMap_cons, command?_of_ending hending]
      rfl
    | none =>
      obtain ⟨r, hreply, hperforms⟩ := reply?_of_not_ending m folder hending
      obtain ⟨block, htakes⟩ := ih r.machine r.folder
      rw [converse_of_reply? hreply]
      exact ⟨line :: block, (htakes.cons hending hperforms).after _ _⟩

/-- Every pause takes a block. -/
theorem Session.exists_takes (s : Session) (m : Machine) :
    ∃ block, Takes m s block (s.pause m) := by
  obtain ⟨block, htakes⟩ := exists_takes_converse m s.folder s.lines
  exact ⟨block, htakes.after _ _⟩

/-! ## One pause after another -/

namespace Session

/-- The debugger after pauses, one for each of the machines. -/
def afterPauses (s : Session) (machines : List Machine) : Session :=
  machines.foldl (fun s m => (s.pause m).session) s

/-- Blocks of lines, one for each pause. -/
structure SharesOut (s : Session) (machines : List Machine) (blocks : List (List (List UInt8))) :
    Prop where
  length : blocks.length = machines.length
  /-- The blocks are the lines that are not left. -/
  lines : s.lines = blocks.flatten ++ (s.afterPauses machines).lines
  /-- A pause takes its block, and the pauses before have taken the lines in front of it. -/
  pauses : ∀ k m, machines[k]? = some m → ∃ block, blocks[k]? = some block ∧
    s.lines = (blocks.take k).flatten ++ (s.afterPauses (machines.take k)).lines ∧
    Takes m (s.afterPauses (machines.take k)) block ((s.afterPauses (machines.take k)).pause m)

theorem exists_sharesOut (s : Session) (machines : List Machine) :
    ∃ blocks, s.SharesOut machines blocks := by
  -- The session changes from pause to pause.
  induction machines generalizing s with
  | nil =>
    refine ⟨[], rfl, rfl, fun k m hm => ?_⟩
    rw [List.getElem?_nil] at hm
    cases hm
  | cons m machines ih =>
    obtain ⟨block, htakes⟩ := s.exists_takes m
    obtain ⟨blocks, hshares⟩ := ih (s.pause m).session
    have hlines : ∀ blocks machines, (s.pause m).rest =
        blocks.flatten ++ ((s.pause m).session.afterPauses machines).lines →
        s.lines = (block :: blocks).flatten ++ (s.afterPauses (m :: machines)).lines := by
      intro blocks machines hrest
      rw [htakes.lines, List.flatten_cons, List.append_assoc]
      exact congrArg (block ++ ·) hrest
    refine ⟨block :: blocks, congrArg (· + 1) hshares.length, hlines _ _ hshares.lines, ?_⟩
    rintro (_ | k) next hnext
    · rw [List.getElem?_cons_zero] at hnext
      obtain rfl := Option.some.inj hnext
      exact ⟨block, rfl, rfl, htakes⟩
    · rw [List.getElem?_cons_succ] at hnext
      obtain ⟨later, hlater, hbefore, htakes⟩ := hshares.pauses k next hnext
      exact ⟨later, hlater, hlines _ _ hbefore, htakes⟩

/-- Sessions share out a script. Its lines are those between line feeds. Every pause takes the lines
that follow those of the pauses before, up to the first one that ends it or to the end of the
script; it answers as this line wants, and hands back the machine with the commands of its block
performed. -/
theorem sharesOut_script (script : List UInt8) (folder : Folder) (machines : List Machine) :
    EachEnded (scriptLines script) ∧ (scriptLines script).flatten = script ∧
      ∃ blocks, (ofScript script folder).SharesOut machines blocks :=
  ⟨eachEnded_scriptLines script, flatten_scriptLines script, exists_sharesOut _ machines⟩

/-- The lines `n`, an empty one, `hm`, `set V1 7`, `c` and `q`, for four pauses. -/
theorem sharesOut_script_four_pauses :
    let next : List UInt8 := [0x6E, 10]
    let unknown : List UInt8 := [0x68, 0x6D, 10]
    let set : List UInt8 := [0x73, 0x65, 0x74, 0x20, 0x56, 0x31, 0x20, 0x37, 10]
    let resume : List UInt8 := [0x63, 10]
    let quit : List UInt8 := [0x71, 10]
    let s := ofScript [next, [10], unknown, set, resume, quit].flatten {}
    let machines : List Machine := [{}, {}, {}, {}]
    let pause (k : Nat) := (s.afterPauses (machines.take k)).pause {}
    (∃ blocks, s.SharesOut machines blocks ∧ blocks[0]? = some [next] ∧
      blocks[1]? = some [[10], unknown, set, resume] ∧ blocks[2]? = some [quit] ∧
      blocks[3]? = some []) ∧
    ((pause 0).action, (pause 1).action, (pause 2).action, (pause 3).action) =
      (.step, .resume, .quit, .quit) ∧
    (pause 1).machine.register 1 = 7 := by
  intro next unknown set resume quit s machines pause
  obtain ⟨-, -, blocks, hshares⟩ :=
    sharesOut_script [next, [10], unknown, set, resume, quit].flatten {} machines
  have hblock (k : Nat) (hk : machines[k]? = some {}) : blocks[k]? =
      some ((s.afterPauses (machines.take k)).lines.take
        ((s.afterPauses (machines.take k)).lines.length - (pause k).rest.length)) := by
    obtain ⟨block, hblock, -, htakes⟩ := hshares.pauses k {} hk
    rw [hblock, htakes.eq_take]
  refine ⟨⟨blocks, hshares, (hblock 0 rfl).trans ?_, (hblock 1 rfl).trans ?_,
    (hblock 2 rfl).trans ?_, (hblock 3 rfl).trans ?_⟩, ?_, ?_⟩
  all_goals decide +kernel

end Session
end ChipEight.Debugger
