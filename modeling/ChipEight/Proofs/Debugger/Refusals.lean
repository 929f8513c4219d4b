import Mathlib.Control.Monad.Basic
import ChipEight.Debugger.Session

/-!
# Refused lines

A line that the debugger refuses with a complaint leaves the machine as it was. What makes it so is
different from command to command: a flaw of the command is found before anything is done, a change
of an attribute succeeds as a whole or not at all, and a dump is read into a new machine.

Loading the flag registers is the exception. It reads straight into them, so a file that is too
short is refused after its bytes have been stored.
-/

namespace ChipEight

/-! ## Files that are too short -/

namespace Machine

theorem readFlags_of_short {bytes : List UInt8} (m : Machine) (h : bytes.length < 8) :
    m.readFlags bytes = (some .shortRead, (m.readFlags bytes).2) := by
  unfold readFlags
  rw [if_pos h]

theorem readFlags_of_enough {bytes : List UInt8} (m : Machine) (h : ¬bytes.length < 8) :
    m.readFlags bytes = (none, (m.readFlags bytes).2) := by
  unfold readFlags
  rw [if_neg h]

/-- The bytes of a short file replace the first flag registers. -/
theorem dumpFlags_readFlags (m : Machine) {bytes : List UInt8} (hshort : bytes.length < 8) :
    (m.readFlags bytes).2.dumpFlags = bytes ++ m.dumpFlags.drop bytes.length := by
  have htake : bytes.take 8 = bytes := List.take_of_length_le (Nat.le_of_lt hshort)
  have hlength : m.dumpFlags.length = 8 := Vector.length_toList
  refine List.ext_getElem ?_ fun i (hi : i < 8) _ => ?_
  · rw [List.length_append, List.length_drop, hlength]
    show 8 = _
    omega
  · have hlt : i < m.dumpFlags.length := hlength ▸ hi
    have hcell : (m.readFlags bytes).2.dumpFlags[i] = bytes[i]?.getD m.dumpFlags[i] := by
      simp [dumpFlags, readFlags, flag, htake]
    rw [hcell]
    by_cases hgiven : i < bytes.length
    · rw [List.getElem_append_left hgiven, List.getElem?_eq_getElem hgiven, Option.getD_some]
    · have hle := Nat.le_of_not_lt hgiven
      rw [List.getElem_append_right hle, List.getElem_drop, List.getElem?_eq_none hle,
        Option.getD_none]
      congr 1
      omega

/-- A short file changes nothing exactly if it holds what the registers hold. -/
theorem readFlags_eq_self_iff {m : Machine} {bytes : List UInt8} (hshort : bytes.length < 8) :
    (m.readFlags bytes).2 = m ↔ bytes <+: m.dumpFlags := by
  have hdump := m.dumpFlags_readFlags hshort
  constructor
  · intro h
    rw [h] at hdump
    exact ⟨_, hdump.symm⟩
  · rintro ⟨rest, hrest⟩
    rw [← hrest, List.drop_left, hrest] at hdump
    have hflags : (m.readFlags bytes).2.flags = m.flags := Vector.toList_inj.mp hdump
    show { m with flags := (m.readFlags bytes).2.flags } = m
    rw [hflags]

end Machine

namespace Debugger

open Text

/-! ## Answers to a line -/

/-- What a line asks for, if it is text. -/
def asked? (line : List UInt8) : Option (Option (Except CommandFlaw Request)) :=
  (ofUtf8? line).map requestOf

/-- The reply to what a line asks for, unless this ends the pause. -/
def replyTo? (m : Machine) (folder : Folder) :
    Option (Except CommandFlaw Request) → Option Reply
  | none => some { machine := m, folder }
  | some (.error flaw) => some { machine := m, folder, written := flaw.message ++ "\n" }
  | some (.ok (.leave _)) => none
  | some (.ok (.perform command)) => some (command.perform m folder)

/-- The reply to a line, unless it ends the pause. -/
def reply? (m : Machine) (folder : Folder) (line : List UInt8) : Option Reply :=
  (asked? line).bind (replyTo? m folder)

/-- A pause answers a line with its reply, and goes on from what the reply leaves behind. -/
theorem converse_of_reply? {m : Machine} {folder : Folder} {line : List UInt8} {r : Reply}
    (h : reply? m folder line = some r) (rest : List (List UInt8)) :
    converse m folder (line :: rest) =
      (converse r.machine r.folder rest).after (prompt ++ r.written) r.notices := by
  rw [converse]
  unfold reply? asked? at h
  cases htext : ofUtf8? line with
  | none =>
    rw [htext] at h
    cases h
  | some text =>
    rw [htext] at h
    change replyTo? m folder (requestOf text) = some r at h
    dsimp only
    rcases hrequest : requestOf text with _ | flaw | command | action <;> rw [hrequest] at h
    · obtain rfl := Option.some.inj h
      rfl
    · obtain rfl := Option.some.inj h
      dsimp only
      rw [String.append_assoc]
    · obtain rfl := Option.some.inj h
      rfl
    · cases h

/-! ## Complaints -/

/-- The texts with which the debugger refuses a line. -/
inductive IsComplaint : String → Prop
  | command (flaw : CommandFlaw) : IsComplaint (flaw.message ++ "\n")
  | set (flaw : SetFlaw) : IsComplaint (flaw.message ++ "\n")
  | file (cause : String) : IsComplaint (invalidFile cause)

theorem append_lineFeed_ne_empty (text : String) : text ++ "\n" ≠ "" := by simp

theorem IsComplaint.ne_empty {text : String} (h : IsComplaint text) : text ≠ "" := by
  cases h <;> exact append_lineFeed_ne_empty _

/-! ## Refused commands -/

/-- The bytes from which a command loads the flag registers. -/
def Command.flagBytes? (folder : Folder) : Command → Option (List UInt8)
  | .loadFlags path => (folder.read path).toOption
  | _ => none

/-- What refused commands leave behind: the machine itself, or what a short file made of it. -/
def Leaves (m : Machine) (given : Option (List UInt8)) (next : Machine) : Prop :=
  (given = none ∧ next = m) ∨
    ∃ bytes, given = some bytes ∧ bytes.length < 8 ∧ next = (m.readFlags bytes).2

theorem leaves_loadFlags {m : Machine} {folder : Folder} {path : String}
    (hwritten : ((Command.loadFlags path).perform m folder).written ≠ "") :
    Leaves m ((Command.loadFlags path).flagBytes? folder)
      ((Command.loadFlags path).perform m folder).machine := by
  show Leaves m (folder.read path).toOption _
  cases hread : folder.read path with
  | error cause => exact .inl ⟨rfl, by rw [Command.perform, hread]⟩
  | ok bytes =>
    by_cases hshort : bytes.length < 8
    · refine .inr ⟨bytes, rfl, hshort, ?_⟩
      rw [Command.perform, hread]
      dsimp only
      rw [m.readFlags_of_short hshort]
    · refine absurd ?_ hwritten
      rw [Command.perform, hread]
      dsimp only
      rw [m.readFlags_of_enough hshort]

/-- A command that writes something changes nothing, unless it loads the flag registers. -/
theorem leaves_perform {m : Machine} {folder : Folder} {command : Command}
    (hwritten : (command.perform m folder).written ≠ "") :
    Leaves m (command.flagBytes? folder) (command.perform m folder).machine := by
  cases command with
  | addBreakpoint | removeBreakpoint => exact absurd rfl hwritten
  | help | printAll | print => exact .inl ⟨rfl, rfl⟩
  | set a value =>
    cases hchange : a.change m value with
    | ok next => exact absurd (by rw [Command.perform, hchange]) hwritten
    | error flaw => exact .inl ⟨rfl, by rw [Command.perform, hchange]⟩
  | load path =>
    cases hload : loadDump m folder path with
    | ok next => exact absurd (by rw [Command.perform, hload]) hwritten
    | error failure => exact .inl ⟨rfl, by rw [Command.perform, hload]⟩
  | save path =>
    cases hsave : folder.write path m.dump with
    | ok next => exact absurd (by rw [Command.perform, hsave]) hwritten
    | error cause => exact .inl ⟨rfl, by rw [Command.perform, hsave]⟩
  | loadFlags path => exact leaves_loadFlags hwritten
  | saveFlags path =>
    cases hsave : folder.write path m.dumpFlags with
    | ok next => exact absurd (by rw [Command.perform, hsave]) hwritten
    | error cause => exact .inl ⟨rfl, by rw [Command.perform, hsave]⟩

/-! ## Refused lines -/

/-- The bytes from which a line loads the flag registers. -/
def flagBytes? (folder : Folder) (line : List UInt8) : Option (List UInt8) :=
  match asked? line with
  | some (some (.ok (.perform command))) => command.flagBytes? folder
  | _ => none

theorem leaves_reply {m : Machine} {folder : Folder} {line : List UInt8} {r : Reply}
    (hreply : reply? m folder line = some r) (hwritten : r.written ≠ "") :
    Leaves m (flagBytes? folder line) r.machine := by
  -- A flaw and a blank line are answered without a command.
  obtain ⟨request, hasked, hrequest⟩ := Option.bind_eq_some_iff.mp hreply
  unfold flagBytes?
  rw [hasked]
  rcases request with _ | flaw | command | action
  · obtain rfl := Option.some.inj hrequest
    exact .inl ⟨rfl, rfl⟩
  · obtain rfl := Option.some.inj hrequest
    exact .inl ⟨rfl, rfl⟩
  · obtain rfl := Option.some.inj hrequest
    exact leaves_perform hwritten
  · cases hrequest

/-- A refused line leaves the machine as it was, in every field, if and only if it does not load
the flag registers from a file that holds other bytes than the first of them. Even then all other
fields stay. The pause goes on from the machine of the reply. -/
theorem machine_of_refused_line {m : Machine} {folder : Folder} {line : List UInt8} {r : Reply}
    (hreply : reply? m folder line = some r) (hrefused : IsComplaint r.written) :
    (∀ rest, converse m folder (line :: rest) =
      (converse r.machine r.folder rest).after (prompt ++ r.written) r.notices) ∧
    (r.machine = m ↔ ∀ bytes, flagBytes? folder line = some bytes → bytes <+: m.dumpFlags) ∧
    r.machine = { m with flags := r.machine.flags } := by
  refine ⟨converse_of_reply? hreply, ?_⟩
  obtain ⟨hnone, hsame⟩ | ⟨bytes, hbytes, hshort, hchanged⟩ := leaves_reply hreply hrefused.ne_empty
  · rw [hnone, hsame]
    exact ⟨⟨fun _ => nofun, fun _ => rfl⟩, rfl⟩
  · rw [hbytes, hchanged, Machine.readFlags_eq_self_iff hshort]
    refine ⟨⟨?_, fun h => h bytes rfl⟩, rfl⟩
    rintro h _ ⟨⟩
    exact h

/-- A file of one byte, which its register holds already. -/
theorem machine_of_refused_line_same :
    let m : Machine := { flags := Vector.replicate 8 7 }
    let folder : Folder := { files := [("f", [7])] }
    let line : List UInt8 := [0x6C, 0x6F, 0x61, 0x64, 0x66, 0x6C, 0x61, 0x67, 0x73, 0x20, 0x66, 10]
    ∃ r, reply? m folder line = some r ∧ IsComplaint r.written ∧ r.machine = m := by
  intro m folder line
  have hasked : asked? line = some (some (.ok (.perform (.loadFlags "f")))) := by decide +kernel
  have hreply : reply? m folder line = some ((Command.loadFlags "f").perform m folder) := by
    rw [reply?, hasked]
    rfl
  have hwritten : ((Command.loadFlags "f").perform m folder).written =
      invalidFile "failed to fill whole buffer" := by decide +kernel
  have hrefused := IsComplaint.file "failed to fill whole buffer"
  rw [← hwritten] at hrefused
  have hflags : ∀ bytes, flagBytes? folder line = some bytes → bytes <+: m.dumpFlags := by
    intro bytes hbytes
    rw [flagBytes?, hasked] at hbytes
    obtain rfl : [7] = bytes := Option.some.inj hbytes
    decide +kernel
  exact ⟨_, hreply, hrefused, (machine_of_refused_line hreply hrefused).2.1.mpr hflags⟩

/-- A file of one byte for a new machine: the line is refused, but R0 has got the byte. -/
theorem machine_of_refused_line_changed :
    let m : Machine := Machine.ofSeed 0
    let folder : Folder := { files := [("f", [7])] }
    let line : List UInt8 := [0x6C, 0x6F, 0x61, 0x64, 0x66, 0x6C, 0x61, 0x67, 0x73, 0x20, 0x66, 10]
    ∃ r, reply? m folder line = some r ∧ r.written = invalidFile "failed to fill whole buffer" ∧
      m.flag 0 = 0 ∧ r.machine.flag 0 = 7 := by
  intro m folder line
  have hasked : asked? line = some (some (.ok (.perform (.loadFlags "f")))) := by decide +kernel
  have hreply : reply? m folder line = some ((Command.loadFlags "f").perform m folder) := by
    rw [reply?, hasked]
    rfl
  exact ⟨_, hreply, by decide +kernel, by decide +kernel, by decide +kernel⟩

end Debugger
end ChipEight
