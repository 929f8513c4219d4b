import Mathlib.Data.List.Induction
import ChipEight.Proofs.Debugger.Changes
import ChipEight.Proofs.Machine.DumpFields
import ChipEight.Proofs.Machine.Effects

/-!
# Colours in range

A colour has 24 bits. Wherever one is read from a text, be it a pair, a line of a file or the value
of an attribute, larger numbers are refused, but a dump has room for 32 bits and none of them is
looked at. So the colours of a machine stay in range as long as no dump with a wider colour is
restored, and no longer than that.

A dump that the machine has written itself is as wide as its colours were.
-/

namespace ChipEight

/-! ## Palettes -/

/-- Both colours have 24 bits. -/
structure Palette.InRange (p : Palette) : Prop where
  background : p.background.toNat ≤ maxColour
  foreground : p.foreground.toNat ≤ maxColour

namespace Palette

theorem inRange_default : ({} : Palette).InRange := ⟨by decide, by decide⟩

theorem toNat_le_of_colourOr {text : List Char} {value : Option Nat} {colour : UInt32}
    (h : colourOr text (value.filter (· ≤ maxColour)) = .ok colour) : colour.toNat ≤ maxColour := by
  cases hvalue : value.filter (· ≤ maxColour) with
  | none =>
    rw [hvalue] at h
    cases h
  | some n =>
    have hn : n ≤ maxColour := of_decide_eq_true (Option.filter_eq_some_iff.mp hvalue).2
    rw [hvalue] at h
    obtain rfl := Except.ok.inj h
    rwa [Debugger.toNat_colour hn]

/-- Two colours that are read one after the other, each of them in range, are a palette in range. -/
theorem inRange_of_colours {first second : Except Failure UInt32} {p : Palette}
    (hfirst : ∀ c, first = .ok c → c.toNat ≤ maxColour)
    (hsecond : ∀ c, second = .ok c → c.toNat ≤ maxColour)
    (h : (do
      let background ← first
      let foreground ← second
      return { background, foreground }) = Except.ok p) : p.InRange := by
  cases first with
  | error failure => cases h
  | ok background =>
    cases second with
    | error failure => cases h
    | ok foreground =>
      obtain rfl := Except.ok.inj h
      exact ⟨hfirst background rfl, hsecond foreground rfl⟩

/-- A palette that was read from a text or from a file. -/
def IsRead (p : Palette) : Prop := ∃ text, parse text = .ok p ∨ ofFile text = .ok p

theorem IsRead.inRange {p : Palette} (h : p.IsRead) : p.InRange := by
  obtain ⟨text, hparse | hfile⟩ := h
  · rw [parse] at hparse
    split at hparse
    · cases hparse
    · exact inRange_of_colours (fun _ h => toNat_le_of_colourOr h)
        (fun _ h => toNat_le_of_colourOr h) hparse
  · rw [ofFile] at hfile
    split at hfile
    · cases hfile
    · rename_i only _
      cases hcolour : fileColour only <;> rw [hcolour] at hfile <;> cases hfile
    · exact inRange_of_colours (fun _ h => toNat_le_of_colourOr h)
        (fun _ h => toNat_le_of_colourOr h) hfile

end Palette

/-! ## Dumps -/

namespace Dump

/-- A dump in which a colour has more than 24 bits. -/
def IsWide (bytes : List UInt8) : Prop :=
  IsDump bytes ∧ ¬(byteAt bytes 12377 = 0 ∧ byteAt bytes 12381 = 0)

/-- A colour has 24 bits if the first of its four bytes is zero. -/
theorem toNat_le_maxColour_iff {colour : UInt32} {bytes : List UInt8} {start : Nat}
    (h : ofDouble colour = piece bytes start 4) :
    colour.toNat ≤ maxColour ↔ byteAt bytes start = 0 := by
  have hfirst : UInt8.ofNat (colour.toNat >>> 24) = byteAt bytes start := by
    have hhead := congrArg (fun taken => List.getD taken 0 0) h
    simpa [ofDouble, piece, byteAt] using hhead
  have hlt := colour.toNat_lt
  rw [← hfirst, ← UInt8.toNat_inj, UInt8.toNat_ofNat', Nat.shiftRight_eq_div_pow]
  show colour.toNat ≤ 16777215 ↔ colour.toNat / 2 ^ 24 % 2 ^ 8 = 0
  omega

theorem Describes.inRange_iff {bytes : List UInt8} {m : Machine} (h : Describes bytes m) :
    m.palette.InRange ↔ byteAt bytes 12377 = 0 ∧ byteAt bytes 12381 = 0 := by
  rw [← toNat_le_maxColour_iff h.background, ← toNat_le_maxColour_iff h.foreground]
  exact ⟨fun hrange => ⟨hrange.background, hrange.foreground⟩,
    fun hrange => ⟨hrange.1, hrange.2⟩⟩

/-- What a machine writes is a wide dump if its colours are out of range. -/
theorem isWide_dump_iff {m : Machine} (h : m.breakpoints.size ≤ 65535) :
    IsWide m.dump ↔ ¬m.palette.InRange := by
  have hrestore := m.restore_whole_dump m h
  have hdump : IsDump m.dump := (m.exists_restore_iff m.dump).mp ⟨_, hrestore⟩
  have hrange := (Machine.describes_of_restore hrestore).1.inRange_iff
  rw [IsWide, and_iff_right hdump, ← hrange]

end Dump

/-! ## Requests and commands -/

namespace Machine

variable {m : Machine}

/-- A request leaves the colours alone unless it is there to set them. -/
theorem palette_serve (m : Machine) {r : Request} (hset : ∀ p, r ≠ .setPalette p)
    (hrestore : ∀ bytes, r ≠ .restore bytes) : (m.serve r).palette = m.palette := by
  cases r with
  | setFonts f => rw [serve, setFonts]
  | _ =>
    refine SameLook.palette (m.sameLook_serve hset ?_ hrestore)
    rintro _ ⟨⟩

end Machine

namespace Debugger

variable {m next : Machine}

/-- A colour is changed to a number in range, and the other attributes are no colours. -/
theorem Attribute.inRange_of_change {a : Attribute} {s : List Char} (h : a.change m s = .ok next)
    (hrange : m.palette.InRange) : next.palette.InRange := by
  have hset := setOrRefused m s a
  have hlargest {n : Nat}
      (hvalue : (Text.numberUpTo? maxColour s).map Value.number = some (.number n)) :
      n ≤ maxColour := by
    obtain ⟨k, hk, heq⟩ := Option.map_eq_some_iff.mp hvalue
    cases heq
    exact of_decide_eq_true (Option.filter_eq_some_iff.mp hk).2
  rw [h] at hset
  generalize hvalue : a.value? s = given at hset
  cases hset with
  | accepted hsets =>
    cases hsets with
    | background hn => exact ⟨hn ▸ hlargest hvalue, hrange.foreground⟩
    | foreground hn => exact ⟨hrange.background, hn ▸ hlargest hvalue⟩
    | _ => exact hrange

/-- A command keeps the colours in range unless it loads a dump. -/
theorem Command.inRange_perform {c : Command} {folder : Folder} (hload : ∀ path, c ≠ .load path)
    (hrange : m.palette.InRange) : (c.perform m folder).machine.palette.InRange := by
  cases c with
  | load path => exact absurd rfl (hload path)
  | set a s =>
    rw [perform]
    cases hchange : a.change m s with
    | error flaw => exact hrange
    | ok next => exact a.inRange_of_change hchange hrange
  | save path | saveFlags path =>
    rw [perform]
    split <;> exact hrange
  | loadFlags path =>
    rw [perform]
    cases folder.read path with
    | error cause => exact hrange
    | ok bytes =>
      have hkept : (m.readFlags bytes).2.palette = m.palette := rfl
      dsimp only
      split <;> rename_i hflags <;> rw [hflags] at hkept <;> exact hkept ▸ hrange
  | _ => exact hrange

end Debugger

/-! ## Moves -/

/-- What can be done to a machine: a request to it, or a command of the debugger, for which these
files are there. -/
inductive Move
  | request (request : Request)
  | command (command : Debugger.Command) (folder : Folder)

namespace Move

open Dump

/-- The machine after a move. -/
def run (m : Machine) : Move → Machine
  | request r => m.serve r
  | command c folder => (c.perform m folder).machine

/-- The bytes that a move restores a machine from. -/
def dump? : Move → Option (List UInt8)
  | request (.restore bytes) => some bytes
  | command (.load path) folder => (folder.readFile path).toOption
  | _ => none

/-- A palette that a move sets was read. -/
def SetsRead : Move → Prop
  | request (.setPalette p) => p.IsRead
  | _ => True

/-- A move that restores a machine from a dump with a colour of more than 24 bits. -/
def Widens (move : Move) : Prop := ∃ bytes, move.dump? = some bytes ∧ IsWide bytes

variable {m : Machine} {move : Move} {bytes : List UInt8}

theorem run_of_dump? (h : move.dump? = some bytes) : move.run m = m.orKeep (m.restore bytes) := by
  cases move with
  | request r =>
    cases r <;> cases h
    rfl
  | command c folder =>
    cases c with
    | load path =>
      rw [dump?] at h
      cases hread : folder.readFile path with
      | error failure =>
        rw [hread] at h
        cases h
      | ok read =>
        rw [hread] at h
        obtain rfl := Option.some.inj h
        have hload : Debugger.loadDump m folder path = m.restore read := by
          rw [Debugger.loadDump, hread]
          rfl
        rw [run, Debugger.Command.perform, hload]
        cases m.restore read <;> rfl
    | _ => cases h

/-- A move that restores nothing keeps the colours in range. -/
theorem inRange_run_of_dump?_eq_none (hread : move.SetsRead) (hdump : move.dump? = none)
    (hrange : m.palette.InRange) : (move.run m).palette.InRange := by
  cases move with
  | request r =>
    by_cases hset : ∃ p, r = .setPalette p
    · obtain ⟨p, rfl⟩ := hset
      exact Palette.IsRead.inRange hread
    · have hrestore : ∀ bytes, r ≠ .restore bytes := by
        rintro bytes rfl
        cases hdump
      have hkept := m.palette_serve (fun p h => hset ⟨p, h⟩) hrestore
      exact hkept ▸ hrange
  | command c folder =>
    by_cases hload : ∃ path, c = .load path
    · obtain ⟨path, rfl⟩ := hload
      rw [dump?] at hdump
      cases hfile : folder.readFile path with
      | error failure =>
        rw [run, Debugger.Command.perform, Debugger.loadDump, hfile]
        exact hrange
      | ok bytes =>
        rw [hfile] at hdump
        cases hdump
    · exact c.inRange_perform (fun path h => hload ⟨path, h⟩) hrange

/-- A move takes the colours out of range exactly if it restores a wide dump. -/
theorem inRange_run_iff (hread : move.SetsRead) (hrange : m.palette.InRange) :
    (move.run m).palette.InRange ↔ ¬move.Widens := by
  cases hdump : move.dump? with
  | none =>
    refine iff_of_true (inRange_run_of_dump?_eq_none hread hdump hrange) ?_
    rintro ⟨bytes, hbytes, -⟩
    rw [hdump] at hbytes
    cases hbytes
  | some bytes =>
    have hwidens : move.Widens ↔ IsWide bytes := by
      rw [Widens, hdump]
      constructor
      · rintro ⟨_, ⟨⟩, hwide⟩
        exact hwide
      · exact fun hwide => ⟨bytes, rfl, hwide⟩
    have hlayout := m.exists_restore_iff bytes
    rw [run_of_dump? hdump, hwidens]
    cases hrestore : m.restore bytes with
    | error failure =>
      refine iff_of_true hrange fun hwide => ?_
      obtain ⟨next, hok⟩ := hlayout.mpr hwide.1
      rw [hrestore] at hok
      cases hok
    | ok next =>
      have hdescribes := (Machine.describes_of_restore hrestore).1
      rw [IsWide, and_iff_right (hlayout.mp ⟨next, hrestore⟩), not_not]
      exact hdescribes.inRange_iff

/-! ## Runs -/

/-- The machine after moves, one after another. -/
def runAll (m : Machine) (moves : List Move) : Machine := moves.foldl run m

theorem runAll_concat (m : Machine) (moves : List Move) (move : Move) :
    runAll m (moves ++ [move]) = move.run (runAll m moves) := List.foldl_concat ..

theorem runAll_restore {next : Machine} (h : m.restore bytes = .ok next) :
    runAll m [.request (.restore bytes)] = next := by
  show m.orKeep (m.restore bytes) = next
  rw [h]
  rfl

theorem inRange_runAll {moves : List Move} (hrange : m.palette.InRange)
    (hread : ∀ move ∈ moves, move.SetsRead) (hwidens : ∀ move ∈ moves, ¬move.Widens) :
    (runAll m moves).palette.InRange := by
  induction moves using List.reverseRecOn with
  | nil => exact hrange
  | append_singleton moves move ih =>
    have hlast : move ∈ moves ++ [move] := List.mem_append_right _ (List.mem_singleton_self _)
    have hbefore := ih (fun other h => hread other (List.mem_append_left _ h))
      fun other h => hwidens other (List.mem_append_left _ h)
    rw [runAll_concat]
    exact (inRange_run_iff (hread move hlast) hbefore).mpr (hwidens move hlast)

/-- From a new machine on, the colours are in range after all moves, as long as palettes that are
set were read from texts, exactly if none of the moves restores a wide dump. -/
theorem palettes_inRange_iff (seed : UInt64) (moves : List Move)
    (hread : ∀ move ∈ moves, move.SetsRead) :
    (∀ earlier, earlier <+: moves → (runAll (Machine.ofSeed seed) earlier).palette.InRange) ↔
      ∀ move ∈ moves, ¬move.Widens := by
  constructor
  · intro hrange move hmove
    obtain ⟨earlier, later, rfl⟩ := List.append_of_mem hmove
    have hprefix : earlier ++ [move] <+: earlier ++ move :: later := ⟨later, by simp⟩
    have hafter := hrange _ hprefix
    rw [runAll_concat] at hafter
    have hbefore := hrange earlier (List.prefix_append _ _)
    exact (inRange_run_iff (hread move hmove) hbefore).mp hafter
  · intro hwidens earlier hearlier
    exact inRange_runAll Palette.inRange_default (fun move h => hread move (hearlier.subset h))
      fun move h => hwidens move (hearlier.subset h)

/-- Colours from a text, a colour from the debugger, and a dump that holds the first two again. -/
theorem palettes_inRange_of_own_dump :
    let p : Palette := { background := 0x102030, foreground := 7 }
    let coloured := (Machine.ofSeed 0).setPalette p
    let moves := [Move.request (.setPalette p), .command (.set .background ['9']) {},
      .request (.restore coloured.dump)]
    (∀ move ∈ moves, move.SetsRead) ∧
      ∀ earlier, earlier <+: moves → (runAll (Machine.ofSeed 0) earlier).palette.InRange := by
  intro p coloured moves
  have hparse : Palette.parse ['#', '1', '0', '2', '0', '3', '0', ',', '7'] = .ok p := by
    decide +kernel
  have hread : ∀ move ∈ moves, move.SetsRead := by
    refine List.forall_mem_cons.mpr ⟨⟨_, .inl hparse⟩, ?_⟩
    exact List.forall_mem_cons.mpr ⟨trivial, List.forall_mem_singleton.mpr trivial⟩
  have hnarrow : ¬IsWide coloured.dump :=
    fun h => (isWide_dump_iff (by decide)).mp h ⟨by decide, by decide⟩
  refine ⟨hread, (palettes_inRange_iff 0 moves hread).mpr ?_⟩
  refine List.forall_mem_cons.mpr ⟨nofun, List.forall_mem_cons.mpr ⟨nofun, ?_⟩⟩
  refine List.forall_mem_singleton.mpr ?_
  rintro ⟨bytes, hbytes, hwide⟩
  obtain rfl := Option.some.inj hbytes
  exact hnarrow hwide

/-- A new machine accepts a dump whose background has 25 bits, and has that background then. -/
theorem palette_not_inRange_after_restore :
    let wide := { Machine.ofSeed 0 with palette := { background := 0x01000000 } }
    let next := runAll (Machine.ofSeed 0) [.request (.restore wide.dump)]
    (Machine.ofSeed 0).restore wide.dump = .ok next ∧
      next.palette.background = 0x01000000 ∧ ¬next.palette.InRange := by
  intro wide next
  have hrestore := wide.restore_whole_dump (Machine.ofSeed 0) (by decide)
  have hnext : next = _ := runAll_restore hrestore
  rw [hnext]
  have hwide : ¬(0x01000000 : UInt32).toNat ≤ maxColour := by decide
  exact ⟨hrestore, rfl, fun h => hwide h.background⟩

end Move
end ChipEight
