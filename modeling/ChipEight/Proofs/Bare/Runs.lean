import Mathlib.Data.List.Induction
import ChipEight.Proofs.Bare.Requests
import ChipEight.Proofs.Machine.DumpFields
import ChipEight.Proofs.Machine.Effects

/-!
# Runs of bare storage

`WellFormed` says what every request keeps. A well-formed state is a machine without its promises
(`exists_bare_eq`), so what was shown of single requests to such machines holds of it: no request
stops it, and it stays well-formed. By induction this holds along every list of requests.

The names of fonts are no part of it: a font may be chosen by a name that is in no table, and is
dumped as the first one then. The other numbers that a dump cuts to a byte fit one.
-/

namespace ChipEight

open Dump

namespace Bare.State

/-- The return addresses, oldest first. -/
def returns (s : State) : Option (List UInt16) := slice s.stack s.depth

/-! ## Well-formed states -/

/-- What every request keeps. -/
structure WellFormed (s : State) : Prop where
  memory : s.memory.size = 4096
  v : s.v.size = 16
  flags : s.flags.size = 8
  stack : s.stack.size = 16
  keys : s.keys.size = 16
  cells : s.screen.cells.size = 8192
  depth : s.depth ≤ 16
  awaiting : ∀ x ∈ s.awaiting, x < 16
  left : s.screen.left < 128
  top : s.screen.top < 64

/-- No look at a state stops. -/
structure Answers (s : State) : Prop where
  step : s.step.isSome
  execute : ∀ w, (s.execute w).isSome
  returns : s.returns.isSome
  litPixels : s.screen.litPixels.isSome

/-- The bytes of a dump that are cut from wider numbers say these numbers. -/
structure Faithful (s : State) : Prop where
  depth : (byteAt s.dump 4120).toNat = s.depth
  awaiting : awaitingOf? (byteAt s.dump 4175) = some s.awaiting
  left : (byteAt s.dump 12370).toNat = s.screen.left
  top : (byteAt s.dump 12371).toNat = s.screen.top
  switches : (byteAt s.dump 12372).toNat = s.switches.bits
  dialect : (byteAt s.dump 12373).toNat = s.dialect.rank
  small : (byteAt s.dump 12375).toNat = s.fonts.small.number
  big : (byteAt s.dump 12376).toNat = s.fonts.big.number

end Bare.State

namespace Machine

open Bare Bare.State

theorem wellFormed_bare (m : Machine) : m.bare.WellFormed where
  memory := m.ram.cells.size_toArray
  v := m.v.size_toArray
  flags := m.flags.size_toArray
  stack := m.stack.size_toArray
  keys := m.keys.size_toArray
  cells := m.screen.cells.size_toArray
  depth := Nat.le_of_lt_succ m.depth.isLt
  awaiting := by
    intro x hx
    obtain ⟨y, -, rfl⟩ := Option.map_eq_some_iff.mp hx
    exact y.isLt
  left := m.screen.left.isLt
  top := m.screen.top.isLt

/-! ## Numbers in a dump -/

/-- Where a row of bytes goes on behind some of them. -/
theorem drop_of_append {bytes front rest : List UInt8} {start stop : Nat}
    (h : bytes.drop start = front ++ rest) (hstop : start + front.length = stop) :
    bytes.drop stop = rest := by
  rw [← hstop, ← List.drop_drop, h, List.drop_left]

theorem byteAt_of_drop {bytes rest : List UInt8} {start : Nat} {b : UInt8}
    (h : bytes.drop start = b :: rest) :
    byteAt bytes start = b ∧ bytes.drop (start + 1) = rest := by
  have hhead := congrArg (fun left => left.getD 0 0) h
  exact ⟨by simpa [byteAt] using hhead, drop_of_append (h.trans List.singleton_append.symm) rfl⟩

/-- Single bytes of a dump, at their places in the layout. -/
theorem byteAt_dump (m : Machine) :
    byteAt m.dump 4120 = UInt8.ofNat m.depth.val ∧
    byteAt m.dump 4175 = ofAwaiting m.awaiting ∧
    byteAt m.dump 12370 = UInt8.ofNat m.screen.left.val ∧
    byteAt m.dump 12371 = UInt8.ofNat m.screen.top.val ∧
    byteAt m.dump 12372 = UInt8.ofNat m.switches.bits ∧
    byteAt m.dump 12373 = UInt8.ofNat m.dialect.rank ∧
    byteAt m.dump 12375 = UInt8.ofNat m.fonts.small.number ∧
    byteAt m.dump 12376 = UInt8.ofNat m.fonts.big.number := by
  have hstart : m.dump.drop 0 = _ := m.dump_eq
  have hflags : m.dump.drop 4096 = _ := drop_of_append hstart (by rw [Ram.length_toList])
  have hv : m.dump.drop 4104 = _ := drop_of_append hflags (by rw [Vector.length_toList])
  have hdepth : m.dump.drop 4120 = _ := drop_of_append hv (by rw [Vector.length_toList])
  have hdelay := byteAt_of_drop hdepth
  have hsound := byteAt_of_drop hdelay.2
  have hstack := byteAt_of_drop hsound.2
  have hpc : m.dump.drop 4155 = _ := drop_of_append hstack.2
    (by rw [length_flatMap_splitWord, Vector.length_toList])
  have hindex : m.dump.drop 4157 = _ := drop_of_append hpc rfl
  have hkeys : m.dump.drop 4159 = _ := drop_of_append hindex rfl
  have hawaiting : m.dump.drop 4175 = _ := drop_of_append hkeys
    (by rw [List.length_map, Vector.length_toList])
  have hrunning := byteAt_of_drop hawaiting
  have hscreen := (byteAt_of_drop hrunning.2).2
  rw [ofRaster, List.append_assoc] at hscreen
  have hresolution : m.dump.drop 12369 = _ := drop_of_append hscreen
    (by rw [List.length_map, Vector.length_toList])
  have hleft := byteAt_of_drop (byteAt_of_drop hresolution).2
  have htop := byteAt_of_drop hleft.2
  have hswitches := byteAt_of_drop htop.2
  have hdialect := byteAt_of_drop hswitches.2
  have hsmall := byteAt_of_drop (byteAt_of_drop hdialect.2).2
  have hbig := byteAt_of_drop hsmall.2
  exact ⟨hdelay.1, hrunning.1, hleft.1, htop.1, hswitches.1, hdialect.1, hsmall.1, hbig.1⟩

/-- The numbers that a dump cuts to a byte are what that byte says. -/
theorem faithful_bare (m : Machine) : m.bare.Faithful := by
  obtain ⟨hdepth, hawaiting, hleft, htop, hswitches, hdialect, hsmall, hbig⟩ := m.byteAt_dump
  constructor <;> rw [m.dump_bare]
  case depth => rw [hdepth]; exact UInt8.toNat_ofNat_of_lt' (Nat.lt_trans m.depth.isLt (by decide))
  case awaiting => rw [hawaiting, awaitingOf?_eq, awaiting?_ofAwaiting]; rfl
  case left => rw [hleft]; exact UInt8.toNat_ofNat_of_lt' (Nat.lt_trans m.screen.left.isLt (by decide))
  case top => rw [htop]; exact UInt8.toNat_ofNat_of_lt' (Nat.lt_trans m.screen.top.isLt (by decide))
  case switches =>
    rw [hswitches]
    exact UInt8.toNat_ofNat_of_lt' (Nat.lt_trans m.switches.bits_lt (by decide))
  case dialect =>
    rw [hdialect]
    exact UInt8.toNat_ofNat_of_lt' (by cases m.dialect <;> decide)
  case small => rw [hsmall]; exact UInt8.toNat_ofNat_of_lt' m.fonts.small.number_lt_256
  case big => rw [hbig]; exact UInt8.toNat_ofNat_of_lt' m.fonts.big.number_lt_256

/-! ## Names of fonts -/

/-- A request leaves the fonts alone, or they are listed after it, or it has chosen them. -/
theorem fonts_serve (m : Machine) (r : Request) :
    (m.serve r).fonts = m.fonts ∨ (m.serve r).fonts.IsListed ∨
      r = .setFonts (m.serve r).fonts := by
  cases r with
  | setPalette p => exact .inl rfl
  | setFonts f => exact .inr (.inr rfl)
  | restore bytes =>
    cases h : m.restore bytes with
    | error failure => exact .inl (by rw [serve, h]; rfl)
    | ok next =>
      rw [serve, h]
      exact .inr (.inl (describes_of_restore h).1.isListed)
  | _ =>
    refine .inl (SameLook.fonts (m.sameLook_serve ?_ ?_ ?_))
    all_goals rintro _ ⟨⟩

/-- After requests the fonts are listed, or one of the requests has chosen them. -/
theorem fonts_serveAll {m : Machine} (h : m.fonts.IsListed) (requests : List Request) :
    (m.serveAll requests).fonts.IsListed ∨
      .setFonts (m.serveAll requests).fonts ∈ requests := by
  induction requests using List.reverseRecOn with
  | nil => exact .inl h
  | append_singleton earlier last ih =>
    rw [serveAll_concat]
    rcases (m.serveAll earlier).fonts_serve last with hkept | hlisted | hchosen
    · rw [hkept]
      exact ih.imp_right (List.mem_append_left _)
    · exact .inl hlisted
    · exact .inr (List.mem_append_right _ (List.mem_singleton.mpr hchosen.symm))

end Machine

namespace Bare.State

/-- A well-formed state is a machine without its promises. -/
theorem WellFormed.exists_bare_eq {s : State} (h : s.WellFormed) : ∃ m : Machine, m.bare = s := by
  obtain ⟨awaiting, hawaiting⟩ : ∃ awaiting : Option (Fin 16),
      awaiting.map (·.val) = s.awaiting := by
    cases hs : s.awaiting with
    | none => exact ⟨none, rfl⟩
    | some x => exact ⟨some ⟨x, h.awaiting x hs⟩, rfl⟩
  -- Every bound of `WellFormed` is what the type of a field asks for.
  refine ⟨{
    ram := { cells := ⟨s.memory, h.memory⟩ }
    v := ⟨s.v, h.v⟩
    flags := ⟨s.flags, h.flags⟩
    index := s.index
    pc := s.pc
    depth := ⟨s.depth, Nat.lt_succ_of_le h.depth⟩
    stack := ⟨s.stack, h.stack⟩
    delay := s.delay
    sound := s.sound
    keys := ⟨s.keys, h.keys⟩
    awaiting
    screen := {
      cells := ⟨s.screen.cells, h.cells⟩
      resolution := s.screen.resolution
      left := ⟨s.screen.left, h.left⟩
      top := ⟨s.screen.top, h.top⟩ }
    running := s.running
    redraw := s.redraw
    switches := s.switches
    dialect := s.dialect
    fonts := s.fonts
    palette := s.palette
    breakpoints := s.breakpoints
    noise := s.noise }, ?_⟩
  rw [Machine.bare]
  simp only [hawaiting]
  rfl

/-- No request stops a well-formed state, and the state after it is well-formed. -/
theorem WellFormed.serve {s : State} (h : s.WellFormed) (request : Request) :
    ∃ t, s.serve request = some t ∧ t.WellFormed := by
  obtain ⟨m, rfl⟩ := h.exists_bare_eq
  exact ⟨_, m.serve_bare request, (m.serve request).wellFormed_bare⟩

/-- No look at a well-formed state stops. -/
theorem WellFormed.answers {s : State} (h : s.WellFormed) : s.Answers := by
  obtain ⟨m, rfl⟩ := h.exists_bare_eq
  refine ⟨?_, ?_, ?_, ?_⟩
  · rw [m.step_bare]
    rfl
  · intro w
    rw [m.execute_bare]
    rfl
  · rw [returns, slice, if_pos (by rw [h.stack]; exact h.depth)]
    rfl
  · rw [show m.bare.screen = m.screen.bare from rfl, m.screen.litPixels_bare]
    rfl

/-- A dump of a well-formed state cuts nothing off. -/
theorem WellFormed.faithful {s : State} (h : s.WellFormed) : s.Faithful := by
  obtain ⟨m, rfl⟩ := h.exists_bare_eq
  exact m.faithful_bare

/-! ## Runs -/

/-- Along requests in any order, a well-formed state never stops and stays well-formed. -/
theorem WellFormed.serveAll {s : State} (h : s.WellFormed) (requests : List Request) :
    ∃ t, s.serveAll requests = some t ∧ t.WellFormed := by
  induction requests generalizing s with
  | nil => exact ⟨s, rfl, h⟩
  | cons request rest ih =>
    obtain ⟨next, hnext, hwell⟩ := h.serve request
    obtain ⟨t, ht, hfinal⟩ := ih hwell
    refine ⟨t, ?_, hfinal⟩
    rw [State.serveAll, hnext]
    exact ht

/-- From any seed and along requests in any order, nothing stops: there is a last state, which is
what the machine became, is well-formed, can be looked at, and is dumped without a loss. Its fonts
are listed, unless they are what a request has chosen. -/
theorem exists_serveAll_ofSeed (seed : UInt64) (requests : List Request) :
    ∃ s, (ofSeed seed >>= fun start => start.serveAll requests) = some s ∧
      s = ((Machine.ofSeed seed).serveAll requests).bare ∧
      s.WellFormed ∧ s.Answers ∧ s.Faithful ∧
      (s.fonts.IsListed ∨ .setFonts s.fonts ∈ requests) := by
  obtain ⟨s, hs, hwell⟩ := (Machine.ofSeed seed).wellFormed_bare.serveAll requests
  have hbare := (Machine.ofSeed seed).serveAll_bare requests
  obtain rfl := Option.some.inj (hs.symm.trans hbare)
  refine ⟨_, ?_, rfl, hwell, hwell.answers, hwell.faithful, ?_⟩
  · rw [Machine.ofSeed_bare]
    exact hs
  · exact Machine.fonts_serveAll ⟨Font.isListed_first, Font.isListed_first⟩ requests

/-- Fonts that are chosen at the start are held as they are, and dumped by their number. -/
theorem exists_setFonts_ofSeed (seed : UInt64) (fonts : Fonts) :
    ∃ s, (ofSeed seed >>= fun start => start.serveAll [.setFonts fonts]) = some s ∧
      s.fonts = fonts ∧ (byteAt s.dump 12375).toNat = fonts.small.number := by
  refine ⟨((Machine.ofSeed seed).serve (.setFonts fonts)).bare, ?_, rfl, ?_⟩
  · rw [Machine.ofSeed_bare]
    exact (Machine.ofSeed seed).serveAll_bare [.setFonts fonts]
  · exact (Machine.faithful_bare _).small

/-- A font that is in no table can be chosen, and is dumped as the first one. -/
theorem chosen_font_not_listed :
    let fonts : Fonts := { small := ⟨"nope"⟩ }
    ∃ s, (ofSeed 0 >>= fun start => start.serveAll [.setFonts fonts]) = some s ∧
      s.fonts = fonts ∧ ¬fonts.IsListed ∧ (byteAt s.dump 12375).toNat = 0 := by
  intro fonts
  have hlisted : ¬fonts.IsListed := by decide
  have hnumber : fonts.small.number = 0 := by decide
  obtain ⟨s, hs, hfonts, hbyte⟩ := exists_setFonts_ofSeed 0 fonts
  exact ⟨s, hs, hfonts, hlisted, hbyte.trans hnumber⟩

end Bare.State
end ChipEight
