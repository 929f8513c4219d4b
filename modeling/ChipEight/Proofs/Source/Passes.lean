import ChipEight.Proofs.Text.Cuts
import ChipEight.Source.Assembly

/-!
# The two passes of assembly

How a line comes apart, how it moves the first pass on, and what the second pass makes of placed
statements. The second pass succeeds exactly when every statement encodes, and then the program is
the bytes of the statements one after another: `Encodes` says this of all statements at once.
-/

namespace ChipEight.Assembly

open Text

/-! ## Lines apart -/

theorem withoutComment_append {a : List Char} (h : ';' ∉ a) (b : List Char) :
    withoutComment (a ++ b) = a ++ withoutComment b := by
  have hcut : ∀ c ∈ a, (c == ';') = false :=
    fun c hc => beq_false_of_ne fun heq => h (heq ▸ hc)
  rw [withoutComment, withoutComment, cutAt, cutAt, cutWhen_append_of_forall b hcut]
  cases cutWhen (· == ';') b <;> rfl

/-- What stands before a colon is the first name of a line. -/
theorem SourceLine.ofText_append_colon {name : List Char} (hcolon : ':' ∉ name)
    (hsemi : ';' ∉ name) (raw : List Char) :
    ofText (name ++ ':' :: raw) =
      { names := trim name :: (ofText raw).names, code := (ofText raw).code } := by
  have hsemi' : ';' ∉ name ++ [':'] := by simp [hsemi]
  have hcomment : withoutComment (name ++ ':' :: raw) = name ++ ':' :: withoutComment raw := by
    have happend := withoutComment_append hsemi' raw
    rwa [List.append_assoc, List.append_assoc] at happend
  obtain ⟨first, more, hpieces⟩ :=
    List.exists_cons_of_ne_nil (pieces_ne_nil ':' (withoutComment raw))
  rw [ofText, ofText, hcomment, pieces_append _ hcolon, hpieces]
  rfl

/-- A blank in front of a line does not matter. -/
theorem SourceLine.ofText_cons_of_blank {c : Char} (h : isBlank c = true) (raw : List Char) :
    ofText (c :: raw) = ofText raw := by
  have hsemi : ';' ∉ [c] := by
    intro hm
    obtain rfl := List.mem_singleton.mp hm
    exact absurd h (by decide)
  have hcolon : c ≠ ':' := by
    rintro rfl
    exact absurd h (by decide)
  have hcomment : withoutComment (c :: raw) = c :: withoutComment raw :=
    withoutComment_append hsemi raw
  rw [ofText, ofText, hcomment, map_trim_pieces_cons_of_blank h hcolon]

/-! ## First pass -/

theorem define_cons_of_isAddressMark {line address : Nat} {labels : Labels} {name : List Char}
    (h : isAddressMark name = true) (rest : List (List Char)) :
    define line address labels (name :: rest) = define line address labels rest := by
  rw [define, if_pos h]

/-- A new name becomes a label. -/
theorem define_cons_of_isName {line address : Nat} {labels : Labels} {name : List Char}
    (hmark : isAddressMark name = false) (hname : isName name = true)
    (hnew : labels.lookup name = none) (rest : List (List Char)) :
    define line address labels (name :: rest) =
      define line address ((name, address) :: labels) rest := by
  rw [define, if_neg (by simp [hmark]), if_neg (by simp [hname]), if_neg (by simp [hnew])]

/-- A line without a statement only defines its labels. -/
theorem layOut_cons_of_none {line address : Nat} {labels defined : Labels} {raw : List Char}
    (hdefine : define line address labels (SourceLine.ofText raw).names = .ok defined)
    (hcode : Statement.ofText? (SourceLine.ofText raw).code = none) (rest : List (List Char)) :
    layOut line address labels (raw :: rest) = layOut (line + 1) address defined rest := by
  rw [layOut]
  simp only [hdefine, hcode]
  rfl

/-- A line with a statement places it in front of the statements of the other lines. -/
theorem layOut_cons_of_some {line address : Nat} {labels defined : Labels} {raw : List Char}
    {statement : Statement}
    (hdefine : define line address labels (SourceLine.ofText raw).names = .ok defined)
    (hcode : Statement.ofText? (SourceLine.ofText raw).code = some statement)
    (rest : List (List Char)) :
    layOut line address labels (raw :: rest) =
      (layOut (line + 1) (address + statement.size) defined rest).map fun later =>
        { later with
          placed := { line, text := (SourceLine.ofText raw).code, address, statement } ::
            later.placed } := by
  rw [layOut]
  simp only [hdefine, hcode]
  show (layOut (line + 1) (address + statement.size) defined rest >>= _) = _
  cases layOut (line + 1) (address + statement.size) defined rest with
  | error failure => rfl
  | ok later => rfl

/-! ## Second pass -/

/-- Placed statements encode to bytes, each statement to its part of them. -/
inductive Encodes (labels : Labels) : List Placed → List UInt8 → Prop
  | nil : Encodes labels [] []
  | cons {p : Placed} {bytes : List UInt8} {rest : List Placed} {more : List UInt8}
      (head : p.statement.encode labels = .ok bytes) (tail : Encodes labels rest more) :
      Encodes labels (p :: rest) (bytes ++ more)

theorem Encodes.append {labels : Labels} {ps qs : List Placed} {bs cs : List UInt8}
    (h₁ : Encodes labels ps bs) (h₂ : Encodes labels qs cs) :
    Encodes labels (ps ++ qs) (bs ++ cs) := by
  induction h₁ with
  | nil => exact h₂
  | cons head _ ih =>
    rw [List.append_assoc]
    exact .cons head ih

/-- Statements that encode are assembled to their bytes. -/
theorem exists_encodeAll {labels : Labels} {placed : List Placed} {bytes : List UInt8}
    (h : Encodes labels placed bytes) (address : Nat) :
    ∃ result, encodeAll labels address placed = .ok result ∧ result.program = bytes := by
  -- Each statement moves the address on by the bytes in front of the next one.
  induction h generalizing address with
  | nil => exact ⟨_, rfl, rfl⟩
  | @cons p bytes rest more head tail ih =>
    obtain ⟨later, hlater, hprogram⟩ := ih (address + bytes.length)
    refine ⟨{ program := bytes ++ later.program
              notices := noticeOf address p bytes ++ later.notices }, ?_, ?_⟩
    · rw [encodeAll, head]
      simp only [hlater]
      rfl
    · rw [← hprogram]

/-- When the first pass succeeds and its program fits in memory, the second pass decides. -/
theorem ofCharacters_of_layOut {source : List Char} {layout : Layout}
    (hlayout : layOut 1 programStart [] (lines source) = .ok layout)
    (hsize : layout.stop - programStart ≤ maxProgramSize) :
    ofCharacters source = encodeAll layout.labels programStart layout.placed := by
  rw [ofCharacters, hlayout]
  simp only [bind, Except.bind]
  rw [if_neg (Nat.not_lt.mpr hsize)]

end ChipEight.Assembly
