import ChipEight.Failure
import ChipEight.Glyph.Shapes
import ChipEight.Text.Letters
import ChipEight.Text.Pieces

/-!
# Choice of fonts

A machine has a small and a big font, chosen by name. There is a table of fonts for each size, but
nobody checks that a chosen name is in it. Glyphs are looked up without regard to the case of the
letters, numbers by the exact name, and both fall back on the first font of the table.
-/

namespace ChipEight

open Text

/-! ## Tables -/

/-- The sizes that fonts come in. -/
inductive GlyphSize
  | small
  | big
  deriving DecidableEq, Repr

namespace GlyphSize

/-- The first font of a size: its name, and the bytes of all sixteen glyphs. -/
def first : GlyphSize → String × List UInt8
  | small => ("octo", Glyph.octoSmall)
  | big => ("schip", Glyph.schipBig)

/-- The fonts of a size behind the first. -/
def others : GlyphSize → List (String × List UInt8)
  | small => [("vip", Glyph.vipSmall)]
  | big => []

/-- The fonts of a size in the order of their numbers. -/
def table (size : GlyphSize) : List (String × List UInt8) := size.first :: size.others

/-- The names of the fonts of a size in the order of their numbers. -/
def names (size : GlyphSize) : List String := size.table.map (·.1)

theorem nodup_names (size : GlyphSize) : size.names.Nodup := by
  cases size <;> decide

/-- The font of the table with a name; the case of the letters does not matter. -/
def find? (size : GlyphSize) (name : List Char) : Option (String × List UInt8) :=
  size.table.find? fun entry => sameLetters entry.1.toList name

/-- Bytes of the sixteen glyphs of a font. -/
def bytes : GlyphSize → Nat
  | small => 16 * Glyph.smallSize
  | big => 16 * Glyph.bigSize

theorem length_of_mem_table {size : GlyphSize} : ∀ entry ∈ size.table, entry.2.length = size.bytes := by
  cases size <;> simp [table, first, others, bytes, Glyph.length_octoSmall, Glyph.length_vipSmall,
    Glyph.length_schipBig]

end GlyphSize

/-! ## Fonts by name -/

/-- A font of a size, by any name. -/
structure Font (size : GlyphSize) where
  name : String
  deriving DecidableEq, Repr

namespace Font

variable {size : GlyphSize}

/-- The first font of a size. -/
def first (size : GlyphSize) : Font size := ⟨size.first.1⟩

instance : Inhabited (Font size) := ⟨first size⟩

/-- The bytes of all sixteen glyphs; an unknown name has those of the first font. -/
def glyphs (f : Font size) : List UInt8 := ((size.find? f.name.toList).getD size.first).2

theorem length_glyphs (f : Font size) : f.glyphs.length = size.bytes := by
  rw [glyphs]
  cases hfind : size.find? f.name.toList with
  | none => exact GlyphSize.length_of_mem_table _ List.mem_cons_self
  | some entry => exact GlyphSize.length_of_mem_table entry (List.mem_of_find?_eq_some hfind)

/-- The font of the table with a name; the case of the letters does not matter. -/
def find (size : GlyphSize) (name : List Char) : Except Failure (Font size) :=
  match size.find? name with
  | some entry => .ok ⟨entry.1⟩
  | none => .error (.unknownFont (String.ofList name))

/-! ## Numbers of fonts -/

/-- The number of a font; a name that is not in the table has that of the first font. -/
def number (f : Font size) : Nat := (size.names.idxOf? f.name).getD 0

/-- The font with a number. -/
def ofNumber? (size : GlyphSize) (n : Nat) : Option (Font size) := size.names[n]?.map Font.mk

/-- Whether the very name of a font is in the table. -/
def IsListed (f : Font size) : Prop := f.name ∈ size.names

instance (f : Font size) : Decidable f.IsListed := inferInstanceAs (Decidable (f.name ∈ size.names))

/-- What the number of a font says of it: a font that is not listed is taken for the first. -/
def listed (f : Font size) : Font size := if f.IsListed then f else first size

theorem isListed_first : (first size).IsListed := List.mem_cons_self

theorem listed_eq_self_iff {f : Font size} : f.listed = f ↔ f.IsListed := by
  rw [listed]
  split
  · exact iff_of_true rfl ‹_›
  · exact iff_of_false (fun h => ‹¬_› (h ▸ isListed_first)) ‹_›

theorem ofNumber?_number (f : Font size) : ofNumber? size f.number = some f.listed := by
  rw [ofNumber?, number, listed]
  by_cases h : f.IsListed
  · obtain ⟨n, hn⟩ := Option.isSome_iff_exists.mp (List.isSome_idxOf?.mpr h)
    obtain ⟨hlt, hname, -⟩ := List.idxOf?_eq_some_iff.mp hn
    rw [hn, if_pos h, Option.getD_some, List.getElem?_eq_getElem hlt, hname]
    rfl
  · have hnone : size.names.idxOf? f.name = none := List.idxOf?_eq_none_iff.mpr h
    rw [hnone, if_neg h]
    rfl

theorem number_lt (f : Font size) : f.number < size.names.length := by
  obtain ⟨name, hname, -⟩ := Option.map_eq_some_iff.mp f.ofNumber?_number
  exact (List.getElem?_eq_some_iff.mp hname).1

theorem number_lt_256 (f : Font size) : f.number < 256 :=
  Nat.lt_of_lt_of_le f.number_lt (by cases size <;> decide)

/-- The number of a font that was found by its number. -/
theorem number_of_ofNumber? {f : Font size} {n : Nat} (h : ofNumber? size n = some f) :
    f.number = n := by
  obtain ⟨name, hname, rfl⟩ := Option.map_eq_some_iff.mp h
  obtain ⟨hlt, rfl⟩ := List.getElem?_eq_some_iff.mp hname
  -- No name stands twice in a table, so none stands in front of this place.
  have hbefore : ∀ j (hj : j < n), ¬size.names[j] = size.names[n] := fun j hj =>
    List.pairwise_iff_getElem.mp size.nodup_names j n (Nat.lt_trans hj hlt) hlt hj
  rw [number, List.idxOf?_eq_some_iff.mpr ⟨hlt, rfl, hbefore⟩, Option.getD_some]

theorem isListed_of_ofNumber? {f : Font size} {n : Nat} (h : ofNumber? size n = some f) :
    f.IsListed := by
  obtain ⟨name, hname, rfl⟩ := Option.map_eq_some_iff.mp h
  exact List.mem_of_getElem? hname

end Font

/-- A small font. -/
abbrev SmallFont := Font .small

/-- A big font. -/
abbrev BigFont := Font .big

def SmallFont.find : List Char → Except Failure SmallFont := Font.find .small

def BigFont.find : List Char → Except Failure BigFont := Font.find .big

/-! ## Both -/

/-- A small and a big font. -/
structure Fonts where
  small : SmallFont := Font.first .small
  big : BigFont := Font.first .big
  deriving DecidableEq, Repr, Inhabited

namespace Fonts

/-- Whether both names are in the tables. -/
def IsListed (fonts : Fonts) : Prop := fonts.small.IsListed ∧ fonts.big.IsListed

instance (fonts : Fonts) : Decidable fonts.IsListed :=
  inferInstanceAs (Decidable (_ ∧ _))

/-- What the numbers of both fonts say of them. -/
def listed (fonts : Fonts) : Fonts := { small := fonts.small.listed, big := fonts.big.listed }

theorem listed_eq_self_iff {fonts : Fonts} : fonts.listed = fonts ↔ fonts.IsListed := by
  obtain ⟨small, big⟩ := fonts
  rw [listed, mk.injEq, Font.listed_eq_self_iff, Font.listed_eq_self_iff]
  rfl

/-- Reads `small,big`; a side that is blank or missing keeps its first font. -/
def parse (s : List Char) : Except Failure Fonts := do
  let (small, big) := (cutAt ',' s).getD (s, [])
  let small ← if (trim small).isEmpty then pure (Font.first .small) else SmallFont.find (trim small)
  let big ← if (trim big).isEmpty then pure (Font.first .big) else BigFont.find (trim big)
  return { small, big }

end Fonts
end ChipEight
