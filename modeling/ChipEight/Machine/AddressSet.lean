/-!
# Sets of addresses

A set of addresses is its members in ascending order, so two sets with the same members are equal.
-/

namespace ChipEight

/-- A finite set of addresses. -/
structure AddressSet where
  toList : List UInt16 := []
  ascending : toList.Pairwise (· < ·) := by exact List.Pairwise.nil
  deriving DecidableEq

namespace AddressSet

/-- The set without members. -/
def empty : AddressSet := {}

instance : Inhabited AddressSet := ⟨empty⟩

/-- An address put into an ascending list, unless it is in it. -/
def place (a : UInt16) : List UInt16 → List UInt16
  | [] => [a]
  | b :: rest =>
    if a < b then a :: b :: rest else if a = b then b :: rest else b :: place a rest

theorem mem_place {a c : UInt16} {l : List UInt16} : c ∈ place a l ↔ c = a ∨ c ∈ l := by
  induction l with
  | nil => simp [place]
  | cons b rest ih =>
    unfold place
    split
    · simp
    · split
      · next h =>
        subst h
        simp
      · simp only [List.mem_cons, ih]
        constructor
        · rintro (h | h | h) <;> simp [h]
        · rintro (h | h | h) <;> simp [h]

theorem pairwise_place {a : UInt16} {l : List UInt16} (h : l.Pairwise (· < ·)) :
    (place a l).Pairwise (· < ·) := by
  induction l with
  | nil => simp [place]
  | cons b rest ih =>
    obtain ⟨hb, hr⟩ := List.pairwise_cons.mp h
    unfold place
    split
    · next hab =>
      refine List.pairwise_cons.mpr ⟨?_, h⟩
      intro c hc
      rcases List.mem_cons.mp hc with hc | hc
      · exact hc ▸ hab
      · exact UInt16.lt_trans hab (hb c hc)
    · split
      · exact h
      · next hlt hne =>
        refine List.pairwise_cons.mpr ⟨?_, ih hr⟩
        intro c hc
        rcases mem_place.mp hc with hc | hc
        · subst hc
          exact UInt16.lt_of_le_of_ne (UInt16.not_lt.mp hlt) (fun heq => hne heq.symm)
        · exact hb c hc

/-- Whether an address is in the set. -/
def contains (s : AddressSet) (a : UInt16) : Bool := s.toList.contains a

/-- The set with an address added. -/
def insert (s : AddressSet) (a : UInt16) : AddressSet :=
  { toList := place a s.toList, ascending := pairwise_place s.ascending }

/-- The set with an address removed. -/
def erase (s : AddressSet) (a : UInt16) : AddressSet :=
  { toList := s.toList.filter (· != a), ascending := s.ascending.filter _ }

/-- The set of the members of a list. -/
def ofList (l : List UInt16) : AddressSet := l.foldr (fun a s => s.insert a) empty

/-- The number of members. -/
def size (s : AddressSet) : Nat := s.toList.length

theorem ext {s t : AddressSet} (h : s.toList = t.toList) : s = t := by
  cases s
  cases t
  cases h
  rfl

/-- Ascending lists with the same members are equal. -/
theorem eq_of_mem_iff {l k : List UInt16} (hl : l.Pairwise (· < ·)) (hk : k.Pairwise (· < ·))
    (h : ∀ a, a ∈ l ↔ a ∈ k) : l = k := by
  induction l generalizing k with
  | nil =>
    cases k with
    | nil => rfl
    | cons b rest => exact absurd ((h b).mpr (by simp)) (by simp)
  | cons a l ih =>
    cases k with
    | nil => exact absurd ((h a).mp (by simp)) (by simp)
    | cons b k =>
      obtain ⟨ha, hl'⟩ := List.pairwise_cons.mp hl
      obtain ⟨hb, hk'⟩ := List.pairwise_cons.mp hk
      have hab : a = b := by
        rcases List.mem_cons.mp ((h a).mp (by simp)) with e | ak
        · exact e
        rcases List.mem_cons.mp ((h b).mpr (by simp)) with e | bl
        · exact e.symm
        exact absurd (hb a ak) (UInt16.not_lt.mpr (UInt16.le_of_lt (ha b bl)))
      subst hab
      have hrest : ∀ c, c ∈ l ↔ c ∈ k := by
        intro c
        constructor
        · intro hc
          rcases List.mem_cons.mp ((h c).mp (by simp [hc])) with e | ck
          · exact absurd (e ▸ ha c hc) (UInt16.lt_irrefl a)
          · exact ck
        · intro hc
          rcases List.mem_cons.mp ((h c).mpr (by simp [hc])) with e | cl
          · exact absurd (e ▸ hb c hc) (UInt16.lt_irrefl a)
          · exact cl
      rw [ih hl' hk' hrest]

/-- Sets with the same members are equal. -/
theorem ext_contains {s t : AddressSet} (h : ∀ a, s.contains a = t.contains a) : s = t := by
  apply ext
  apply eq_of_mem_iff s.ascending t.ascending
  intro a
  have ha := h a
  rw [Bool.eq_iff_iff] at ha
  simpa [contains] using ha

@[simp] theorem contains_insert (s : AddressSet) (a c : UInt16) :
    (s.insert a).contains c = (c == a || s.contains c) := by
  rw [Bool.eq_iff_iff]
  simp [contains, insert, mem_place]

@[simp] theorem contains_erase (s : AddressSet) (a c : UInt16) :
    (s.erase a).contains c = (s.contains c && c != a) := by
  rw [Bool.eq_iff_iff]
  simp [contains, erase]

/-- The members of a set, in order, make the set again. -/
theorem ofList_toList (s : AddressSet) : ofList s.toList = s := by
  rcases s with ⟨l, h⟩
  apply ext
  induction l with
  | nil => rfl
  | cons a rest ih =>
    obtain ⟨ha, hr⟩ := List.pairwise_cons.mp h
    have hrest : (ofList rest).toList = rest := ih hr
    show place a (ofList rest).toList = a :: rest
    rw [hrest]
    cases rest with
    | nil => rfl
    | cons b more => simp [place, ha b (by simp)]

end AddressSet
end ChipEight
