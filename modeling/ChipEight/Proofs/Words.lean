import ChipEight.Program

/-!
# Words as pairs of bytes

Splitting words into bytes and joining bytes to words undo each other, and the word of a given
number stands at twice that number.
-/

namespace ChipEight

theorem joinBytes_splitWord (w : UInt16) :
    joinBytes (UInt8.ofNat (w.toNat / 256)) (UInt8.ofNat w.toNat) = w := by
  have hw := w.toNat_lt
  apply UInt16.toNat_inj.mp
  rw [joinBytes, UInt16.toNat_ofNat', UInt8.toNat_ofNat', UInt8.toNat_ofNat']
  omega

theorem words_flatMap_splitWord (ws : List UInt16) : words (ws.flatMap splitWord) = ws := by
  induction ws with
  | nil => rfl
  | cons w ws ih =>
    show joinBytes _ _ :: words (ws.flatMap splitWord) = w :: ws
    rw [joinBytes_splitWord, ih]

theorem length_flatMap_splitWord (ws : List UInt16) :
    (ws.flatMap splitWord).length = 2 * ws.length := by
  induction ws with
  | nil => rfl
  | cons w ws ih =>
    rw [List.flatMap_cons, List.length_append, ih, List.length_cons]
    show 2 + 2 * ws.length = 2 * (ws.length + 1)
    omega

/-- The bytes of word number `i` stand at numbers `2 * i` and `2 * i + 1`. -/
theorem getElem?_flatMap_splitWord : ∀ (ws : List UInt16) (i : Nat) (hi : i < ws.length),
    (ws.flatMap splitWord)[2 * i]? = some (UInt8.ofNat (ws[i].toNat / 256)) ∧
      (ws.flatMap splitWord)[2 * i + 1]? = some (UInt8.ofNat ws[i].toNat)
  | w :: ws, 0, _ => ⟨rfl, rfl⟩
  | w :: ws, i + 1, hi => by
    have ih := getElem?_flatMap_splitWord ws i (Nat.lt_of_succ_lt_succ hi)
    rw [show 2 * (i + 1) = 2 * i + 2 by omega, show 2 * i + 2 + 1 = 2 * i + 1 + 2 by omega]
    exact ih

theorem getElem?_words : ∀ (l : List UInt8) (i : Nat) (h : 2 * i + 1 < l.length),
    (words l)[i]? = some (joinBytes l[2 * i] l[2 * i + 1])
  | _ :: _ :: _, 0, _ => rfl
  | high :: low :: rest, i + 1, h => by
    have h : 2 * i + 1 < rest.length := by
      simp only [List.length_cons] at h
      omega
    exact getElem?_words rest i h

theorem length_words : ∀ l : List UInt8, (words l).length = l.length / 2
  | [] => rfl
  | [_] => by simp [words]
  | _ :: _ :: rest => by
    rw [words, List.length_cons, length_words rest, List.length_cons, List.length_cons]
    omega

theorem words_toList {n : Nat} (v : Vector UInt8 (2 * n)) :
    words v.toList = (Vector.ofFn fun i : Fin n =>
      joinBytes (v.get ⟨2 * i.val, by omega⟩) (v.get ⟨2 * i.val + 1, by omega⟩)).toList := by
  have hlength : (words v.toList).length = n := by
    rw [length_words, Vector.length_toList]
    omega
  apply List.ext_getElem
  · rw [hlength, Vector.length_toList]
  · intro i hi hn
    have hword := getElem?_words v.toList i (by rw [Vector.length_toList]; omega)
    rw [List.getElem?_eq_getElem hi] at hword
    have hvalue : (words v.toList)[i] = joinBytes v[2 * i] v[2 * i + 1] := by simpa using hword
    rw [hvalue, Vector.getElem_toList, Vector.getElem_ofFn]
    rfl

end ChipEight
