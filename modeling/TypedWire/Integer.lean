/-!
# Integers that fit a word

- `int16?`, `int32?`, `int64?`: an integer as a signed word, if it fits.
- `int32?_eq_some_iff`, `int64?_eq_some_iff`: the word is the one that denotes the integer.
-/

namespace TypedWire

/-- An integer as a signed word of 16 bits, if it fits. -/
def int16? (n : Int) : Option Int16 :=
  if Int16.minValue.toInt ≤ n ∧ n ≤ Int16.maxValue.toInt then some (Int16.ofInt n) else none

/-- An integer as a signed word of 32 bits, if it fits. -/
def int32? (n : Int) : Option Int32 :=
  if Int32.minValue.toInt ≤ n ∧ n ≤ Int32.maxValue.toInt then some (Int32.ofInt n) else none

/-- An integer as a signed word of 64 bits, if it fits. -/
def int64? (n : Int) : Option Int64 :=
  if Int64.minValue.toInt ≤ n ∧ n ≤ Int64.maxValue.toInt then some (Int64.ofInt n) else none

/-- An integer in the range of the word is what the word denotes. -/
theorem toInt_ofInt_of_fits {n : Int}
    (h : Int64.minValue.toInt ≤ n ∧ n ≤ Int64.maxValue.toInt) : (Int64.ofInt n).toInt = n := by
  obtain ⟨hlo, hhi⟩ := h
  rw [Int64.toInt_minValue] at hlo
  rw [Int64.toInt_maxValue] at hhi
  exact Int64.toInt_ofInt_of_le hlo (Int.lt_of_le_sub_one hhi)

/-- The word is the one that denotes the integer. -/
theorem int32?_eq_some_iff {n : Int} {w : Int32} : int32? n = some w ↔ w.toInt = n := by
  unfold int32?
  constructor
  · intro h
    split at h
    · rename_i hn
      obtain rfl := Option.some.inj h
      rw [Int32.toInt_minValue, Int32.toInt_maxValue] at hn
      exact Int32.toInt_ofInt_of_le hn.1 (Int.lt_of_le_sub_one hn.2)
    · exact nomatch h
  · rintro rfl
    rw [if_pos ⟨Int32.minValue_le_toInt w, Int32.toInt_le w⟩, Int32.ofInt_toInt]

/-- The word is the one that denotes the integer. -/
theorem int64?_eq_some_iff {n : Int} {w : Int64} : int64? n = some w ↔ w.toInt = n := by
  unfold int64?
  constructor
  · intro h
    split at h
    · rename_i hn
      obtain rfl := Option.some.inj h
      exact toInt_ofInt_of_fits hn
    · exact nomatch h
  · rintro rfl
    rw [if_pos ⟨Int64.minValue_le_toInt w, Int64.toInt_le w⟩, Int64.ofInt_toInt]

end TypedWire
