import GuardedRegions.Json.Value
import GuardedRegions.Proofs.Json.Number

/-!
# The text of a value, character by character

A value that is written on one line begins with a character that tells what it is, and is no blank. Between the brackets of a
list or an object the values stand one after the other, and behind each of them there is a comma or the end: what follows a
value always ends it.
-/

namespace GuardedRegions.Json.Value

open Reader

variable {v : Value} {s : String} {name : String} {rest : List Char}

def chars (v : Value) : List Char := v.compact.toList

theorem chars_null : null.chars = ['n', 'u', 'l', 'l'] := by
  simp [chars, compact]

theorem chars_number (n : Nat) : (number n).chars = Nat.toDigits 10 n := by
  simp [chars, compact, toString, Nat.toList_repr]

theorem toList_quoted (s : String) : (quoted s).toList = '"' :: (Characters.escape s.toList ++ ['"']) := by
  simp [quoted]

theorem chars_string (s : String) : (string s).chars = '"' :: (Characters.escape s.toList ++ ['"']) := by
  rw [chars, compact, toList_quoted]

theorem chars_list (vs : List Value) : (list vs).chars = '[' :: ((compactItems vs).toList ++ [']']) := by
  simp [chars, compact]

theorem chars_record (fs : List (String × Value)) :
    (record fs).chars = '\x7b' :: ((compactFields fs).toList ++ ['\x7d']) := by
  simp [chars, compact]

theorem toList_compactItems_cons (v : Value) (vs : List Value) :
    (compactItems (v :: vs)).toList = v.chars ++ (compactMoreItems vs).toList := by
  simp [chars, compactItems]

theorem toList_compactMoreItems_cons (v : Value) (vs : List Value) :
    (compactMoreItems (v :: vs)).toList = ',' :: (v.chars ++ (compactMoreItems vs).toList) := by
  simp [chars, compactMoreItems]

def fieldChars (name : String) (v : Value) : List Char :=
  '"' :: (Characters.escape name.toList ++ '"' :: ':' :: v.chars)

theorem toList_compactFields_cons (name : String) (v : Value) (fs : List (String × Value)) :
    (compactFields ((name, v) :: fs)).toList = fieldChars name v ++ (compactMoreFields fs).toList := by
  simp [chars, compactFields, fieldChars, toList_quoted]

theorem toList_compactMoreFields_cons (name : String) (v : Value) (fs : List (String × Value)) :
    (compactMoreFields ((name, v) :: fs)).toList = ',' :: (fieldChars name v ++ (compactMoreFields fs).toList) := by
  simp [chars, compactMoreFields, fieldChars, toList_quoted]

/-- The first character of a value is no blank and does not close a list, and only a `null` begins with its letter. -/
theorem exists_chars_eq (v : Value) : ∃ c cs, v.chars = c :: cs ∧ isBlank c = false ∧ c ≠ ']' ∧ (c = 'n' → v = null) := by
  cases v with
  | null => exact ⟨_, _, chars_null, by decide, by decide, fun _ => rfl⟩
  | number n =>
    obtain ⟨d, ds, hds, hd⟩ := Text.exists_toDigits_eq n
    refine ⟨d, ds, (chars_number n).trans hds, isBlank_of_isDigit hd, ?_, ?_⟩
    · rintro rfl
      exact absurd hd (by decide)
    · rintro rfl
      exact absurd hd (by decide)
  | string s => exact ⟨_, _, chars_string s, by decide, by decide, fun h => absurd h (by decide)⟩
  | list vs => exact ⟨_, _, chars_list vs, by decide, by decide, fun h => absurd h (by decide)⟩
  | record fs => exact ⟨_, _, chars_record fs, by decide, by decide, fun h => absurd h (by decide)⟩

/-! ## What follows a value -/

theorem endsValue_moreItems (vs : List Value) (rest : List Char) :
    EndsValue ((compactMoreItems vs).toList ++ ']' :: rest) := by
  cases vs with
  | nil => exact endsValue_cons.2 (by simp)
  | cons v vs =>
    rw [toList_compactMoreItems_cons]
    exact endsValue_cons.2 (by simp)

theorem endsValue_moreFields (fs : List (String × Value)) (rest : List Char) :
    EndsValue ((compactMoreFields fs).toList ++ '\x7d' :: rest) := by
  cases fs with
  | nil => exact endsValue_cons.2 (by simp)
  | cons f fs =>
    obtain ⟨name, v⟩ := f
    rw [toList_compactMoreFields_cons]
    exact endsValue_cons.2 (by simp)

/-! ## Every part has a character of its own -/

theorem length_le_moreItems (vs : List Value) : vs.length ≤ (compactMoreItems vs).toList.length := by
  induction vs with
  | nil => exact Nat.zero_le _
  | cons v vs ih =>
    rw [toList_compactMoreItems_cons]
    simp only [List.length_cons, List.length_append]
    omega

theorem length_le_items (vs : List Value) : vs.length ≤ (compactItems vs).toList.length := by
  cases vs with
  | nil => exact Nat.zero_le _
  | cons v vs =>
    obtain ⟨c, cs, hcs, -⟩ := v.exists_chars_eq
    have := length_le_moreItems vs
    rw [toList_compactItems_cons, hcs]
    simp only [List.length_cons, List.length_append]
    omega

theorem length_le_moreFields (fs : List (String × Value)) : fs.length ≤ (compactMoreFields fs).toList.length := by
  induction fs with
  | nil => exact Nat.zero_le _
  | cons f fs ih =>
    obtain ⟨name, v⟩ := f
    rw [toList_compactMoreFields_cons]
    simp only [List.length_cons, List.length_append]
    omega

theorem length_le_fields (fs : List (String × Value)) : fs.length ≤ (compactFields fs).toList.length := by
  cases fs with
  | nil => exact Nat.zero_le _
  | cons f fs =>
    obtain ⟨name, v⟩ := f
    have := length_le_moreFields fs
    rw [toList_compactFields_cons, fieldChars]
    simp only [List.length_cons, List.length_append]
    omega

end GuardedRegions.Json.Value
