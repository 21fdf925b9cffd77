import GuardedRegions.Json.Characters
import Mathlib.Data.List.Basic

/-!
# Strings are read back

What a character is written as is read as that character, in front of any text (`read_escapeChar`): a letter after a backslash
stands for one of the few characters that have such an escape, four digits for another control character, and any other
character for itself. So the reader of a string stops at the quote behind it and has read what was written.
-/

namespace GuardedRegions.Json.Characters

variable {c e : Char} {s rest : List Char}

theorem hexValue?_digitChar : ∀ n < 16, hexValue? (Nat.digitChar n) = some n := by
  decide

theorem codeUnit_digitChar {n : Nat} (h : n < 0x20) (s : List Char) :
    codeUnit ('0' :: '0' :: Nat.digitChar (n / 16) :: Nat.digitChar (n % 16) :: s) = .ok (n, s) := by
  have hzero : hexValue? '0' = some 0 := by decide
  have hhigh := hexValue?_digitChar (n / 16) (by omega)
  have hlow := hexValue?_digitChar (n % 16) (by omega)
  have hvalue : ((0 * 16 + 0) * 16 + n / 16) * 16 + n % 16 = n := by omega
  unfold codeUnit
  simp only [hzero, hhigh, hlow, hvalue]

theorem no_half_below : ∀ n < 0x20, isTrailing n = false ∧ isLeading n = false := by
  decide

theorem escaped_short (h : shortEscape? e = some c) (s : List Char) : escaped (e :: s) = .ok (c, s) := by
  unfold escaped
  simp only [h]

theorem escaped_control (h : c.toNat < 0x20) (s : List Char) :
    escaped ('u' :: '0' :: '0' :: Nat.digitChar (c.toNat / 16) :: Nat.digitChar (c.toNat % 16) :: s) = .ok (c, s) := by
  have hshort : shortEscape? 'u' = none := by decide
  obtain ⟨htrailing, hleading⟩ := no_half_below c.toNat h
  unfold escaped
  simp only [hshort, codeUnit_digitChar h, htrailing, hleading, ne_eq, not_true_eq_false, if_false, Bool.false_eq_true]
  rw [Char.ofNat_toNat]

theorem read_escaped (h : escaped s = .ok (c, rest)) :
    read ('\\' :: s) = (read rest).map fun x => (c :: x.1, x.2) := by
  rw [read, if_neg (by decide), if_pos rfl]
  split
  · rename_i heq
    rw [h] at heq
    cases heq
  · rename_i heq
    rw [h] at heq
    cases heq
    rfl

theorem read_plain (hquote : c ≠ '"') (hslash : c ≠ '\\') (hcontrol : ¬ c.toNat < 0x20) (s : List Char) :
    read (c :: s) = (read s).map fun x => (c :: x.1, x.2) := by
  rw [read, if_neg hquote, if_neg hslash, if_neg hcontrol]

theorem read_escapeChar (c : Char) (s : List Char) :
    read (escapeChar c ++ s) = (read s).map fun x => (c :: x.1, x.2) := by
  unfold escapeChar
  iterate 7
    split
    · subst_vars
      exact read_escaped (escaped_short (by decide) s)
  split
  · rename_i hcontrol
    exact read_escaped (escaped_control hcontrol s)
  · rename_i hquote hslash _ _ _ _ _ hcontrol
    exact read_plain hquote hslash hcontrol s

/-- **A string is read up to the quote behind it.** -/
theorem read_escape (cs rest : List Char) : read (escape cs ++ '"' :: rest) = .ok (cs, rest) := by
  induction cs with
  | nil =>
    show read ('"' :: rest) = _
    rw [read, if_pos rfl]
  | cons c cs ih =>
    unfold escape at ih ⊢
    rw [List.flatMap_cons, List.append_assoc, read_escapeChar, ih]
    rfl

end GuardedRegions.Json.Characters
