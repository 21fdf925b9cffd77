import GuardedRegions.Json.Number
import GuardedRegions.Proofs.Json.Reader
import GuardedRegions.Proofs.Text.Lines

/-!
# Natural numbers are read back

A number has no mark at its end: its digits go on until another character comes, and what follows a value in a document that is
written ends it (`EndsValue`). The digits of a number have no zero in front, and they are absorbed one by one without loss as
long as the number fits 64 bits.
-/

namespace GuardedRegions.Json

namespace Reader

variable {rest : List Char} {n : Nat}

/-! ## Digits -/

theorem eq_zero_of_head?_toDigits (h : (Nat.toDigits 10 n).head? = some '0') : n = 0 := by
  induction n using Nat.strong_induction_on with
  | _ n ih =>
    by_cases hn : n < 10
    · rw [Nat.toDigits_of_lt_base hn] at h
      simpa using h
    · rw [Nat.toDigits_of_base_le (by decide) (Nat.le_of_not_lt hn), List.head?_append_of_ne_nil _ Nat.toDigits_ne_nil] at h
      have := ih (n / 10) (by omega) h
      omega

theorem toDigits_ne_zero_cons (n : Nat) (d : Char) (ds : List Char) : Nat.toDigits 10 n ≠ '0' :: d :: ds := by
  intro h
  have hzero : n = 0 := eq_zero_of_head?_toDigits (by rw [h]; rfl)
  rw [hzero, Nat.toDigits_zero] at h
  cases h

theorem isBlank_of_isDigit {c : Char} (h : c.isDigit = true) : isBlank c = false := by
  unfold isBlank
  simp only [Bool.or_eq_false_iff, decide_eq_false_iff_not]
  refine ⟨⟨⟨?_, ?_⟩, ?_⟩, ?_⟩ <;> (rintro rfl; exact absurd h (by decide))

theorem digits_toDigits (hrest : EndsValue rest) : digits (Nat.toDigits 10 n ++ rest) = .ok (Nat.toDigits 10 n, rest) := by
  have hstop : ∀ c ∈ rest.head?, c.isDigit = false := by
    intro c hc
    rcases hrest c hc with rfl | rfl | rfl <;> decide
  obtain ⟨htake, hdrop⟩ := Text.span_append (fun c hc => Text.isDigit_of_mem_toDigits hc) hstop
  unfold digits
  rw [htake, hdrop]

theorem wholeDigits_toDigits (hrest : EndsValue rest) (atEnd : ReadError) :
    wholeDigits atEnd (Nat.toDigits 10 n ++ rest) = .ok (Nat.toDigits 10 n, rest) := by
  have hsome : someDigits atEnd (Nat.toDigits 10 n ++ rest) = .ok (Nat.toDigits 10 n, rest) := by
    unfold someDigits
    rw [bind_of_ok (digits_toDigits hrest)]
    obtain ⟨d, ds, hds, -⟩ := Text.exists_toDigits_eq n
    rw [hds]
    rfl
  unfold wholeDigits
  rw [bind_of_ok hsome]
  show _ = (pure (Nat.toDigits 10 n) : Reader (List Char)) rest
  refine congrFun ?_ rest
  split
  · rename_i heq
    exact absurd heq (toDigits_ne_zero_cons n _ _)
  · rfl

theorem numeral_toDigits (hrest : EndsValue rest) (atEnd : ReadError) :
    numeral atEnd (Nat.toDigits 10 n ++ rest) = .ok (⟨false, Nat.toDigits 10 n, none, none⟩, rest) := by
  obtain ⟨d, ds, hds, hd⟩ := Text.exists_toDigits_eq n
  have hpeek : peek (Nat.toDigits 10 n ++ rest) = .ok (some d, Nat.toDigits 10 n ++ rest) := by
    rw [hds]
    rfl
  have hnegative : d ≠ '-' := by
    rintro rfl
    exact absurd hd (by decide)
  have hend : ∀ c ∈ rest.head?, c ≠ '.' ∧ c ≠ 'e' ∧ c ≠ 'E' := by
    intro c hc
    rcases hrest c hc with rfl | rfl | rfl <;> decide
  have hfraction : fractionDigits atEnd rest = .ok (none, rest) := by
    have hpeek : peek rest = .ok (rest.head?, rest) := rfl
    unfold fractionDigits
    rw [bind_of_ok hpeek, if_neg]
    · rfl
    · intro hhead
      exact (hend '.' hhead).1 rfl
  have hexponent : exponentDigits atEnd rest = .ok (none, rest) := by
    have hpeek : peek rest = .ok (rest.head?, rest) := rfl
    unfold exponentDigits
    rw [bind_of_ok hpeek]
    show _ = (pure none : Reader (Option (Bool × List Char))) rest
    refine congrFun ?_ rest
    split
    · rename_i hhead
      exact absurd rfl (hend 'e' hhead).2.1
    · rename_i hhead
      exact absurd rfl (hend 'E' hhead).2.2
    · rfl
  have hskip : (some d = some '-') = False := by simpa using hnegative
  unfold numeral
  rw [bind_of_ok hpeek]
  simp only [hskip, if_false, decide_false]
  rw [bind_of_ok (wholeDigits_toDigits hrest atEnd), bind_of_ok hfraction, bind_of_ok hexponent]
  rfl

/-! ## The value -/

theorem le_ofDigitChars (ds : List Char) (k : Nat) : k ≤ Nat.ofDigitChars 10 ds k := by
  induction ds generalizing k with
  | nil => exact Nat.le_refl k
  | cons d ds ih =>
    rw [Nat.ofDigitChars_cons]
    have := ih (10 * k + (d.toNat - '0'.toNat))
    omega

/-- Digits are absorbed without loss if the number that they make fits 64 bits. -/
theorem absorb_eq {ds : List Char} {k : Nat} (h : Nat.ofDigitChars 10 ds k < Nat.pow 2 64) :
    Numeral.absorb k ds = (Nat.ofDigitChars 10 ds k, []) := by
  induction ds generalizing k with
  | nil => rfl
  | cons d ds ih =>
    have hstep : k * 10 + Numeral.digitValue d = 10 * k + (d.toNat - '0'.toNat) := by
      rw [Numeral.digitValue, Nat.mul_comm]
    rw [Nat.ofDigitChars_cons] at h ⊢
    have hfits := Nat.lt_of_le_of_lt (le_ofDigitChars ds _) h
    unfold Numeral.absorb
    rw [hstep, if_pos hfits]
    exact ih h

theorem value_toDigits (h : n < Nat.pow 2 64) :
    ({ negative := false, whole := Nat.toDigits 10 n, fraction := none, exponent := none } : Numeral).value =
      .ok (.integer n) := by
  have habsorb : Numeral.absorb 0 (Nat.toDigits 10 n) = (n, []) := by
    have hvalue : Nat.ofDigitChars 10 (Nat.toDigits 10 n) 0 = n := Nat.ofDigitChars_ten_toDigits
    rw [absorb_eq (hvalue.symm ▸ h), hvalue]
  unfold Numeral.value
  rw [habsorb]
  rfl

/-- **A natural number is read**, up to the end of its digits. -/
theorem number_toDigits (h : n < Nat.pow 2 64) (hrest : EndsValue rest) :
    number (Nat.toDigits 10 n ++ rest) = .ok (.integer n, rest) := by
  unfold number
  rw [bind_of_ok (numeral_toDigits hrest _), value_toDigits h]
  rfl

end Reader

end GuardedRegions.Json
