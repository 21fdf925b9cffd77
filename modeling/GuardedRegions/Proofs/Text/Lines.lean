import GuardedRegions.Text.Lines
import Mathlib.Data.List.Basic
import Mathlib.Data.List.TakeWhile

/-!
# Texts are read back line by line

Lines that hold no line feed are found again in the text that is made of them (`lines_ofLines`). The blanks at the front of a
line tell how far it was moved to the right, if it does not begin with a blank itself (`blanks_indent`), and the digits of a
number end where another character follows (`number_toDigits`). So whatever is written with such lines and numbers can be told
from the text.
-/

namespace GuardedRegions.Text

variable {ls : List String} {l : String} {rest : List Char} {i j : Nat}

/-! ## Lines -/

/-- The lines of a text, each without the line feed that ends it. -/
def lines (text : String) : List (List Char) := (text.toList.splitOn '\n').dropLast

/-- **The lines that a text is made of are its lines.** -/
theorem lines_ofLines (h : ∀ l ∈ ls, '\n' ∉ l.toList) : lines (ofLines ls) = ls.map String.toList := by
  have hsplit : (ofLines ls).toList.splitOn '\n' = ls.map String.toList ++ [[]] := by
    rw [ofLines, String.toList_join, List.flatMap_map]
    induction ls with
    | nil => exact List.splitOn_nil '\n'
    | cons l ls ih =>
      obtain ⟨hl, hls⟩ := List.forall_mem_cons.1 h
      have hline : (l ++ "\n").toList = l.toList ++ ['\n'] := String.toList_append
      have hcut (xs ys : List Char) : (xs ++ '\n' :: ys).splitOn '\n' = xs.splitOn '\n' ++ ys.splitOn '\n' := by
        simp only [List.splitOn_eq_splitOnP]
        exact List.splitOnP_append_cons xs ys (beq_self_eq_true '\n')
      rw [List.flatMap_cons, hline, List.append_assoc, List.singleton_append, hcut, List.splitOn_eq_singleton hl, ih hls]
      rfl
  rw [lines, hsplit, List.dropLast_concat]

theorem span_append {p : Char → Bool} {front : List Char} (hfront : ∀ c ∈ front, p c = true)
    (hrest : ∀ c ∈ rest.head?, p c = false) :
    (front ++ rest).takeWhile p = front ∧ (front ++ rest).dropWhile p = rest := by
  have hstop : rest.takeWhile p = [] ∧ rest.dropWhile p = rest := by
    cases rest with
    | nil => exact ⟨rfl, rfl⟩
    | cons c rest => simp [hrest c rfl]
  rw [List.takeWhile_append_of_pos hfront, List.dropWhile_append_of_pos hfront, hstop.1, hstop.2, List.append_nil]
  exact ⟨rfl, rfl⟩

/-! ## Blanks at the front -/

def blanks (line : List Char) : Nat := (line.takeWhile (· == ' ')).length

def bare (line : List Char) : List Char := line.dropWhile (· == ' ')

theorem toList_indent (steps : Nat) (l : String) :
    (indent steps l).toList = List.replicate (2 * steps) ' ' ++ l.toList := by
  have hpush (k : Nat) : ("".pushn ' ' k).toList = List.replicate k ' ' := by
    induction k with
    | zero => rfl
    | succ k ih =>
      rw [List.replicate_succ', ← ih]
      exact String.toList_push _
  rw [indent, String.toList_append, hpush]

theorem indent_zero (l : String) : indent 0 l = l := String.toList_inj.1 (toList_indent 0 l)

/-- **A line shows how far it was moved to the right**, and what stands there. -/
theorem blanks_indent (h : l.toList.head? ≠ some ' ') (steps : Nat) :
    blanks (indent steps l).toList = 2 * steps ∧ bare (indent steps l).toList = l.toList := by
  have hfront : ∀ c ∈ List.replicate (2 * steps) ' ', (c == ' ') = true := fun c hc =>
    beq_iff_eq.2 (List.eq_of_mem_replicate hc)
  have hrest : ∀ c ∈ l.toList.head?, (c == ' ') = false := by
    intro c hc
    apply beq_false_of_ne
    rintro rfl
    exact h hc
  obtain ⟨hblanks, hbare⟩ := span_append hfront hrest
  rw [blanks, bare, toList_indent, hblanks, hbare, List.length_replicate]
  exact ⟨rfl, rfl⟩

theorem newline_notMem_indent (h : '\n' ∉ l.toList) (steps : Nat) : '\n' ∉ (indent steps l).toList := by
  rw [toList_indent, List.mem_append, List.mem_replicate]
  simp [h]

/-! ## Numbers at the front -/

/-- The number at the front of a line, and what stands behind it. -/
def number (line : List Char) : Nat × List Char :=
  (Nat.ofDigitChars 10 (line.takeWhile Char.isDigit) 0, line.dropWhile Char.isDigit)

/-- What stands behind a number does not go on with a digit. -/
def EndsNumber (rest : List Char) : Prop := ∀ c ∈ rest.head?, c.isDigit = false

theorem endsNumber_nil : EndsNumber [] := fun _ hc => nomatch hc

theorem endsNumber_cons {c : Char} (hc : c.isDigit = false) : EndsNumber (c :: rest) := by
  rintro _ ⟨⟩
  exact hc

theorem isDigit_of_mem_toDigits {c : Char} (hc : c ∈ Nat.toDigits 10 i) : c.isDigit = true :=
  Nat.isDigit_of_mem_toDigits (by decide) (by decide) hc

theorem exists_toDigits_eq (i : Nat) : ∃ d ds, Nat.toDigits 10 i = d :: ds ∧ d.isDigit = true := by
  obtain ⟨d, ds, hds⟩ := List.exists_cons_of_ne_nil (Nat.toDigits_ne_nil (n := i) (b := 10))
  exact ⟨d, ds, hds, isDigit_of_mem_toDigits (hds ▸ List.mem_cons_self)⟩

/-- **A number is read up to the end of its digits.** -/
theorem number_toDigits (i : Nat) (h : EndsNumber rest) : number (Nat.toDigits 10 i ++ rest) = (i, rest) := by
  obtain ⟨hdigits, hrest⟩ := span_append (fun c hc => isDigit_of_mem_toDigits hc) h
  rw [number, hdigits, hrest, Nat.ofDigitChars_ten_toDigits]

theorem eq_of_toDigits_append {xs ys : List Char} (hx : EndsNumber xs) (hy : EndsNumber ys)
    (h : Nat.toDigits 10 i ++ xs = Nat.toDigits 10 j ++ ys) : i = j ∧ xs = ys := by
  have hread := congrArg number h
  rwa [number_toDigits i hx, number_toDigits j hy, Prod.mk.injEq] at hread

theorem head?_toDigits_ne_blank : (Nat.toDigits 10 i ++ rest).head? ≠ some ' ' := by
  rw [List.head?_append_of_ne_nil _ Nat.toDigits_ne_nil]
  intro h
  exact absurd (isDigit_of_mem_toDigits (List.mem_of_mem_head? h)) (by decide)

theorem newline_notMem_toDigits (i : Nat) : '\n' ∉ Nat.toDigits 10 i := by
  intro h
  exact absurd (isDigit_of_mem_toDigits h) (by decide)

end GuardedRegions.Text
