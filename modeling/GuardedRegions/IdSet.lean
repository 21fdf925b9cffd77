/-!
# Sets of numbers, listed in ascending order

Blocks and try-blocks are known by their numbers, and wherever a set of them is shown it is shown
in ascending order. An `IdSet` is such a list together with the proof that it ascends, so that a
set is determined by its members (`IdSet.ext`) and showing it needs no further sorting.
-/

namespace GuardedRegions

/-- A finite set of block or try-block numbers. -/
structure IdSet where
  /-- The members, from the least to the greatest. -/
  toList : List Nat
  ascending : toList.Pairwise (· < ·)
deriving DecidableEq

namespace IdSet

instance : Membership Nat IdSet := ⟨fun s i => i ∈ s.toList⟩

instance (i : Nat) (s : IdSet) : Decidable (i ∈ s) := inferInstanceAs (Decidable (i ∈ s.toList))

@[simp] theorem mem_toList {i : Nat} {s : IdSet} : i ∈ s.toList ↔ i ∈ s := Iff.rfl

def empty : IdSet := ⟨[], .nil⟩

instance : EmptyCollection IdSet := ⟨empty⟩

instance : Inhabited IdSet := ⟨∅⟩

@[simp] theorem toList_empty : (∅ : IdSet).toList = [] := rfl

@[simp] theorem notMem_empty (i : Nat) : i ∉ (∅ : IdSet) := List.not_mem_nil

theorem ext {s t : IdSet} (h : ∀ i, i ∈ s ↔ i ∈ t) : s = t := by
  obtain ⟨xs, hx⟩ := s
  obtain ⟨ys, hy⟩ := t
  suffices xs = ys by subst this; rfl
  replace h : ∀ i, i ∈ xs ↔ i ∈ ys := h
  induction xs generalizing ys with
  | nil =>
    cases ys with
    | nil => rfl
    | cons y ys => exact absurd ((h y).2 (by simp)) (by simp)
  | cons x xs ih =>
    cases ys with
    | nil => exact absurd ((h x).1 (by simp)) (by simp)
    | cons y ys =>
      have hx' := List.pairwise_cons.1 hx
      have hy' := List.pairwise_cons.1 hy
      have hxy : x = y := by
        have h1 := (h x).1 (by simp)
        have h2 := (h y).2 (by simp)
        rcases List.mem_cons.1 h1 with h1 | h1
        · exact h1
        · rcases List.mem_cons.1 h2 with h2 | h2
          · exact h2.symm
          · have := hx'.1 y h2
            have := hy'.1 x h1
            omega
      subst hxy
      congr 1
      refine ih hx'.2 ys hy'.2 fun i => ⟨fun hi => ?_, fun hi => ?_⟩
      · have := hx'.1 i hi
        rcases List.mem_cons.1 ((h i).1 (by simp [hi])) with rfl | h'
        · omega
        · exact h'
      · have := hy'.1 i hi
        rcases List.mem_cons.1 ((h i).2 (by simp [hi])) with rfl | h'
        · omega
        · exact h'

def isEmpty (s : IdSet) : Bool := s.toList.isEmpty

/-! ## Choosing members -/

def filter (s : IdSet) (p : Nat → Bool) : IdSet := ⟨s.toList.filter p, s.ascending.filter p⟩

@[simp] theorem mem_filter {s : IdSet} {p : Nat → Bool} {i : Nat} :
    i ∈ s.filter p ↔ i ∈ s ∧ p i = true := List.mem_filter

def below (n : Nat) (p : Nat → Bool) : IdSet :=
  ⟨(List.range n).filter p, List.pairwise_lt_range.filter p⟩

@[simp] theorem mem_below {n : Nat} {p : Nat → Bool} {i : Nat} :
    i ∈ below n p ↔ i < n ∧ p i = true := by
  simp [below, ← mem_toList]

def erase (s : IdSet) (i : Nat) : IdSet := s.filter (· != i)

@[simp] theorem mem_erase {s : IdSet} {i j : Nat} : j ∈ s.erase i ↔ j ∈ s ∧ j ≠ i := by
  simp [erase]

def inter (s t : IdSet) : IdSet := s.filter fun i => decide (i ∈ t)

instance : Inter IdSet := ⟨inter⟩

@[simp] theorem mem_inter {s t : IdSet} {i : Nat} : i ∈ s ∩ t ↔ i ∈ s ∧ i ∈ t := by
  show i ∈ s.filter (fun i => decide (i ∈ t)) ↔ _
  simp

/-! ## Adding members -/

/-- An ascending list with one more number in its place. -/
def insertList (i : Nat) : List Nat → List Nat
  | [] => [i]
  | x :: xs => if i < x then i :: x :: xs else if i = x then x :: xs else x :: insertList i xs

theorem mem_insertList {i j : Nat} {xs : List Nat} : j ∈ insertList i xs ↔ j = i ∨ j ∈ xs := by
  induction xs with
  | nil => simp [insertList]
  | cons x xs ih => grind [insertList]

theorem pairwise_insertList {i : Nat} {xs : List Nat} (h : xs.Pairwise (· < ·)) :
    (insertList i xs).Pairwise (· < ·) := by
  induction xs with
  | nil => simp [insertList]
  | cons x xs ih =>
    obtain ⟨hx, hxs⟩ := List.pairwise_cons.1 h
    simp only [insertList]
    split
    · refine List.pairwise_cons.2 ⟨fun j hj => ?_, h⟩
      rcases List.mem_cons.1 hj with rfl | hj
      · assumption
      · have := hx j hj
        omega
    · split
      · exact h
      · refine List.pairwise_cons.2 ⟨fun j hj => ?_, ih hxs⟩
        rcases mem_insertList.1 hj with rfl | hj
        · omega
        · exact hx j hj

def insert (i : Nat) (s : IdSet) : IdSet := ⟨insertList i s.toList, pairwise_insertList s.ascending⟩

@[simp] theorem mem_insert {i j : Nat} {s : IdSet} : j ∈ s.insert i ↔ j = i ∨ j ∈ s :=
  mem_insertList

def ofList (xs : List Nat) : IdSet := xs.foldr insert ∅

@[simp] theorem mem_ofList {i : Nat} {xs : List Nat} : i ∈ ofList xs ↔ i ∈ xs := by
  induction xs with
  | nil => simp [ofList]
  | cons x xs ih => simpa [ofList] using or_congr_right ih

end IdSet

end GuardedRegions
