import GuardedRegions.Region.Basic

/-!
# Pending try-blocks

Try-blocks that wait for their region are kept under the block that dominates what they guard, one
for each dominator. The first try-block that is put under a dominator stays; this is what decides
between try-blocks that begin at the same block. Every change is described by what `Pending.get?`
finds after it.
-/

namespace GuardedRegions

/-- Try-blocks under their dominators, in ascending order of the dominators. -/
structure Pending where
  /-- Pairs of a dominator and a try-block. -/
  entries : List (Nat × Nat)
  ascending : entries.Pairwise (·.1 < ·.1)
deriving DecidableEq

namespace Pending

instance : EmptyCollection Pending := ⟨⟨[], .nil⟩⟩

instance : Inhabited Pending := ⟨∅⟩

def get? (p : Pending) (dominator : Nat) : Option Nat := p.entries.lookup dominator

def isEmpty (p : Pending) : Bool := p.entries.isEmpty

def size (p : Pending) : Nat := p.entries.length

/-- Entries with one more in its place, unless its dominator has one already. -/
def insertList (dominator tryBlock : Nat) : List (Nat × Nat) → List (Nat × Nat)
  | [] => [(dominator, tryBlock)]
  | e :: es =>
    if dominator < e.1 then (dominator, tryBlock) :: e :: es
    else if dominator = e.1 then e :: es
    else e :: insertList dominator tryBlock es

theorem fst_of_mem_insertList {d t : Nat} {es : List (Nat × Nat)} {e : Nat × Nat}
    (h : e ∈ insertList d t es) : e = (d, t) ∨ e ∈ es := by
  induction es with
  | nil => simpa [insertList] using h
  | cons x xs ih => grind [insertList]

theorem pairwise_insertList {d t : Nat} {es : List (Nat × Nat)} (h : es.Pairwise (·.1 < ·.1)) :
    (insertList d t es).Pairwise (·.1 < ·.1) := by
  induction es with
  | nil => simp [insertList]
  | cons x xs ih =>
    obtain ⟨hx, hxs⟩ := List.pairwise_cons.1 h
    simp only [insertList]
    split
    · refine List.pairwise_cons.2 ⟨fun e he => ?_, h⟩
      rcases List.mem_cons.1 he with rfl | he
      · assumption
      · have := hx e he
        omega
    · split
      · exact h
      · refine List.pairwise_cons.2 ⟨fun e he => ?_, ih hxs⟩
        rcases fst_of_mem_insertList he with rfl | he
        · show x.1 < d
          omega
        · exact hx e he

/-- The map with one more try-block, unless its dominator has one already. -/
def insert (p : Pending) (dominator tryBlock : Nat) : Pending :=
  ⟨insertList dominator tryBlock p.entries, pairwise_insertList p.ascending⟩

def remove (p : Pending) (dominator : Nat) : Pending :=
  ⟨p.entries.filter (·.1 != dominator), p.ascending.filter _⟩

/-! ## What is under a dominator -/

@[simp] theorem get?_empty (d : Nat) : (∅ : Pending).get? d = none := rfl

theorem lookup_cons_eq_ite (e : Nat × Nat) (es : List (Nat × Nat)) (i : Nat) :
    (e :: es).lookup i = if i = e.1 then some e.2 else es.lookup i := by
  obtain ⟨k, v⟩ := e
  by_cases h : i = k
  · simp [h]
  · have hb : (i == k) = false := beq_false_of_ne h
    rw [List.lookup_cons, hb, if_neg h]

theorem lookup_eq_none {d : Nat} {es : List (Nat × Nat)} (h : ∀ e ∈ es, d < e.1) :
    es.lookup d = none := by
  induction es with
  | nil => rfl
  | cons x xs ih =>
    have := h x (by simp)
    rw [lookup_cons_eq_ite, if_neg (by omega)]
    exact ih fun e he => h e (by simp [he])

theorem lookup_insertList {d t i : Nat} {es : List (Nat × Nat)} (h : es.Pairwise (·.1 < ·.1)) :
    (insertList d t es).lookup i = if i = d then some ((es.lookup d).getD t) else es.lookup i := by
  induction es with
  | nil => simp only [insertList, lookup_cons_eq_ite, List.lookup_nil, Option.getD_none]
  | cons x xs ih =>
    obtain ⟨hx, hxs⟩ := List.pairwise_cons.1 h
    simp only [insertList]
    split
    · have : xs.lookup d = none := lookup_eq_none fun e he => by
        have := hx e he
        omega
      grind [lookup_cons_eq_ite]
    · split <;> grind [lookup_cons_eq_ite]

@[simp] theorem get?_insert (p : Pending) (d t i : Nat) :
    (p.insert d t).get? i = if i = d then some ((p.get? d).getD t) else p.get? i :=
  lookup_insertList p.ascending

@[simp] theorem get?_remove (p : Pending) (d i : Nat) :
    (p.remove d).get? i = if i = d then none else p.get? i := by
  simp only [get?, remove]
  induction p.entries with
  | nil => simp
  | cons x xs ih =>
    rw [List.filter_cons]
    grind [lookup_cons_eq_ite]

/-! ## Looking for a region's entry -/

/-- The first entry whose dominator is a child of a region. -/
def findIn (p : Pending) (t : RegionTree) (r : Nat) : Except Fault (Option (Nat × Nat)) :=
  p.entries.findM? fun e => t.contains r (.block e.1)

end Pending

end GuardedRegions
