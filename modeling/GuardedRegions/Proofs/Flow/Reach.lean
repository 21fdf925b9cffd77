import GuardedRegions.Flow.Reach
import Mathlib.Data.List.Basic

/-!
# Paths, and what the search for them finds

A `Graph.Path` lists the blocks that control stands on from one block to another, both included. The rounds of
`Graph.explore` find a block if and only if a path over open blocks leads to it (`mem_reached_iff`). That nothing else is
found is true after every round. That nothing is missing is true at the end only: until then the blocks of the last round
have not been left yet (`Spread`), and every round but the last one takes a block from those that are unseen, of which
there are no more than rounds.
-/

namespace GuardedRegions.Graph

variable {g : Graph} {isOpen : Nat → Bool} {a b c : Nat} {p : List Nat}

/-! ## Paths -/

/-- The blocks on a way that control can take from one block to another. -/
inductive Path (g : Graph) : Nat → Nat → List Nat → Prop
  | stay {a : Nat} (ha : a < g.blockCount) : Path g a a [a]
  | step {a b c : Nat} {p : List Nat} (hb : b ∈ g.successors a) (hp : Path g b c p) : Path g a c (a :: p)

namespace Path

theorem left_mem (hp : g.Path a b p) : a ∈ p := by
  cases hp <;> exact List.mem_cons_self

theorem right_mem (hp : g.Path a b p) : b ∈ p := by
  induction hp with
  | stay => exact List.mem_cons_self
  | step _ _ ih => exact List.mem_cons_of_mem _ ih

theorem lt_of_mem (hp : g.Path a b p) (hc : c ∈ p) : c < g.blockCount := by
  induction hp with
  | stay ha => rwa [List.mem_singleton.1 hc]
  | step hb _ ih =>
    rcases List.mem_cons.1 hc with rfl | hc
    · exact (lt_of_mem_successors hb).1
    · exact ih hc

theorem snoc (hp : g.Path a b p) (hc : c ∈ g.successors b) : g.Path a c (p ++ [c]) := by
  induction hp with
  | stay => exact .step hc (.stay (lt_of_mem_successors hc).2)
  | step hb _ ih => exact .step hb (ih hc)

theorem exists_to (hp : g.Path a b p) (hc : c ∈ p) : ∃ q, g.Path a c q ∧ q ⊆ p := by
  induction hp with
  | stay ha =>
    obtain rfl := List.mem_singleton.1 hc
    exact ⟨_, .stay ha, List.Subset.refl _⟩
  | step hb hp ih =>
    rcases List.mem_cons.1 hc with rfl | hc
    · refine ⟨[c], .stay (lt_of_mem_successors hb).1, ?_⟩
      simp
    · obtain ⟨q, hq, hqp⟩ := ih hc
      exact ⟨_, .step hb hq, List.cons_subset_cons _ hqp⟩

theorem exists_from (hp : g.Path a b p) (hc : c ∈ p) : ∃ q, g.Path c b q ∧ q ⊆ p := by
  induction hp with
  | stay ha =>
    obtain rfl := List.mem_singleton.1 hc
    exact ⟨_, .stay ha, List.Subset.refl _⟩
  | step hb hp ih =>
    rcases List.mem_cons.1 hc with rfl | hc
    · exact ⟨_, .step hb hp, List.Subset.refl _⟩
    · obtain ⟨q, hq, hqp⟩ := ih hc
      exact ⟨q, hq, List.Subset.trans hqp (List.subset_cons_self _ _)⟩

/-- From the last time that it stands on a block, it leads on without that block. -/
theorem exists_from_last (hp : g.Path a b p) (hc : c ∈ p) : ∃ q, g.Path c b (c :: q) ∧ c ∉ q := by
  induction hp with
  | stay ha =>
    obtain rfl := List.mem_singleton.1 hc
    exact ⟨[], .stay ha, List.not_mem_nil⟩
  | @step a b' _ p hb hp ih =>
    by_cases hcp : c ∈ p
    · exact ih hcp
    · obtain rfl := (List.mem_cons.1 hc).resolve_right hcp
      exact ⟨p, .step hb hp, hcp⟩

/-- What holds of the first block of a path and passes along each of its edges holds of the last one. -/
theorem transport {R : Nat → Prop} (hp : g.Path a b p) (ha : R a)
    (hstep : ∀ x y, x ∈ p → y ∈ p → y ∈ g.successors x → R x → R y) : R b := by
  induction hp with
  | stay => exact ha
  | step hb hp ih =>
    apply ih
    · exact hstep _ _ List.mem_cons_self (List.mem_cons_of_mem _ hp.left_mem) hb ha
    · intro x y hx hy
      exact hstep x y (List.mem_cons_of_mem _ hx) (List.mem_cons_of_mem _ hy)

end Path

/-! ## Nothing but what can be reached -/

theorem explore_sound {R : Nat → Prop} {rounds : Nat} {seen frontier : List Nat}
    (hstep : ∀ x y, R x → y ∈ g.successors x → isOpen y = true → R y) (hseen : ∀ x ∈ seen, R x)
    (hfrontier : ∀ x ∈ frontier, R x) : ∀ x ∈ g.explore isOpen rounds seen frontier, R x := by
  induction rounds generalizing seen frontier with
  | zero => exact hseen
  | succ rounds ih =>
    have hnext : ∀ y ∈ g.nextFrontier isOpen seen frontier, R y := by
      intro y hy
      obtain ⟨⟨x, hx, hxy⟩, ho, -⟩ := mem_nextFrontier.1 hy
      exact hstep x y (hfrontier x hx) hxy ho
    unfold explore
    split
    · exact hseen
    · rename_i y ys heq
      rw [heq] at hnext
      apply ih _ hnext
      intro x hx
      exact (List.mem_append.1 hx).elim (hseen x) (hnext x)

/-! ## All that can be reached -/

/-- The search has left every seen block that is not in the frontier. -/
def Spread (g : Graph) (isOpen : Nat → Bool) (seen frontier : List Nat) : Prop :=
  ∀ x ∈ seen, x ∉ frontier → ∀ y ∈ g.successors x, isOpen y = true → y ∈ seen

def unseen (g : Graph) (seen : List Nat) : List Nat := (List.range g.blockCount).filter fun b => !seen.contains b

theorem mem_unseen {seen : List Nat} : b ∈ g.unseen seen ↔ b < g.blockCount ∧ b ∉ seen := by
  simp [unseen]

theorem length_unseen_le {seen : List Nat} : (g.unseen seen).length ≤ g.blockCount := by
  have := List.length_filter_le (fun b => !seen.contains b) (List.range g.blockCount)
  rwa [List.length_range] at this

theorem Spread.next {seen frontier : List Nat} (h : g.Spread isOpen seen frontier) :
    g.Spread isOpen (seen ++ g.nextFrontier isOpen seen frontier) (g.nextFrontier isOpen seen frontier) := by
  intro x hx hnew y hy ho
  have hx : x ∈ seen := (List.mem_append.1 hx).resolve_right hnew
  by_cases hys : y ∈ seen
  · exact List.mem_append_left _ hys
  · apply List.mem_append_right
    rw [mem_nextFrontier]
    refine ⟨⟨x, ?_, hy⟩, ho, hys⟩
    by_contra hxf
    exact hys (h x hx hxf y hy ho)

theorem length_unseen_lt {seen found : List Nat} (hb : b ∈ found) (hlt : b < g.blockCount) (hnew : b ∉ seen) :
    (g.unseen (seen ++ found)).length < (g.unseen seen).length := by
  have hmem : b ∈ g.unseen seen := mem_unseen.2 ⟨hlt, hnew⟩
  have hsplit : g.unseen (seen ++ found) = (g.unseen seen).filter fun b => !found.contains b := by
    simp [unseen, List.filter_filter, Bool.and_comm]
  rw [hsplit]
  exact List.length_filter_lt_length_iff_exists.2 ⟨b, hmem, by simp [hb]⟩

theorem subset_explore {rounds : Nat} {seen frontier : List Nat} : seen ⊆ g.explore isOpen rounds seen frontier := by
  induction rounds generalizing seen frontier with
  | zero => exact List.Subset.refl _
  | succ rounds ih =>
    unfold explore
    split
    · exact List.Subset.refl _
    · exact fun x hx => ih (List.mem_append_left _ hx)

theorem explore_complete {rounds : Nat} {seen frontier : List Nat} (hspread : g.Spread isOpen seen frontier)
    (hrounds : (g.unseen seen).length ≤ rounds) : g.Spread isOpen (g.explore isOpen rounds seen frontier) [] := by
  induction rounds generalizing seen frontier with
  | zero =>
    intro x _ _ y hy _
    have hnone : g.unseen seen = [] := List.length_eq_zero_iff.1 (Nat.le_zero.1 hrounds)
    by_contra hys
    have hy : y ∈ g.unseen seen := mem_unseen.2 ⟨(lt_of_mem_successors hy).2, hys⟩
    rw [hnone] at hy
    cases hy
  | succ rounds ih =>
    have hnext := hspread.next
    unfold explore
    split
    · rename_i heq
      rwa [heq, List.append_nil] at hnext
    · rename_i y ys heq
      have hy : y ∈ g.nextFrontier isOpen seen frontier := heq ▸ List.mem_cons_self
      obtain ⟨⟨x, -, hxy⟩, -, hnew⟩ := mem_nextFrontier.1 hy
      rw [heq] at hnext
      apply ih hnext
      have hmem : y ∈ y :: ys := List.mem_cons_self
      have := length_unseen_lt hmem (lt_of_mem_successors hxy).2 hnew
      omega

/-! ## What the search finds -/

/-- The search finds the blocks to which a path over open blocks leads. -/
theorem mem_reached_iff :
    b ∈ g.reached isOpen a ↔ ∃ p, g.Path a b p ∧ ∀ c ∈ p, isOpen c = true := by
  unfold reached
  split
  · rename_i hstart
    obtain ⟨ha, ho⟩ := Bool.and_eq_true_iff.1 hstart
    have ha : a < g.blockCount := of_decide_eq_true ha
    constructor
    · apply explore_sound (R := fun b => ∃ p, g.Path a b p ∧ ∀ c ∈ p, isOpen c = true)
      · rintro x y ⟨p, hp, hopen⟩ hy hoy
        refine ⟨_, hp.snoc hy, fun c hc => ?_⟩
        rcases List.mem_append.1 hc with hc | hc
        · exact hopen c hc
        · rwa [List.mem_singleton.1 hc]
      all_goals
        intro x hx
        obtain rfl := List.mem_singleton.1 hx
        exact ⟨_, .stay ha, by simpa using ho⟩
    · rintro ⟨p, hp, hopen⟩
      have hspread : g.Spread isOpen [a] [a] := fun x hx hnew => absurd hx hnew
      have hall := explore_complete hspread length_unseen_le
      apply hp.transport (R := fun b => b ∈ g.explore isOpen g.blockCount [a] [a])
      · exact subset_explore List.mem_cons_self
      · exact fun x y _ hy hxy hx => hall x hx List.not_mem_nil y hxy (hopen y hy)
  · rename_i hstart
    refine ⟨fun h => absurd h List.not_mem_nil, ?_⟩
    rintro ⟨p, hp, hopen⟩
    exact absurd (by simp [hp.lt_of_mem hp.left_mem, hopen a hp.left_mem]) hstart

end GuardedRegions.Graph
