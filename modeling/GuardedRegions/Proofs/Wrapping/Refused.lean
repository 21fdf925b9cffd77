import GuardedRegions.Proofs.Wrapping.Load

/-!
# How many try-blocks are given up in one region

A sweep resolves one entry in each region, so it gives up at most one there; and what a carving moves into a new region was
together in one region before. So after a number of sweeps no region has more children than that under which a try-block was
given up (`Method.resolve_refused`). A second run on the same tree, which has those try-blocks pending, therefore needs no more
sweeps than the first one was allowed.
-/

namespace GuardedRegions

/-- How many entries of a list have their dominators among the children of a region. -/
def RegionTree.countIn (t : RegionTree) (es : List (Nat × Nat)) (r : Nat) : Nat :=
  es.countP fun e => (t.childrenOf r).contains (.block e.1)

namespace Progress

variable {g : Graph} {doms : Dominance} {tryBlocks : List TryBlock} {r k : Nat} {rest : List Nat} {x y : Progress}

/-- In the middle of a sweep, the regions that were left may have one more refused child than those that are still to be
left. -/
def RefusedAtMost (k : Nat) (rest : List Nat) (x : Progress) : Prop :=
  ∀ q, x.tree.countIn x.failures q ≤ if q ∈ rest then k else k + 1

theorem RefusedAtMost.start (h : ∀ q, x.tree.countIn x.failures q ≤ k) (rest : List Nat) : RefusedAtMost k rest x := by
  intro q
  have hq := h q
  split
  · exact hq
  · exact Nat.le_succ_of_le hq

theorem RefusedAtMost.step (hx : RefusedAtMost k (r :: rest) x) (hw : x.tree.WellFormed) (hr : r ∉ rest)
    (h : Step g doms tryBlocks r x y) : RefusedAtMost k rest y := by
  have hself := hx r
  rw [if_pos List.mem_cons_self] at hself
  have hother : ∀ q, q ≠ r → x.tree.countIn x.failures q ≤ if q ∈ rest then k else k + 1 := by
    intro q hq
    have := hx q
    simpa only [List.mem_cons, hq, false_or] using this
  intro q
  cases h with
  | idle =>
    by_cases hq : q = r
    · subst hq
      rw [if_neg hr]
      exact Nat.le_succ_of_le hself
    · exact hother q hq
  | @gaveUp e hfirst =>
    have hsplit : x.tree.countIn (x.failures ++ [e]) q = x.tree.countIn x.failures q + x.tree.countIn [e] q :=
      List.countP_append
    show x.tree.countIn (x.failures ++ [e]) q ≤ _
    rw [hsplit]
    by_cases hq : q = r
    · subst hq
      have hone : x.tree.countIn [e] q ≤ 1 := List.countP_le_length
      rw [if_neg hr]
      omega
    · have hzero : x.tree.countIn [e] q = 0 := by
        have hno : .block e.1 ∉ x.tree.childrenOf q := fun hmem =>
          hq (Container.region.inj (hw.parent_unique (.region q) (.region r) _ hmem (Pending.child_of_first? hfirst)))
        simp [RegionTree.countIn, hno]
      rw [hzero]
      exact hother q hq
  | @wrapped e tb u hfirst htb hre =>
    have hstep : Step g doms tryBlocks r x _ := Step.wrapped hfirst htb hre
    show u.countIn x.failures q ≤ _
    by_cases hq : q = r ∨ x.tree.size ≤ q
    · have hle : u.countIn x.failures q ≤ x.tree.countIn x.failures r := by
        refine List.countP_mono_left fun e _ he => ?_
        rw [List.contains_iff_mem] at he ⊢
        exact hstep.block_mem hw hq he
      split <;> omega
    · obtain ⟨hqr, hlt⟩ := not_or.1 hq
      have hsame : u.childrenOf q = x.tree.childrenOf q := hstep.childrenOf_eq hqr (Nat.not_le.1 hlt)
      have := hother q hqr
      rwa [RegionTree.countIn, hsame]

end Progress

/-- **A run gives up no more try-blocks in a region than it may make sweeps.** -/
theorem Method.resolve_refused {m : Method} (hw : m.tree.WellFormed) (hh : m.HandlersExist) (doms : Dominance)
    (pending : Pending) (limit : Nat) :
    ∃ resolved result y, m.resolve doms pending limit = .ok (resolved, result) ∧
      Progress.Steps m.graph doms m.tryBlocks { tree := m.tree, pending } y ∧ Resolution.Reports m y resolved ∧
      ∀ q, y.tree.countIn y.failures q ≤ limit + 1 := by
  let start : Progress := { tree := m.tree, pending }
  let K : Nat → Progress → Prop := fun n x =>
    Progress.Steps m.graph doms m.tryBlocks start x ∧ ∀ q, x.tree.countIn x.failures q ≤ n
  have hsweep : ∀ n s x, Resolution.Reports m x s → K n x →
      ∃ s' y, s.sweep doms = .ok s' ∧ Resolution.Reports m y s' ∧ K (n + 1) y := by
    rintro n s x hx ⟨hsteps, hcount⟩
    obtain ⟨s', y, hs, -, hy, hsteps', hrefused⟩ := hx.sweep_invariant (hsteps.wellFormed hw) hh doms
      (fun rest a => Progress.Steps m.graph doms m.tryBlocks start a ∧ Progress.RefusedAtMost n rest a)
      (fun r rest a b ha hJ hab =>
        ⟨hJ.1.tail ⟨r, hab⟩, hJ.2.step ha.wellFormed (List.nodup_cons.1 ha.nodup).1 hab⟩)
      ⟨hsteps, .start hcount _⟩
    exact ⟨s', y, hs, hy, hsteps', fun q => by simpa using hrefused q⟩
  have hstart : K 0 start := ⟨.refl, fun q => Nat.le_refl 0⟩
  obtain ⟨resolved, result, y, n, hok, hy, hn, hsteps, hcount⟩ :=
    (Resolution.Reports.start m pending).run_invariant K hsweep hstart (limit + 1)
  exact ⟨resolved, result, y, hok, hsteps, hy, fun q => Nat.le_trans (hcount q) (by omega)⟩

end GuardedRegions
