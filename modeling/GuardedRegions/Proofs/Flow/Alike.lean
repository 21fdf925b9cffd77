import GuardedRegions.Proofs.Flow.Forward

/-!
# What the analysis reads off a graph

Two graphs are alike if they have the same blocks with the same guards, the same entry, and edges between the same distinct
blocks. A path of one of them is one of the other as soon as it does not stay where it is, so a path over some blocks means
that there is one over no others in the other graph (`Alike.exists_path`). Whatever asks only which blocks can be reached over
which others has the same answer on both: dominance, and going forward.
-/

namespace GuardedRegions.Graph

variable {g g' : Graph} {entry a b : Nat} {p : List Nat}

/-- The second graph differs from the first one at most in offsets, in the order, the number and the kinds of its edges, and
in edges from a block to itself. -/
structure Alike (g g' : Graph) : Prop where
  blockCount : g'.blockCount = g.blockCount
  entry : g'.entry = g.entry
  guardOf : ∀ b, g'.guardOf b = g.guardOf b
  mem_successors_iff : ∀ a b, a ≠ b → (b ∈ g'.successors a ↔ b ∈ g.successors a)

namespace Alike

theorem symm (h : g.Alike g') : g'.Alike g where
  blockCount := h.blockCount.symm
  entry := h.entry.symm
  guardOf b := (h.guardOf b).symm
  mem_successors_iff a b hab := (h.mem_successors_iff a b hab).symm

theorem isEmpty (h : g.Alike g') : g'.isEmpty = g.isEmpty := by
  have hcount : g'.blocks.size = g.blocks.size := h.blockCount
  simp only [Graph.isEmpty, Array.isEmpty, hcount]

/-! ## Guards -/

theorem tryBlocksInUse (h : g.Alike g') : g'.tryBlocksInUse = g.tryBlocksInUse := by
  apply IdSet.ext
  intro id
  simp only [mem_tryBlocksInUse, h.guardOf]

theorem guardedBy (h : g.Alike g') (id : Nat) : g'.guardedBy id = g.guardedBy id := by
  apply IdSet.ext
  intro b
  simp only [mem_guardedBy, h.guardOf]

/-! ## Paths -/

theorem exists_path (h : g.Alike g') (hp : g.Path a b p) : ∃ q, g'.Path a b q ∧ q ⊆ p := by
  induction hp with
  | stay ha => exact ⟨_, .stay (h.blockCount ▸ ha), List.Subset.refl _⟩
  | @step a b c p hb _ ih =>
    obtain ⟨q, hq, hqp⟩ := ih
    by_cases hab : a = b
    · subst hab
      exact ⟨q, hq, List.Subset.trans hqp (List.subset_cons_self _ _)⟩
    · exact ⟨_, .step ((h.mem_successors_iff a b hab).2 hb) hq, List.cons_subset_cons _ hqp⟩

theorem exists_path_iff (h : g.Alike g') (P : Nat → Prop) :
    (∃ p, g'.Path a b p ∧ ∀ c ∈ p, P c) ↔ ∃ p, g.Path a b p ∧ ∀ c ∈ p, P c := by
  constructor
  · rintro ⟨p, hp, hall⟩
    obtain ⟨q, hq, hqp⟩ := h.symm.exists_path hp
    exact ⟨q, hq, fun c hc => hall c (hqp hc)⟩
  · rintro ⟨p, hp, hall⟩
    obtain ⟨q, hq, hqp⟩ := h.exists_path hp
    exact ⟨q, hq, fun c hc => hall c (hqp hc)⟩

theorem mem_reached_iff (h : g.Alike g') {isOpen : Nat → Bool} :
    b ∈ g'.reached isOpen a ↔ b ∈ g.reached isOpen a := by
  rw [Graph.mem_reached_iff, Graph.mem_reached_iff]
  exact h.exists_path_iff fun c => isOpen c = true

/-! ## Dominance -/

theorem dominates_iff (h : g.Alike g') : g'.Dominates entry a b ↔ g.Dominates entry a b := by
  rw [dominates_iff_reached, dominates_iff_reached, h.mem_reached_iff, h.mem_reached_iff]

theorem dominatorSets (h : g.Alike g') (entry : Nat) : g'.dominatorSets entry = g.dominatorSets entry := by
  have htable : ∀ g : Graph, g.dominatorSets entry =
      (List.range g.blockCount).map fun b => (b, ({ sets := g.dominatorSets entry } : Dominance).dominators b) := by
    intro g
    conv => lhs; unfold Graph.dominatorSets
    refine List.map_congr_left fun b hb => ?_
    rw [Dominance.dominators, Graph.dominatorSets, lookup_map_key, if_pos hb]
    rfl
  rw [htable g', htable g, h.blockCount]
  refine List.map_congr_left fun b _ => congrArg (Prod.mk b) (IdSet.ext fun a => ?_)
  rw [mem_dominators_sets, mem_dominators_sets, h.dominates_iff]

/-- **Graphs that are alike have the same dominance.** -/
theorem dominance (h : g.Alike g') : g'.dominance = g.dominance := by
  unfold Graph.dominance
  simp only [h.entry, h.blockCount, h.dominatorSets]

/-! ## Going forward -/

theorem forward (h : g.Alike g') (d : Dominance) (a b : Nat) : d.forward g' a b = d.forward g a b := by
  have hreached : ∀ isOpen, (g'.reached isOpen a).contains b = (g.reached isOpen a).contains b := by
    intro isOpen
    rw [Bool.eq_iff_iff, List.contains_iff_mem, List.contains_iff_mem, h.mem_reached_iff]
  unfold Dominance.forward Dominance.reachesForward
  simp only [h.blockCount, hreached]

end Alike

end GuardedRegions.Graph
