import GuardedRegions.Proofs.Wrapping.Run

/-!
# What is visited while the tree changes

Whatever a visitor makes of the regions that it leaves, a traversal visits the tree that it started on: the visitor is called at
the containers of the post-order of this tree, one after the other, and at nothing that was made under way, if it leaves alone
what is still to be left (`RegionTree.traversals_visit_the_first_tree`). Sweeps are of this kind.
-/

namespace GuardedRegions

namespace RegionTree

variable {t : RegionTree}

namespace Visitor

variable {σ : Type} {visitor : Visitor σ} {s : σ} {done : List Container} {todo : List Task} {x : RegionTree × σ}

theorem Stage.foldlM_call (h : visitor.Stage t s done todo x) : done.foldlM visitor.call (t, s) = .ok x := by
  induction h with
  | start => rfl
  | block _ ih =>
    rw [List.foldlM_append, ih]
    rfl
  | enter _ _ ih => exact ih
  | leave _ hcall ih =>
    rw [List.foldlM_append, ih, ok_bind, List.foldlM_cons, call, hcall]
    rfl

end Visitor

theorem WellFormed.pair_sublist_postOrder (h : t.WellFormed) {r : Nat} {c : Container} (hc : c ∈ t.childrenOf r) :
    [c, Container.region r].Sublist (t.postOrder (.region t.root)) := by
  have hr := lt_size_of_mem hc
  have hchild : [c].Sublist ((t.childrenOf r).flatMap t.postOrder) :=
    List.singleton_sublist.2 (List.mem_flatMap.2 ⟨c, hc, h.self_mem_postOrder c⟩)
  refine List.Sublist.trans ?_ (h.postOrder_infix (h.reached r hr)).sublist
  rw [h.postOrder_region hr]
  exact hchild.append (List.Sublist.refl [Container.region r])

/-- **A traversal visits the tree that it starts on**, whatever becomes of this tree under way. The calls of the visitor are the
post-order of the tree: every region and every block of it once, each region behind what is below it, siblings in their order,
and nothing else. If the visitor, when it leaves a region, changes the children of no region of the tree but of this one and of
those that it has left, the traversal is the loop of these calls, and at every stage of it a first part of them is done. A sweep
is such a visitor. -/
theorem traversals_visit_the_first_tree (hv : t.validate = .ok ()) :
    ∃ calls : List Container,
      calls = t.postOrder (.region t.root) ∧
      (∀ b, t.postOrder (.block b) = [.block b]) ∧
      (∀ r < t.size, t.postOrder (.region r) = (t.childrenOf r).flatMap t.postOrder ++ [.region r]) ∧
      calls.Nodup ∧ (∀ r, .region r ∈ calls ↔ r < t.size) ∧ (∀ b, .block b ∈ calls ↔ t.Holds b) ∧
      (∀ r, ∀ c ∈ t.childrenOf r, [c, Container.region r].Sublist calls) ∧
      t.blocksOf (.region t.root) = .ok (calls.filterMap Container.block?) ∧
      (∀ (σ : Type) (visitor : Visitor σ) (s : σ), visitor.Spares t s →
        t.traverse visitor s = calls.foldlM visitor.call (t, s) ∧
        ∀ done todo x, visitor.Stage t s done todo x → done <+: calls ∧ done.foldlM visitor.call (t, s) = .ok x) ∧
      ∀ (g : Graph) (doms : Dominance) (tryBlocks : List TryBlock) (s : Sweep), (∀ tb ∈ tryBlocks, tb.HandlersIn g) →
        (Sweep.visitor g doms tryBlocks).Spares t s := by
  have hw := validate_eq_ok_iff.1 hv
  refine ⟨_, rfl, fun b => postOrder_block, fun r => hw.postOrder_region, hw.nodup_postOrder hw.has_root, fun r => ?_,
    fun b => ?_, fun r c => hw.pair_sublist_postOrder, hw.blocksOf_eq hw.has_root, fun σ visitor s hs => ⟨?_, ?_⟩, ?_⟩
  · exact ⟨hw.has_of_mem_postOrder, fun hr => (hw.mem_postOrder hw.has_root).2 (hw.reached r hr)⟩
  · rw [← hw.mem_blockList_root, blockList, List.mem_filterMap]
    simp
  · exact hw.traverse_eq_foldlM hs
  · intro done todo x hstage
    exact ⟨⟨_, (hstage.follows hw hs).order⟩, hstage.foldlM_call⟩
  · exact fun g doms tryBlocks s hh => Sweep.spares hw hh doms s

/-- A sweep over the tree of two regions, which moves what is in the inner one into a third: the calls are those at the five blocks
and at the first two regions. -/
theorem traversals_visit_the_first_tree_nestedTries :
    Method.nestedTries.tree.validate = .ok () ∧
      ∃ u s, Method.nestedTries.tree.traverse
          (Sweep.visitor Method.nestedTries.graph .nestedTries Method.nestedTries.tryBlocks) { pending := .nestedTries } =
          .ok (u, s) ∧
        [.block 0, .block 1, .block 2, .region 1, .block 3, .block 4, .region 0].foldlM
          (Sweep.visitor Method.nestedTries.graph .nestedTries Method.nestedTries.tryBlocks).call
          (Method.nestedTries.tree, { pending := .nestedTries }) = .ok (u, s) ∧
        u.childrenOf 1 = [.region 2] ∧ u.childrenOf 2 = [.block 1, .block 2] := by
  have hv : Method.nestedTries.tree.validate = .ok () := by decide
  obtain ⟨calls, hcalls, -, -, -, -, -, -, -, hloop, hspares⟩ := traversals_visit_the_first_tree hv
  have horder : calls = [.block 0, .block 1, .block 2, .region 1, .block 3, .block 4, .region 0] := hcalls.trans (by decide)
  have hhandlers : Method.nestedTries.HandlersExist := by decide
  have hrun := (hloop _ _ _ (hspares _ .nestedTries _ { pending := .nestedTries } hhandlers)).1
  rw [horder] at hrun
  rw [hrun]
  exact ⟨hv, _, _, rfl, rfl, by decide, by decide⟩

end RegionTree

end GuardedRegions
