import GuardedRegions.Proofs.Method
import GuardedRegions.Proofs.Region.Walk
import GuardedRegions.Region.Query

/-!
# Questions about the blocks below a container

In a tree, and for try-blocks whose handlers start at blocks of the graph, the two questions are answered, by
`RegionTree.dominated` and `RegionTree.handled`. Both are about every block below the container, so an answer passes on to
any container, of any tree, with fewer blocks (`dominated_of_subset`, `handled_of_subset`).
-/

namespace GuardedRegions

namespace Dominance

/-- Whether control can come forward to a block, from a block that exists. -/
def forward (d : Dominance) (g : Graph) (start target : Nat) : Bool :=
  match d.reachesForward g start target with
  | .ok answer => answer
  | .error _ => false

theorem reachesForward_eq {d : Dominance} {g : Graph} {start : Nat} (h : start < g.blockCount) (target : Nat) :
    d.reachesForward g start target = .ok (d.forward g start target) := by
  have hok : ∃ answer, d.reachesForward g start target = .ok answer := by
    unfold reachesForward
    dsimp only
    split_ifs <;> exact ⟨_, rfl⟩
  obtain ⟨answer, hok⟩ := hok
  rw [forward, hok]

end Dominance

namespace RegionTree

variable {t u : RegionTree} {g : Graph} {doms : Dominance} {tryBlock : TryBlock} {dominator : Nat} {c d : Container}

def dominated (t : RegionTree) (doms : Dominance) (dominator : Nat) (c : Container) : Bool :=
  (t.blockList c).all fun b => b == dominator || doms.dominates dominator b

/-- Whether one of the handlers of a try-block reaches every block of a container. -/
def handled (t : RegionTree) (g : Graph) (doms : Dominance) (tryBlock : TryBlock) (c : Container) : Bool :=
  tryBlock.handlers.any fun h => (t.blockList c).all (doms.forward g h.entry)

theorem dominated_iff :
    t.dominated doms dominator c = true ↔ ∀ b ∈ t.blockList c, b = dominator ∨ doms.dominates dominator b = true := by
  simp [dominated]

theorem dominated_of_subset (hsub : ∀ b ∈ t.blockList c, b ∈ u.blockList d)
    (h : u.dominated doms dominator d = true) : t.dominated doms dominator c = true := by
  rw [dominated_iff] at h ⊢
  exact fun b hb => h b (hsub b hb)

theorem handled_of_subset (hsub : ∀ b ∈ t.blockList c, b ∈ u.blockList d)
    (h : u.handled g doms tryBlock d = true) : t.handled g doms tryBlock c = true := by
  obtain ⟨handler, hh, hall⟩ := List.any_eq_true.1 h
  rw [List.all_eq_true] at hall
  exact List.any_eq_true.2 ⟨handler, hh, List.all_eq_true.2 fun b hb => hall b (hsub b hb)⟩

theorem WellFormed.isDominated_eq (h : t.WellFormed) (hc : t.Has c) :
    t.isDominated doms dominator c = .ok (t.dominated doms dominator c) :=
  h.everyBlock_eq (fun _ => rfl) hc

theorem WellFormed.onHandlerPath_eq (h : t.WellFormed) (hc : t.Has c) (hh : tryBlock.HandlersIn g) :
    t.onHandlerPath g doms tryBlock c = .ok (t.handled g doms tryBlock c) := by
  refine anyM_eq_ok fun handler hmem => ?_
  exact h.everyBlock_eq (fun b => Dominance.reachesForward_eq (hh handler hmem) b) hc

end RegionTree

end GuardedRegions
