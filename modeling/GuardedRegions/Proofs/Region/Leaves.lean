import GuardedRegions.Proofs.Region.Walk

/-!
# The leaves of a tree, in its order

Code stands in the blocks, and a region without children stands somewhere without holding any. `RegionTree.leafList` lists both
in the order of the tree; a container that exists has a leaf, and its blocks are the blocks among its leaves
(`blockList_eq_filterMap`). What lies below a container is a contiguous part of what lies below any container above it
(`WellFormed.leafList_infix`).
-/

namespace GuardedRegions.RegionTree

open Relation

variable {t : RegionTree} {c d l : Container} {r : Nat}

def isLeaf (t : RegionTree) : Container → Bool
  | .block _ => true
  | .region r => (t.childrenOf r).isEmpty

/-- The blocks below a container and the regions below it that have no children, in the order of the tree. -/
def leafList (t : RegionTree) (c : Container) : List Container := (t.postOrder c).filter t.isLeaf

@[simp] theorem leafList_block {b : Nat} : t.leafList (.block b) = [.block b] := by
  simp [leafList, isLeaf]

theorem blockList_eq_filterMap (c : Container) : t.blockList c = (t.leafList c).filterMap Container.block? := by
  rw [leafList, List.filterMap_filter]
  refine List.filterMap_congr fun d _ => ?_
  cases d <;> simp [isLeaf]

namespace WellFormed

theorem leafList_of_nil (h : t.WellFormed) (hr : r < t.size) (hnil : t.childrenOf r = []) :
    t.leafList (.region r) = [.region r] := by
  rw [leafList, h.postOrder_region hr, hnil]
  simp [isLeaf, hnil]

theorem leafList_of_ne_nil (h : t.WellFormed) (hne : t.childrenOf r ≠ []) :
    t.leafList (.region r) = (t.childrenOf r).flatMap t.leafList := by
  obtain ⟨c, hc⟩ := List.exists_mem_of_ne_nil _ hne
  have hno : ¬ t.isLeaf (.region r) = true := by simpa [isLeaf] using hne
  rw [leafList, h.postOrder_region (lt_size_of_mem hc), List.filter_append, List.filter_flatMap,
    List.filter_cons_of_neg hno, List.filter_nil, List.append_nil]
  rfl

theorem covers_of_mem_leafList (h : t.WellFormed) (hc : t.Has c) (hl : l ∈ t.leafList c) : t.Covers c l :=
  (h.mem_postOrder hc).1 (List.mem_filter.1 hl).1

theorem nodup_leafList (h : t.WellFormed) (hc : t.Has c) : (t.leafList c).Nodup :=
  (h.nodup_postOrder hc).filter _

theorem leafList_ne_nil (h : t.WellFormed) (hc : t.Has c) : t.leafList c ≠ [] := by
  induction c using h.induction with
  | step c ih =>
    cases c with
    | block b => simp
    | region r =>
      cases hcs : t.childrenOf r with
      | nil =>
        rw [h.leafList_of_nil hc hcs]
        exact List.cons_ne_nil _ _
      | cons d ds =>
        have hd : d ∈ t.childrenOf r := hcs ▸ List.mem_cons_self
        have hne : t.childrenOf r ≠ [] := List.ne_nil_of_mem hd
        obtain ⟨l, hl⟩ := List.exists_mem_of_ne_nil _ (ih d hd (h.has_of_mem hd))
        rw [h.leafList_of_ne_nil hne]
        exact List.ne_nil_of_mem (List.mem_flatMap.2 ⟨d, hd, hl⟩)

theorem leafList_infix (h : t.WellFormed) (hc : t.Covers c d) : t.leafList d <:+: t.leafList c :=
  (h.postOrder_infix hc).filter _

end WellFormed

end GuardedRegions.RegionTree
