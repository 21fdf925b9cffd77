import GuardedRegions.Proofs.Region.Nesting
import Mathlib.Data.List.Flatten
import Mathlib.Data.List.Nodup
import Mathlib.Data.List.Pairwise

/-!
# All lists of children

Whether an arena is a tree can be told from the lists of children taken together (`RegionTree.listed`): no region and no block
is listed twice (`wellFormed_iff_framed`). What concerns the regions alone is `RegionTree.Framed`; such an arena is a tree but
for its blocks.
-/

namespace GuardedRegions.RegionTree

variable {t : RegionTree}

def blocksIn (t : RegionTree) (r : Nat) : List Nat := (t.childrenOf r).filterMap Container.block?

def regionsIn (t : RegionTree) (r : Nat) : List Nat := (t.childrenOf r).filterMap Container.region?

/-- The children of all regions, one list after the other. -/
def listed (t : RegionTree) : List Container := t.regions.toList.flatMap (·.children)

@[simp] theorem mem_regionsIn {r q : Nat} : q ∈ t.regionsIn r ↔ .region q ∈ t.childrenOf r := by
  simp [regionsIn]

theorem listed_eq (t : RegionTree) : t.listed = (List.range t.size).flatMap t.childrenOf := by
  rw [listed, List.flatMap_def, List.flatMap_def]
  congr 1
  refine List.ext_getElem (by simp [size]) fun i hi _ => ?_
  have hi : i < t.regions.size := by simpa using hi
  simp [childrenOf, get?, hi]

theorem mem_listed {c : Container} : c ∈ t.listed ↔ ∃ r, c ∈ t.childrenOf r := by
  rw [listed_eq, List.mem_flatMap]
  exact exists_congr fun r => and_iff_right_of_imp fun hc => List.mem_range.2 (lt_size_of_mem hc)

theorem blocks_listed (t : RegionTree) :
    t.listed.filterMap Container.block? = (List.range t.size).flatMap t.blocksIn := by
  rw [listed_eq, List.filterMap_flatMap]
  rfl

theorem regions_listed (t : RegionTree) :
    t.listed.filterMap Container.region? = (List.range t.size).flatMap t.regionsIn := by
  rw [listed_eq, List.filterMap_flatMap]
  rfl

/-! ## Lists without repetitions -/

theorem nodup_of_filterMap {cs : List Container} (hb : (cs.filterMap Container.block?).Nodup)
    (hr : (cs.filterMap Container.region?).Nodup) : cs.Nodup := by
  induction cs with
  | nil => exact .nil
  | cons c cs ih =>
    cases c with
    | block b =>
      simp only [List.filterMap_cons, Container.block?_block, Container.region?_block, List.nodup_cons] at hb hr
      exact List.nodup_cons.2 ⟨fun h => hb.1 (List.mem_filterMap.2 ⟨_, h, rfl⟩), ih hb.2 hr⟩
    | region r =>
      simp only [List.filterMap_cons, Container.block?_region, Container.region?_region, List.nodup_cons] at hb hr
      exact List.nodup_cons.2 ⟨fun h => hr.1 (List.mem_filterMap.2 ⟨_, h, rfl⟩), ih hb hr.2⟩

theorem eq_of_nodup_flatMap {α : Type} {f : Nat → List α} {rs : List Nat} (h : (rs.flatMap f).Nodup) {p q : Nat} {a : α}
    (hp : p ∈ rs) (hq : q ∈ rs) (hap : a ∈ f p) (haq : a ∈ f q) : p = q := by
  have : Std.Symm (Function.onFun List.Disjoint f) := ⟨fun _ _ hd => hd.symm⟩
  by_contra hne
  exact (List.nodup_flatMap.1 h).2.forall hp hq hne hap haq

theorem flatMap_subperm_range {α : Type} {f : Nat → List α} {rs : List Nat} {n : Nat} (hrs : rs.Nodup)
    (hlt : ∀ r ∈ rs, r < n) : (rs.flatMap f).Subperm ((List.range n).flatMap f) := by
  obtain ⟨l, hperm, hsub⟩ := List.subperm_of_subset hrs fun r hr => List.mem_range.2 (hlt r hr)
  exact ⟨l.flatMap f, hperm.flatMap_right f, hsub.flatMap f⟩

theorem WellFormed.nodup_listed (h : t.WellFormed) : t.listed.Nodup := by
  rw [listed_eq]
  refine List.nodup_flatMap.2 ⟨fun r _ => h.nodup r, List.nodup_range.imp fun {p q} hpq c hp hq => hpq ?_⟩
  exact Container.region.inj (h.parent_unique (.region p) (.region q) c hp hq)

/-! ## Arenas that are trees but for their blocks -/

/-- The regions of the arena form a tree, whatever blocks they list. -/
structure Framed (t : RegionTree) : Prop where
  root_parent : ∃ root, t.get? t.root = some root ∧ root.parent = none
  child_parent : ∀ p c, .region c ∈ t.childrenOf p → ∃ region, t.get? c = some region ∧ region.parent = some p
  nodup : (t.listed.filterMap Container.region?).Nodup
  reached : ∀ r < t.size, t.Covers (.region t.root) (.region r)

theorem Framed.root_lt (h : t.Framed) : t.root < t.size := by
  obtain ⟨root, hr, -⟩ := h.root_parent
  exact lt_size_of_get? hr

theorem Framed.root_not_listed (h : t.Framed) : .region t.root ∉ t.listed := by
  intro hm
  obtain ⟨root, hr, hn⟩ := h.root_parent
  obtain ⟨p, hp⟩ := mem_listed.1 hm
  obtain ⟨region, hq, hs⟩ := h.child_parent p _ hp
  rw [hr, Option.some.injEq] at hq
  rw [← hq, hn] at hs
  cases hs

/-- Of the children of some regions none is the root, and none is a region that occurs twice. -/
theorem Framed.nodup_flatMap_regionsIn (h : t.Framed) {rs : List Nat} (hrs : rs.Nodup) (hlt : ∀ r ∈ rs, r < t.size) :
    (t.root :: rs.flatMap t.regionsIn).Nodup := by
  refine List.nodup_cons.2 ⟨fun hm => ?_, ?_⟩
  · obtain ⟨r, -, hr⟩ := List.mem_flatMap.1 hm
    exact h.root_not_listed (mem_listed.2 ⟨r, mem_regionsIn.1 hr⟩)
  · obtain ⟨l, hperm, hsub⟩ := flatMap_subperm_range (f := t.regionsIn) hrs hlt
    exact hperm.nodup_iff.1 ((t.regions_listed ▸ h.nodup).sublist hsub)

theorem wellFormed_iff_framed : t.WellFormed ↔ t.Framed ∧ (t.listed.filterMap Container.block?).Nodup := by
  constructor
  · intro h
    have hnd := h.nodup_listed
    exact ⟨⟨h.root_parent, h.child_parent, hnd.filterMap (by simp +contextual), h.reached⟩,
      hnd.filterMap (by simp +contextual)⟩
  · rintro ⟨h, hb⟩
    have hnd := nodup_of_filterMap hb h.nodup
    rw [listed_eq] at hnd
    refine ⟨h.root_parent, h.child_parent, fun r => ?_, ?_, h.reached⟩
    · by_cases hr : r < t.size
      · exact (List.nodup_flatMap.1 hnd).1 r (List.mem_range.2 hr)
      · rw [childrenOf, get?_eq_none_iff.2 (Nat.le_of_not_lt hr)]
        exact .nil
    · rintro (b | p) (b' | q) c hp hq
      · exact absurd hp child_block
      · exact absurd hp child_block
      · exact absurd hq child_block
      · rw [eq_of_nodup_flatMap hnd (List.mem_range.2 (lt_size_of_mem hp)) (List.mem_range.2 (lt_size_of_mem hq)) hp hq]

end GuardedRegions.RegionTree
