import GuardedRegions.Proofs.Region.Listed
import GuardedRegions.Proofs.Region.Tags

/-!
# Growing a tree at the end of a region

A tree is built by putting containers at the ends of its regions: a block, or a region that is new. `RegionTree.Appended` says
what both have in common. Then the regions still form a tree (`Appended.framed`), and one more container is listed.
-/

namespace GuardedRegions.RegionTree

open Relation

variable {t u : RegionTree} {r : Nat} {c : Container}

/-- The second tree is the first one with one more container at the end of a region; a region that is put there names it. -/
structure Appended (t : RegionTree) (r : Nat) (c : Container) (u : RegionTree) : Prop where
  lt : r < t.size
  root : u.root = t.root
  childrenOf : ∀ i, u.childrenOf i = if i = r then t.childrenOf i ++ [c] else t.childrenOf i
  listed : u.listed.Perm (t.listed ++ [c])
  kept : ∀ i region, t.get? i = some region → ∃ region', u.get? i = some region' ∧ region'.parent = region.parent
  parent : ∀ q, c = .region q → ∃ region, u.get? q = some region ∧ region.parent = some r
  size_le : t.size ≤ u.size
  old_or_new : ∀ i < u.size, i < t.size ∨ c = .region i

theorem childrenOf_modify_add (t : RegionTree) {r : Nat} (hr : r < t.size) (c : Container) (i : Nat) :
    (t.modify r (·.add c)).childrenOf i = if i = r then t.childrenOf i ++ [c] else t.childrenOf i := by
  obtain ⟨region, hg⟩ := lt_size_iff.1 hr
  rw [RegionTree.childrenOf, RegionTree.childrenOf, get?_modify]
  by_cases hir : i = r
  · subst hir
    simp [hg, Region.add]
  · have hri : r ≠ i := Ne.symm hir
    simp [hir, hri]

theorem listed_modify_add (t : RegionTree) {r : Nat} (hr : r < t.size) (c : Container) :
    (t.modify r (·.add c)).listed.Perm (t.listed ++ [c]) := by
  have hlt : r < t.regions.toList.length := hr
  obtain ⟨before, region, after, hsplit, -, hmodify⟩ := List.exists_of_modify (·.add c) hlt
  have hregions : (t.modify r (·.add c)).regions.toList = before ++ region.add c :: after := by
    rw [modify, Array.toList_modify, hmodify]
  rw [RegionTree.listed, RegionTree.listed, hregions, hsplit, List.perm_iff_count]
  intro d
  simp only [List.flatMap_append, List.flatMap_cons, List.count_append, Region.add]
  omega

theorem listed_create (t : RegionTree) (region : Region) : (t.create region).listed = t.listed ++ region.children := by
  simp [RegionTree.listed, create]

theorem kept_modify_add (t : RegionTree) (r : Nat) (c : Container) {i : Nat} {region : Region} (hi : t.get? i = some region) :
    ∃ region', (t.modify r (·.add c)).get? i = some region' ∧ region'.parent = region.parent := by
  rw [get?_modify, hi]
  split
  · exact ⟨_, rfl, rfl⟩
  · exact ⟨_, rfl, rfl⟩

theorem appended_block (hr : r < t.size) (b : Nat) : Appended t r (.block b) (t.modify r (·.add (.block b))) where
  lt := hr
  root := rfl
  childrenOf := childrenOf_modify_add t hr _
  listed := listed_modify_add t hr _
  kept _ _ hi := kept_modify_add t r _ hi
  parent _ hq := by cases hq
  size_le := Nat.le_of_eq (size_modify t r _).symm
  old_or_new i hi := Or.inl (by simpa using hi)

theorem appended_region (hr : r < t.size) (kind : RegionKind) (tryBlock : Option Nat) :
    Appended t r (.region t.size)
      ((t.create { kind, parent := some r, tryBlock }).modify r (·.add (.region t.size))) where
  lt := hr
  root := rfl
  childrenOf i := by
    have hgrown : (t.create { kind, parent := some r, tryBlock }).childrenOf i = t.childrenOf i := by
      rw [RegionTree.childrenOf, RegionTree.childrenOf, get?_create]
      by_cases hi : i = t.size
      · have hnone : t.get? i = none := get?_eq_none_iff.2 (Nat.le_of_eq hi.symm)
        rw [if_pos hi, hnone]
        rfl
      · rw [if_neg hi]
    rw [childrenOf_modify_add _ (by rw [size_create]; omega), hgrown]
  listed := by
    have hgrown := listed_modify_add (t.create { kind, parent := some r, tryBlock }) (r := r) (by rw [size_create]; omega)
      (.region t.size)
    rwa [listed_create, List.append_nil] at hgrown
  kept i region hi := by
    refine kept_modify_add _ r _ ?_
    rw [get?_create, if_neg (Nat.ne_of_lt (lt_size_of_get? hi)), hi]
  parent q hq := by
    obtain rfl := Container.region.inj hq
    have hnew : (t.create { kind, parent := some r, tryBlock }).get? t.size = some { kind, parent := some r, tryBlock } := by
      rw [get?_create, if_pos rfl]
    exact kept_modify_add _ r _ hnew
  size_le := by
    rw [size_modify, size_create]
    exact Nat.le_succ _
  old_or_new i hi := by
    rw [size_modify, size_create] at hi
    rw [Container.region.injEq]
    omega

namespace Appended

theorem child_iff (h : Appended t r c u) {p d : Container} : u.Child p d ↔ t.Child p d ∨ p = .region r ∧ d = c := by
  cases p with
  | block b => simp
  | region i =>
    rw [child_region, child_region, h.childrenOf, Container.region.injEq]
    split
    · rename_i hir
      simp [hir]
    · rename_i hir
      simp [hir]

/-- **The regions still form a tree** if a region that is put there is new. -/
theorem framed (h : Appended t r c u) (ht : t.Framed) (hnew : ∀ q, c = .region q → t.size ≤ q) : u.Framed where
  root_parent := by
    obtain ⟨root, hr, hn⟩ := ht.root_parent
    obtain ⟨root', hr', hp⟩ := h.kept _ root hr
    rw [h.root]
    exact ⟨root', hr', hp.trans hn⟩
  child_parent p q hq := by
    rcases (h.child_iff (p := .region p)).1 hq with hq | ⟨hp, rfl⟩
    · obtain ⟨region, hg, hp⟩ := ht.child_parent p q hq
      obtain ⟨region', hg', hp'⟩ := h.kept q region hg
      exact ⟨region', hg', hp'.trans hp⟩
    · rw [Container.region.inj hp]
      exact h.parent q rfl
  nodup := by
    rw [(h.listed.filterMap _).nodup_iff, List.filterMap_append]
    cases c with
    | block b => exact (List.append_nil _).symm ▸ ht.nodup
    | region q =>
      refine List.nodup_append.2 ⟨ht.nodup, List.nodup_singleton q, fun i hi j hj hij => ?_⟩
      obtain ⟨d, hd, hi⟩ := List.mem_filterMap.1 hi
      obtain rfl := Container.region?_eq_some.1 hi
      obtain ⟨p, hp⟩ := mem_listed.1 hd
      obtain ⟨region, hg, -⟩ := ht.child_parent p i hp
      have hlt := lt_size_of_get? hg
      have hge := hnew q rfl
      rw [hij, List.mem_singleton.1 hj] at hlt
      omega
  reached i hi := by
    have hcovers : ∀ j < t.size, u.Covers (.region t.root) (.region j) := fun j hj =>
      ReflTransGen.mono (fun _ _ hpd => h.child_iff.2 (Or.inl hpd)) _ _ (ht.reached j hj)
    rw [h.root]
    rcases h.old_or_new i hi with hold | rfl
    · exact hcovers i hold
    · exact (hcovers r h.lt).tail (h.child_iff.2 (Or.inr ⟨rfl, rfl⟩))

end Appended

theorem holds_iff_mem {b : Nat} : t.Holds b ↔ b ∈ t.listed.filterMap Container.block? := by
  rw [List.mem_filterMap]
  simp only [Container.block?_eq_some, mem_listed, exists_eq_right]
  rfl

/-! ## The tags of what grows -/

theorem tags_modify_add (t : RegionTree) (r : Nat) (c : Container) : (t.modify r (·.add c)).tags = t.tags := by
  refine List.ext_getElem? fun i => ?_
  rw [getElem?_tags, getElem?_tags, get?_modify]
  split
  · rw [Option.map_map]
    rfl
  · rfl

theorem tags_create (t : RegionTree) (region : Region) : (t.create region).tags = t.tags ++ [region.tryBlock] := by
  simp [tags, create]

end GuardedRegions.RegionTree
