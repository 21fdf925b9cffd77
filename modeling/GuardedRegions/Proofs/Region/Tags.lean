import GuardedRegions.Proofs.Region.Walk

/-!
# The tags of a tree

The tag of a region is the try-block whose body it is. `RegionTree.tags` lists the tags by the numbers of the regions; in a
tree, where the root leads to every region, it answers which regions are the bodies of a try-block
(`WellFormed.bodiesOf_eq_nil_iff`, `WellFormed.bodiesOf_eq_singleton_iff`).
-/

namespace GuardedRegions.RegionTree

variable {t : RegionTree} {id n r : Nat}

def tags (t : RegionTree) : List (Option Nat) := t.regions.toList.map (·.tryBlock)

@[simp] theorem length_tags : t.tags.length = t.size := by
  simp [tags, size]

theorem getElem?_tags (t : RegionTree) (r : Nat) : t.tags[r]? = (t.get? r).map (·.tryBlock) := by
  simp [tags, get?]

theorem getElem?_tags_eq_some_iff {tag : Option Nat} :
    t.tags[n]? = some tag ↔ ∃ region, t.get? n = some region ∧ region.tryBlock = tag := by
  rw [getElem?_tags, Option.map_eq_some_iff]

namespace WellFormed

theorem mem_bodies_iff (h : t.WellFormed) (id : Nat) :
    ∃ rs, t.bodiesOf id = .ok rs ∧ rs.Nodup ∧ ∀ r, r ∈ rs ↔ t.tags[r]? = some (some id) := by
  simpa only [getElem?_tags_eq_some_iff] using h.bodiesOf_ok id

theorem bodiesOf_eq_nil_iff (h : t.WellFormed) : t.bodiesOf id = .ok [] ↔ some id ∉ t.tags := by
  obtain ⟨rs, hok, -, hmem⟩ := h.mem_bodies_iff id
  rw [hok, Except.ok.injEq, List.eq_nil_iff_forall_not_mem, List.mem_iff_getElem?, not_exists]
  exact forall_congr' fun r => not_congr (hmem r)

theorem bodiesOf_eq_singleton_iff (h : t.WellFormed) :
    t.bodiesOf id = .ok [n] ↔ ∀ r, t.tags[r]? = some (some id) ↔ r = n := by
  obtain ⟨rs, hok, hnd, hmem⟩ := h.mem_bodies_iff id
  rw [hok, Except.ok.injEq]
  constructor
  · rintro rfl r
    rw [← hmem, List.mem_singleton]
  · intro hall
    refine List.perm_singleton.1 ((List.perm_ext_iff_of_nodup hnd (List.nodup_singleton n)).2 fun r => ?_)
    rw [hmem, hall, List.mem_singleton]

end WellFormed

end GuardedRegions.RegionTree
