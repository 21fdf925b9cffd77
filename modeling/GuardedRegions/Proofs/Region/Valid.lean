import GuardedRegions.Proofs.Except
import GuardedRegions.Proofs.Region.Listed
import GuardedRegions.Region.Valid

/-!
# What the examination of a tree accepts

`validate_eq_ok_iff` : `RegionTree.validate` accepts the arenas that are trees (`RegionTree.WellFormed`), and no others. Where the
regions form a tree, it finds nothing but a block that is listed twice (`Framed.validate`).

The examination keeps a list of the regions found and one of the blocks found. `Survey.Fits` ties both to the regions whose
children were looked at; the lists have no repetitions as long as nothing was refused (`Survey.foldlM_add_eq_ok_iff`), and
as no region waits twice, the bound leaves none waiting (`Survey.Fits.of_complete`).
-/

namespace GuardedRegions.RegionTree

open Relation

variable {t : RegionTree}

/-! ## The examination -/

namespace Survey

def extend (s : Survey) (cs : List Container) : Survey where
  regions := (cs.filterMap Container.region?).reverse ++ s.regions
  blocks := (cs.filterMap Container.block?).reverse ++ s.blocks
  waiting := (cs.filterMap Container.region?).reverse ++ s.waiting

@[simp] theorem extend_nil (s : Survey) : s.extend [] = s := rfl

theorem extend_block (s : Survey) (b : Nat) (cs : List Container) :
    s.extend (.block b :: cs) = ({ s with blocks := b :: s.blocks } : Survey).extend cs := by
  simp [extend, List.filterMap_cons]

theorem extend_region (s : Survey) (q : Nat) (cs : List Container) :
    s.extend (.region q :: cs) =
      ({ s with regions := q :: s.regions, waiting := q :: s.waiting } : Survey).extend cs := by
  simp [extend, List.filterMap_cons]

theorem add_block_eq_ok_iff {r b : Nat} {s u : Survey} :
    add t r s (.block b) = .ok u ↔ b ∉ s.blocks ∧ { s with blocks := b :: s.blocks } = u := by
  by_cases hb : b ∈ s.blocks <;> simp [add, hb]

theorem add_region_eq_ok_iff {r q : Nat} {s u : Survey} :
    add t r s (.region q) = .ok u ↔ (∃ region, t.get? q = some region ∧ region.parent = some r) ∧ q ∉ s.regions ∧
      { s with regions := q :: s.regions, waiting := q :: s.waiting } = u := by
  cases hq : t.get? q with
  | none => simp [add, hq]
  | some region =>
    by_cases hr : q ∈ s.regions
    · simp [add, hq, hr]
    · by_cases hp : region.parent = some r <;> simp [add, hq, hr, hp]

theorem foldlM_add_eq_ok_iff {r : Nat} {cs : List Container} {s u : Survey} (hr : s.regions.Nodup)
    (hb : s.blocks.Nodup) :
    cs.foldlM (add t r) s = .ok u ↔ s.extend cs = u ∧ (s.extend cs).regions.Nodup ∧ (s.extend cs).blocks.Nodup ∧
      ∀ c, .region c ∈ cs → ∃ region, t.get? c = some region ∧ region.parent = some r := by
  induction cs generalizing s with
  | nil =>
    simp only [List.foldlM_nil, extend_nil, hr, hb, List.not_mem_nil, false_imp_iff, implies_true, and_true]
    exact Except.ok.injEq s u ▸ Iff.rfl
  | cons c cs ih =>
    rw [List.foldlM_cons, bind_eq_ok_iff]
    cases c with
    | block b =>
      rw [extend_block]
      constructor
      · rintro ⟨s', hs, hu⟩
        obtain ⟨hmem, rfl⟩ := add_block_eq_ok_iff.1 hs
        obtain ⟨rfl, h1, h2, h3⟩ := (ih (s := { s with blocks := b :: s.blocks }) hr (List.nodup_cons.2 ⟨hmem, hb⟩)).1 hu
        exact ⟨rfl, h1, h2, fun c hc => h3 c (by simpa using hc)⟩
      · rintro ⟨rfl, h1, h2, h3⟩
        have hnd := (List.nodup_append.1 h2).2.1
        refine ⟨_, add_block_eq_ok_iff.2 ⟨(List.nodup_cons.1 hnd).1, rfl⟩, ?_⟩
        exact (ih (s := { s with blocks := b :: s.blocks }) hr hnd).2 ⟨rfl, h1, h2, fun c hc => h3 c (by simp [hc])⟩
    | region q =>
      rw [extend_region]
      constructor
      · rintro ⟨s', hs, hu⟩
        obtain ⟨hq, hmem, rfl⟩ := add_region_eq_ok_iff.1 hs
        obtain ⟨rfl, h1, h2, h3⟩ := (ih (s := { s with regions := q :: s.regions, waiting := q :: s.waiting })
          (List.nodup_cons.2 ⟨hmem, hr⟩) hb).1 hu
        refine ⟨rfl, h1, h2, fun c hc => ?_⟩
        rcases List.mem_cons.1 hc with hc | hc
        · exact Container.region.inj hc ▸ hq
        · exact h3 c hc
      · rintro ⟨rfl, h1, h2, h3⟩
        have hnd := (List.nodup_append.1 h1).2.1
        refine ⟨_, add_region_eq_ok_iff.2 ⟨h3 q (by simp), (List.nodup_cons.1 hnd).1, rfl⟩, ?_⟩
        exact (ih (s := { s with regions := q :: s.regions, waiting := q :: s.waiting }) hnd hb).2
          ⟨rfl, h1, h2, fun c hc => h3 c (by simp [hc])⟩

/-- Of children among which the regions are new and name their parent, only a block that was found before is refused. -/
theorem foldlM_add_of_nodup {r : Nat} {cs : List Container} {s : Survey} (hr : (s.extend cs).regions.Nodup)
    (hp : ∀ c, .region c ∈ cs → ∃ region, t.get? c = some region ∧ region.parent = some r) :
    (∃ u, cs.foldlM (add t r) s = .ok u) ∨ ∃ b, cs.foldlM (add t r) s = .error (.repeatedBlock b) ∧
      2 ≤ (s.extend cs).blocks.count b := by
  induction cs generalizing s with
  | nil => exact .inl ⟨s, rfl⟩
  | cons c cs ih =>
    have hrest : ∀ c, .region c ∈ cs → ∃ region, t.get? c = some region ∧ region.parent = some r :=
      fun c hc => hp c (List.mem_cons_of_mem _ hc)
    rw [List.foldlM_cons]
    cases c with
    | block b =>
      rw [extend_block] at hr ⊢
      by_cases hb : b ∈ s.blocks
      · refine .inr ⟨b, by simp [add, hb, bind, Except.bind], ?_⟩
        have : 0 < s.blocks.count b := List.count_pos_iff.2 hb
        simp only [extend, List.count_append, List.count_cons_self]
        omega
      · rw [add_block_eq_ok_iff.2 ⟨hb, rfl⟩, ok_bind]
        exact ih hr hrest
    | region q =>
      rw [extend_region] at hr ⊢
      have hnew : q ∉ s.regions := (List.nodup_cons.1 (List.nodup_append.1 hr).2.1).1
      rw [add_region_eq_ok_iff.2 ⟨hp q List.mem_cons_self, hnew, rfl⟩, ok_bind]
      exact ih hr hrest

/-- What was found, told by the regions whose children were looked at. -/
structure Fits (t : RegionTree) (done : List Nat) (s : Survey) : Prop where
  regions : s.regions.Perm (t.root :: done.flatMap t.regionsIn)
  blocks : s.blocks.Perm (done.flatMap t.blocksIn)
  split : s.regions.Perm (done ++ s.waiting)
  parents : ∀ p ∈ done, ∀ c, .region c ∈ t.childrenOf p → ∃ region, t.get? c = some region ∧ region.parent = some p
  reached : ∀ r ∈ s.regions, t.Covers (.region t.root) (.region r)

namespace Fits

variable {done : List Nat} {s u : Survey}

theorem start (t : RegionTree) : Fits t [] { regions := [t.root], blocks := [], waiting := [t.root] } where
  regions := .refl _
  blocks := .refl _
  split := .refl _
  parents p hp := absurd hp List.not_mem_nil
  reached r hr := by
    rw [List.mem_singleton.1 hr]

theorem step {r : Nat} {waiting : List Nat} (h : Fits t done s) (hs : s.waiting = r :: waiting)
    (hp : ∀ c, .region c ∈ t.childrenOf r → ∃ region, t.get? c = some region ∧ region.parent = some r) :
    Fits t (r :: done) (({ s with waiting } : Survey).extend (t.childrenOf r)) where
  regions := by
    have := h.regions.append_left (t.regionsIn r).reverse
    refine this.trans (List.perm_middle.trans (List.Perm.cons _ ?_))
    exact (List.reverse_perm _).append_right _
  blocks := by
    refine (h.blocks.append_left (t.blocksIn r).reverse).trans ?_
    exact (List.reverse_perm _).append_right _
  split := by
    refine (h.split.append_left (t.regionsIn r).reverse).trans ?_
    rw [hs]
    show List.Perm _ ((r :: done) ++ ((t.regionsIn r).reverse ++ waiting))
    rw [List.perm_iff_count]
    intro a
    simp only [List.count_append, List.count_cons]
    omega
  parents p hmem c hc := by
    rcases List.mem_cons.1 hmem with rfl | hmem
    · exact hp c hc
    · exact h.parents p hmem c hc
  reached q hq := by
    rcases List.mem_append.1 hq with hq | hq
    · have hr : r ∈ s.regions := h.split.mem_iff.2 (by simp [hs])
      exact (h.reached r hr).tail (mem_regionsIn.1 (List.mem_reverse.1 hq))
    · exact h.reached q hq

theorem lt_size (h : Fits t done s) (hroot : t.root < t.size) {r : Nat} (hr : r ∈ s.regions) : r < t.size := by
  rcases List.mem_cons.1 (h.regions.mem_iff.1 hr) with rfl | hr
  · exact hroot
  · obtain ⟨p, hp, hr⟩ := List.mem_flatMap.1 hr
    obtain ⟨region, hq, -⟩ := h.parents p hp r (mem_regionsIn.1 hr)
    exact lt_size_of_get? hq

/-- As no region is found twice, no more were looked at than there are, and none waits when the bound is used up. -/
theorem length_le (h : Fits t done s) (hroot : t.root < t.size) (hr : s.regions.Nodup) :
    done.length + s.waiting.length ≤ t.size := by
  have hsub : s.regions ⊆ List.range t.size := fun r hr => List.mem_range.2 (h.lt_size hroot hr)
  have := (List.subperm_of_subset hr hsub).length_le
  rwa [h.split.length_eq, List.length_append, List.length_range] at this

theorem of_complete {bound : Nat} (h : Fits t done s) (hroot : t.root < t.size) (hr : s.regions.Nodup)
    (hb : s.blocks.Nodup) (hbound : t.size ≤ done.length + bound) (hu : complete t bound s = .ok u) :
    ∃ done, Fits t done u ∧ u.regions.Nodup ∧ u.blocks.Nodup ∧ u.waiting = [] := by
  induction bound generalizing done s with
  | zero =>
    obtain rfl := Except.ok.inj hu
    have := h.length_le hroot hr
    exact ⟨done, h, hr, hb, List.length_eq_zero_iff.1 (by omega)⟩
  | succ bound ih =>
    rw [complete] at hu
    cases hw : s.waiting with
    | nil =>
      rw [hw] at hu
      obtain rfl := Except.ok.inj hu
      exact ⟨done, h, hr, hb, hw⟩
    | cons r waiting =>
      rw [hw] at hu
      obtain ⟨s', hs', hu⟩ := bind_eq_ok_iff.1 hu
      obtain ⟨rfl, h1, h2, h3⟩ := (foldlM_add_eq_ok_iff (s := { s with waiting }) hr hb).1 hs'
      refine ih (h.step hw h3) h1 h2 ?_ hu
      rw [List.length_cons]
      omega

/-- Of regions that form a tree nothing is refused but a block that is listed twice. -/
theorem complete_of_framed (bound : Nat) (hf : t.Framed) (h : Fits t done s) (hr : s.regions.Nodup) (hb : s.blocks.Nodup) :
    (∃ u, complete t bound s = .ok u) ∨ ∃ b, complete t bound s = .error (.repeatedBlock b) ∧
      2 ≤ (t.listed.filterMap Container.block?).count b := by
  induction bound generalizing done s with
  | zero => exact .inl ⟨s, rfl⟩
  | succ bound ih =>
    rw [complete]
    cases hs : s.waiting with
    | nil => exact .inl ⟨s, rfl⟩
    | cons r waiting =>
      have hfit := h.step hs (hf.child_parent r)
      have hdone : (r :: done).Nodup := by
        have := h.split.nodup_iff.1 hr
        rw [hs] at this
        exact (List.perm_middle.nodup_iff.1 this).sublist ((List.sublist_append_left _ _).cons_cons r)
      have hlt : ∀ q ∈ r :: done, q < t.size :=
        fun q hq => hfit.lt_size hf.root_lt (hfit.split.mem_iff.2 (List.mem_append_left _ hq))
      have hregions := hfit.regions.nodup_iff.2 (hf.nodup_flatMap_regionsIn hdone hlt)
      rcases foldlM_add_of_nodup hregions (hf.child_parent r) with ⟨u, hu⟩ | ⟨b, hu, hcount⟩
      · obtain ⟨rfl, h1, h2, -⟩ := (foldlM_add_eq_ok_iff (s := { s with waiting }) hr hb).1 hu
        simp only [hu, ok_bind]
        exact ih hfit h1 h2
      · simp only [hu]
        refine .inr ⟨b, rfl, Nat.le_trans hcount ?_⟩
        rw [hfit.blocks.count_eq, blocks_listed]
        exact (flatMap_subperm_range hdone hlt).count_le b

theorem mem_done (h : Fits t done s) (hw : s.waiting = []) {r : Nat} : r ∈ done ↔ r ∈ s.regions := by
  rw [h.split.mem_iff, hw, List.append_nil]

theorem wellFormed (h : Fits t done s) (hw : s.waiting = []) (hr : s.regions.Nodup) (hb : s.blocks.Nodup)
    (hroot : ∃ root, t.get? t.root = some root ∧ root.parent = none) (hall : ∀ r < t.size, r ∈ s.regions) :
    t.WellFormed := by
  have hlt : t.root < t.size := hroot.elim fun root hroot => lt_size_of_get? hroot.1
  have hdone : done.Perm (List.range t.size) := by
    have hsplit := h.split
    rw [hw, List.append_nil] at hsplit
    refine (List.perm_ext_iff_of_nodup (hsplit.nodup_iff.1 hr) List.nodup_range).2 fun r => ?_
    rw [h.mem_done hw, List.mem_range]
    exact ⟨h.lt_size hlt, hall r⟩
  refine wellFormed_iff_framed.2 ⟨⟨hroot, fun p c hc => ?_, ?_, fun r hr => h.reached r (hall r hr)⟩, ?_⟩
  · exact h.parents p (hdone.mem_iff.2 (List.mem_range.2 (lt_size_of_mem hc))) c hc
  · rw [regions_listed, ← (hdone.flatMap_right _).nodup_iff]
    exact (List.nodup_cons.1 (h.regions.nodup_iff.1 hr)).2
  · rw [blocks_listed, ← (hdone.flatMap_right _).nodup_iff]
    exact h.blocks.nodup_iff.1 hb

theorem mem_regions_of_covers (h : Fits t done s) (hw : s.waiting = []) {c : Container}
    (hc : t.Covers (.region t.root) c) {r : Nat} (hr : c = .region r) : r ∈ s.regions := by
  induction hc generalizing r with
  | refl => exact h.regions.mem_iff.2 (by simp [← Container.region.inj hr])
  | @tail p c _ hpc ih =>
    subst hr
    cases p with
    | block b => exact absurd hpc child_block
    | region p =>
      have hp := (h.mem_done hw).2 (ih rfl)
      refine h.regions.mem_iff.2 (List.mem_cons_of_mem _ (List.mem_flatMap.2 ⟨p, hp, mem_regionsIn.2 hpc⟩))

end Fits

end Survey

/-- **Where the regions form a tree, the examination finds at most a block that is listed twice.** -/
theorem Framed.validate (hf : t.Framed) : t.validate = .ok () ∨ ∃ b, t.validate = .error (.repeatedBlock b) ∧
    2 ≤ (t.listed.filterMap Container.block?).count b := by
  obtain ⟨root, hroot, hparent⟩ := hf.root_parent
  rcases Survey.Fits.complete_of_framed t.size hf (Survey.Fits.start t) (List.nodup_singleton _) .nil with
    ⟨s, hs⟩ | ⟨b, hs, hcount⟩
  · obtain ⟨done, hfit, hr, hb, hwait⟩ := (Survey.Fits.start t).of_complete hf.root_lt (List.nodup_singleton _) .nil
      (by simp) hs
    have hnone : (List.range t.size).filter (fun r => !s.regions.contains r) = [] := by
      refine List.filter_eq_nil_iff.2 fun r hr => ?_
      have := hfit.mem_regions_of_covers hwait (hf.reached r (List.mem_range.1 hr)) rfl
      simpa using this
    left
    simp only [RegionTree.validate, hroot, hparent, hs, ok_bind, hnone]
  · right
    refine ⟨b, ?_, hcount⟩
    simp only [RegionTree.validate, hroot, hparent, hs]
    rfl

/-- **The examination accepts the trees, and nothing else.** -/
theorem validate_eq_ok_iff : t.validate = .ok () ↔ t.WellFormed := by
  constructor
  · intro h
    unfold validate at h
    split at h
    · cases h
    · next root hroot =>
      split at h
      · cases h
      · next hparent =>
        obtain ⟨s, hs, h⟩ := bind_eq_ok_iff.1 h
        have hlt := lt_size_of_get? hroot
        obtain ⟨done, hfit, hr, hb, hw⟩ := (Survey.Fits.start t).of_complete hlt (List.nodup_singleton _) .nil
          (by simp) hs
        refine hfit.wellFormed hw hr hb ⟨root, hroot, hparent⟩ fun r hr => ?_
        split at h
        · next hnone =>
          have := List.filter_eq_nil_iff.1 hnone r (List.mem_range.2 hr)
          simpa using this
        · cases h
  · intro hw
    obtain ⟨hf, hb⟩ := wellFormed_iff_framed.1 hw
    refine hf.validate.resolve_right ?_
    rintro ⟨b, -, hcount⟩
    have := List.nodup_iff_count_le_one.1 hb b
    omega

end GuardedRegions.RegionTree
