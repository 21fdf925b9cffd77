import GuardedRegions.Proofs.Region.Valid
import GuardedRegions.Proofs.Wrapping.Run

/-!
# A run only adds nesting

`RegionTree.Extends` compares a tree with one that has more regions: those that were there are of the same kind and have the
same tag, and among them and the blocks the same lies below the same. Each step of a run extends the tree
(`Regrouped.extends`), so the last tree extends the first one. All else follows from that: the root has the same blocks
(`Extends.perm_blockList`), and whatever has come between a region and its child is new (`Extends.le_of_between`).
-/

namespace GuardedRegions

open Relation

namespace RegionTree

variable {t u v : RegionTree} {r id : Nat} {moved : List Container}

/-- The second tree is the first one with more regions in it. -/
structure Extends (t u : RegionTree) : Prop where
  wellFormed : u.WellFormed
  root : u.root = t.root
  size_le : t.size ≤ u.size
  kept : ∀ i region, t.get? i = some region →
    ∃ region', u.get? i = some region' ∧ region'.kind = region.kind ∧ region'.tryBlock = region.tryBlock
  encloses_iff : ∀ p c, t.Has p → t.Has c → (u.Encloses p c ↔ t.Encloses p c)

namespace Extends

theorem refl (hw : t.WellFormed) : Extends t t where
  wellFormed := hw
  root := rfl
  size_le := Nat.le_refl _
  kept _ region hr := ⟨region, hr, rfl, rfl⟩
  encloses_iff _ _ _ _ := Iff.rfl

theorem has (h : Extends t u) {c : Container} (hc : t.Has c) : u.Has c := by
  cases c with
  | block b => trivial
  | region i => exact Nat.lt_of_lt_of_le hc h.size_le

theorem trans (h : Extends t u) (h' : Extends u v) : Extends t v where
  wellFormed := h'.wellFormed
  root := h'.root.trans h.root
  size_le := Nat.le_trans h.size_le h'.size_le
  kept := by
    intro i region hr
    obtain ⟨region', hr', hkind, htag⟩ := h.kept i region hr
    obtain ⟨region'', hr'', hkind', htag'⟩ := h'.kept i region' hr'
    exact ⟨region'', hr'', hkind'.trans hkind, htag'.trans htag⟩
  encloses_iff p c hp hc := (h'.encloses_iff p c (h.has hp) (h.has hc)).trans (h.encloses_iff p c hp hc)

theorem covers_iff (h : Extends t u) {p c : Container} (hp : t.Has p) (hc : t.Has c) : u.Covers p c ↔ t.Covers p c := by
  rw [RegionTree.covers_iff, RegionTree.covers_iff, h.encloses_iff p c hp hc]

theorem mem_blockList (h : Extends t u) (hw : t.WellFormed) {c : Container} (hc : t.Has c) {b : Nat} :
    b ∈ u.blockList c ↔ b ∈ t.blockList c := by
  rw [h.wellFormed.mem_blockList (h.has hc), hw.mem_blockList hc]
  exact h.covers_iff hc has_block

/-- **The root has its blocks**, each as often as before. -/
theorem perm_blockList (h : Extends t u) (hw : t.WellFormed) :
    (u.blockList (.region u.root)).Perm (t.blockList (.region t.root)) := by
  have hu := h.wellFormed.nodup_blockList h.wellFormed.has_root
  refine (List.perm_ext_iff_of_nodup hu (hw.nodup_blockList hw.has_root)).2 fun b => ?_
  rw [h.root]
  exact h.mem_blockList hw hw.has_root

/-- **Between a region and its child there is only what is new**: an old region there would be on the way from the region to
the child in the old tree, where nothing is. -/
theorem le_of_between (h : Extends t u) (hw : t.WellFormed) {a b : Nat} {c : Container} (hc : c ∈ t.childrenOf a)
    (hab : u.Encloses (.region a) (.region b)) (hbc : u.Encloses (.region b) c) : t.size ≤ b := by
  by_contra hlt
  have ha : t.Has (.region a) := lt_size_of_mem hc
  have hb : t.Has (.region b) := Nat.not_le.1 hlt
  have hab' := (h.encloses_iff _ _ ha hb).1 hab
  have hbc' := (h.encloses_iff _ _ hb (hw.has_of_mem hc)).1 hbc
  obtain ⟨p, hbp, hpc⟩ := TransGen.tail'_iff.1 hbc'
  rw [hw.parent_unique p (.region a) c hpc hc] at hbp
  exact hw.not_encloses_self _ (hab'.trans_left hbp)

end Extends

theorem Regrouped.extends (hw : t.WellFormed) (h : Regrouped t r moved id u) : Extends t u where
  wellFormed := h.wellFormed hw
  root := h.root
  size_le := h.size ▸ Nat.le_succ _
  kept _ _ hr := h.get?_kept hr
  encloses_iff _ _ hp hc := h.encloses_iff hw (ne_new_of_has hp) (ne_new_of_has hc)

end RegionTree

namespace Progress

variable {g : Graph} {doms : Dominance} {tryBlocks : List TryBlock} {r : Nat} {x y : Progress}

theorem Step.extends (h : Step g doms tryBlocks r x y) (hw : x.tree.WellFormed) : x.tree.Extends y.tree := by
  cases h with
  | idle => exact RegionTree.Extends.refl hw
  | gaveUp => exact RegionTree.Extends.refl hw
  | wrapped _ _ hre => exact hre.extends hw

theorem Steps.extends (h : Steps g doms tryBlocks x y) (hw : x.tree.WellFormed) : x.tree.Extends y.tree :=
  h.preserve (P := fun a => x.tree.Extends a.tree) (fun _ _ _ ha hab => ha.trans (hab.extends ha.wellFormed))
    (RegionTree.Extends.refl hw)

end Progress

namespace Method

variable {m : Method}

/-- **A run only adds nesting.** Every region keeps its number, its kind and its tag; the root has the same blocks; below an
old region lie the blocks and the old regions that lay there, and no other ones; and between a region and what was its child
there are only regions that the run has made. -/
theorem resolve_only_nests (hv : m.tree.validate = .ok ()) (hh : m.HandlersExist) (doms : Dominance) (pending : Pending)
    (limit : Nat) :
    ∃ resolved result, m.resolve doms pending limit = .ok (resolved, result) ∧
      resolved.method.tree.root = m.tree.root ∧
      (∀ r region, m.tree.get? r = some region → ∃ region', resolved.method.tree.get? r = some region' ∧
        region'.kind = region.kind ∧ region'.tryBlock = region.tryBlock) ∧
      (∃ before after, m.tree.blocksOf (.region m.tree.root) = .ok before ∧
        resolved.method.tree.blocksOf (.region m.tree.root) = .ok after ∧ after.Perm before) ∧
      (∀ a < m.tree.size, ∀ c, m.tree.Has c →
        (resolved.method.tree.Encloses (.region a) c ↔ m.tree.Encloses (.region a) c)) ∧
      (∀ a c, c ∈ m.tree.childrenOf a → ∀ b, resolved.method.tree.Encloses (.region a) (.region b) →
        resolved.method.tree.Encloses (.region b) c → m.tree.size ≤ b ∧ b < resolved.method.tree.size) := by
  have hw := RegionTree.validate_eq_ok_iff.1 hv
  obtain ⟨resolved, result, y, hok, hsteps, hy⟩ := resolve_ok hw hh doms pending limit
  have hext : m.tree.Extends y.tree := hsteps.extends hw
  have hblocks := hext.wellFormed.blocksOf_eq hext.wellFormed.has_root
  refine ⟨resolved, result, hok, ?_⟩
  rw [hy.tree]
  refine ⟨hext.root, hext.kept, ⟨_, _, hw.blocksOf_eq hw.has_root, hext.root ▸ hblocks, hext.perm_blockList hw⟩, ?_, ?_⟩
  · intro a ha c hc
    exact hext.encloses_iff _ _ ha hc
  · intro a c hc b hab hbc
    exact ⟨hext.le_of_between hw hc hab hbc, hext.wellFormed.has_of_encloses hab⟩

/-- Block 2 is still below its region, with the two bodies between them. -/
theorem resolve_only_nests_nestedTries :
    ∃ resolved result, nestedTries.resolve .nestedTries .nestedTries 100 = .ok (resolved, result) ∧
      (∃ region, resolved.method.tree.get? 1 = some region ∧ region.kind = .sequence ∧ region.tryBlock = none) ∧
      (∃ before after, nestedTries.tree.blocksOf (.region 0) = .ok before ∧
        resolved.method.tree.blocksOf (.region 0) = .ok after ∧ after.Perm before) ∧
      resolved.method.tree.Encloses (.region 1) (.block 2) ∧
      ∀ b, resolved.method.tree.Encloses (.region 1) (.region b) →
        resolved.method.tree.Encloses (.region b) (.block 2) → 2 ≤ b := by
  obtain ⟨resolved, result, hok, -, hkept, hblocks, hiff, hbetween⟩ :=
    resolve_only_nests (m := nestedTries) (by decide) (by decide) .nestedTries .nestedTries 100
  have hchild : .block 2 ∈ nestedTries.tree.childrenOf 1 := by decide
  refine ⟨resolved, result, hok, hkept 1 _ rfl, hblocks, ?_, ?_⟩
  · exact (hiff 1 (by decide) (.block 2) trivial).2 (TransGen.single hchild)
  · intro b hab hbc
    exact (hbetween 1 (.block 2) hchild b hab hbc).1

end Method

end GuardedRegions
