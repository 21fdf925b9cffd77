import GuardedRegions.Proofs.Document.Rerun

/-!
# Descriptions and trees turn into each other

What is placed in a tree gets the next numbers, each region before what it holds (`RegionTree.Numbered`). So the outline of the
tree that is built is what was described, and the walk over its regions meets them in the order of their numbers.

The other way round, the outline of a tree forgets the numbers of its regions and nothing else: if its blocks and tags are in
the lists of a description, the tree that is built from its outline has the same outline (`outlines_and_trees_convert`). The
trees that reconstructions leave are among them.
-/

namespace GuardedRegions

namespace RegionTree

/-- The regions below some children have the numbers from the first one to before the second, in pre-order, and the children
show the contents. -/
inductive Numbered (t : RegionTree) : Nat → List Container → Contents → Nat → Prop where
  | nil {n : Nat} : Numbered t n [] .nil n
  | block {n k b : Nat} {cs : List Container} {rest : Contents} (h : Numbered t n cs rest k) :
      Numbered t n (.block b :: cs) (.block b rest) k
  | region {n j k : Nat} {kind : RegionKind} {parent tag : Option Nat} {children cs : List Container} {inner rest : Contents}
      (hn : t.get? n = some ⟨kind, parent, children, tag⟩) (hinner : Numbered t (n + 1) children inner j)
      (hrest : Numbered t j cs rest k) :
      Numbered t n (.region n :: cs) (.region kind tag inner rest) k

namespace Numbered

variable {t u : RegionTree} {n k : Nat} {cs : List Container} {c : Contents}

theorem le (h : Numbered t n cs c k) : n ≤ k := by
  induction h with
  | nil => exact Nat.le_refl _
  | block _ ih => exact ih
  | region _ _ _ ihInner ihRest => exact Nat.le_trans (Nat.le_of_succ_le ihInner) ihRest

theorem congr (h : Numbered t n cs c k) (hsame : ∀ i, n ≤ i → i < k → u.get? i = t.get? i) : Numbered u n cs c k := by
  induction h with
  | nil => exact .nil
  | block _ ih => exact .block (ih hsame)
  | region hn hinner hrest ihInner ihRest =>
    have hj := hinner.le
    have hk := hrest.le
    refine .region ((hsame _ (Nat.le_refl _) (by omega)).trans hn) (ihInner fun i hi hij => ?_) (ihRest fun i hi hik => ?_)
    · exact hsame i (by omega) (by omega)
    · exact hsame i (by omega) hik

theorem foldrM_outlineChild (h : Numbered t n cs c k) {depth : Nat} (hdepth : k ≤ n + depth) :
    cs.foldrM (t.outlineChild depth) .nil = .ok c := by
  induction h generalizing depth with
  | nil => rfl
  | block _ ih =>
    rw [List.foldrM_cons, ih hdepth]
    rfl
  | @region n j k kind _ tag _ _ inner rest hn hinner hrest ihInner ihRest =>
    have hj := hinner.le
    have hk := hrest.le
    obtain ⟨depth, rfl⟩ : ∃ e, depth = e + 1 := Nat.exists_eq_add_one.2 (by omega)
    have hregion : t.outlineWithin (depth + 1) n = .ok { kind, tryBlock := tag, contents := inner } := by
      rw [outlineWithin_succ, region_eq_ok_iff.2 hn, ok_bind, ihInner (by omega), ok_bind]
    rw [List.foldrM_cons, ihRest (by omega), ok_bind, outlineChild, hregion]
    rfl

/-- The walk meets the regions in the order of their numbers. -/
theorem preOrder_eq (h : Numbered t n cs c k) (hw : t.WellFormed) : cs.flatMap t.preOrder = List.range' n (k - n) := by
  induction h with
  | nil => rw [Nat.sub_self]; rfl
  | block _ ih => rw [List.flatMap_cons, preOrder_block, ih, List.nil_append]
  | @region n j k _ _ _ _ _ _ _ hn hinner hrest ihInner ihRest =>
    have hj := hinner.le
    have hk := hrest.le
    rw [List.flatMap_cons, ihRest, hw.preOrder_region (lt_size_of_get? hn), childrenOf_eq hn, ihInner]
    calc n :: List.range' (n + 1) (j - (n + 1)) ++ List.range' j (k - j)
        = List.range' n (j - n) ++ List.range' (n + (j - n)) (k - j) := by
          rw [Nat.add_sub_of_le (by omega), ← List.range'_succ, show j - (n + 1) + 1 = j - n by omega]
      _ = List.range' n (k - n) := by
          rw [List.range'_append_1, show j - n + (k - j) = k - n by omega]

end Numbered

end RegionTree

namespace Description

open RegionTree

variable {d : Description} {m : Method} {t u : RegionTree} {r : Nat} {region : Region} {c : Contents}

/-- **What is placed in a region gets the next numbers.** The region goes on with it, and the others stay as they are. -/
theorem numbered_of_place (hr : t.get? r = some region) (h : d.place r c t = .ok u) :
    (∀ i < t.size, i ≠ r → u.get? i = t.get? i) ∧
      ∃ cs, u.get? r = some { region with children := region.children ++ cs } ∧ Numbered u t.size cs c u.size := by
  induction c generalizing r t u region with
  | nil =>
    obtain rfl := Except.ok.inj h
    exact ⟨fun _ _ _ => rfl, [], by rw [hr, List.append_nil], .nil⟩
  | block b rest ih =>
    obtain ⟨-, hrest⟩ := place_block_eq_ok_iff.1 h
    have hr' : (t.modify r (·.add (.block b))).get? r = some (region.add (.block b)) := by
      rw [get?_modify, if_pos rfl, hr, Option.map_some]
    obtain ⟨hkept, cs, hu, hnumbered⟩ := ih hr' hrest
    rw [size_modify] at hkept hnumbered
    refine ⟨fun i hi hir => ?_, .block b :: cs, ?_, .block hnumbered⟩
    · rw [hkept i hi hir, get?_modify, if_neg (Ne.symm hir)]
    · rw [hu, Region.add, List.append_assoc]
      rfl
  | region kind tag inner rest ihInner ihRest =>
    obtain ⟨-, v, hinner, hrest⟩ := place_region_eq_ok_iff.1 h
    have hrt : r < t.size := lt_size_of_get? hr
    generalize hgrown : (t.create { kind, parent := some r, tryBlock := tag }).modify r (·.add (.region t.size)) = grown at hinner
    have hsize : grown.size = t.size + 1 := by rw [← hgrown, size_modify, size_create]
    have hnew : grown.get? t.size = some { kind, parent := some r, tryBlock := tag } := by
      rw [← hgrown, get?_modify, if_neg (Nat.ne_of_lt hrt), get?_create, if_pos rfl]
    obtain ⟨hkept, cs, hv, hnumbered⟩ := ihInner hnew hinner
    rw [hsize] at hkept hnumbered
    have hvr : v.get? r = some (region.add (.region t.size)) := by
      rw [hkept r (by omega) (by omega), ← hgrown, get?_modify, if_pos rfl, get?_create, if_neg (by omega), hr, Option.map_some]
    obtain ⟨hkept', cs', hu, hnumbered'⟩ := ihRest hvr hrest
    have hlt : t.size + 1 ≤ v.size := hnumbered.le
    refine ⟨fun i hi hir => ?_, .region t.size :: cs', ?_, .region ((hkept' _ hlt (by omega)).trans hv) ?_ hnumbered'⟩
    · rw [hkept' i (by omega) hir, hkept i (by omega) (by omega), ← hgrown, get?_modify, if_neg (Ne.symm hir), get?_create,
        if_neg (by omega)]
    · rw [hu, Region.add, List.append_assoc]
      rfl
    · exact hnumbered.congr fun i hi hik => hkept' i hik (by omega)

/-- **The tree that is built shows what was described**, and its regions are numbered in pre-order. -/
theorem outline_of_buildTree (h : d.buildTree = .ok t) :
    t.outline = .ok d.regions ∧ t.preOrder (.region t.root) = List.range t.size := by
  obtain ⟨-, hplace, hw⟩ := buildTree_eq_ok_iff.1 h
  have hroot : t.root = 0 := (of_place_eq_ok (Nat.zero_lt_one : 0 < (outermost d.regions).size) hplace).2.root
  have hbefore : (outermost d.regions).get? 0 = some ⟨d.regions.kind, none, [], d.regions.tryBlock⟩ := rfl
  obtain ⟨-, cs, h0, hnumbered⟩ := numbered_of_place hbefore hplace
  rw [List.nil_append] at h0
  have hlt : 0 < t.size := lt_size_of_get? h0
  have hpred : 1 + (t.size - 1) = t.size := Nat.add_sub_of_le hlt
  constructor
  · rw [outline, hroot, ← hpred, Nat.add_comm, outlineWithin_succ, region_eq_ok_iff.2 h0, ok_bind]
    rw [hnumbered.foldrM_outlineChild (Nat.le_of_eq hpred.symm), ok_bind]
  · rw [hroot, hw.preOrder_region hlt, childrenOf_eq h0, hnumbered.preOrder_eq hw, List.range_eq_range', ← hpred, Nat.add_comm]
    exact List.range'_succ.symm

theorem outline_of_toMethod (h : d.toMethod = .ok m) :
    m.tree.outline = .ok d.regions ∧ m.tree.preOrder (.region m.tree.root) = List.range m.tree.size := by
  obtain ⟨_, _, _, -, -, htree, rfl⟩ := toMethod_eq_ok_iff.1 h
  exact outline_of_buildTree htree

/-- **Descriptions and trees turn into each other without loss.** The tree that is built from a description has the outline that
was described, its regions are numbered in pre-order, and the walk over them meets them in the order of their numbers. A tree
whose blocks and tags are in the lists of the description, with its regions numbered in any way, can be described by its
outline, and what is built from that has the same outline. Such a tree is left by every reconstruction. -/
theorem outlines_and_trees_convert (h : d.toMethod = .ok m) :
    m.tree.outline = .ok d.regions ∧
    m.tree.preOrder (.region m.tree.root) = List.range m.tree.size ∧
    m.tree.reachable = .ok (List.range m.tree.size) ∧
    (∀ t : RegionTree, t.validate = .ok () → (∀ id, some id ∈ t.tags → id < d.tryBlocks.length) →
      (∀ b, t.Holds b → b < d.blocks.length) →
      ∃ o m', t.outline = .ok o ∧ { d with regions := o }.toMethod = .ok m' ∧ m'.tree.outline = .ok o) ∧
    ∀ options, ∃ done o m', m.reconstruct options = .ok done ∧ done.method.tree.validate = .ok () ∧
      done.method.tree.outline = .ok o ∧ { d with regions := o }.toMethod = .ok m' ∧ m'.tree.outline = .ok o := by
  have hbuilt := built_of_toMethod h
  obtain ⟨houtline, horder⟩ := outline_of_toMethod h
  have hconvert : ∀ t : RegionTree, t.WellFormed → (∀ id, some id ∈ t.tags → id < d.tryBlocks.length) →
      (∀ b, t.Holds b → b < d.blocks.length) →
      ∃ o m', t.outline = .ok o ∧ { d with regions := o }.toMethod = .ok m' ∧ m'.tree.outline = .ok o := by
    intro t hw htags hholds
    obtain ⟨o, m', ho, hm', -⟩ := rebuild_ok h hw htags hholds
    exact ⟨o, m', ho, hm', (outline_of_toMethod hm').1⟩
  refine ⟨houtline, horder, by rw [hbuilt.wellFormed.reachable_eq, horder],
    fun t hv => hconvert t (validate_eq_ok_iff.1 hv), fun options => ?_⟩
  obtain ⟨done, _, _, _, htraced⟩ := Method.exists_traced hbuilt.wellFormed hbuilt.handlersExist hbuilt.entry options
  obtain ⟨hw, htags, hholds⟩ := tree_of_reconstruct h htraced.run
  obtain ⟨o, m', ho, hm', ho'⟩ := hconvert _ hw htags hholds
  exact ⟨done, o, m', htraced.run, validate_eq_ok_iff.2 hw, ho, hm', ho'⟩

/-- A method with a branch in a loop, and an empty region behind the loop. -/
def branchInLoop : Description where
  name := "nested"
  blocks := [{}, { guard := some 0 }, {}]
  edges := [⟨0, 1, .fall⟩, ⟨1, 2, .exception⟩]
  tryBlocks := [[⟨none, 2⟩]]
  regions := { contents := .block 0 (.region .loop none (.region .conditional none (.block 1 .nil) .nil)
    (.region .sequence none .nil (.block 2 .nil))) }

/-- Regions of the method, numbered from the end. -/
def branchInLoopFromEnd : RegionTree where
  regions := #[
    { kind := .sequence, parent := some 3 },
    { kind := .conditional, parent := some 2, children := [.block 1] },
    { kind := .loop, parent := some 3, children := [.region 1], tryBlock := some 0 },
    { kind := .sequence, parent := none, children := [.region 2, .block 2, .region 0, .block 0] }]
  root := 3

/-- The four regions are met in the order of their numbers; regions that are numbered from the end are described just so. -/
theorem outlines_and_trees_convert_branchInLoop :
    ∃ m, branchInLoop.toMethod = .ok m ∧ m.tree.outline = .ok branchInLoop.regions ∧ m.tree.reachable = .ok [0, 1, 2, 3] ∧
      (branchInLoopFromEnd.validate = .ok () ∧ branchInLoopFromEnd.reachable = .ok [3, 2, 1, 0] ∧
        ∃ o m', branchInLoopFromEnd.outline = .ok o ∧ { branchInLoop with regions := o }.toMethod = .ok m' ∧
          m'.tree.outline = .ok o) ∧
      ∃ done o m', m.reconstruct {} = .ok done ∧ done.method.tree.validate = .ok () ∧ done.method.tree.outline = .ok o ∧
        { branchInLoop with regions := o }.toMethod = .ok m' ∧ m'.tree.outline = .ok o := by
  have hbuilt : branchInLoop.toMethod.toOption.map (·.tree.size) = some 4 := by decide
  obtain ⟨m, hm, hsize⟩ := Option.map_eq_some_iff.1 hbuilt
  rw [toOption_eq_some_iff] at hm
  have hvalid : branchInLoopFromEnd.validate = .ok () := by decide
  have htags : ∀ id, some id ∈ branchInLoopFromEnd.tags → id < 1 := by
    intro id hid
    have htags : branchInLoopFromEnd.tags = [none, none, some 0, none] := rfl
    simp only [htags, List.mem_cons, reduceCtorEq, Option.some.injEq, List.not_mem_nil, or_false, false_or] at hid
    exact hid ▸ Nat.zero_lt_one
  have hholds : ∀ b, branchInLoopFromEnd.Holds b → b < 3 := by
    intro b hb
    have hblocks : branchInLoopFromEnd.listed.filterMap Container.block? = [1, 2, 0] := rfl
    rw [holds_iff_mem, hblocks] at hb
    revert b
    decide
  obtain ⟨houtline, -, hwalk, hconvert, hrun⟩ := outlines_and_trees_convert hm
  rw [hsize] at hwalk
  exact ⟨m, hm, houtline, hwalk, ⟨hvalid, by decide, hconvert _ hvalid htags hholds⟩, hrun {}⟩

end Description

end GuardedRegions
