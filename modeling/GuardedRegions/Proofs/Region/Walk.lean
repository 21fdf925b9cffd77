import GuardedRegions.Proofs.Except
import GuardedRegions.Proofs.Region.Nesting
import GuardedRegions.Region.Walk
import Mathlib.Data.List.Flatten
import Mathlib.Data.List.Infix
import Mathlib.Data.List.Nodup

/-!
# Walks over a tree

`RegionTree.postOrder` lists a container and all that is below it, each region after what it holds. In a tree it lists what
the container covers (`WellFormed.mem_postOrder`), once (`WellFormed.nodup_postOrder`). `RegionTree.preOrder` lists its regions
alone, each before what it holds. Every walk of the library can be read off one of them:

* `blocksOf_eq`, `everyBlock_eq` : the questions about the blocks below a container are about `RegionTree.blockList`;
* `reachable_eq` : the walk that notes the regions seen sees all of them once, in pre-order.
-/

namespace GuardedRegions.RegionTree

open Relation

variable {t : RegionTree}

/-- A container and what is below it, each region after what it holds; nothing of what lies deeper than a bound. -/
def postOrderWithin (t : RegionTree) : Nat → Container → List Container
  | _, .block b => [.block b]
  | 0, .region _ => []
  | depth + 1, .region r => (t.childrenOf r).flatMap (t.postOrderWithin depth) ++ [.region r]

def postOrder (t : RegionTree) (c : Container) : List Container := t.postOrderWithin t.size c

/-- The regions of a container, each before what it holds; none of those that lie deeper than a bound. -/
def preOrderWithin (t : RegionTree) : Nat → Container → List Nat
  | _, .block _ => []
  | 0, .region _ => []
  | depth + 1, .region r => r :: (t.childrenOf r).flatMap (t.preOrderWithin depth)

def preOrder (t : RegionTree) (c : Container) : List Nat := t.preOrderWithin t.size c

/-- The blocks of a container, in the order of the tree. -/
def blockList (t : RegionTree) (c : Container) : List Nat := (t.postOrder c).filterMap Container.block?

/-- Some region has the block as a child. -/
def Holds (t : RegionTree) (b : Nat) : Prop := ∃ r, .block b ∈ t.childrenOf r

@[simp] theorem postOrderWithin_block {depth b : Nat} : t.postOrderWithin depth (.block b) = [.block b] := by
  cases depth <;> rfl

@[simp] theorem postOrder_block {b : Nat} : t.postOrder (.block b) = [.block b] := postOrderWithin_block

@[simp] theorem preOrderWithin_block {depth b : Nat} : t.preOrderWithin depth (.block b) = [] := by
  cases depth <;> rfl

@[simp] theorem preOrder_block {b : Nat} : t.preOrder (.block b) = [] := preOrderWithin_block

@[simp] theorem blockList_block {b : Nat} : t.blockList (.block b) = [b] := by
  simp [blockList]

def visitChild (t : RegionTree) (depth : Nat) (seen : List Nat) : Container → Except Fault (List Nat)
  | .block _ => .ok seen
  | .region child => t.visitWithin depth seen child

/-- What is listed for a container stands together in what is listed for any container above it, if a region has what its children
have. -/
theorem infix_of_covers {α : Type} {F : Container → List α}
    (hF : ∀ r < t.size, (t.childrenOf r).flatMap F <:+: F (.region r)) {c d : Container} (hc : t.Covers c d) :
    F d <:+: F c := by
  induction hc using ReflTransGen.head_induction_on with
  | refl => exact List.infix_refl _
  | @head c e hce _ ih =>
    cases c with
    | block b => exact absurd hce child_block
    | region r =>
      have hmem : F e ∈ (t.childrenOf r).map F := List.mem_map_of_mem hce
      exact (ih.trans (List.infix_of_mem_flatten hmem)).trans (hF r (lt_size_of_mem hce))

/-- The bodies of a try-block are the tagged regions among those that the root leads to. -/
theorem exists_bodiesOf {rs : List Nat} (h : t.reachable = .ok rs) (id : Nat) :
    ∃ bodies, t.bodiesOf id = .ok bodies ∧ bodies.Sublist rs ∧
      ∀ r, r ∈ bodies ↔ r ∈ rs ∧ ∃ region, t.get? r = some region ∧ region.tryBlock = some id := by
  refine ⟨_, by rw [bodiesOf, h]; rfl, List.filter_sublist, fun r => ?_⟩
  rw [List.mem_filter, beq_iff_eq, Option.bind_eq_some_iff]

theorem perm_preOrderWithin (t : RegionTree) (depth : Nat) (c : Container) :
    (t.preOrderWithin depth c).Perm ((t.postOrderWithin depth c).filterMap Container.region?) := by
  induction depth generalizing c with
  | zero => cases c <;> exact .refl _
  | succ depth ih =>
    cases c with
    | block b => exact .refl _
    | region r =>
      rw [preOrderWithin, postOrderWithin, List.filterMap_append, List.filterMap_flatMap]
      have hbelow := (List.Perm.refl (t.childrenOf r)).flatMap fun c _ => ih c
      exact (hbelow.cons r).trans (List.perm_append_singleton r _).symm

namespace WellFormed

/-- Nothing is missed within a bound that is not exceeded: what is made of a region and of what there is below its children is
the same within any such bound. -/
theorem within_congr {α : Type} (h : t.WellFormed) {F : Nat → Container → List α} {G : Nat → List α → List α}
    (hblock : ∀ d e b, F d (.block b) = F e (.block b))
    (hregion : ∀ d r, F (d + 1) (.region r) = G r ((t.childrenOf r).flatMap (F d))) {d e : Nat} {c : Container}
    (hd : t.level c ≤ d) (he : t.level c ≤ e) : F d c = F e c := by
  induction d generalizing c e with
  | zero =>
    cases c with
    | block b => exact hblock _ _ b
    | region r => exact absurd hd (Nat.not_le.2 level_region_pos)
  | succ d ih =>
    cases c with
    | block b => exact hblock _ _ b
    | region r =>
      obtain ⟨e, rfl⟩ : ∃ k, e = k + 1 := Nat.exists_eq_add_one.2 (Nat.lt_of_lt_of_le level_region_pos he)
      rw [hregion, hregion]
      refine congrArg (G r) (List.flatMap_congr fun c hc => ?_)
      have := h.level_lt (p := .region r) hc
      exact ih (by omega) (by omega)

theorem postOrder_region (h : t.WellFormed) {r : Nat} (hr : r < t.size) :
    t.postOrder (.region r) = (t.childrenOf r).flatMap t.postOrder ++ [.region r] := by
  have hle := h.level_le (c := .region r) hr
  have hw : t.postOrder (.region r) = t.postOrderWithin (t.size + 1) (.region r) :=
    h.within_congr (G := fun r below => below ++ [.region r]) (fun _ _ _ => by simp) (fun _ _ => rfl) hle
      (Nat.le_succ_of_le hle)
  rw [hw, postOrderWithin]
  rfl

theorem preOrder_region (h : t.WellFormed) {r : Nat} (hr : r < t.size) :
    t.preOrder (.region r) = r :: (t.childrenOf r).flatMap t.preOrder := by
  have hle := h.level_le (c := .region r) hr
  have hw : t.preOrder (.region r) = t.preOrderWithin (t.size + 1) (.region r) :=
    h.within_congr (G := List.cons) (fun _ _ _ => by simp) (fun _ _ => rfl) hle (Nat.le_succ_of_le hle)
  rw [hw, preOrderWithin]
  rfl

theorem blockList_region (h : t.WellFormed) {r : Nat} (hr : r < t.size) :
    t.blockList (.region r) = (t.childrenOf r).flatMap t.blockList := by
  rw [blockList, h.postOrder_region hr, List.filterMap_append, List.filterMap_flatMap]
  exact List.append_nil _

theorem mem_postOrder (h : t.WellFormed) {c d : Container} (hc : t.Has c) : d ∈ t.postOrder c ↔ t.Covers c d := by
  induction c using h.induction with
  | step c ih =>
    cases c with
    | block b => rw [postOrder_block, List.mem_singleton, covers_block_iff]
    | region r =>
      rw [h.postOrder_region hc, List.mem_append, List.mem_singleton, List.mem_flatMap, covers_iff, encloses_iff, or_comm]
      refine or_congr_right (exists_congr fun c => ?_)
      refine and_congr_right fun hrc => ?_
      exact ih c hrc (h.has_of_mem hrc)

theorem mem_blockList (h : t.WellFormed) {c : Container} (hc : t.Has c) {b : Nat} :
    b ∈ t.blockList c ↔ t.Covers c (.block b) := by
  rw [← h.mem_postOrder hc, blockList, List.mem_filterMap]
  simp

theorem self_mem_postOrder (h : t.WellFormed) (c : Container) : c ∈ t.postOrder c := by
  obtain ⟨n, hn⟩ : ∃ n, t.size = n + 1 := Nat.exists_eq_add_one.2 (Nat.zero_lt_of_lt h.root_lt)
  cases c with
  | block b => simp
  | region r =>
    rw [postOrder, hn, postOrderWithin]
    exact List.mem_append_right _ List.mem_cons_self

theorem has_of_mem_postOrder (h : t.WellFormed) {c : Container} (hc : c ∈ t.postOrder (.region t.root)) : t.Has c := by
  rcases covers_iff.1 ((h.mem_postOrder h.has_root).1 hc) with rfl | hc
  · exact h.has_root
  · exact h.has_of_encloses hc

theorem nodup_postOrder (h : t.WellFormed) {c : Container} (hc : t.Has c) : (t.postOrder c).Nodup := by
  induction c using h.induction with
  | step c ih =>
    cases c with
    | block b => rw [postOrder_block]; exact List.nodup_singleton _
    | region r =>
      rw [h.postOrder_region hc, List.nodup_append]
      refine ⟨List.nodup_flatMap.2 ⟨fun c hrc => ih c hrc (h.has_of_mem hrc), ?_⟩, List.nodup_singleton _, ?_⟩
      · -- what two siblings have in common would make them one
        refine (h.nodup r).imp_of_mem fun {c d} hrc hrd hcd e hce hde => hcd ?_
        rw [h.mem_postOrder (h.has_of_mem hrc)] at hce
        rw [h.mem_postOrder (h.has_of_mem hrd)] at hde
        exact h.eq_of_covers (p := .region r) hrc hrd hce hde
      · rintro d hd e he rfl
        obtain ⟨c, hrc, hcd⟩ := List.mem_flatMap.1 hd
        rw [h.mem_postOrder (h.has_of_mem hrc), List.mem_singleton.1 he] at hcd
        exact h.not_encloses_self _ (encloses_iff.2 ⟨c, child_region.2 hrc, hcd⟩)

/-- What lies below a container stands together in the post-order of whatever is above it. -/
theorem postOrder_infix (h : t.WellFormed) {c d : Container} (hc : t.Covers c d) : t.postOrder d <:+: t.postOrder c :=
  infix_of_covers (fun _ hr => h.postOrder_region hr ▸ (List.prefix_append _ _).isInfix) hc

theorem preOrder_infix (h : t.WellFormed) {c d : Container} (hc : t.Covers c d) : t.preOrder d <:+: t.preOrder c :=
  infix_of_covers (fun _ hr => h.preOrder_region hr ▸ (List.suffix_cons _ _).isInfix) hc

theorem mem_preOrder (h : t.WellFormed) {c : Container} (hc : t.Has c) {r : Nat} :
    r ∈ t.preOrder c ↔ t.Covers c (.region r) := by
  rw [← h.mem_postOrder hc, preOrder, (t.perm_preOrderWithin _ c).mem_iff, List.mem_filterMap]
  simp [postOrder]

theorem nodup_preOrder (h : t.WellFormed) {c : Container} (hc : t.Has c) : (t.preOrder c).Nodup :=
  (t.perm_preOrderWithin _ c).nodup_iff.2 ((h.nodup_postOrder hc).filterMap (by simp +contextual))

theorem nodup_blockList (h : t.WellFormed) {c : Container} (hc : t.Has c) : (t.blockList c).Nodup :=
  (h.nodup_postOrder hc).filterMap (by simp +contextual)

theorem mem_blockList_root (h : t.WellFormed) {b : Nat} : b ∈ t.blockList (.region t.root) ↔ t.Holds b := by
  rw [h.mem_blockList h.has_root]
  constructor
  · intro hb
    rcases ReflTransGen.cases_tail hb with hroot | ⟨c, -, hc⟩
    · cases hroot
    · cases c with
      | block b' => exact absurd hc child_block
      | region r => exact ⟨r, hc⟩
  · rintro ⟨r, hb⟩
    exact (h.encloses_root (lt_size_of_mem hb) hb).to_reflTransGen

/-! ## Questions about blocks -/

theorem blocksWithin_eq (h : t.WellFormed) {depth : Nat} {c : Container} (hc : t.Has c) (hd : t.level c ≤ depth) :
    t.blocksWithin depth c = .ok (t.blockList c) := by
  induction depth generalizing c with
  | zero =>
    cases c with
    | block b => simp [blocksWithin]
    | region r => exact absurd hd (Nat.not_le.2 level_region_pos)
  | succ depth ih =>
    cases c with
    | block b => simp [blocksWithin]
    | region r =>
      have hstep : ∀ c ∈ t.childrenOf r, t.blocksWithin depth c = .ok (t.blockList c) := by
        intro c hrc
        have := h.level_lt (p := .region r) hrc
        exact ih (h.has_of_mem hrc) (by omega)
      simp only [blocksWithin, children_eq_ok hc, ok_bind, mapM_eq_ok hstep]
      rw [h.blockList_region hc, List.flatMap_def]
      rfl

theorem blocksOf_eq (h : t.WellFormed) {c : Container} (hc : t.Has c) : t.blocksOf c = .ok (t.blockList c) :=
  h.blocksWithin_eq hc (h.level_le hc)

theorem everyBlockWithin_eq (h : t.WellFormed) (test : Nat → Except Fault Bool) {depth : Nat} {c : Container}
    (hc : t.Has c) (hd : t.level c ≤ depth) : t.everyBlockWithin test depth c = (t.blockList c).allM test := by
  have hblock (depth b : Nat) : t.everyBlockWithin test depth (.block b) = (t.blockList (.block b)).allM test := by
    cases depth <;> rw [everyBlockWithin, blockList_block, allM_singleton]
  induction depth generalizing c with
  | zero =>
    cases c with
    | block b => exact hblock _ b
    | region r => exact absurd hd (Nat.not_le.2 level_region_pos)
  | succ depth ih =>
    cases c with
    | block b => exact hblock _ b
    | region r =>
      rw [everyBlockWithin, children_eq_ok hc, ok_bind, h.blockList_region hc]
      refine allM_flatMap fun c hrc => ?_
      have := h.level_lt (p := .region r) hrc
      exact ih (h.has_of_mem hrc) (by omega)

/-- A question about a container is asked of its blocks in the order of the tree, whatever may come of asking. -/
theorem everyBlock_eq_allM (h : t.WellFormed) (test : Nat → Except Fault Bool) {c : Container} (hc : t.Has c) :
    t.everyBlock test c = (t.blockList c).allM test :=
  h.everyBlockWithin_eq test hc (h.level_le hc)

theorem everyBlock_eq (h : t.WellFormed) {test : Nat → Except Fault Bool} {p : Nat → Bool}
    (ht : ∀ b, test b = .ok (p b)) {c : Container} (hc : t.Has c) :
    t.everyBlock test c = .ok ((t.blockList c).all p) :=
  (h.everyBlock_eq_allM test hc).trans (allM_eq_ok fun b _ => ht b)

/-! ## The walk that notes the regions seen -/

/-- From a region that nothing seen lies below, the walk sees what lies below it, in pre-order. -/
theorem visitWithin_eq (h : t.WellFormed) {depth r : Nat} {seen : List Nat} (hr : r < t.size)
    (hd : t.level (.region r) ≤ depth) (hfresh : (seen ++ t.preOrder (.region r)).Nodup) :
    t.visitWithin depth seen r = .ok (seen ++ t.preOrder (.region r)) := by
  induction depth generalizing seen r with
  | zero => exact absurd hd (Nat.not_le.2 level_region_pos)
  | succ depth ih =>
    rw [h.preOrder_region hr, List.append_cons] at hfresh ⊢
    have hrs : r ∉ seen := by
      have hnd := (List.nodup_append.1 hfresh).1
      rw [List.nodup_append] at hnd
      exact fun hrs => hnd.2.2 r hrs r (List.mem_singleton_self r) rfl
    rw [visitWithin, if_neg (by simpa using hrs), children_eq_ok hr, ok_bind]
    have hloop : ∀ (cs : List Container) (seen : List Nat), (∀ c ∈ cs, c ∈ t.childrenOf r) →
        (seen ++ cs.flatMap t.preOrder).Nodup → cs.foldlM (t.visitChild depth) seen = .ok (seen ++ cs.flatMap t.preOrder) := by
      intro cs
      induction cs with
      | nil => exact fun seen _ _ => congrArg Except.ok (List.append_nil seen).symm
      | cons c cs ihcs =>
        intro seen hcs hnd
        have hc := hcs c List.mem_cons_self
        rw [List.foldlM_cons]
        rw [List.flatMap_cons, ← List.append_assoc] at hnd ⊢
        cases c with
        | block b =>
          rw [preOrder_block, List.append_nil] at hnd ⊢
          exact ihcs seen (fun d hd => hcs d (List.mem_cons_of_mem _ hd)) hnd
        | region q =>
          have := h.level_lt (p := .region r) hc
          have hq := ih (h.has_of_mem hc) (by omega) (List.nodup_append.1 hnd).1
          exact (congrArg (· >>= _) hq).trans (ihcs _ (fun d hd => hcs d (List.mem_cons_of_mem _ hd)) hnd)
    exact hloop _ _ (fun c hc => hc) hfresh

/-- **The walk from the root sees the regions in pre-order.** -/
theorem reachable_eq (h : t.WellFormed) : t.reachable = .ok (t.preOrder (.region t.root)) :=
  h.visitWithin_eq h.root_lt (Nat.le_succ_of_le (h.level_le h.root_lt)) (h.nodup_preOrder h.root_lt)

theorem mem_preOrder_root (h : t.WellFormed) {r : Nat} : r ∈ t.preOrder (.region t.root) ↔ r < t.size := by
  rw [h.mem_preOrder h.has_root]
  refine ⟨fun hr => ?_, h.reached r⟩
  rcases covers_iff.1 hr with heq | henc
  · exact Container.region.inj heq ▸ h.root_lt
  · exact h.has_of_encloses henc

theorem bodiesOf_ok (h : t.WellFormed) (tryBlock : Nat) :
    ∃ rs, t.bodiesOf tryBlock = .ok rs ∧ rs.Nodup ∧
      ∀ r, r ∈ rs ↔ ∃ region, t.get? r = some region ∧ region.tryBlock = some tryBlock := by
  obtain ⟨rs, hok, hsub, hmem⟩ := exists_bodiesOf h.reachable_eq tryBlock
  refine ⟨rs, hok, (h.nodup_preOrder h.has_root).sublist hsub, fun r => ?_⟩
  rw [hmem, h.mem_preOrder_root]
  refine and_iff_right_of_imp ?_
  rintro ⟨region, hr, -⟩
  exact lt_size_of_get? hr

end WellFormed

end GuardedRegions.RegionTree
