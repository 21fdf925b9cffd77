import GuardedRegions.Proofs.Region.Valid
import GuardedRegions.Proofs.Wrapping.Run
import Mathlib.Data.List.Forall2

/-!
# Structured regions keep their layout

A structured region gives up nothing but one nested region, so whatever is carved out of it is a new region around the one
that had the place. `RegionTree.Shell` says of a container that it is such a shell, of any thickness. A shell is never opened
again: a sweep carves only where it finds a block, and what a shell holds is a region. So each place of a structured region
holds at the end of a run what it held before, or a shell around it (`RegionTree.KeepsLayout`).
-/

namespace GuardedRegions

theorem forall₂_replace {α β : Type} [BEq β] [LawfulBEq β] {R R' : α → β → Prop} {as : List α} {bs : List β}
    (h : List.Forall₂ R as bs) {old new : β} (hkept : ∀ a b, R a b → R' a b) (hnew : ∀ a, R a old → R' a new) :
    List.Forall₂ R' as (bs.replace old new) := by
  induction h with
  | nil => exact .nil
  | @cons a b as bs hab hrest ih =>
    by_cases hb : b = old
    · subst hb
      rw [List.replace_cons_self]
      exact .cons (hnew a hab) (hrest.imp hkept)
    · rw [List.replace_cons, beq_false_of_ne (Ne.symm hb)]
      exact .cons (hkept a b hab) ih

namespace RegionTree

variable {t u : RegionTree} {n q r id : Nat} {c d : Container} {moved : List Container}

/-! ## Shells -/

/-- The container is a region, or a region of a number from `n` on that holds nothing but such a container. -/
inductive Shell (t : RegionTree) (n q : Nat) : Container → Prop
  | core : Shell t n q (.region q)
  | around {i : Nat} {c : Container} (hnew : n ≤ i) (hone : t.childrenOf i = [c]) (hc : Shell t n q c) :
      Shell t n q (.region i)

/-- What may stand in a later tree where a container stood: the same block, or a shell around the same region. -/
def StandsFor (t : RegionTree) (n : Nat) : Container → Container → Prop
  | .block b, c => c = .block b
  | .region q, c => t.Shell n q c

theorem Shell.ne_block (h : t.Shell n q c) (b : Nat) : c ≠ .block b := by
  cases h <;> simp

/-- What is carved out of a region that holds a block leaves all shells closed. -/
theorem Shell.regrouped (h : t.Shell n q c) (hre : Regrouped t r moved id u) {b : Nat} (hb : .block b ∈ t.childrenOf r) :
    u.Shell n q c := by
  induction h with
  | core => exact .core
  | @around i c hnew hone hc ih =>
    have hir : i ≠ r := by
      rintro rfl
      rw [hone, List.mem_singleton] at hb
      exact hc.ne_block b hb.symm
    have hlt : i < t.size := by
      apply lt_size_of_mem (c := c)
      simp [hone]
    have hsame : u.childrenOf i = t.childrenOf i := hre.childrenOf_of_ne hir (Nat.ne_of_lt hlt)
    exact .around hnew (hsame.trans hone) ih

theorem StandsFor.regrouped (h : t.StandsFor n c d) (hre : Regrouped t r moved id u) {b : Nat}
    (hb : .block b ∈ t.childrenOf r) : u.StandsFor n c d := by
  cases c with
  | block => exact h
  | region q => exact Shell.regrouped h hre hb

theorem StandsFor.new {p : Nat} (h : t.StandsFor n c (.region p)) (hre : Regrouped t r [.region p] id u) (hn : n ≤ t.size)
    {b : Nat} (hb : .block b ∈ t.childrenOf r) : u.StandsFor n c (.region t.size) := by
  cases c with
  | block => cases h
  | region q => exact .around hn hre.childrenOf_new (Shell.regrouped h hre hb)

theorem standsFor_self (t : RegionTree) (n : Nat) (c : Container) : t.StandsFor n c c := by
  cases c with
  | block b => rfl
  | region q => exact .core

/-! ## The places of a structured region -/

/-- Each structured region of the first tree is one of the second, and what was at its places still stands there. -/
structure KeepsLayout (t u : RegionTree) : Prop where
  wellFormed : u.WellFormed
  size_le : t.size ≤ u.size
  places : ∀ r region, t.get? r = some region → region.kind.isStructured = true →
    ∃ region', u.get? r = some region' ∧ region'.kind = region.kind ∧
      List.Forall₂ (u.StandsFor t.size) region.children region'.children

theorem KeepsLayout.refl (hw : t.WellFormed) : t.KeepsLayout t where
  wellFormed := hw
  size_le := Nat.le_refl _
  places _ region hr _ := ⟨region, hr, rfl, List.forall₂_same.2 fun c _ => standsFor_self t _ c⟩

/-- Out of a structured region only one nested region moves, and the new one comes to its place. -/
theorem Regrouped.exists_of_isStructured (h : Regrouped t r moved id u) {region : Region} (hr : t.get? r = some region)
    (hs : region.kind.isStructured = true) :
    ∃ p, moved = [.region p] ∧ u.childrenOf r = region.children.replace (.region p) (.region t.size) := by
  obtain ⟨p, rfl⟩ := h.allowed.2 region hr hs
  refine ⟨p, rfl, ?_⟩
  rw [h.childrenOf_self, childrenOf_eq hr, regrouped]
  simp

theorem KeepsLayout.regrouped {v : RegionTree} (h : t.KeepsLayout u) (hre : Regrouped u r moved id v) {b : Nat}
    (hb : .block b ∈ u.childrenOf r) : t.KeepsLayout v where
  wellFormed := hre.wellFormed h.wellFormed
  size_le := by
    rw [hre.size]
    exact Nat.le_succ_of_le h.size_le
  places i region hi hs := by
    obtain ⟨region', hi', hkind, hplaces⟩ := h.places i region hi hs
    obtain ⟨region'', hi'', hkind', -⟩ := hre.get?_kept hi'
    refine ⟨region'', hi'', hkind'.trans hkind, ?_⟩
    rw [← childrenOf_eq hi'']
    have hkept : ∀ c d, u.StandsFor t.size c d → v.StandsFor t.size c d := fun c d hcd => hcd.regrouped hre hb
    by_cases hir : i = r
    · subst hir
      obtain ⟨p, rfl, hchildren⟩ := hre.exists_of_isStructured hi' (hkind ▸ hs)
      rw [hchildren]
      exact forall₂_replace hplaces hkept fun c hc => hc.new hre h.size_le hb
    · rw [hre.childrenOf_of_ne hir (Nat.ne_of_lt (lt_size_of_get? hi')), childrenOf_eq hi']
      exact hplaces.imp hkept

end RegionTree

theorem Progress.Step.keepsLayout {g : Graph} {doms : Dominance} {tryBlocks : List TryBlock} {t : RegionTree} {r : Nat}
    {x y : Progress} (hx : t.KeepsLayout x.tree) (h : Step g doms tryBlocks r x y) : t.KeepsLayout y.tree := by
  cases h with
  | idle => exact hx
  | gaveUp => exact hx
  | wrapped hfirst _ hre => exact hx.regrouped hre (Pending.child_of_first? hfirst)

variable {m : Method}

/-- **Structured regions keep their layout.** After a run, whatever its result, every structured region has as many children
as before. A place that held a block holds this block; a place that held a region holds this region or a new one, from which
new regions with a single child each lead down to it. -/
theorem Method.structured_regions_keep_their_layout (hv : m.tree.validate = .ok ()) (hh : m.HandlersExist) (doms : Dominance)
    (pending : Pending) (limit : Nat) :
    ∃ resolved result, m.resolve doms pending limit = .ok (resolved, result) ∧
      ∀ r region, m.tree.get? r = some region → region.kind.isStructured = true →
        ∃ region', resolved.method.tree.get? r = some region' ∧ region'.kind = region.kind ∧
          region'.children.length = region.children.length ∧
          (∀ (i b : Nat), region.children[i]? = some (.block b) → region'.children[i]? = some (.block b)) ∧
          ∀ (i q : Nat), region.children[i]? = some (.region q) →
            ∃ c, region'.children[i]? = some c ∧ resolved.method.tree.Shell m.tree.size q c := by
  have hw := RegionTree.validate_eq_ok_iff.1 hv
  obtain ⟨resolved, result, y, hok, hsteps, hy⟩ := resolve_ok hw hh doms pending limit
  have hkeeps : m.tree.KeepsLayout y.tree :=
    hsteps.preserve (P := fun x => m.tree.KeepsLayout x.tree) (fun _ _ _ hx hxy => hxy.keepsLayout hx)
      (RegionTree.KeepsLayout.refl hw)
  refine ⟨resolved, result, hok, fun r region hr hs => ?_⟩
  rw [hy.tree]
  obtain ⟨region', hr', hkind, hplaces⟩ := hkeeps.places r region hr hs
  have hstands : ∀ (i : Nat) (c : Container), region.children[i]? = some c →
      ∃ d, region'.children[i]? = some d ∧ y.tree.StandsFor m.tree.size c d := by
    intro i c hc
    obtain ⟨hi, rfl⟩ := List.getElem?_eq_some_iff.1 hc
    have hi' : i < region'.children.length := hplaces.length_eq ▸ hi
    exact ⟨_, List.getElem?_eq_getElem hi', hplaces.get hi hi'⟩
  refine ⟨region', hr', hkind, hplaces.length_eq.symm, fun i b hb => ?_, fun i q hq => hstands i _ hq⟩
  obtain ⟨d, hd, rfl⟩ := hstands i _ hb
  exact hd

/-- A loop whose body stands in front of two blocks, each of which is where a try-block begins and where its handler starts.
No edge leads to the body, so that it is on no handler path. -/
def Method.bodyInFront : Method where
  name := "front"
  graph := {
    blocks := #[{}, { guard := some 7 }, { guard := some 8 }, {}]
    edges := #[⟨0, 1, .fall⟩, ⟨1, 2, .fall⟩]
    entry := some 0
    edges_inside := by decide }
  tryBlocks := [⟨7, [⟨none, 1⟩]⟩, ⟨8, [⟨none, 2⟩]⟩]
  tree := {
    regions := #[
      { kind := .sequence, parent := none, children := [.block 0, .region 1] },
      { kind := .loop, parent := some 0, children := [.region 2, .block 1, .block 2] },
      { kind := .sequence, parent := some 1, children := [.block 3] }] }

/-- Sets that were found elsewhere, by which both of these blocks dominate the body. -/
def Dominance.bodyInFront : Dominance := .ofSets [(0, [0]), (1, [0, 1]), (2, [0, 1, 2]), (3, [0, 1, 2, 3])]

def Pending.bodyInFront : Pending := ((∅ : Pending).insert 1 7).insert 2 8

/-- The body ends up in two shells, one for each try-block, and the blocks behind it stay where they are. -/
theorem Method.structured_regions_keep_their_layout_bodyInFront :
    ∃ resolved result region, bodyInFront.resolve .bodyInFront .bodyInFront 100 = .ok (resolved, result) ∧
      resolved.method.tree.size = 5 ∧ resolved.method.tree.get? 1 = some region ∧ region.kind = .loop ∧
      region.children.length = 3 ∧ region.children[1]? = some (.block 1) ∧ region.children[2]? = some (.block 2) ∧
      ∃ c, region.children[0]? = some c ∧ c ≠ .region 2 ∧ resolved.method.tree.Shell 3 2 c := by
  have hrun : (bodyInFront.resolve .bodyInFront .bodyInFront 100).toOption.map
      (fun done => (done.1.method.tree.size, done.1.method.tree.childrenOf 1)) =
      some (5, [.region 4, .block 1, .block 2]) := by decide +kernel
  simp only [Option.map_eq_some_iff, toOption_eq_some_iff, Prod.mk.injEq] at hrun
  obtain ⟨⟨resolved, result⟩, hok, hsize, hchildren⟩ := hrun
  obtain ⟨resolved', result', hok', hall⟩ :=
    structured_regions_keep_their_layout (m := bodyInFront) (by decide) (by decide) .bodyInFront .bodyInFront 100
  obtain ⟨rfl, rfl⟩ := Prod.mk.inj (Except.ok.inj (hok.symm.trans hok'))
  obtain ⟨region, hr, hkind, hlength, hblocks, hregions⟩ := hall 1 _ rfl rfl
  obtain ⟨c, hc, hshell⟩ := hregions 0 2 rfl
  refine ⟨resolved, result, region, hok, hsize, hr, hkind, hlength, hblocks 1 1 rfl, hblocks 2 2 rfl, c, hc, ?_, hshell⟩
  rintro rfl
  rw [RegionTree.childrenOf_eq hr] at hchildren
  rw [hchildren] at hc
  cases hc

end GuardedRegions
