import GuardedRegions.Proofs.Region.Leaves
import GuardedRegions.Proofs.Wrapping.Hierarchy
import Mathlib.Data.List.Perm.Subperm

/-!
# Where a run puts the code

Carving out a body brings the leaves that move to the place of the first of them, past those between them that stay
(`Regrouped.leafList_eq`); all else keeps its order. So the leaves at the end of a run come from those at its start by one
gathering for each new region, in the order in which the regions were made (`Progress.Sequenced`). What stood together
before is gathered where it stands, and it is together afterwards in any case: the run keeps the order of the leaves if and only
if the leaves of each new region were a contiguous run of them (`Progress.Sequenced.leafList_eq_iff`).
-/

namespace GuardedRegions

open Relation

/-! ## Gathering -/

section Gathering

variable {α : Type} {p q : α → Bool} {xs ys ms : List α}

/-- A list in which the elements that pass a test are brought to the place of the first of them. -/
def gathered (p : α → Bool) : List α → List α
  | [] => []
  | x :: xs => if p x then x :: (xs.filter p ++ xs.filter (!p ·)) else x :: gathered p xs

theorem gathered_congr (h : ∀ x ∈ xs, p x = q x) : gathered p xs = gathered q xs := by
  induction xs with
  | nil => rfl
  | cons x xs ih =>
    have hxs : ∀ y ∈ xs, p y = q y := fun y hy => h y (List.mem_cons_of_mem _ hy)
    have hnot : ∀ y ∈ xs, (!p y) = !q y := fun y hy => congrArg not (hxs y hy)
    rw [gathered, gathered, h x List.mem_cons_self, List.filter_congr hxs, List.filter_congr hnot, ih hxs]

theorem gathered_perm : (gathered p xs).Perm xs := by
  induction xs with
  | nil => exact List.Perm.refl _
  | cons x xs ih =>
    unfold gathered
    split
    · exact (List.filter_append_perm p xs).cons x
    · exact ih.cons x

theorem gathered_append_left (h : ∀ x ∈ xs, p x = false) : gathered p (xs ++ ys) = xs ++ gathered p ys := by
  induction xs with
  | nil => rfl
  | cons x xs ih =>
    have hx : ¬ p x = true := by simp [h x List.mem_cons_self]
    rw [List.cons_append, gathered, if_neg hx, ih fun y hy => h y (List.mem_cons_of_mem _ hy)]
    rfl

theorem gathered_append_right (h : ∀ y ∈ ys, p y = false) : gathered p (xs ++ ys) = gathered p xs ++ ys := by
  have hnone : ys.filter p = [] := by simpa [List.filter_eq_nil_iff] using h
  have hall : ys.filter (!p ·) = ys := by simpa [List.filter_eq_self] using h
  induction xs with
  | nil =>
    have hnil : gathered p (ys ++ []) = ys ++ gathered p [] := gathered_append_left h
    simpa [gathered] using hnil
  | cons x xs ih =>
    rw [List.cons_append, gathered, gathered, List.filter_append, List.filter_append, hnone, hall, ih]
    split <;> simp

theorem gathered_append_of_pass (hne : ms ≠ []) (h : ∀ m ∈ ms, p m = true) :
    gathered p (ms ++ ys) = ms ++ ys.filter p ++ ys.filter (!p ·) := by
  obtain ⟨m, ms, rfl⟩ := List.exists_cons_of_ne_nil hne
  have hms : ∀ y ∈ ms, p y = true := fun y hy => h y (List.mem_cons_of_mem _ hy)
  have hall : ms.filter p = ms := List.filter_eq_self.2 hms
  have hnone : ms.filter (!p ·) = [] := by simpa [List.filter_eq_nil_iff] using hms
  rw [List.cons_append, gathered, if_pos (h m List.mem_cons_self), List.filter_append, List.filter_append, hall, hnone]
  simp

theorem gathered_eq_self [BEq α] [LawfulBEq α] (hnd : xs.Nodup) (h : ms <:+: xs) : gathered (ms.contains ·) xs = xs := by
  obtain ⟨as, bs, rfl⟩ := h
  obtain ⟨hams, -, hbs⟩ := List.nodup_append.1 hnd
  have has : ∀ a ∈ as, ms.contains a = false := fun a ha => by
    simpa using fun hm => (List.nodup_append.1 hams).2.2 a ha a hm rfl
  have hbs : ∀ b ∈ bs, ms.contains b = false := fun b hb => by
    simpa using fun hm => hbs b (List.mem_append_right _ hm) b hb rfl
  rw [gathered_append_right hbs, gathered_append_left has]
  by_cases hne : ms = []
  · subst hne
    rfl
  · have hms : gathered (ms.contains ·) (ms ++ []) = ms ++ [] ++ [] :=
      gathered_append_of_pass hne fun m hm => List.contains_iff_mem.2 hm
    simp only [List.append_nil] at hms
    rw [hms]

/-- Where the test says the same of all parts of an element, the parts that pass it are those of the elements that do. -/
theorem filter_flatMap_of_const {β : Type} {f : β → List α} {q : β → Bool} {bs : List β}
    (h : ∀ b ∈ bs, ∀ x ∈ f b, p x = q b) : (bs.flatMap f).filter p = (bs.filter q).flatMap f := by
  induction bs with
  | nil => rfl
  | cons b bs ih =>
    have hb := h b List.mem_cons_self
    rw [List.flatMap_cons, List.filter_append, ih fun c hc => h c (List.mem_cons_of_mem _ hc), List.filter_cons,
      List.filter_congr hb]
    cases q b <;> simp

theorem filter_contains_of_sublist [BEq α] [LawfulBEq α] (hnd : ys.Nodup) (h : xs.Sublist ys) :
    ys.filter (xs.contains ·) = xs := by
  have hself : xs.filter (xs.contains ·) = xs := List.filter_eq_self.2 fun x hx => List.contains_iff_mem.2 hx
  have hsub := h.filter (xs.contains ·)
  rw [hself] at hsub
  have hback : ys.filter (xs.contains ·) ⊆ xs := fun x hx => by simpa using (List.mem_filter.1 hx).2
  exact (hsub.eq_of_length_le (List.subperm_of_subset (hnd.filter _) hback).length_le).symm

end Gathering

/-- Where some children are regrouped, the parts of all children are gathered if the parts of those that move pass the test. -/
theorem RegionTree.flatMap_regrouped {β : Type} {p : β → Bool} {f f' : Container → List β} {moved cs : List Container}
    {new : Nat} (hcs : cs.Nodup) (hsub : moved.Sublist cs) (hne : moved ≠ []) (hnew : .region new ∉ cs)
    (hmoved : f' (.region new) = moved.flatMap f) (hkept : ∀ c ∈ cs, f' c = f c) (hparts : ∀ c ∈ moved, f c ≠ [])
    (hp : ∀ c ∈ cs, ∀ x ∈ f c, p x = moved.contains c) :
    (regrouped moved new cs).flatMap f' = gathered p (cs.flatMap f) := by
  obtain ⟨first, rest, rfl⟩ := List.exists_cons_of_ne_nil hne
  obtain ⟨xs, ys, rfl, hrest, hre⟩ := exists_regrouped_eq hcs hsub hnew
  obtain ⟨-, hnd, hdisjoint⟩ := List.nodup_append.1 hcs
  obtain ⟨hfirst, hys⟩ := List.nodup_cons.1 hnd
  -- what stands before the first that moves fails the test; behind it the rest of what moves passes
  have hbefore : ∀ x ∈ xs.flatMap f, p x = false := by
    intro x hx
    obtain ⟨c, hc, hx⟩ := List.mem_flatMap.1 hx
    have hcf : c ≠ first := hdisjoint c hc first List.mem_cons_self
    have hcr : c ∉ rest := fun hr => hdisjoint c hc c (List.mem_cons_of_mem _ (hrest.subset hr)) rfl
    rw [hp c (List.mem_append_left _ hc) x hx]
    simp [hcf, hcr]
  have hpassed : ∀ x ∈ f first, p x = true := by
    intro x hx
    rw [hp first (List.mem_append_right _ List.mem_cons_self) x hx]
    simp
  have hbehind : ∀ c ∈ ys, ∀ x ∈ f c, p x = rest.contains c := by
    intro c hc x hx
    have hcf : c ≠ first := fun hcf => hfirst (hcf ▸ hc)
    rw [hp c (List.mem_append_right _ (List.mem_cons_of_mem _ hc)) x hx]
    simp [hcf]
  have hstay : (ys.flatMap f).filter (fun x => !p x) = (ys.filter fun c => !rest.contains c).flatMap f :=
    filter_flatMap_of_const fun c hc x hx => congrArg not (hbehind c hc x hx)
  have hxs : xs.flatMap f' = xs.flatMap f :=
    List.flatMap_congr fun c hc => hkept c (List.mem_append_left _ hc)
  have hleft : (ys.filter fun c => !rest.contains c).flatMap f' = (ys.filter fun c => !rest.contains c).flatMap f :=
    List.flatMap_congr fun c hc => hkept c (List.mem_append_right _ (List.mem_cons_of_mem _ (List.mem_filter.1 hc).1))
  calc (regrouped (first :: rest) new (xs ++ first :: ys)).flatMap f'
      = xs.flatMap f ++ (f first ++ rest.flatMap f ++ (ys.filter fun c => !rest.contains c).flatMap f) := by
        rw [hre, List.flatMap_append, List.flatMap_cons, hxs, hleft, hmoved, List.flatMap_cons]
    _ = xs.flatMap f ++ gathered p (f first ++ ys.flatMap f) := by
        rw [gathered_append_of_pass (hparts first List.mem_cons_self) hpassed, hstay, filter_flatMap_of_const hbehind,
          filter_contains_of_sublist hys hrest]
    _ = gathered p ((xs ++ first :: ys).flatMap f) := by
        rw [List.flatMap_append, List.flatMap_cons, gathered_append_left hbefore]

/-! ## One body -/

namespace RegionTree.Regrouped

variable {t u : RegionTree} {r id : Nat} {moved : List Container} {c l : Container}

theorem leafList_of_not_covers (hw : t.WellFormed) (h : Regrouped t r moved id u) (hc : t.Has c)
    (hno : ¬ t.Covers c (.region r)) : u.leafList c = t.leafList c := by
  induction c using hw.induction with
  | step c ih =>
    cases c with
    | block b => simp
    | region q =>
      have hqr : q ≠ r := fun hqr => hno (hqr ▸ ReflTransGen.refl)
      have hsame : u.childrenOf q = t.childrenOf q := h.childrenOf_of_ne hqr (Nat.ne_of_lt hc)
      by_cases hnil : t.childrenOf q = []
      · rw [hw.leafList_of_nil hc hnil, (h.wellFormed hw).leafList_of_nil (h.has hc) (hsame.trans hnil)]
      · rw [hw.leafList_of_ne_nil hnil, (h.wellFormed hw).leafList_of_ne_nil (hsame ▸ hnil), hsame]
        refine List.flatMap_congr fun d hd => ih d hd (hw.has_of_mem hd) fun hcov => hno ?_
        exact hcov.head hd

theorem not_covers_self (hw : t.WellFormed) {p : Container} (hc : t.Child p c) : ¬ t.Covers c p :=
  fun hcov => hw.not_encloses_self _ (TransGen.head' hc hcov)

theorem leafList_new (hw : t.WellFormed) (h : Regrouped t r moved id u) :
    u.leafList (.region t.size) = moved.flatMap t.leafList := by
  have hne : u.childrenOf t.size ≠ [] := h.childrenOf_new.symm ▸ h.allowed.1
  rw [(h.wellFormed hw).leafList_of_ne_nil hne, h.childrenOf_new]
  refine List.flatMap_congr fun d hd => h.leafList_of_not_covers hw (hw.has_of_child (h.child_of_mem hd)) ?_
  exact not_covers_self hw (h.child_of_mem hd)

/-- A child of the region has moved with all its leaves or with none. -/
theorem mem_leafList_new_iff (hw : t.WellFormed) (h : Regrouped t r moved id u) (hc : c ∈ t.childrenOf r)
    (hl : l ∈ t.leafList c) : l ∈ u.leafList (.region t.size) ↔ c ∈ moved := by
  rw [h.leafList_new hw, List.mem_flatMap]
  constructor
  · rintro ⟨d, hd, hld⟩
    have hcl := hw.covers_of_mem_leafList (hw.has_of_mem hc) hl
    have hdl := hw.covers_of_mem_leafList (hw.has_of_child (h.child_of_mem hd)) hld
    rwa [hw.eq_of_covers (p := .region r) hc (h.child_of_mem hd) hcl hdl]
  · exact fun hm => ⟨c, hm, hl⟩

theorem leafList_self (hw : t.WellFormed) (h : Regrouped t r moved id u) :
    u.leafList (.region r) = gathered ((u.leafList (.region t.size)).contains ·) (t.leafList (.region r)) := by
  obtain ⟨c, hc⟩ := List.exists_mem_of_ne_nil moved h.allowed.1
  have hne : t.childrenOf r ≠ [] := List.ne_nil_of_mem (h.child_of_mem hc)
  have hne' : u.childrenOf r ≠ [] := List.ne_nil_of_mem ((h.mem_childrenOf_self hw).2 (Or.inl rfl))
  rw [(h.wellFormed hw).leafList_of_ne_nil hne', hw.leafList_of_ne_nil hne, h.childrenOf_self]
  refine flatMap_regrouped (hw.nodup r) h.sub h.allowed.1 (not_child_new hw (.region r)) (h.leafList_new hw) ?_ ?_ ?_
  · exact fun c hc => h.leafList_of_not_covers hw (hw.has_of_mem hc) (not_covers_self (p := .region r) hw hc)
  · exact fun c hc => hw.leafList_ne_nil (hw.has_of_child (h.child_of_mem hc))
  · intro c hc l hl
    rw [Bool.eq_iff_iff, List.contains_iff_mem, List.contains_iff_mem]
    exact h.mem_leafList_new_iff hw hc hl

/-- **Carving out a body gathers its leaves** in every container that leads to it. -/
theorem leafList_eq (hw : t.WellFormed) (h : Regrouped t r moved id u) (hc : t.Has c) (hcov : t.Covers c (.region r)) :
    u.leafList c = gathered ((u.leafList (.region t.size)).contains ·) (t.leafList c) := by
  induction hcov using ReflTransGen.head_induction_on with
  | refl => exact h.leafList_self hw
  | @head c e hce her ih =>
    cases c with
    | block b => exact absurd hce child_block
    | region q =>
      have hqr : q ≠ r := fun hqr => not_covers_self hw hce (hqr ▸ her)
      have hsame : u.childrenOf q = t.childrenOf q := h.childrenOf_of_ne hqr (Nat.ne_of_lt hc)
      have hne : t.childrenOf q ≠ [] := List.ne_nil_of_mem hce
      have hother : ∀ d ∈ t.childrenOf q, d ≠ e → u.leafList d = t.leafList d ∧
          ∀ l ∈ t.leafList d, (u.leafList (.region t.size)).contains l = false := by
        intro d hd hde
        have hnot : ∀ l, t.Covers (.region r) l → ¬ t.Covers d l := fun l hrl hdl =>
          hde (hw.eq_of_covers (p := .region q) hd hce hdl (her.trans hrl))
        refine ⟨h.leafList_of_not_covers hw (hw.has_of_mem hd) (hnot _ ReflTransGen.refl), fun l hl => ?_⟩
        have hdl := hw.covers_of_mem_leafList (hw.has_of_mem hd) hl
        rw [List.contains_eq_mem, decide_eq_false_iff_not, h.leafList_new hw, List.mem_flatMap]
        rintro ⟨m, hm, hlm⟩
        have hml := hw.covers_of_mem_leafList (hw.has_of_child (h.child_of_mem hm)) hlm
        exact hnot l (hml.head (h.child_of_mem hm)) hdl
      obtain ⟨as, bs, he, ha⟩ := List.eq_append_cons_of_mem (child_region.1 hce)
      have hnd := hw.nodup q
      rw [he] at hother hnd
      have hb : e ∉ bs := (List.nodup_cons.1 (List.nodup_append.1 hnd).2.1).1
      have has := fun a hmem => hother a (List.mem_append_left _ hmem) fun hae => ha (hae ▸ hmem)
      have hbs := fun b hmem => hother b (List.mem_append_right _ (List.mem_cons_of_mem _ hmem)) fun hbe => hb (hbe ▸ hmem)
      rw [(h.wellFormed hw).leafList_of_ne_nil (hsame ▸ hne), hw.leafList_of_ne_nil hne, hsame, he, List.flatMap_append,
        List.flatMap_append, List.flatMap_cons, List.flatMap_cons, ih (hw.has_of_child hce),
        List.flatMap_congr fun a hmem => (has a hmem).1, List.flatMap_congr fun b hmem => (hbs b hmem).1,
        gathered_append_left, gathered_append_right]
      · intro l hl
        obtain ⟨b, hmem, hl⟩ := List.mem_flatMap.1 hl
        exact (hbs b hmem).2 l hl
      · intro l hl
        obtain ⟨a, hmem, hl⟩ := List.mem_flatMap.1 hl
        exact (has a hmem).2 l hl

theorem mem_leafList (hw : t.WellFormed) (h : Regrouped t r moved id u) (hc : t.Has c) :
    l ∈ u.leafList c ↔ l ∈ t.leafList c := by
  by_cases hcov : t.Covers c (.region r)
  · rw [h.leafList_eq hw hc hcov]
    exact gathered_perm.mem_iff
  · rw [h.leafList_of_not_covers hw hc hcov]

end RegionTree.Regrouped

/-! ## A run -/

namespace RegionTree

variable {t u : RegionTree} {new : List Nat} {ls : List Container}

/-- What gathering the leaves of some regions, one region after the other, makes of a list of leaves. -/
def gatheredBy (u : RegionTree) (new : List Nat) (ls : List Container) : List Container :=
  new.foldl (fun ls n => gathered ((u.leafList (.region n)).contains ·) ls) ls

theorem gatheredBy_concat (n : Nat) :
    u.gatheredBy (new ++ [n]) ls = gathered ((u.leafList (.region n)).contains ·) (u.gatheredBy new ls) := by
  rw [gatheredBy, List.foldl_append]
  rfl

theorem gatheredBy_congr (h : ∀ n ∈ new, ∀ l, l ∈ u.leafList (.region n) ↔ l ∈ t.leafList (.region n)) :
    u.gatheredBy new ls = t.gatheredBy new ls := by
  induction new generalizing ls with
  | nil => rfl
  | cons n new ih =>
    have hn : ∀ l, (u.leafList (.region n)).contains l = (t.leafList (.region n)).contains l := fun l => by
      rw [Bool.eq_iff_iff, List.contains_iff_mem, List.contains_iff_mem]
      exact h n List.mem_cons_self l
    show u.gatheredBy new (gathered _ ls) = t.gatheredBy new (gathered _ ls)
    rw [ih fun m hm => h m (List.mem_cons_of_mem _ hm), gathered_congr fun l _ => hn l]

theorem gatheredBy_eq_self (hnd : ls.Nodup) (h : ∀ n ∈ new, u.leafList (.region n) <:+: ls) :
    u.gatheredBy new ls = ls := by
  induction new with
  | nil => rfl
  | cons n new ih =>
    show u.gatheredBy new (gathered _ ls) = ls
    rw [gathered_eq_self hnd (h n List.mem_cons_self)]
    exact ih fun m hm => h m (List.mem_cons_of_mem _ hm)

end RegionTree

namespace Progress

variable {g : Graph} {doms : Dominance} {tryBlocks : List TryBlock} {r : Nat} {x y : Progress}

/-- What has come of the leaves of the root of a tree since: they were gathered once for each region that is new. -/
structure Sequenced (t : RegionTree) (x : Progress) : Prop where
  wellFormed : x.tree.WellFormed
  root : x.tree.root = t.root
  size_le : t.size ≤ x.tree.size
  leafList_eq : x.tree.leafList (.region x.tree.root) =
    x.tree.gatheredBy (List.range' t.size (x.tree.size - t.size)) (t.leafList (.region t.root))

theorem Sequenced.start (hw : x.tree.WellFormed) : Sequenced x.tree x where
  wellFormed := hw
  root := rfl
  size_le := Nat.le_refl _
  leafList_eq := by rw [Nat.sub_self]; rfl

theorem Sequenced.step {t : RegionTree} (hx : Sequenced t x) (h : Step g doms tryBlocks r x y) : Sequenced t y := by
  cases h with
  | idle => exact hx
  | gaveUp => exact ⟨hx.wellFormed, hx.root, hx.size_le, hx.leafList_eq⟩
  | @wrapped e tb u hfirst hknown hre =>
    have hw := hx.wellFormed
    have hsize : u.size - t.size = x.tree.size - t.size + 1 := by
      have := hx.size_le
      rw [hre.size]
      omega
    have hlast : t.size + (x.tree.size - t.size) = x.tree.size := Nat.add_sub_cancel' hx.size_le
    have hbefore : u.gatheredBy (List.range' t.size (x.tree.size - t.size)) (t.leafList (.region t.root)) =
        x.tree.gatheredBy (List.range' t.size (x.tree.size - t.size)) (t.leafList (.region t.root)) := by
      apply RegionTree.gatheredBy_congr
      intro n hn l
      have hn := (List.mem_range'_1.1 hn).2
      rw [hlast] at hn
      exact hre.mem_leafList hw hn
    refine ⟨hre.wellFormed hw, hre.root.trans hx.root, ?_, ?_⟩
    · exact Nat.le_trans hx.size_le (hre.size ▸ Nat.le_succ _)
    · show u.leafList (.region u.root) = u.gatheredBy (List.range' t.size (u.size - t.size)) _
      rw [hsize, List.range'_1_concat, hlast, RegionTree.gatheredBy_concat, hbefore, ← hx.leafList_eq, hre.root]
      exact hre.leafList_eq hw hw.has_root (hw.reached r hre.lt)

theorem Steps.sequenced (h : Steps g doms tryBlocks x y) (hw : x.tree.WellFormed) : Sequenced x.tree y :=
  h.preserve (fun _ _ _ ha hab => ha.step hab) (.start hw)

/-- **The leaves keep their order** if and only if those of each new region stood together, in the order that they have. -/
theorem Sequenced.leafList_eq_iff {t : RegionTree} (h : Sequenced t x) (hw : t.WellFormed) :
    x.tree.leafList (.region x.tree.root) = t.leafList (.region t.root) ↔
      ∀ n, t.size ≤ n → n < x.tree.size → x.tree.leafList (.region n) <:+: t.leafList (.region t.root) := by
  constructor
  · intro he n _ hlt
    rw [← he]
    exact h.wellFormed.leafList_infix (h.wellFormed.reached n hlt)
  · intro hall
    rw [h.leafList_eq]
    refine RegionTree.gatheredBy_eq_self (hw.nodup_leafList hw.has_root) fun n hn => ?_
    obtain ⟨hle, hlt⟩ := List.mem_range'_1.1 hn
    exact hall n hle (by have := h.size_le; omega)

end Progress

end GuardedRegions
