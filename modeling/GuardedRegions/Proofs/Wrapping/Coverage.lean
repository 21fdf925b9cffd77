import GuardedRegions.Proofs.Flow.Dominance
import GuardedRegions.Proofs.Wrapping.Bodies
import GuardedRegions.Proofs.Wrapping.Ledger
import GuardedRegions.Proofs.Wrapping.Limit
import GuardedRegions.Proofs.Wrapping.Order
import GuardedRegions.Proofs.Wrapping.Search

/-!
# What a body comes to hold

A try-block collects its body among the siblings of the block where it begins: `RegionTree.Collects` says of a block that it is
among what would be collected from a tree as it is. While the try-block waits, other bodies are carved out of the same tree.
Such a carving can part the block from the beginning, if it takes one of them and leaves the other, and then it belongs to a
try-block that begins at a strict dominator of the beginning; in all other cases the block is still among what would be
collected (`Regrouped.collects_or_parted`). For what begins at the one block and what begins at the other both dominate what is
taken, so that one of them dominates the other, and what is dominated from further down is collected as a whole.
-/

namespace GuardedRegions

open Relation

theorem mem_takeWhile_filter_iff {α : Type} {p q : α → Bool} {xs : List α} (hnd : xs.Nodup) {c : α} :
    c ∈ (xs.filter p).takeWhile q ↔
      c ∈ xs ∧ p c = true ∧ q c = true ∧ ∀ e, [e, c].Sublist xs → p e = true → q e = true := by
  induction xs with
  | nil => simp
  | cons x xs ih =>
    obtain ⟨hx, hxs⟩ := List.nodup_cons.1 hnd
    have ih := ih hxs
    have hpair : ∀ e, [e, c].Sublist (x :: xs) ↔ [e, c].Sublist xs ∨ e = x ∧ c ∈ xs := by
      intro e
      rw [List.sublist_cons_iff]
      simp
    have hback : ∀ e, [e, c].Sublist xs → c ∈ xs := fun e h => h.subset (by simp)
    simp only [hpair, List.mem_cons]
    cases hp : p x with
    | false =>
      rw [List.filter_cons_of_neg (by simp [hp]), ih]
      grind
    | true =>
      rw [List.filter_cons_of_pos hp, List.takeWhile_cons]
      cases hq : q x <;> grind

namespace RegionTree

variable {t u : RegionTree} {g : Graph} {doms : Dominance} {tryBlock : TryBlock} {d d' b r q id : Nat} {c : Container}
  {moved : List Container}

/-- A child is in the body if the beginning dominates it, and neither the child nor a dominated one in front of it is on a
handler path. -/
theorem WellFormed.mem_bodyOf_iff (hw : t.WellFormed) :
    c ∈ t.bodyOf g doms tryBlock d r ↔ c ∈ t.childrenOf r ∧ t.dominated doms d c = true ∧
      t.handled g doms tryBlock c = false ∧
      ∀ e, [e, c].Sublist (t.childrenOf r) → t.dominated doms d e = true → t.handled g doms tryBlock e = false := by
  rw [bodyOf, mem_takeWhile_filter_iff (hw.nodup r)]
  simp

theorem dominated_of_dominates (hdoms : g.dominance = .ok doms) (hdd' : doms.dominates d d' = true)
    (h : t.dominated doms d' c = true) : t.dominated doms d c = true := by
  rw [dominated_iff] at h ⊢
  intro b hb
  right
  rcases h b hb with rfl | hd'b
  · exact hdd'
  · exact Dominance.dominates_trans hdoms hdd' hd'b

/-- The body that a try-block with its beginning at `d` would have in the tree as it is has the block `b` in it. -/
def Collects (t : RegionTree) (g : Graph) (doms : Dominance) (tryBlock : TryBlock) (d b : Nat) : Prop :=
  ∃ r, .block d ∈ t.childrenOf r ∧ ∃ c ∈ t.bodyOf g doms tryBlock d r, t.Covers c (.block b)

namespace Regrouped

theorem unhandled_of_dominated (hw : t.WellFormed) (h : Regrouped t r moved id u) (hc : t.Has c)
    (hno : t.dominated doms d c = true → t.handled g doms tryBlock c = false) (hdom : u.dominated doms d c = true) :
    u.handled g doms tryBlock c = false := by
  rw [h.dominated_eq hw hc] at hdom
  rw [h.handled_eq hw hc]
  exact hno hdom

/-- What a sibling of the moved ones covers is below the new region if and only if the sibling moved. -/
theorem encloses_new_iff_mem (hw : t.WellFormed) (h : Regrouped t r moved id u) (hc : c ∈ t.childrenOf r)
    (hcov : t.Covers c (.block b)) : u.Encloses (.region t.size) (.block b) ↔ c ∈ moved := by
  rw [h.encloses_new_iff hw (by simp)]
  constructor
  · rintro ⟨e, he, heb⟩
    rwa [hw.eq_of_covers (p := .region r) hc (h.child_of_mem he) hcov heb]
  · exact fun hm => ⟨c, hm, hcov⟩

/-- A child that stays is still collected: in front of it there is no more than there was. -/
theorem mem_bodyOf_of_stays (hw : t.WellFormed) (h : Regrouped t r moved id u) (hm : c ∉ moved)
    (hc : c ∈ t.bodyOf g doms tryBlock d r) : c ∈ u.bodyOf g doms tryBlock d r := by
  obtain ⟨hmem, hdom, hno, hfront⟩ := hw.mem_bodyOf_iff.1 hc
  have hhas := hw.has_of_mem hmem
  rw [(h.wellFormed hw).mem_bodyOf_iff, h.dominated_eq hw hhas, h.handled_eq hw hhas]
  refine ⟨(h.mem_childrenOf_self hw).2 (Or.inr ⟨hmem, hm⟩), hdom, hno, fun e hpair he => ?_⟩
  rcases h.pair_sublist_self hw (ne_new_of_has hhas) hpair with ⟨-, hpair⟩ | ⟨rfl, first, hfirst, hpair⟩
  · exact h.unhandled_of_dominated hw (hw.has_of_mem (hpair.subset List.mem_cons_self)) (hfront e hpair) he
  · exact h.unhandled_new hw hfirst (hfront first hpair (h.dominated_of_new hw he hfirst))

theorem mem_bodyOf_of_sublist (hw : t.WellFormed) (h : Regrouped t r moved id u) {q' : Nat}
    (hsub : (u.childrenOf q').Sublist (t.childrenOf q)) (hm : c ∈ u.childrenOf q')
    (hc : c ∈ t.bodyOf g doms tryBlock d q) : c ∈ u.bodyOf g doms tryBlock d q' := by
  obtain ⟨hmem, hdom, hno, hfront⟩ := hw.mem_bodyOf_iff.1 hc
  have hhas := hw.has_of_mem hmem
  rw [(h.wellFormed hw).mem_bodyOf_iff, h.dominated_eq hw hhas, h.handled_eq hw hhas]
  refine ⟨hm, hdom, hno, fun e hpair he => ?_⟩
  have hpair' := hpair.trans hsub
  exact h.unhandled_of_dominated hw (hw.has_of_mem (hpair'.subset List.mem_cons_self)) (hfront e hpair') he

theorem new_mem_bodyOf (hw : t.WellFormed) (h : Regrouped t r moved id u) (hm : c ∈ moved)
    (hc : c ∈ t.bodyOf g doms tryBlock d r) (hall : ∀ e ∈ moved, t.dominated doms d e = true) :
    .region t.size ∈ u.bodyOf g doms tryBlock d r := by
  obtain ⟨-, -, hno, hfront⟩ := hw.mem_bodyOf_iff.1 hc
  rw [(h.wellFormed hw).mem_bodyOf_iff]
  refine ⟨(h.mem_childrenOf_self hw).2 (Or.inl rfl), ?_, h.unhandled_new hw hm hno, fun e hpair he => ?_⟩
  · rw [dominated_iff]
    intro b hb
    obtain ⟨e, he, hbe⟩ := (h.mem_blockList_new hw).1 hb
    exact dominated_iff.1 (hall e he) b hbe
  · have hpair' := h.pair_sublist_new hw hm hpair
    exact h.unhandled_of_dominated hw (hw.has_of_mem (hpair'.subset List.mem_cons_self)) (hfront e hpair') he

/-- **A carving leaves a block among what is collected, or it parts it from the beginning**, and then it was made for a
try-block that begins at a strict dominator of the beginning. -/
theorem collects_or_parted (hw : t.WellFormed) (h : Regrouped t r moved id u) (hdoms : g.dominance = .ok doms)
    (hmoved : ∀ c ∈ moved, t.dominated doms d' c = true) (hne : d' ≠ d) (hcol : t.Collects g doms tryBlock d b) :
    u.Collects g doms tryBlock d b ∨ doms.dominates d' d = true ∧
      (u.Encloses (.region t.size) (.block d) ↔ ¬ u.Encloses (.region t.size) (.block b)) := by
  obtain ⟨q, hd, c, hc, hcov⟩ := hcol
  have hmem : c ∈ t.childrenOf q := bodyOf_sublist.subset hc
  have hcov' : u.Covers c (.block b) := h.covers_of_covers hw hcov
  by_cases hqr : q = r
  · subst hqr
    have hbnew := h.encloses_new_iff_mem hw hmem hcov
    have hdnew := h.encloses_new_iff_mem hw hd (ReflTransGen.refl (a := Container.block d))
    by_cases hdm : .block d ∈ moved <;> by_cases hcm : c ∈ moved
    · -- both moved
      have hnew := h.childrenOf_new
      refine Or.inl ⟨t.size, by rwa [hnew], c, ?_, hcov'⟩
      exact h.mem_bodyOf_of_sublist hw (hnew ▸ h.sub) (hnew ▸ hcm) hc
    · -- the beginning was taken away
      refine Or.inr ⟨?_, by simp [hbnew, hdnew, hdm, hcm]⟩
      exact (dominated_iff.1 (hmoved _ hdm) d (by simp)).resolve_left hne.symm
    · -- the block was taken away, alone or with all that belongs to the beginning
      have hbd : b ≠ d := by
        rintro rfl
        rw [hw.eq_of_covers (p := .region q) hmem hd hcov ReflTransGen.refl] at hcm
        exact hdm hcm
      have hbc : b ∈ t.blockList c := (hw.mem_blockList (hw.has_of_mem hmem)).2 hcov
      have hdb := (dominated_iff.1 (dominated_of_mem_bodyOf hc) b hbc).resolve_left hbd
      have hchain : doms.dominates d d' = true ∨ doms.dominates d' d = true := by
        rcases dominated_iff.1 (hmoved c hcm) b hbc with rfl | hd'b
        · exact Or.inl hdb
        · exact Dominance.dominates_total hdoms hdb hd'b
      rcases hchain with hdd' | hd'd
      · have hall : ∀ e ∈ moved, t.dominated doms d e = true := fun e he =>
          dominated_of_dominates hdoms hdd' (hmoved e he)
        refine Or.inl ⟨q, (h.mem_childrenOf_self hw).2 (Or.inr ⟨hd, hdm⟩), _, h.new_mem_bodyOf hw hcm hc hall, ?_⟩
        exact (hbnew.2 hcm).to_reflTransGen
      · exact Or.inr ⟨hd'd, by simp [hbnew, hdnew, hdm, hcm]⟩
    · -- neither moved
      exact Or.inl ⟨q, (h.mem_childrenOf_self hw).2 (Or.inr ⟨hd, hdm⟩), c, h.mem_bodyOf_of_stays hw hcm hc, hcov'⟩
  · -- the region is another one, with the children that it had
    have hsame := h.childrenOf_of_ne hqr (Nat.ne_of_lt (lt_size_of_mem hd))
    refine Or.inl ⟨q, by rwa [hsame], c, ?_, hcov'⟩
    exact h.mem_bodyOf_of_sublist hw (hsame ▸ List.Sublist.refl _) (hsame ▸ hmem) hc

theorem gained_iff {s : RegionTree} (h : Regrouped t r moved id u) (hle : s.size ≤ t.size) {i n : Nat} :
    s.Gained u i n ↔ s.Gained t i n ∨ n = t.size ∧ i = id := by
  unfold Gained
  rw [← getElem?_tags_eq_some_iff, ← getElem?_tags_eq_some_iff, h.tags_eq, List.getElem?_append, length_tags]
  split
  · rename_i hlt
    have : n ≠ t.size := Nat.ne_of_lt hlt
    simp [this]
  · rename_i hge
    have hnone : t.tags[n]? = none := List.getElem?_eq_none (by simpa using hge)
    rw [hnone, List.getElem?_singleton]
    grind

end Regrouped

end RegionTree

/-! ## A run -/

theorem RegionTree.Gained.lt {t u : RegionTree} {id n : Nat} (h : t.Gained u id n) : n < u.size := by
  obtain ⟨-, region, hr, -⟩ := h
  exact lt_size_of_get? hr

theorem RegionTree.Extends.gained_of_tag {t u : RegionTree} {region : Region} {id n : Nat} (h : t.Extends u)
    (hnone : ∀ id, some id ∉ t.tags) (hr : u.get? n = some region) (htag : region.tryBlock = some id) :
    t.Gained u id n := by
  refine ⟨?_, region, hr, htag⟩
  by_contra hlt
  obtain ⟨old, hold⟩ := lt_size_iff.1 (Nat.not_le.1 hlt)
  obtain ⟨region', hr', -, htag'⟩ := h.kept n old hold
  obtain rfl := Option.some.inj (hr'.symm.trans hr)
  exact hnone id (List.mem_of_getElem? (getElem?_tags_eq_some_iff.2 ⟨old, hold, htag'.symm.trans htag⟩))

/-- A region that is new since the start was made for a try-block that begins at a strict dominator of `d`, and holds just one
of `d` and `b`. -/
def Method.Parted (m : Method) (doms : Dominance) (d b : Nat) (t : RegionTree) : Prop :=
  ∃ n id d', m.tree.Gained t id n ∧ m.beginning? doms id = some d' ∧ d' ≠ d ∧ doms.dominates d' d = true ∧
    (t.Encloses (.region n) (.block d) ↔ ¬ t.Encloses (.region n) (.block b))

theorem Method.Parted.mono {m : Method} {doms : Dominance} {d b : Nat} {t u : RegionTree} (h : m.Parted doms d b t)
    (htu : t.Extends u) : m.Parted doms d b u := by
  obtain ⟨n, id, d', ⟨hn, region, hr, htag⟩, hbegins, hne, hdom, hparted⟩ := h
  have hhas : t.Has (.region n) := RegionTree.lt_size_of_get? hr
  obtain ⟨region', hr', -, htag'⟩ := htu.kept n region hr
  refine ⟨n, id, d', ⟨hn, region', hr', htag'.trans htag⟩, hbegins, hne, hdom, ?_⟩
  rw [htu.encloses_iff _ _ hhas RegionTree.has_block, htu.encloses_iff _ _ hhas RegionTree.has_block]
  exact hparted

namespace Progress

variable {m : Method} {doms : Dominance} {pending : Pending} {tryBlock : TryBlock} {d b r : Nat} {x y : Progress}

/-- What a run has made of a block that a try-block would have collected at its start. -/
structure Follows (m : Method) (doms : Dominance) (pending : Pending) (tryBlock : TryBlock) (d b : Nat) (x : Progress) :
    Prop where
  grown : m.tree.Extends x.tree
  known : x.pending.entries ⊆ pending.entries
  covered : m.Parted doms d b x.tree ∨
    (∀ n, m.tree.Gained x.tree tryBlock.id n → x.tree.Encloses (.region n) (.block b)) ∧
      ((d, tryBlock.id) ∈ x.pending.entries → x.tree.Collects m.graph doms tryBlock d b)

theorem Follows.start (hw : m.tree.WellFormed) (hcol : m.tree.Collects m.graph doms tryBlock d b) :
    Follows m doms pending tryBlock d b { tree := m.tree, pending } where
  grown := .refl hw
  known := fun _ he => he
  covered := Or.inr ⟨fun _ hn => absurd hn.lt (Nat.not_lt.2 hn.1), fun _ => hcol⟩

theorem Follows.step (hx : Follows m doms pending tryBlock d b x) (hdoms : m.graph.dominance = .ok doms)
    (hbegins : ∀ e ∈ pending.entries, m.beginning? doms e.2 = some e.1) (htb : m.tryBlock? tryBlock.id = some tryBlock)
    (hd : m.beginning? doms tryBlock.id = some d) (h : Step m.graph doms m.tryBlocks r x y) :
    Follows m doms pending tryBlock d b y := by
  have hw := hx.grown.wellFormed
  have hgrown : x.tree.Extends y.tree := h.extends hw
  have hknown : y.pending.entries ⊆ pending.entries := fun e he => hx.known (h.pending_sublist.subset he)
  refine ⟨hx.grown.trans hgrown, hknown, ?_⟩
  obtain hparted | ⟨hall, hcol⟩ := hx.covered
  · exact Or.inl (hparted.mono hgrown)
  · cases h with
    | idle => exact Or.inr ⟨hall, hcol⟩
    | gaveUp => exact Or.inr ⟨hall, fun he => hcol (List.mem_of_mem_filter he)⟩
    | @wrapped e tb u hfirst hfound hre =>
      have hmem := Pending.mem_of_first? hfirst
      have hid : tb.id = e.2 := by simpa using List.find?_some hfound
      have hbegin := hbegins e (hx.known hmem)
      have hgained := fun n => hre.gained_iff hx.grown.size_le (i := tryBlock.id) (n := n)
      have hall' : (tryBlock.id = tb.id → u.Encloses (.region x.tree.size) (.block b)) →
          ∀ n, m.tree.Gained u tryBlock.id n → u.Encloses (.region n) (.block b) := by
        intro hnew n hn
        rcases (hgained n).1 hn with hold | ⟨rfl, hown⟩
        · have hhas : x.tree.Has (.region n) := hold.lt
          exact (hgrown.encloses_iff _ _ hhas RegionTree.has_block).2 (hall n hold)
        · exact hnew hown
      by_cases hown : e.2 = tryBlock.id
      · -- the try-block has come to its own body
        obtain rfl : tb = tryBlock := Option.some.inj (hfound.symm.trans (hown ▸ htb))
        obtain rfl : e.1 = d := Option.some.inj (hbegin.symm.trans (hown ▸ hd))
        refine Or.inr ⟨hall' fun _ => ?_, fun he => ?_⟩
        · obtain ⟨q, hq, c, hc, hcov⟩ := hcol (hown ▸ hmem)
          have hqr := hw.parent_unique (.region q) (.region r) _ hq (Pending.child_of_first? hfirst)
          obtain rfl := Container.region.inj hqr
          exact (hre.encloses_new_iff hw (by simp)).2 ⟨c, hc, hcov⟩
        · have := (List.mem_filter.1 he).2
          simp at this
      · have hother : ∀ n, m.tree.Gained u tryBlock.id n → u.Encloses (.region n) (.block b) :=
          hall' fun heq => absurd (hid ▸ heq.symm) hown
        by_cases hwaits : (d, tryBlock.id) ∈ x.pending.entries
        · -- another one has come to its body while the try-block waits
          have hne : e.1 ≠ d := fun heq => hown (congrArg Prod.snd (Pending.eq_of_fst_eq hmem hwaits heq))
          rcases hre.collects_or_parted hw hdoms (fun c hc => RegionTree.dominated_of_mem_bodyOf hc) hne (hcol hwaits) with
            hcol' | ⟨hdom, hparted⟩
          · exact Or.inr ⟨hother, fun _ => hcol'⟩
          · refine Or.inl ⟨x.tree.size, e.2, e.1, ?_, hbegin, hne, hdom, hparted⟩
            exact (hre.gained_iff hx.grown.size_le).2 (Or.inr ⟨rfl, hid.symm⟩)
        · exact Or.inr ⟨hother, fun he => absurd (List.mem_of_mem_filter he) hwaits⟩

end Progress

end GuardedRegions
