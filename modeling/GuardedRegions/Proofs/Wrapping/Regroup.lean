import GuardedRegions.Proofs.Wrapping.Carve

/-!
# What regrouping keeps

A regrouping puts a new region between a region and some of its children. The arena stays a tree
(`Regrouped.wellFormed`), what lies below what stays the same for all that was there before
(`Regrouped.encloses_iff`, `Regrouped.mem_blockList`), so that it is dominated and handled as before, and the new region covers
what the children that moved into it covered before (`Regrouped.covers_new_iff`).
-/

namespace GuardedRegions.RegionTree.Regrouped

open Relation

variable {t u : RegionTree} {r id : Nat} {moved : List Container}

/-! ## Children -/

theorem get?_kept (h : Regrouped t r moved id u) {i : Nat} {region : Region} (hi : t.get? i = some region) :
    ∃ region', u.get? i = some region' ∧ region'.kind = region.kind ∧ region'.tryBlock = region.tryBlock := by
  rw [h.get?_old i (lt_size_of_get? hi), hi]
  exact ⟨_, rfl, rfl, rfl⟩

theorem childrenOf_new (h : Regrouped t r moved id u) : u.childrenOf t.size = moved :=
  childrenOf_eq h.get?_new

theorem childrenOf_self (h : Regrouped t r moved id u) :
    u.childrenOf r = regrouped moved t.size (t.childrenOf r) := by
  obtain ⟨region, hr⟩ := lt_size_iff.1 h.lt
  have hu := h.get?_old r h.lt
  rw [hr, Option.map_some, if_pos rfl] at hu
  rw [childrenOf_eq hu, childrenOf_eq hr]

theorem childrenOf_of_ne (h : Regrouped t r moved id u) {i : Nat} (hir : i ≠ r) (hin : i ≠ t.size) :
    u.childrenOf i = t.childrenOf i := by
  by_cases hi : i < t.size
  · obtain ⟨region, hr⟩ := lt_size_iff.1 hi
    have hu := h.get?_old i hi
    rw [hr, Option.map_some, if_neg hir] at hu
    rw [childrenOf_eq hu, childrenOf_eq hr]
  · have ht : t.get? i = none := get?_eq_none_iff.2 (by omega)
    have hu : u.get? i = none := get?_eq_none_iff.2 (by rw [h.size]; omega)
    rw [childrenOf, childrenOf, ht, hu]

theorem not_child_new (hw : t.WellFormed) (p : Container) : ¬ t.Child p (.region t.size) :=
  fun hn => Nat.lt_irrefl _ (hw.has_of_child hn)

theorem child_of_mem (h : Regrouped t r moved id u) {c : Container} (hc : c ∈ moved) : t.Child (.region r) c :=
  h.sub.subset hc

theorem new_not_mem (hw : t.WellFormed) (h : Regrouped t r moved id u) : .region t.size ∉ moved :=
  fun hm => not_child_new hw _ (h.child_of_mem hm)

theorem mem_childrenOf_self (hw : t.WellFormed) (h : Regrouped t r moved id u) {c : Container} :
    c ∈ u.childrenOf r ↔ c = .region t.size ∨ c ∈ t.childrenOf r ∧ c ∉ moved := by
  rw [h.childrenOf_self]
  exact mem_regrouped (hw.nodup r) h.sub h.allowed.1 (not_child_new hw (.region r))

theorem child_iff (hw : t.WellFormed) (h : Regrouped t r moved id u) {p c : Container} :
    u.Child p c ↔ p = .region t.size ∧ c ∈ moved ∨ p = .region r ∧ c = .region t.size ∨ t.Child p c ∧ c ∉ moved := by
  cases p with
  | block b => simp
  | region i =>
    rw [child_region, child_region, Container.region.injEq, Container.region.injEq]
    by_cases hin : i = t.size
    · subst hin
      have hne : t.size ≠ r := Nat.ne_of_gt h.lt
      have hno : c ∉ t.childrenOf t.size := fun hc => Nat.lt_irrefl _ (lt_size_of_mem hc)
      rw [h.childrenOf_new]
      simp [hne, hno]
    · by_cases hir : i = r
      · subst hir
        rw [h.mem_childrenOf_self hw]
        simp [hin]
      · have hmoved : c ∈ t.childrenOf i → c ∉ moved := by
          intro hc hm
          have := hw.parent_unique (.region i) (.region r) c hc (h.child_of_mem hm)
          exact hir (Container.region.inj this)
        rw [h.childrenOf_of_ne hir hin]
        simp only [hin, hir, false_and, false_or]
        exact ⟨fun hc => ⟨hc, hmoved hc⟩, And.left⟩

/-! ## The tree -/

theorem encloses_of_child (hw : t.WellFormed) (h : Regrouped t r moved id u) {p c : Container} (hc : t.Child p c) :
    u.Encloses p c := by
  by_cases hm : c ∈ moved
  · rw [hw.parent_unique _ _ _ hc (h.child_of_mem hm)]
    have hrn : u.Child (.region r) (.region t.size) := (h.child_iff hw).2 (Or.inr (Or.inl ⟨rfl, rfl⟩))
    exact TransGen.head hrn (TransGen.single ((h.child_iff hw).2 (Or.inl ⟨rfl, hm⟩)))
  · exact TransGen.single ((h.child_iff hw).2 (Or.inr (Or.inr ⟨hc, hm⟩)))

theorem encloses_of_encloses (hw : t.WellFormed) (h : Regrouped t r moved id u) {p c : Container}
    (hc : t.Encloses p c) : u.Encloses p c := by
  induction hc with
  | single hc => exact h.encloses_of_child hw hc
  | tail _ hc ih => exact ih.trans (h.encloses_of_child hw hc)

theorem covers_of_covers (hw : t.WellFormed) (h : Regrouped t r moved id u) {p c : Container} (hc : t.Covers p c) :
    u.Covers p c := by
  rcases covers_iff.1 hc with rfl | hc
  · exact ReflTransGen.refl
  · exact (h.encloses_of_encloses hw hc).to_reflTransGen

theorem root_parent (hw : t.WellFormed) (h : Regrouped t r moved id u) :
    ∃ root, u.get? u.root = some root ∧ root.parent = none := by
  obtain ⟨root, hr, hn⟩ := hw.root_parent
  have hmoved : .region t.root ∉ moved := fun hm => hw.not_child_root _ (h.child_of_mem hm)
  have hu := h.get?_old t.root hw.root_lt
  rw [hr, Option.map_some, if_neg hmoved] at hu
  rw [h.root]
  exact ⟨_, hu, hn⟩

theorem child_parent (hw : t.WellFormed) (h : Regrouped t r moved id u) (p c : Nat) (hc : .region c ∈ u.childrenOf p) :
    ∃ region, u.get? c = some region ∧ region.parent = some p := by
  rcases (h.child_iff hw (p := .region p)).1 hc with ⟨hp, hm⟩ | ⟨hp, hn⟩ | ⟨hc, hm⟩
  · obtain ⟨region, hr⟩ := lt_size_iff.1 (hw.has_of_child (h.child_of_mem hm))
    have hu := h.get?_old c (lt_size_of_get? hr)
    rw [hr, Option.map_some, if_pos hm] at hu
    exact ⟨_, hu, by rw [Container.region.inj hp]⟩
  · rw [Container.region.inj hn, Container.region.inj hp]
    exact ⟨_, h.get?_new, rfl⟩
  · obtain ⟨region, hr, hp⟩ := hw.child_parent p c hc
    have hu := h.get?_old c (lt_size_of_get? hr)
    rw [hr, Option.map_some, if_neg hm] at hu
    exact ⟨_, hu, hp⟩

theorem nodup (hw : t.WellFormed) (h : Regrouped t r moved id u) (i : Nat) : (u.childrenOf i).Nodup := by
  by_cases hin : i = t.size
  · rw [hin, h.childrenOf_new]
    exact (hw.nodup r).sublist h.sub
  · by_cases hir : i = r
    · rw [hir, h.childrenOf_self]
      exact nodup_regrouped (hw.nodup r) h.sub h.allowed.1 (not_child_new hw (.region r))
    · rw [h.childrenOf_of_ne hir hin]
      exact hw.nodup i

theorem parent_unique (hw : t.WellFormed) (h : Regrouped t r moved id u) (p q c : Container) (hp : u.Child p c)
    (hq : u.Child q c) : p = q := by
  have hnm := h.new_not_mem hw
  rcases (h.child_iff hw).1 hp with ⟨rfl, hpm⟩ | ⟨rfl, rfl⟩ | ⟨hpc, hpm⟩ <;>
    rcases (h.child_iff hw).1 hq with ⟨rfl, hqm⟩ | ⟨rfl, hqn⟩ | ⟨hqc, hqm⟩
  · rfl
  · exact absurd (hqn ▸ hpm) hnm
  · exact absurd hpm hqm
  · exact absurd hqm hnm
  · rfl
  · exact absurd hqc (not_child_new hw _)
  · exact absurd hqm hpm
  · exact absurd (hqn ▸ hpc) (not_child_new hw _)
  · exact hw.parent_unique p q c hpc hqc

theorem reached (hw : t.WellFormed) (h : Regrouped t r moved id u) (i : Nat) (hi : i < u.size) :
    u.Covers (.region u.root) (.region i) := by
  rw [h.root]
  by_cases hin : i = t.size
  · have hr := h.covers_of_covers hw (hw.reached r h.lt)
    rw [hin]
    exact hr.tail ((h.child_iff hw).2 (Or.inr (Or.inl ⟨rfl, rfl⟩)))
  · rw [h.size] at hi
    exact h.covers_of_covers hw (hw.reached i (by omega))

/-- **The arena is a tree again.** -/
theorem wellFormed (hw : t.WellFormed) (h : Regrouped t r moved id u) : u.WellFormed where
  root_parent := h.root_parent hw
  child_parent := h.child_parent hw
  nodup := h.nodup hw
  parent_unique := h.parent_unique hw
  reached := h.reached hw

/-! ## What lies below what -/

/-- With the new region seen as the one that it was carved out of, no way down is new. -/
theorem covers_fold (hw : t.WellFormed) (h : Regrouped t r moved id u) {p c : Container} (hc : u.Covers p c)
    (hp : p ≠ .region t.size) : t.Covers p (if c = .region t.size then .region r else c) := by
  -- only the edge from the region to the new one is no edge of the old tree, and folding makes both its ends one
  induction hc with
  | refl => rw [if_neg hp]
  | @tail d c _ hdc ih =>
    rcases (h.child_iff hw).1 hdc with ⟨rfl, hm⟩ | ⟨rfl, rfl⟩ | ⟨hdc, hm⟩
    · have hcn : c ≠ .region t.size := fun hn => h.new_not_mem hw (hn ▸ hm)
      rw [if_pos rfl] at ih
      rw [if_neg hcn]
      exact ih.tail (h.child_of_mem hm)
    · have hrn : (.region r : Container) ≠ .region t.size := by simpa using Nat.ne_of_lt h.lt
      rw [if_neg hrn] at ih
      rwa [if_pos rfl]
    · have hcn : c ≠ .region t.size := fun hn => not_child_new hw d (hn ▸ hdc)
      have hdn : d ≠ .region t.size := fun hn => by
        subst hn
        exact Nat.lt_irrefl _ (lt_size_of_mem hdc)
      rw [if_neg hdn] at ih
      rw [if_neg hcn]
      exact ih.tail hdc

theorem covers_iff (hw : t.WellFormed) (h : Regrouped t r moved id u) {p c : Container} (hp : p ≠ .region t.size)
    (hc : c ≠ .region t.size) : u.Covers p c ↔ t.Covers p c := by
  constructor
  · intro hpc
    have := h.covers_fold hw hpc hp
    rwa [if_neg hc] at this
  · exact h.covers_of_covers hw

/-- **Among the containers that were there before, the same lie below the same.** -/
theorem encloses_iff (hw : t.WellFormed) (h : Regrouped t r moved id u) {p c : Container} (hp : p ≠ .region t.size)
    (hc : c ≠ .region t.size) : u.Encloses p c ↔ t.Encloses p c := by
  constructor
  · intro hpc
    rcases RegionTree.covers_iff.1 ((h.covers_iff hw hp hc).1 hpc.to_reflTransGen) with rfl | ht
    · exact absurd hpc ((h.wellFormed hw).not_encloses_self _)
    · exact ht
  · exact h.encloses_of_encloses hw

theorem encloses_new_iff (hw : t.WellFormed) (h : Regrouped t r moved id u) {c : Container}
    (hc : c ≠ .region t.size) : u.Encloses (.region t.size) c ↔ ∃ d ∈ moved, t.Covers d c := by
  rw [RegionTree.encloses_iff]
  refine exists_congr fun d => ?_
  rw [child_region, h.childrenOf_new]
  refine and_congr_right fun hd => ?_
  exact h.covers_iff hw (fun hn => h.new_not_mem hw (hn ▸ hd)) hc

theorem covers_new_iff (hw : t.WellFormed) (h : Regrouped t r moved id u) {c : Container}
    (hc : c ≠ .region t.size) : u.Covers (.region t.size) c ↔ ∃ d ∈ moved, t.Covers d c := by
  rw [RegionTree.covers_iff, h.encloses_new_iff hw hc]
  simp [hc]

/-! ## Blocks -/

theorem ne_new_of_has {c : Container} (hc : t.Has c) : c ≠ .region t.size := by
  rintro rfl
  exact Nat.lt_irrefl _ hc

theorem has (h : Regrouped t r moved id u) {c : Container} (hc : t.Has c) : u.Has c := by
  cases c with
  | block b => trivial
  | region q =>
    rw [has_region] at hc ⊢
    rw [h.size]
    omega

theorem has_new (h : Regrouped t r moved id u) : u.Has (.region t.size) := by
  rw [has_region, h.size]
  exact Nat.lt_succ_self _

theorem mem_blockList (hw : t.WellFormed) (h : Regrouped t r moved id u) {c : Container} (hc : t.Has c) {b : Nat} :
    b ∈ u.blockList c ↔ b ∈ t.blockList c := by
  rw [(h.wellFormed hw).mem_blockList (h.has hc), hw.mem_blockList hc]
  exact h.covers_iff hw (ne_new_of_has hc) (by simp)

theorem mem_blockList_new (hw : t.WellFormed) (h : Regrouped t r moved id u) {b : Nat} :
    b ∈ u.blockList (.region t.size) ↔ ∃ d ∈ moved, b ∈ t.blockList d := by
  rw [(h.wellFormed hw).mem_blockList h.has_new, h.covers_new_iff hw (by simp)]
  refine exists_congr fun d => and_congr_right fun hd => ?_
  exact (hw.mem_blockList (hw.has_of_child (h.child_of_mem hd))).symm

/-! ## Questions about blocks -/

section

variable {g : Graph} {doms : Dominance} {tryBlock : TryBlock} {d : Nat} {c : Container}

theorem dominated_eq (hw : t.WellFormed) (h : Regrouped t r moved id u) (hc : t.Has c) :
    u.dominated doms d c = t.dominated doms d c := by
  rw [Bool.eq_iff_iff, dominated_iff, dominated_iff]
  simp only [h.mem_blockList hw hc]

theorem handled_eq (hw : t.WellFormed) (h : Regrouped t r moved id u) (hc : t.Has c) :
    u.handled g doms tryBlock c = t.handled g doms tryBlock c := by
  rw [Bool.eq_iff_iff]
  constructor
  · exact handled_of_subset fun b hb => (h.mem_blockList hw hc).2 hb
  · exact handled_of_subset fun b hb => (h.mem_blockList hw hc).1 hb

theorem unhandled_new (hw : t.WellFormed) (h : Regrouped t r moved id u) (hc : c ∈ moved)
    (hno : t.handled g doms tryBlock c = false) : u.handled g doms tryBlock (.region t.size) = false := by
  rw [← Bool.not_eq_true] at hno ⊢
  exact fun hnew => hno (handled_of_subset (fun _ hb => (h.mem_blockList_new hw).2 ⟨c, hc, hb⟩) hnew)

end

end GuardedRegions.RegionTree.Regrouped
