import GuardedRegions.Region.Basic
import Mathlib.Data.Finset.Card
import Mathlib.Logic.Relation

/-!
# What lies below what

`RegionTree.Child` is the relation between a region and what it lists; what lies below a container at any depth is its
transitive closure (`RegionTree.Encloses`), and with the container itself its reflexive one (`RegionTree.Covers`).

`RegionTree.WellFormed` says of an arena that it is a tree. In such an arena nothing encloses itself
(`WellFormed.not_encloses_self`), so that every way down ends: `RegionTree.level` bounds its length, and the walks of the
library, which go down by a bound, are followed by induction on it. Two children of one region share nothing
(`WellFormed.eq_of_covers`).
-/

namespace GuardedRegions

open Relation

def Container.block? : Container → Option Nat
  | block b => some b
  | region _ => none

def Container.region? : Container → Option Nat
  | block _ => none
  | region r => some r

@[simp] theorem Container.block?_block (b : Nat) : (block b).block? = some b := rfl

@[simp] theorem Container.block?_region (r : Nat) : (region r).block? = none := rfl

@[simp] theorem Container.region?_block (b : Nat) : (block b).region? = none := rfl

@[simp] theorem Container.region?_region (r : Nat) : (region r).region? = some r := rfl

@[simp] theorem Container.block?_eq_some {c : Container} {b : Nat} : c.block? = some b ↔ c = .block b := by
  cases c <;> simp [block?]

@[simp] theorem Container.region?_eq_some {c : Container} {r : Nat} : c.region? = some r ↔ c = .region r := by
  cases c <;> simp [region?]

namespace RegionTree

variable {t : RegionTree}

/-! ## Children -/

theorem lt_size_iff {r : Nat} : r < t.size ↔ ∃ region, t.get? r = some region := by
  rw [← Option.isSome_iff_exists, ← Option.ne_none_iff_isSome, ne_eq, get?_eq_none_iff, Nat.not_le]

theorem lt_size_of_get? {r : Nat} {region : Region} (h : t.get? r = some region) : r < t.size :=
  lt_size_iff.2 ⟨region, h⟩

theorem childrenOf_eq {r : Nat} {region : Region} (h : t.get? r = some region) :
    t.childrenOf r = region.children := by
  simp [childrenOf, h]

theorem lt_size_of_mem {r : Nat} {c : Container} (h : c ∈ t.childrenOf r) : r < t.size := by
  rw [lt_size_iff]
  cases hr : t.get? r with
  | none => simp [childrenOf, hr] at h
  | some region => exact ⟨region, rfl⟩

theorem region_eq_ok {r : Nat} (hr : r < t.size) : ∃ region, t.get? r = some region ∧ t.region r = .ok region := by
  obtain ⟨region, h⟩ := lt_size_iff.1 hr
  exact ⟨region, h, region_eq_ok_iff.2 h⟩

theorem children_eq_ok {r : Nat} (hr : r < t.size) : t.children r = .ok (t.childrenOf r) := by
  obtain ⟨region, hg, h⟩ := region_eq_ok hr
  rw [children, h, childrenOf_eq hg]
  rfl

theorem contains_eq_ok {r : Nat} (hr : r < t.size) (c : Container) :
    t.contains r c = .ok ((t.childrenOf r).contains c) := by
  rw [contains, children_eq_ok hr]
  rfl

def Child (t : RegionTree) : Container → Container → Prop
  | .block _, _ => False
  | .region r, c => c ∈ t.childrenOf r

@[simp] theorem child_block {b : Nat} {c : Container} : ¬ t.Child (.block b) c := id

@[simp] theorem child_region {r : Nat} {c : Container} : t.Child (.region r) c ↔ c ∈ t.childrenOf r := Iff.rfl

/-- The second container lies below the first, at any depth. -/
abbrev Encloses (t : RegionTree) : Container → Container → Prop := TransGen t.Child

/-- The second container is the first or lies below it. -/
abbrev Covers (t : RegionTree) : Container → Container → Prop := ReflTransGen t.Child

theorem not_encloses_block {b : Nat} {c : Container} : ¬ t.Encloses (.block b) c := by
  intro h
  obtain ⟨d, hd, -⟩ := TransGen.head'_iff.1 h
  exact child_block hd

theorem covers_block_iff {b : Nat} {c : Container} : t.Covers (.block b) c ↔ c = .block b :=
  reflTransGen_iff_eq fun _ => child_block

theorem covers_iff {c d : Container} : t.Covers c d ↔ d = c ∨ t.Encloses c d :=
  reflTransGen_iff_eq_or_transGen

theorem encloses_iff {c d : Container} : t.Encloses c d ↔ ∃ e, t.Child c e ∧ t.Covers e d :=
  TransGen.head'_iff

/-- A container that the arena has: any block, and the regions of its numbers. -/
def Has (t : RegionTree) : Container → Prop
  | .block _ => True
  | .region r => r < t.size

@[simp] theorem has_block {b : Nat} : t.Has (.block b) := trivial

@[simp] theorem has_region {r : Nat} : t.Has (.region r) ↔ r < t.size := Iff.rfl

@[simp] theorem has_modify {r : Nat} {f : Region → Region} {c : Container} : (t.modify r f).Has c ↔ t.Has c := by
  cases c <;> simp

/-! ## Arenas that are trees -/

/-- The arena is a tree: its root has no parent, every region that is a child exists and names the region that lists it,
nothing is listed twice, and the root leads to every region. -/
structure WellFormed (t : RegionTree) : Prop where
  root_parent : ∃ root, t.get? t.root = some root ∧ root.parent = none
  child_parent : ∀ r c, .region c ∈ t.childrenOf r → ∃ region, t.get? c = some region ∧ region.parent = some r
  nodup : ∀ r, (t.childrenOf r).Nodup
  parent_unique : ∀ p q c, t.Child p c → t.Child q c → p = q
  reached : ∀ r < t.size, t.Covers (.region t.root) (.region r)

namespace WellFormed

theorem root_lt (h : t.WellFormed) : t.root < t.size := by
  obtain ⟨root, hr, -⟩ := h.root_parent
  exact lt_size_of_get? hr

theorem has_root (h : t.WellFormed) : t.Has (.region t.root) := h.root_lt

theorem has_of_child (h : t.WellFormed) {p c : Container} (hc : t.Child p c) : t.Has c := by
  cases p with
  | block b => exact absurd hc child_block
  | region r =>
    cases c with
    | block b => trivial
    | region q =>
      obtain ⟨region, hq, -⟩ := h.child_parent r q hc
      exact lt_size_of_get? hq

theorem has_of_mem (h : t.WellFormed) {r : Nat} {c : Container} (hc : c ∈ t.childrenOf r) : t.Has c :=
  h.has_of_child (p := .region r) hc

theorem has_of_encloses (h : t.WellFormed) {p c : Container} (hc : t.Encloses p c) : t.Has c := by
  cases hc with
  | single hc => exact h.has_of_child hc
  | tail _ hc => exact h.has_of_child hc

theorem not_child_root (h : t.WellFormed) (p : Container) : ¬ t.Child p (.region t.root) := by
  intro hp
  cases p with
  | block b => exact child_block hp
  | region r =>
    obtain ⟨root, hr, hn⟩ := h.root_parent
    obtain ⟨region, hq, hs⟩ := h.child_parent r _ hp
    rw [hr, Option.some.injEq] at hq
    rw [← hq, hn] at hs
    cases hs

/-- A circle through a child is one through its parent, so a circle anywhere is one through the root, which is no child. -/
theorem not_encloses_self (h : t.WellFormed) (c : Container) : ¬ t.Encloses c c := by
  cases c with
  | block b => exact not_encloses_block
  | region r =>
    intro hr
    have hlt : r < t.size := by
      obtain ⟨d, hd, -⟩ := TransGen.head'_iff.1 hr
      exact lt_size_of_mem hd
    have hroot : ∀ c, t.Covers (.region t.root) c → t.Encloses c c → t.Encloses (.region t.root) (.region t.root) := by
      intro c hc
      induction hc with
      | refl => exact id
      | @tail p c _ hpc ih =>
        intro hcc
        obtain ⟨q, hcq, hqc⟩ := TransGen.tail'_iff.1 hcc
        rw [h.parent_unique q p c hqc hpc] at hcq
        exact ih (TransGen.head' hpc hcq)
    obtain ⟨p, -, hp⟩ := TransGen.tail'_iff.1 (hroot _ (h.reached r hlt) hr)
    exact h.not_child_root p hp

theorem covers_or_covers (h : t.WellFormed) {c d e : Container} (hc : t.Covers c e) (hd : t.Covers d e) :
    t.Covers c d ∨ t.Covers d c := by
  have hu : Relator.RightUnique (Function.swap t.Child) := fun e c d hc hd => h.parent_unique c d e hc hd
  rcases ReflTransGen.total_of_right_unique hu (reflTransGen_swap.2 hc) (reflTransGen_swap.2 hd) with hcd | hdc
  · exact Or.inr (reflTransGen_swap.1 hcd)
  · exact Or.inl (reflTransGen_swap.1 hdc)

/-- Siblings that cover a common container are one. -/
theorem eq_of_covers (h : t.WellFormed) {p c d e : Container} (hpc : t.Child p c) (hpd : t.Child p d)
    (hc : t.Covers c e) (hd : t.Covers d e) : c = d := by
  have key : ∀ {c d}, t.Child p c → t.Child p d → t.Covers c d → c = d := by
    intro c d hpc hpd hcd
    rcases covers_iff.1 hcd with rfl | hcd
    · rfl
    · obtain ⟨q, hcq, hqd⟩ := TransGen.tail'_iff.1 hcd
      rw [h.parent_unique q p d hqd hpd] at hcq
      exact absurd (TransGen.head' hpc hcq) (h.not_encloses_self p)
  rcases h.covers_or_covers hc hd with hcd | hdc
  · exact key hpc hpd hcd
  · exact (key hpd hpc hdc).symm

theorem encloses_root (h : t.WellFormed) {r : Nat} (hr : r < t.size) {c : Container} (hc : c ∈ t.childrenOf r) :
    t.Encloses (.region t.root) c :=
  TransGen.tail' (h.reached r hr) hc

end WellFormed

/-! ## How deep a container goes -/

open Classical in
/-- How many regions a container has on a way down at most: none below a block, and one more than the regions below it for
a region. -/
noncomputable def level (t : RegionTree) : Container → Nat
  | .block _ => 0
  | .region r => ((Finset.range t.size).filter fun q => t.Encloses (.region r) (.region q)).card + 1

@[simp] theorem level_block {b : Nat} : t.level (.block b) = 0 := rfl

theorem level_region_pos {r : Nat} : 0 < t.level (.region r) := Nat.succ_pos _

namespace WellFormed

open Classical in
theorem level_lt (h : t.WellFormed) {p c : Container} (hc : t.Child p c) : t.level c < t.level p := by
  cases p with
  | block b => exact absurd hc child_block
  | region r =>
    cases c with
    | block b => exact level_region_pos
    | region q =>
      refine Nat.succ_lt_succ (Finset.card_lt_card ?_)
      rw [Finset.ssubset_iff_of_subset]
      · refine ⟨q, ?_, ?_⟩
        · exact Finset.mem_filter.2 ⟨Finset.mem_range.2 (h.has_of_child hc), TransGen.single hc⟩
        · intro hq
          exact h.not_encloses_self _ (Finset.mem_filter.1 hq).2
      · intro x hx
        obtain ⟨hlt, hx⟩ := Finset.mem_filter.1 hx
        exact Finset.mem_filter.2 ⟨hlt, TransGen.head hc hx⟩

open Classical in
theorem level_le (h : t.WellFormed) {c : Container} (hc : t.Has c) : t.level c ≤ t.size := by
  cases c with
  | block b => exact Nat.zero_le _
  | region r =>
    have hsub : (Finset.range t.size).filter (fun q => t.Encloses (.region r) (.region q)) ⊂ Finset.range t.size := by
      refine (Finset.filter_ssubset).2 ⟨r, Finset.mem_range.2 hc, h.not_encloses_self _⟩
    have := Finset.card_lt_card hsub
    rw [Finset.card_range] at this
    exact this

theorem induction (h : t.WellFormed) {P : Container → Prop} (step : ∀ c, (∀ d, t.Child c d → P d) → P c)
    (c : Container) : P c := by
  suffices ∀ n c, t.level c < n → P c from this _ c (Nat.lt_succ_self _)
  intro n
  induction n with
  | zero => intro c hc; omega
  | succ n ih =>
    intro c hc
    refine step c fun d hd => ih d ?_
    have := h.level_lt hd
    omega

end WellFormed

end RegionTree

end GuardedRegions
