import GuardedRegions.Flow.Dominance
import GuardedRegions.Proofs.Flow.Reach

/-!
# Dominance is what it says

`Graph.Dominates` is dominance over all paths from the entry. The blocks that dominate a given one form a chain, since
control that could come to each of two of them without the other could go on to the given block without one of the two.
So among the strict dominators of a block one is nearest: all others dominate it. `Graph.dominance` answers every question
in this sense (`dominance_is_over_paths`), for graphs with loops of any kind and with blocks that control never reaches.
-/

namespace GuardedRegions

namespace Graph

variable {g : Graph} {entry a b c : Nat} {p : List Nat}

/-- Control can come from the entry to `b`, and every path on which it does leads through `a`. -/
def Dominates (g : Graph) (entry a b : Nat) : Prop :=
  (∃ p, g.Path entry b p) ∧ ∀ p, g.Path entry b p → a ∈ p

namespace Dominates

theorem self (hp : g.Path entry b p) : g.Dominates entry b b :=
  ⟨⟨p, hp⟩, fun _ hq => hq.right_mem⟩

theorem of_entry (hp : g.Path entry b p) : g.Dominates entry entry b :=
  ⟨⟨p, hp⟩, fun _ hq => hq.left_mem⟩

theorem exists_path (h : g.Dominates entry a b) : ∃ p, g.Path entry a p := by
  obtain ⟨⟨p, hp⟩, hall⟩ := h
  obtain ⟨q, hq, -⟩ := hp.exists_to (hall p hp)
  exact ⟨q, hq⟩

/-- Control comes around a block that does not dominate where it goes. -/
theorem exists_path_without (hp : g.Path entry b p) (hno : ¬ g.Dominates entry a b) :
    ∃ q, g.Path entry b q ∧ a ∉ q := by
  by_contra hnone
  refine hno ⟨⟨p, hp⟩, fun q hq => ?_⟩
  by_contra haq
  exact hnone ⟨q, hq, haq⟩

theorem trans (hab : g.Dominates entry a b) (hbc : g.Dominates entry b c) : g.Dominates entry a c := by
  refine ⟨hbc.1, fun p hp => ?_⟩
  obtain ⟨q, hq, hqp⟩ := hp.exists_to (hbc.2 p hp)
  exact hqp (hab.2 q hq)

/-- A block that control comes to, and from which it comes around a dominator to what that dominates, is dominated as well:
coming to the block without the dominator, control would come to the end without it. -/
theorem of_path (hab : g.Dominates entry a b) (hc : ∃ p, g.Path entry c p) (hp : g.Path c b p) (ha : a ∉ p) :
    g.Dominates entry a c := by
  by_contra hno
  obtain ⟨_, hpc⟩ := hc
  obtain ⟨w, hw, haw⟩ : ∃ w, g.Path entry b w ∧ a ∉ w := by
    apply hp.transport (R := fun x => ∃ w, g.Path entry x w ∧ a ∉ w) (exists_path_without hpc hno)
    rintro x y - hy hxy ⟨w, hw, haw⟩
    have hay : a ≠ y := fun hay => ha (hay ▸ hy)
    exact ⟨_, hw.snoc hxy, by simp [haw, hay]⟩
  exact haw (hab.2 w hw)

/-- Control that has come to neither of two blocks that dominate each other can only go on to other blocks. -/
theorem antisymm (hab : g.Dominates entry a b) (hba : g.Dominates entry b a) : a = b := by
  by_contra hne
  obtain ⟨p, hp⟩ := hab.exists_path
  have hmissed : ∃ q, g.Path entry a q ∧ a ∉ q ∧ b ∉ q := by
    apply hp.transport (R := fun x => ∃ q, g.Path entry x q ∧ a ∉ q ∧ b ∉ q)
    · have hstay : g.Path entry entry [entry] := .stay (hp.lt_of_mem hp.left_mem)
      refine ⟨_, hstay, fun ha => ?_, fun hb => ?_⟩
      · obtain rfl := List.mem_singleton.1 ha
        exact hne (List.mem_singleton.1 (hba.2 _ hstay)).symm
      · obtain rfl := List.mem_singleton.1 hb
        exact hne (List.mem_singleton.1 (hab.2 _ hstay))
    · rintro x y - - hxy ⟨q, hq, ha, hb⟩
      have hqy := hq.snoc hxy
      refine ⟨_, hqy, fun hay => ?_, fun hby => ?_⟩
      · obtain rfl := List.mem_singleton.1 ((List.mem_append.1 hay).resolve_left ha)
        have := (List.mem_append.1 (hba.2 _ hqy)).resolve_left hb
        exact hne (List.mem_singleton.1 this).symm
      · obtain rfl := List.mem_singleton.1 ((List.mem_append.1 hby).resolve_left hb)
        have := (List.mem_append.1 (hab.2 _ hqy)).resolve_left ha
        exact hne (List.mem_singleton.1 this)
  obtain ⟨q, hq, ha, -⟩ := hmissed
  exact ha hq.right_mem

/-- The blocks that dominate a given one form a chain. -/
theorem total (hac : g.Dominates entry a c) (hbc : g.Dominates entry b c) :
    g.Dominates entry a b ∨ g.Dominates entry b a := by
  by_contra hneither
  obtain ⟨hab, hba⟩ := not_or.1 hneither
  obtain ⟨_, hpb⟩ := hbc.exists_path
  obtain ⟨q, hq, haq⟩ := exists_path_without hpb hab
  obtain ⟨_, hpa⟩ := hac.exists_path
  obtain ⟨r, hr, hbr⟩ := exists_path_without hpa hba
  obtain ⟨p, hp⟩ := hac.1
  have hmissed : ∃ q, g.Path entry c q ∧ (a ∉ q ∨ b ∉ q) := by
    apply hp.transport (R := fun x => ∃ q, g.Path entry x q ∧ (a ∉ q ∨ b ∉ q))
    · refine ⟨_, .stay (hp.lt_of_mem hp.left_mem), .inl fun ha => ?_⟩
      rw [List.mem_singleton.1 ha] at haq
      exact haq hq.left_mem
    · rintro x y - - hxy ⟨s, hs, has | hbs⟩
      · by_cases hay : y = a
        · exact ⟨r, hay.symm ▸ hr, .inr hbr⟩
        · exact ⟨_, hs.snoc hxy, .inl (by simp [has, Ne.symm hay])⟩
      · by_cases hby : y = b
        · exact ⟨q, hby.symm ▸ hq, .inl haq⟩
        · exact ⟨_, hs.snoc hxy, .inr (by simp [hbs, Ne.symm hby])⟩
  obtain ⟨s, hs, has | hbs⟩ := hmissed
  · exact has (hac.2 s hs)
  · exact hbs (hbc.2 s hs)

/-- Among blocks that dominate a given one, there is one that all of them dominate. -/
theorem exists_nearest {xs : List Nat} (hne : xs ≠ []) (h : ∀ a ∈ xs, g.Dominates entry a b) :
    ∃ a ∈ xs, ∀ c ∈ xs, g.Dominates entry c a := by
  induction xs with
  | nil => exact absurd rfl hne
  | cons x xs ih =>
    obtain ⟨p, hp⟩ := (h x List.mem_cons_self).exists_path
    by_cases hxs : xs = []
    · subst hxs
      refine ⟨x, List.mem_cons_self, fun c hc => ?_⟩
      rw [List.mem_singleton.1 hc]
      exact .self hp
    · obtain ⟨a, ha, hall⟩ := ih hxs fun a ha => h a (List.mem_cons_of_mem _ ha)
      rcases (h x List.mem_cons_self).total (h a (List.mem_cons_of_mem _ ha)) with hxa | hax
      · refine ⟨a, List.mem_cons_of_mem _ ha, fun c hc => ?_⟩
        rcases List.mem_cons.1 hc with rfl | hc
        · exact hxa
        · exact hall c hc
      · refine ⟨x, List.mem_cons_self, fun c hc => ?_⟩
        rcases List.mem_cons.1 hc with rfl | hc
        · exact .self hp
        · exact (hall c hc).trans hax

end Dominates

/-! ## The table of dominators -/

theorem mem_reached_all : b ∈ g.reached (fun _ => true) entry ↔ ∃ p, g.Path entry b p := by
  simp [mem_reached_iff]

theorem mem_reached_without : b ∈ g.reached (· != a) entry ↔ ∃ p, g.Path entry b p ∧ a ∉ p := by
  rw [mem_reached_iff]
  refine exists_congr fun p => and_congr_right fun _ => ⟨fun hopen ha => ?_, fun ha c hc => ?_⟩
  · simpa using hopen a ha
  · rw [bne_iff_ne]
    rintro rfl
    exact ha hc

theorem dominates_iff_reached :
    g.Dominates entry a b ↔ b ∈ g.reached (fun _ => true) entry ∧ b ∉ g.reached (· != a) entry := by
  rw [mem_reached_all, mem_reached_without]
  simp [Dominates]

theorem lookup_filterMap_key {α : Type} (f : Nat → Option α) (xs : List Nat) (k : Nat) :
    (xs.filterMap fun x => (f x).map (x, ·)).lookup k = if k ∈ xs then f k else none := by
  induction xs with
  | nil => rfl
  | cons x xs ih =>
    rw [List.filterMap_cons]
    by_cases hk : k = x
    · subst hk
      cases hf : f k <;> simp [hf, ih]
    · have hk' : (k == x) = false := by simpa using hk
      cases f x <;> simp [List.lookup_cons, hk, hk', ih]

theorem lookup_map_key {α : Type} (f : Nat → α) (xs : List Nat) (k : Nat) :
    (xs.map fun x => (x, f x)).lookup k = if k ∈ xs then some (f k) else none := by
  have h := lookup_filterMap_key (fun x => some (f x)) xs k
  simpa [List.filterMap_eq_map'] using h

theorem mem_dominators_sets :
    a ∈ ({ sets := g.dominatorSets entry } : Dominance).dominators b ↔ g.Dominates entry a b := by
  rw [dominates_iff_reached, Dominance.dominators, dominatorSets, lookup_map_key]
  by_cases hb : b < g.blockCount
  · rw [if_pos (List.mem_range.2 hb), Option.getD_some]
    by_cases hlive : b ∈ g.reached (fun _ => true) entry
    · rw [if_pos (List.contains_iff_mem.2 hlive), IdSet.mem_below]
      obtain ⟨p, hp⟩ := mem_reached_all.1 hlive
      constructor
      · rintro ⟨ha, hwithout⟩
        simpa [ha, hlive] using hwithout
      · rintro ⟨-, hwithout⟩
        have ha : a < g.blockCount := by
          by_contra ha
          exact hwithout (mem_reached_without.2 ⟨p, hp, fun hmem => ha (hp.lt_of_mem hmem)⟩)
        simpa [ha] using hwithout
    · rw [if_neg fun h => hlive (List.contains_iff_mem.1 h)]
      exact iff_of_false (IdSet.notMem_empty a) fun h => hlive h.1
  · rw [if_neg fun h => hb (List.mem_range.1 h), Option.getD_none]
    refine iff_of_false (IdSet.notMem_empty a) fun h => ?_
    obtain ⟨p, hp⟩ := mem_reached_all.1 h.1
    exact hb (hp.lt_of_mem hp.right_mem)

/-! ## The analysis -/

/-- For a graph that is entered at one of its blocks the analysis gives the sets of dominators and, for each block, the first
of its strict dominators that all of them dominate. -/
theorem dominance_of_entry (he : g.entry = some entry) (hlt : entry < g.blockCount) :
    ∃ doms, g.dominance = .ok doms ∧ (∀ a b, a ∈ doms.dominators b ↔ g.Dominates entry a b) ∧
      ∀ b, doms.immediate b = if b ∈ List.range g.blockCount then
        (doms.strict b).toList.find? fun a => (doms.strict b).toList.all fun c => doms.dominates c a
      else none := by
  unfold dominance
  rw [he]
  dsimp only
  rw [if_pos hlt]
  exact ⟨_, rfl, fun a b => mem_dominators_sets, fun b => lookup_filterMap_key _ _ b⟩

theorem dominance_eq_ok {doms : Dominance} (h : g.dominance = .ok doms) :
    (g.entry = none ∧ doms = ∅) ∨ ∃ entry, g.entry = some entry ∧ entry < g.blockCount ∧
      ∀ a b, a ∈ doms.dominators b ↔ g.Dominates entry a b := by
  cases he : g.entry with
  | none =>
    unfold dominance at h
    rw [he] at h
    exact .inl ⟨rfl, (Except.ok.inj h).symm⟩
  | some entry =>
    have hlt : entry < g.blockCount := by
      unfold dominance at h
      rw [he] at h
      by_contra hlt
      dsimp only at h
      rw [if_neg hlt] at h
      cases h
    obtain ⟨doms', hok, hmem, -⟩ := dominance_of_entry he hlt
    obtain rfl := Except.ok.inj (h.symm.trans hok)
    exact .inr ⟨entry, rfl, hlt, hmem⟩

end Graph

namespace Dominance

variable {g : Graph} {d : Dominance} {a b c : Nat}

theorem dominates_iff : d.dominates a b = true ↔ a ∈ d.dominators b := decide_eq_true_iff

theorem not_dominates_empty : ¬(∅ : Dominance).dominates a b = true := by
  rw [dominates_iff]
  exact IdSet.notMem_empty a

theorem dominates_trans (h : g.dominance = .ok d) (hab : d.dominates a b = true) (hbc : d.dominates b c = true) :
    d.dominates a c = true := by
  obtain ⟨-, rfl⟩ | ⟨entry, -, -, hmem⟩ := Graph.dominance_eq_ok h
  · exact absurd hab not_dominates_empty
  · rw [dominates_iff, hmem] at hab hbc ⊢
    exact hab.trans hbc

theorem dominates_antisymm (h : g.dominance = .ok d) (hab : d.dominates a b = true) (hba : d.dominates b a = true) :
    a = b := by
  obtain ⟨-, rfl⟩ | ⟨entry, -, -, hmem⟩ := Graph.dominance_eq_ok h
  · exact absurd hab not_dominates_empty
  · rw [dominates_iff, hmem] at hab hba
    exact hab.antisymm hba

theorem dominates_total (h : g.dominance = .ok d) (hac : d.dominates a c = true) (hbc : d.dominates b c = true) :
    d.dominates a b = true ∨ d.dominates b a = true := by
  obtain ⟨-, rfl⟩ | ⟨entry, -, -, hmem⟩ := Graph.dominance_eq_ok h
  · exact absurd hac not_dominates_empty
  · simp only [dominates_iff, hmem] at hac hbc ⊢
    exact hac.total hbc

end Dominance

namespace Graph

/-- **The analysis of dominance is correct.** For a graph that is entered at one of its blocks it succeeds, and then

* `a` dominates `b` if and only if control can come to `b` and does so through `a` on every path;
* the dominators of `b` are the blocks that dominate it, so a block that control never reaches has none;
* there is no immediate dominator of the entry or of a block that control never reaches; the immediate dominator of any
  other block is a strict dominator of it that each strict dominator of it dominates. -/
theorem dominance_is_over_paths (g : Graph) (entry : Nat) (he : g.entry = some entry) (hlt : entry < g.blockCount) :
    ∃ doms, g.dominance = .ok doms ∧
      (∀ a b, doms.dominates a b = true ↔ (∃ p, g.Path entry b p) ∧ ∀ p, g.Path entry b p → a ∈ p) ∧
      (∀ a b, a ∈ doms.dominators b ↔ doms.dominates a b = true) ∧
      (∀ b, (¬∃ p, g.Path entry b p) → doms.dominators b = ∅ ∧ doms.immediate b = none) ∧
      doms.immediate entry = none ∧
      ∀ b, b ≠ entry → (∃ p, g.Path entry b p) → ∃ a, doms.immediate b = some a ∧
        a ≠ b ∧ doms.dominates a b = true ∧ ∀ c, c ≠ b → doms.dominates c b = true → doms.dominates c a = true := by
  obtain ⟨doms, hok, hmem, himmediate⟩ := dominance_of_entry he hlt
  have hdom (a b : Nat) : doms.dominates a b = true ↔ g.Dominates entry a b := Dominance.dominates_iff.trans (hmem a b)
  have hstrict (a b : Nat) : a ∈ doms.strict b ↔ g.Dominates entry a b ∧ a ≠ b := by
    rw [Dominance.strict, IdSet.mem_erase, hmem]
  have hnone (b : Nat) (hb : ∀ a, a ∉ doms.strict b) : doms.immediate b = none := by
    have hempty : (doms.strict b).toList = [] := List.eq_nil_iff_forall_not_mem.2 hb
    rw [himmediate, hempty, List.find?_nil, ite_self]
  refine ⟨doms, hok, hdom, fun a b => (Dominance.dominates_iff).symm, fun b hb => ⟨?_, ?_⟩, ?_, fun b hne hb => ?_⟩
  · apply IdSet.ext
    intro a
    exact iff_of_false (fun ha => hb ((hmem a b).1 ha).1) (IdSet.notMem_empty a)
  · exact hnone b fun a ha => hb ((hstrict a b).1 ha).1.1
  · apply hnone
    intro a ha
    obtain ⟨h, hne⟩ := (hstrict a entry).1 ha
    exact hne (List.mem_singleton.1 (h.2 _ (.stay hlt)))
  · obtain ⟨p, hp⟩ := hb
    have hentry : entry ∈ (doms.strict b).toList := (hstrict entry b).2 ⟨.of_entry hp, hne.symm⟩
    obtain ⟨a, ha, hnearest⟩ := Dominates.exists_nearest (List.ne_nil_of_mem hentry) fun a ha => ((hstrict a b).1 ha).1
    have hfound : ((doms.strict b).toList.find? fun a =>
        (doms.strict b).toList.all fun c => doms.dominates c a).isSome := by
      rw [List.find?_isSome]
      exact ⟨a, ha, List.all_eq_true.2 fun c hc => (hdom c a).2 (hnearest c hc)⟩
    obtain ⟨found, hfound⟩ := Option.isSome_iff_exists.1 hfound
    obtain ⟨hab, hne'⟩ := (hstrict found b).1 (List.mem_of_find?_eq_some hfound)
    refine ⟨found, ?_, hne', (hdom found b).2 hab, fun c hcb hc => ?_⟩
    · rw [himmediate, if_pos (List.mem_range.2 (hp.lt_of_mem hp.right_mem)), hfound]
    · have hall := (List.find?_eq_some_iff_append.1 hfound).1
      exact List.all_eq_true.1 hall c ((hstrict c b).2 ⟨(hdom c b).1 hc, hcb⟩)

/-- A loop that is entered at both of its blocks, twice from one of them to the block behind it, which loops to itself; and
a block that control never reaches. -/
def twoWayLoop : Graph where
  blocks := #[{}, {}, {}, {}, {}]
  edges := #[⟨0, 1, .whenTrue⟩, ⟨0, 2, .whenFalse⟩, ⟨1, 2, .jump⟩, ⟨2, 1, .jump⟩, ⟨2, 3, .switchCase 0⟩, ⟨2, 3, .switchDefault⟩,
    ⟨3, 3, .jump⟩, ⟨4, 3, .jump⟩]
  entry := some 0
  edges_inside := by decide

theorem dominance_is_over_paths_twoWayLoop :
    ∃ doms, twoWayLoop.dominance = .ok doms ∧ (∀ p, twoWayLoop.Path 0 3 p → 2 ∈ p) ∧
      (∃ p, twoWayLoop.Path 0 3 p ∧ 1 ∉ p) ∧ (∃ p, twoWayLoop.Path 0 2 p ∧ 1 ∉ p) ∧
      (¬∃ p, twoWayLoop.Path 0 4 p) ∧ doms.immediate 4 = none ∧ doms.immediate 3 = some 2 := by
  obtain ⟨doms, hok, hdom, -, hunreached, -, himmediate⟩ :=
    dominance_is_over_paths twoWayLoop 0 (by decide) (by decide)
  have hdoms : doms = ⟨[(0, ⟨[0], by decide⟩), (1, ⟨[0, 1], by decide⟩), (2, ⟨[0, 2], by decide⟩),
      (3, ⟨[0, 2, 3], by decide⟩), (4, ∅)], [(1, 0), (2, 0), (3, 2)]⟩ :=
    Except.ok.inj (hok.symm.trans (by decide +kernel))
  subst hdoms
  have h3 := (hdom 2 3).1 (by decide)
  have h13 := mt (hdom 1 3).2 (by decide)
  have h12 := mt (hdom 1 2).2 (by decide)
  have h2 := (hdom 2 2).1 (by decide)
  have h4 : ¬∃ p, twoWayLoop.Path 0 4 p := fun ⟨p, hp⟩ => absurd ((hdom 4 4).2 ⟨⟨p, hp⟩, fun _ hq => hq.right_mem⟩) (by decide)
  refine ⟨_, hok, h3.2, ?_, ?_, h4, (hunreached 4 h4).2, by decide⟩
  · simpa [h3.1] using h13
  · simpa [h2.1] using h12

end Graph

end GuardedRegions
