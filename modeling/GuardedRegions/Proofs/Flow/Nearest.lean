import GuardedRegions.Flow.Nearest
import GuardedRegions.Proofs.Flow.Dominance

/-!
# Which blocks have a nearest common dominator

The blocks that dominate one block form a chain, so where there are common dominators one of them is nearest, and every other
one is struck out. Blocks that control reaches have the entry among their common dominators; a block that it never reaches has
no dominator, and then there is none that is common. So a graph never leaves several candidates
(`nearest_is_lowest_common_dominator`). The common dominators are those of the blocks that are listed, whatever their order and
however often each is listed (`nearest_eq_of_mem_iff`); this is true of any sets.
-/

namespace GuardedRegions.Dominance

variable {g : Graph} {d : Dominance} {entry a b n : Nat} {bs cs : List Nat}

theorem mem_common_iff : a ∈ d.common bs ↔ bs ≠ [] ∧ ∀ b ∈ bs, a ∈ d.dominators b := by
  induction bs with
  | nil => simp [common]
  | cons b bs ih =>
    cases bs with
    | nil => simp [common]
    | cons b' bs =>
      rw [common, IdSet.mem_inter, ih]
      · simp
      · simp

theorem common_eq_of_mem_iff (h : ∀ b, b ∈ bs ↔ b ∈ cs) : d.common bs = d.common cs := by
  have hnil : bs = [] ↔ cs = [] := by simp only [List.eq_nil_iff_forall_not_mem, h]
  apply IdSet.ext
  intro a
  simp only [mem_common_iff, ne_eq, hnil, h]

theorem nearest_eq_of_mem_iff (h : ∀ b, b ∈ bs ↔ b ∈ cs) : d.nearest bs = d.nearest cs := by
  unfold nearest
  rw [common_eq_of_mem_iff h]

/-- A common dominator that all others dominate is the nearest one. -/
theorem nearest_eq_ok (hn : n ∈ d.common bs) (hall : ∀ a ∈ d.common bs, a ∈ d.dominators n)
    (hself : ∀ a ∈ d.common bs, n ∈ d.dominators a → a = n) : d.nearest bs = .ok n := by
  have hleft : ((d.common bs).filter fun c => !(d.common bs).toList.any fun o => decide (c ∈ d.strict o)) =
      ⟨[n], List.pairwise_singleton _ n⟩ := by
    apply IdSet.ext
    intro c
    have hsingle : c ∈ (⟨[n], List.pairwise_singleton _ n⟩ : IdSet) ↔ c = n := List.mem_singleton
    rw [hsingle, IdSet.mem_filter, Bool.not_eq_true', List.any_eq_false]
    constructor
    · rintro ⟨hc, hkept⟩
      by_contra hcn
      apply hkept n hn
      rw [decide_eq_true_iff, strict, IdSet.mem_erase]
      exact ⟨hall c hc, hcn⟩
    · rintro rfl
      refine ⟨hn, fun o ho hstrict => ?_⟩
      rw [decide_eq_true_iff, strict, IdSet.mem_erase] at hstrict
      exact hstrict.2 (hself o ho hstrict.1).symm
  unfold nearest
  simp only [hleft]

theorem nearest_eq_error (hnone : ∀ a, a ∉ d.common bs) : d.nearest bs = .error ∅ := by
  have hempty : d.common bs = ∅ := by
    apply IdSet.ext
    intro a
    exact iff_of_false (hnone a) (IdSet.notMem_empty a)
  unfold nearest
  rw [hempty]
  rfl

/-- **Blocks that control reaches have a nearest common dominator**: it dominates all of them, and whatever else does
dominates it. -/
theorem nearest_of_reached (hmem : ∀ a b, a ∈ d.dominators b ↔ g.Dominates entry a b) (hne : bs ≠ [])
    (hreached : ∀ b ∈ bs, ∃ p, g.Path entry b p) :
    ∃ n, d.nearest bs = .ok n ∧ (∀ b ∈ bs, g.Dominates entry n b) ∧
      ∀ a, (∀ b ∈ bs, g.Dominates entry a b) → g.Dominates entry a n := by
  have hcommon : ∀ a, a ∈ d.common bs ↔ ∀ b ∈ bs, g.Dominates entry a b := by
    intro a
    simp only [mem_common_iff, hmem]
    exact and_iff_right hne
  obtain ⟨b, hb⟩ := List.exists_mem_of_ne_nil bs hne
  have hentry : entry ∈ (d.common bs).toList := by
    rw [IdSet.mem_toList, hcommon]
    intro b hb
    obtain ⟨p, hp⟩ := hreached b hb
    exact .of_entry hp
  obtain ⟨n, hn, hnearest⟩ :=
    Graph.Dominates.exists_nearest (List.ne_nil_of_mem hentry) fun a ha => (hcommon a).1 ha b hb
  refine ⟨n, nearest_eq_ok hn ?_ ?_, (hcommon n).1 hn, fun a ha => hnearest a ((hcommon a).2 ha)⟩
  · intro a ha
    exact (hmem a n).2 (hnearest a ha)
  · intro a ha hna
    exact (hnearest a ha).antisymm ((hmem n a).1 hna)

/-- **A block that control never reaches leaves nothing.** -/
theorem nearest_of_unreached (hmem : ∀ a b, a ∈ d.dominators b ↔ g.Dominates entry a b) (hb : b ∈ bs)
    (hno : ¬∃ p, g.Path entry b p) : d.nearest bs = .error ∅ := by
  apply nearest_eq_error
  intro a ha
  have hab := (mem_common_iff.1 ha).2 b hb
  exact hno ((hmem a b).1 hab).1

theorem nearest_nil : d.nearest [] = .error ∅ :=
  nearest_eq_error IdSet.notMem_empty

/-- **The nearest common dominator is the lowest one.** In a graph that is entered at one of its blocks, blocks that control
reaches, at least one, have a nearest common dominator: it dominates all of them, and each block that dominates all of them
dominates it. No block, or blocks of which control never reaches one, leave the empty set; nothing else is ever left. What
comes of a list depends on which blocks are in it alone. -/
theorem nearest_is_lowest_common_dominator (g : Graph) (entry : Nat) (he : g.entry = some entry)
    (hlt : entry < g.blockCount) :
    ∃ doms, g.dominance = .ok doms ∧ ∀ bs : List Nat,
      (bs ≠ [] → (∀ b ∈ bs, ∃ p, g.Path entry b p) →
        ∃ n, doms.nearest bs = .ok n ∧ (∀ b ∈ bs, g.Dominates entry n b) ∧
          ∀ a, (∀ b ∈ bs, g.Dominates entry a b) → g.Dominates entry a n) ∧
      ((bs = [] ∨ ∃ b ∈ bs, ¬∃ p, g.Path entry b p) → doms.nearest bs = .error ∅) ∧
      (∀ residual, doms.nearest bs = .error residual → residual = ∅) ∧
      ∀ cs : List Nat, (∀ b, b ∈ cs ↔ b ∈ bs) → doms.nearest cs = doms.nearest bs := by
  obtain ⟨doms, hok, hmem, -⟩ := Graph.dominance_of_entry he hlt
  refine ⟨doms, hok, fun bs => ?_⟩
  have hreached : bs ≠ [] → (∀ b ∈ bs, ∃ p, g.Path entry b p) → ∃ n, doms.nearest bs = .ok n ∧
      (∀ b ∈ bs, g.Dominates entry n b) ∧ ∀ a, (∀ b ∈ bs, g.Dominates entry a b) → g.Dominates entry a n :=
    nearest_of_reached hmem
  have hempty : (bs = [] ∨ ∃ b ∈ bs, ¬∃ p, g.Path entry b p) → doms.nearest bs = .error ∅ := by
    rintro (rfl | ⟨b, hb, hno⟩)
    · exact nearest_nil
    · exact nearest_of_unreached hmem hb hno
  refine ⟨hreached, hempty, fun residual hresidual => ?_, fun cs hcs => nearest_eq_of_mem_iff hcs⟩
  by_cases hall : bs = [] ∨ ∃ b ∈ bs, ¬∃ p, g.Path entry b p
  · rw [hempty hall] at hresidual
    exact (Except.error.inj hresidual).symm
  · -- otherwise control reaches all of some blocks, and nothing is left
    push Not at hall
    obtain ⟨n, hn, -⟩ := hreached hall.1 hall.2
    rw [hn] at hresidual
    cases hresidual

/-- Of the blocks behind a loop that is entered at both of its blocks, one dominates the other; the block that control never
reaches leaves nothing. -/
theorem nearest_is_lowest_common_dominator_twoWayLoop :
    ∃ doms, Graph.twoWayLoop.dominance = .ok doms ∧ doms.nearest [3, 2, 3] = .ok 2 ∧
      (∀ a, (∀ b ∈ [3, 2, 3], Graph.twoWayLoop.Dominates 0 a b) → Graph.twoWayLoop.Dominates 0 a 2) ∧
      doms.nearest [2, 3] = .ok 2 ∧ doms.nearest [3, 4] = .error ∅ := by
  obtain ⟨doms, hok, hall⟩ := nearest_is_lowest_common_dominator Graph.twoWayLoop 0 (by decide) (by decide)
  have hrun : Graph.twoWayLoop.dominance.map (·.nearest [3, 2, 3]) = .ok (.ok 2) := by decide +kernel
  rw [hok] at hrun
  have htwo : doms.nearest [3, 2, 3] = .ok 2 := Except.ok.inj hrun
  have h2 : ∃ p, Graph.twoWayLoop.Path 0 2 p := ⟨_, .step (by decide) (.stay (by decide))⟩
  have h3 : ∃ p, Graph.twoWayLoop.Path 0 3 p := ⟨_, .step (b := 2) (by decide) (.step (by decide) (.stay (by decide)))⟩
  have h4 : ¬∃ p, Graph.twoWayLoop.Path 0 4 p := by
    rw [← Graph.mem_reached_all]
    decide
  obtain ⟨hlowest, -, -, hsame⟩ := hall [3, 2, 3]
  obtain ⟨n, hn, -, hbelow⟩ := hlowest (List.cons_ne_nil _ _) (by simp [h2, h3])
  obtain rfl : n = 2 := Except.ok.inj (hn.symm.trans htwo)
  refine ⟨doms, hok, htwo, hbelow, ?_, ?_⟩
  · rw [hsame [2, 3] (by simp), htwo]
  · exact (hall [3, 4]).2.1 (.inr ⟨4, by simp, h4⟩)

end GuardedRegions.Dominance
