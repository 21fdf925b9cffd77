import GuardedRegions.Proofs.Wrapping.Run

/-!
# A sweep lowers the load

The load of a tree (`Pending.load`) is the largest number of pending dominators that are children of one region. A sweep
resolves one of them in each region, and what it makes holds no more than what is left of the region that it comes from.
So a sweep lowers the load by one (`Reports.load_sweep`): halfway through, the regions that are still to be left may hold
one more than the others.
-/

namespace GuardedRegions

/-! ## The load -/

namespace Pending

variable {p : Pending} {t u : RegionTree} {r q d : Nat} {e : Nat × Nat}

def waitingIn (p : Pending) (t : RegionTree) (r : Nat) : Nat :=
  p.entries.countP fun e => (t.childrenOf r).contains (.block e.1)

/-- The largest number of pending dominators that are children of one region. -/
def load (p : Pending) (t : RegionTree) : Nat := ((List.range t.size).map (p.waitingIn t)).foldr Nat.max 0

theorem waitingIn_pos_iff : 0 < p.waitingIn t r ↔ ∃ e ∈ p.entries, .block e.1 ∈ t.childrenOf r := by
  simp [waitingIn, List.countP_pos_iff]

theorem waitingIn_eq_zero_of_le (hr : t.size ≤ r) : p.waitingIn t r = 0 := by
  apply Nat.eq_zero_of_not_pos
  intro hpos
  obtain ⟨e, -, he⟩ := waitingIn_pos_iff.1 hpos
  exact Nat.not_lt.2 hr (RegionTree.lt_size_of_mem he)

theorem foldr_max_le_iff {ks : List Nat} {k : Nat} : ks.foldr Nat.max 0 ≤ k ↔ ∀ i ∈ ks, i ≤ k := by
  induction ks with
  | nil => simp
  | cons i ks ih => rw [List.foldr_cons, List.forall_mem_cons, ← ih, Nat.max_le]

theorem load_le_iff {k : Nat} : p.load t ≤ k ↔ ∀ r, p.waitingIn t r ≤ k := by
  rw [load, foldr_max_le_iff]
  constructor
  · intro h r
    by_cases hr : r < t.size
    · exact h _ (List.mem_map.2 ⟨r, List.mem_range.2 hr, rfl⟩)
    · rw [waitingIn_eq_zero_of_le (Nat.not_lt.1 hr)]
      exact Nat.zero_le k
  · intro h i hi
    obtain ⟨r, -, rfl⟩ := List.mem_map.1 hi
    exact h r

theorem waitingIn_le_load (p : Pending) (t : RegionTree) (r : Nat) : p.waitingIn t r ≤ p.load t :=
  load_le_iff.1 (Nat.le_refl _) r

/-- Where an entry is removed that waits in a region, fewer are left for whatever has no other children than that region. -/
theorem waitingIn_remove_lt (he : e ∈ p.entries) (hr : .block e.1 ∈ t.childrenOf r)
    (hsub : ∀ b, .block b ∈ u.childrenOf q → .block b ∈ t.childrenOf r) :
    (p.remove e.1).waitingIn u q < p.waitingIn t r := by
  let waits : Nat × Nat → Bool := fun e => (t.childrenOf r).contains (.block e.1)
  have hmono : (p.remove e.1).waitingIn u q ≤ (p.remove e.1).entries.countP waits := by
    refine List.countP_mono_left fun x _ hx => ?_
    rw [List.contains_iff_mem] at hx ⊢
    exact hsub x.1 hx
  have hsplit := List.countP_eq_countP_filter_add p.entries waits (·.1 != e.1)
  have hpos : 0 < (p.entries.filter fun x => !(x.1 != e.1)).countP waits := by
    refine List.countP_pos_iff.2 ⟨e, List.mem_filter.2 ⟨he, by simp⟩, ?_⟩
    exact List.contains_iff_mem.2 hr
  have hp : p.waitingIn t r = p.entries.countP waits := rfl
  have hremove : (p.remove e.1).entries = p.entries.filter (·.1 != e.1) := rfl
  rw [hremove] at hmono
  omega

end Pending

namespace Progress

variable {g : Graph} {doms : Dominance} {tryBlocks : List TryBlock} {r d : Nat} {x y : Progress}

def load (x : Progress) : Nat := x.pending.load x.tree

theorem Step.waitingIn_le (h : Step g doms tryBlocks r x y) {q : Nat} (hqr : q ≠ r) (hq : q < x.tree.size) :
    y.pending.waitingIn y.tree q ≤ x.pending.waitingIn x.tree q := by
  rw [Pending.waitingIn, h.childrenOf_eq hqr hq]
  exact h.pending_sublist.countP_le

theorem Step.block_mem (h : Step g doms tryBlocks r x y) (hw : x.tree.WellFormed) {q b : Nat}
    (hq : q = r ∨ x.tree.size ≤ q) (hb : .block b ∈ y.tree.childrenOf q) : .block b ∈ x.tree.childrenOf r := by
  have hold : .block b ∈ x.tree.childrenOf q → .block b ∈ x.tree.childrenOf r := by
    intro hb
    rcases hq with rfl | hq
    · exact hb
    · exact absurd (RegionTree.lt_size_of_mem hb) (Nat.not_lt.2 hq)
  cases h with
  | idle => exact hold hb
  | gaveUp => exact hold hb
  | wrapped _ _ hre =>
    rcases (hre.child_iff hw (p := .region q)).1 hb with ⟨-, hm⟩ | ⟨-, hn⟩ | ⟨hb, -⟩
    · exact hre.sub.subset hm
    · cases hn
    · exact hold hb

/-- The region of a step and one that it makes hold less than the region did, which held something unless the step is
idle. -/
theorem Step.waitingIn_le_pred (h : Step g doms tryBlocks r x y) (hw : x.tree.WellFormed) {q : Nat}
    (hq : q = r ∨ x.tree.size ≤ q) : y.pending.waitingIn y.tree q ≤ x.pending.waitingIn x.tree r - 1 := by
  have hsub := fun b => h.block_mem hw hq (b := b)
  cases h with
  | idle hnone =>
    have hno : ¬ 0 < x.pending.waitingIn x.tree q := by
      intro hpos
      obtain ⟨e, he, hc⟩ := Pending.waitingIn_pos_iff.1 hpos
      exact Pending.first?_eq_none_iff.1 hnone e he (hsub _ hc)
    omega
  | gaveUp hfirst =>
    exact Nat.le_sub_one_of_lt
      (Pending.waitingIn_remove_lt (Pending.mem_of_first? hfirst) (Pending.child_of_first? hfirst) hsub)
  | wrapped hfirst =>
    exact Nat.le_sub_one_of_lt
      (Pending.waitingIn_remove_lt (Pending.mem_of_first? hfirst) (Pending.child_of_first? hfirst) hsub)

/-- In the middle of a sweep, the regions that are still to be left may hold one more than the others. -/
def AtMost (k : Nat) (rest : List Nat) (x : Progress) : Prop :=
  ∀ q, x.pending.waitingIn x.tree q ≤ if q ∈ rest then k + 1 else k

theorem AtMost.start (hw : x.tree.WellFormed) :
    AtMost (x.load - 1) ((x.tree.postOrder (.region x.tree.root)).filterMap Container.region?) x := by
  intro q
  by_cases hq : q < x.tree.size
  · have hmem : .region q ∈ x.tree.postOrder (.region x.tree.root) := (hw.mem_postOrder hw.has_root).2 (hw.reached q hq)
    rw [if_pos (List.mem_filterMap.2 ⟨_, hmem, Container.region?_region q⟩)]
    have hle : x.pending.waitingIn x.tree q ≤ x.load := Pending.waitingIn_le_load ..
    omega
  · rw [Pending.waitingIn_eq_zero_of_le (Nat.not_lt.1 hq)]
    exact Nat.zero_le _

theorem AtMost.step {k : Nat} {rest : List Nat} (hx : AtMost k (r :: rest) x) (hw : x.tree.WellFormed)
    (h : Step g doms tryBlocks r x y) : AtMost k rest y := by
  intro q
  have hr := hx r
  rw [if_pos List.mem_cons_self] at hr
  -- the region that is left, or one that it made, falls behind the bound; the others are as they were
  by_cases hq : q = r ∨ x.tree.size ≤ q
  · have hle := h.waitingIn_le_pred hw hq
    split <;> omega
  · obtain ⟨hqr, hlt⟩ := not_or.1 hq
    have hle := h.waitingIn_le hqr (Nat.not_le.1 hlt)
    have hxq := hx q
    simp only [List.mem_cons, hqr, false_or] at hxq
    exact Nat.le_trans hle hxq

theorem AtMost.load_le {k : Nat} (hx : AtMost k [] x) : x.load ≤ k := by
  unfold load
  rw [Pending.load_le_iff]
  intro q
  have hq := hx q
  rwa [if_neg List.not_mem_nil] at hq

end Progress

namespace Resolution

variable {m : Method} {doms : Dominance} {x y : Progress} {s s' : Resolution}

/-- **A sweep lowers the load by one.** -/
theorem Reports.load_sweep (h : Reports m x s) (hw : x.tree.WellFormed) (hh : m.HandlersExist)
    (hs : s.sweep doms = .ok s') (h' : Reports m y s') : y.load ≤ x.load - 1 := by
  obtain ⟨s'', z, hs'', -, hz, hmost⟩ := h.sweep_invariant hw hh doms (Progress.AtMost (x.load - 1))
    (fun _ _ _ _ ha hx hxy => hx.step ha.wellFormed hxy) (Progress.AtMost.start hw)
  obtain rfl : s'' = s' := Except.ok.inj (hs''.symm.trans hs)
  have hload : y.load = z.load := by
    unfold Progress.load
    rw [← h'.tree, ← h'.pending, hz.tree, hz.pending]
  rw [hload]
  exact hmost.load_le

end Resolution

end GuardedRegions
