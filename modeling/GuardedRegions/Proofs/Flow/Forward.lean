import GuardedRegions.Proofs.Flow.Dominance
import GuardedRegions.Proofs.Region.Query

/-!
# Going forward

Control goes forward from a block if it does not stand on a strict dominator of the block. Each block comes forward to itself,
and where it comes forward to a block it comes forward to all that this block dominates (`forward_of_forward`). So a block comes
forward to what it dominates itself (`forward_of_dominates`). The question is answered for every two blocks of a graph, and
the answer is about the paths of the graph alone (`forward_goes_around_strict_dominators`).
-/

namespace GuardedRegions.Dominance

variable {g : Graph} {d : Dominance} {a b s : Nat}

theorem mem_strict : a ∈ d.strict b ↔ d.dominates a b = true ∧ a ≠ b := by
  rw [strict, IdSet.mem_erase, dominates_iff]

theorem forward_iff (ha : a < g.blockCount) :
    d.forward g a b = true ↔ ∃ p, g.Path a b p ∧ ∀ c ∈ p, c ∉ d.strict a := by
  have hself : a ∉ d.strict a := fun h => (mem_strict.1 h).2 rfl
  unfold forward reachesForward
  dsimp only
  by_cases hab : a = b
  · subst hab
    rw [if_pos rfl]
    exact iff_of_true rfl ⟨[a], .stay ha, fun c hc => List.mem_singleton.1 hc ▸ hself⟩
  · rw [if_neg hab]
    by_cases hbefore : b ∈ d.strict a
    · rw [if_pos hbefore]
      refine iff_of_false Bool.false_ne_true ?_
      rintro ⟨p, hp, hopen⟩
      exact hopen b hp.right_mem hbefore
    · rw [if_neg hbefore, if_pos ha, List.contains_iff_mem, Graph.mem_reached_iff]
      simp

theorem forward_self (ha : a < g.blockCount) : d.forward g a a = true := by
  rw [forward_iff ha]
  refine ⟨[a], .stay ha, fun c hc => ?_⟩
  rw [List.mem_singleton.1 hc]
  exact fun h => (mem_strict.1 h).2 rfl

/-- Where control goes forward to a block, it goes forward to all that the block dominates: on the way on it would come to a
strict dominator of the start only if the block dominated that one, and so were a strict dominator of the start itself. -/
theorem forward_of_forward (h : g.dominance = .ok d) (hs : s < g.blockCount) (hsa : d.forward g s a = true)
    (hab : d.dominates a b = true) : d.forward g s b = true := by
  obtain ⟨-, rfl⟩ | ⟨entry, -, -, hmem⟩ := Graph.dominance_eq_ok h
  · exact absurd hab not_dominates_empty
  · have hdom := (hmem a b).1 (dominates_iff.1 hab)
    obtain ⟨w, hw⟩ := hdom.1
    obtain ⟨q, hq, haq⟩ := hw.exists_from_last (hdom.2 w hw)
    rw [forward_iff hs] at hsa ⊢
    have ha : a ∉ d.strict s := by
      obtain ⟨p, hp, hopen⟩ := hsa
      exact hopen a hp.right_mem
    have hclear : ∀ c ∈ a :: q, c ∉ d.strict s := by
      intro c hc hstrict
      have hca : c ≠ a := fun hca => ha (hca ▸ hstrict)
      have hcs := (hmem c s).1 (dominates_iff.1 (mem_strict.1 hstrict).1)
      obtain ⟨q', hq', hqq'⟩ : ∃ q', g.Path c b q' ∧ q' ⊆ q := by
        have hcq := (List.mem_cons.1 hc).resolve_left hca
        cases hq with
        | stay => cases hcq
        | step _ hrest => exact hrest.exists_from hcq
      have hac := hdom.of_path hcs.exists_path hq' fun haq' => haq (hqq' haq')
      refine ha (mem_strict.2 ⟨dominates_iff.2 ((hmem a s).2 (hac.trans hcs)), fun has => ?_⟩)
      subst has
      exact hca (hcs.antisymm hac)
    apply hq.transport (R := fun x => ∃ p, g.Path s x p ∧ ∀ c ∈ p, c ∉ d.strict s) hsa
    rintro x y - hy hxy ⟨p, hp, hopen⟩
    refine ⟨_, hp.snoc hxy, fun c hc => ?_⟩
    rcases List.mem_append.1 hc with hc | hc
    · exact hopen c hc
    · exact List.mem_singleton.1 hc ▸ hclear y hy

theorem forward_of_dominates (h : g.dominance = .ok d) (hab : d.dominates a b = true) : d.forward g a b = true := by
  obtain ⟨-, rfl⟩ | ⟨entry, -, -, hmem⟩ := Graph.dominance_eq_ok h
  · exact absurd hab not_dominates_empty
  · obtain ⟨p, hp⟩ := ((hmem a b).1 (dominates_iff.1 hab)).exists_path
    exact forward_of_forward h (hp.lt_of_mem hp.right_mem) (forward_self (hp.lt_of_mem hp.right_mem)) hab

/-- **Control goes forward around the strict dominators of its start.** From a block of a graph that is entered at one of its
blocks, control comes forward to another one if and only if a path leads there on which no block strictly dominates the first
one. So it comes to all blocks that the first one dominates and to none that strictly dominates it, and from a block that
control never reaches it comes wherever a path leads. -/
theorem forward_goes_around_strict_dominators (g : Graph) (entry : Nat) (he : g.entry = some entry)
    (hlt : entry < g.blockCount) :
    ∃ doms, g.dominance = .ok doms ∧ ∀ a < g.blockCount, ∀ b, ∃ answer, doms.reachesForward g a b = .ok answer ∧
      (answer = true ↔ ∃ p, g.Path a b p ∧ ∀ c ∈ p, ¬ (g.Dominates entry c a ∧ c ≠ a)) ∧
      (g.Dominates entry a b → answer = true) ∧
      (g.Dominates entry b a ∧ b ≠ a → answer = false) ∧
      ((¬∃ p, g.Path entry a p) → (answer = true ↔ ∃ p, g.Path a b p)) := by
  obtain ⟨doms, hok, hmem, -⟩ := Graph.dominance_of_entry he hlt
  refine ⟨doms, hok, fun a ha b => ⟨doms.forward g a b, reachesForward_eq ha b, ?_⟩⟩
  have hstrict (c : Nat) : c ∈ doms.strict a ↔ g.Dominates entry c a ∧ c ≠ a := by
    rw [mem_strict, dominates_iff, hmem]
  have hforward : doms.forward g a b = true ↔ ∃ p, g.Path a b p ∧ ∀ c ∈ p, ¬ (g.Dominates entry c a ∧ c ≠ a) := by
    simp only [forward_iff ha, hstrict]
  refine ⟨hforward, fun hab => ?_, fun hba => ?_, fun hno => ?_⟩
  · exact forward_of_dominates hok (dominates_iff.2 ((hmem a b).2 hab))
  · rw [← Bool.not_eq_true, hforward]
    rintro ⟨p, hp, hclear⟩
    exact hclear b hp.right_mem hba
  · -- what control never reaches has no dominators to go around
    rw [hforward]
    exact exists_congr fun p => and_iff_left fun c _ hc => hno hc.1.1

/-- A loop of blocks 0, 1 and 2, left from 2 for 5; block 3 handles block 1, and block 4 behind it goes back to the head of the
loop or on to 5. Control never reaches block 6, which leads into the handler. -/
def loopWithHandler : Graph where
  blocks := #[{}, { guard := some 0 }, {}, {}, {}, {}, {}]
  edges := #[⟨0, 1, .fall⟩, ⟨1, 2, .fall⟩, ⟨1, 3, .exception⟩, ⟨2, 0, .whenTrue⟩, ⟨2, 5, .whenFalse⟩, ⟨3, 4, .fall⟩,
    ⟨4, 0, .whenTrue⟩, ⟨4, 5, .whenFalse⟩, ⟨6, 4, .jump⟩]
  entry := some 0
  edges_inside := by decide

/-- The handler goes forward to the block behind the loop, though it does not dominate it, and to nothing in the loop, to which
it only comes through the head. From the block that is never reached control comes to the head as well. -/
theorem forward_goes_around_strict_dominators_loopWithHandler :
    (∃ p, loopWithHandler.Path 3 5 p ∧ ∀ c ∈ p, ¬ (loopWithHandler.Dominates 0 c 3 ∧ c ≠ 3)) ∧
      ¬ loopWithHandler.Dominates 0 3 5 ∧
      (¬∃ p, loopWithHandler.Path 3 2 p ∧ ∀ c ∈ p, ¬ (loopWithHandler.Dominates 0 c 3 ∧ c ≠ 3)) ∧
      (¬∃ p, loopWithHandler.Path 0 6 p) ∧ ∃ p, loopWithHandler.Path 6 0 p := by
  obtain ⟨doms, hok, hforward⟩ := forward_goes_around_strict_dominators loopWithHandler 0 rfl (by decide)
  have hrun : loopWithHandler.dominance.map (fun doms => (doms.reachesForward loopWithHandler 3 5,
      doms.reachesForward loopWithHandler 3 2, doms.reachesForward loopWithHandler 6 0)) =
      .ok (.ok true, .ok false, .ok true) := by
    decide +kernel
  rw [hok] at hrun
  obtain ⟨hbehind, hinside, hhead⟩ := by simpa [Except.map] using hrun
  obtain ⟨answer, hanswer, hto5, -⟩ := hforward 3 (by decide) 5
  obtain rfl := Except.ok.inj (hbehind.symm.trans hanswer)
  obtain ⟨answer, hanswer, hto2, -⟩ := hforward 3 (by decide) 2
  obtain rfl := Except.ok.inj (hinside.symm.trans hanswer)
  obtain ⟨answer, hanswer, -, -, hbefore, hplain⟩ := hforward 6 (by decide) 0
  obtain rfl := Except.ok.inj (hhead.symm.trans hanswer)
  have haround : loopWithHandler.Path 0 5 [0, 1, 2, 5] :=
    .step (by decide) (.step (by decide) (.step (by decide) (.stay (by decide))))
  have hunreached : ¬∃ p, loopWithHandler.Path 0 6 p :=
    fun ⟨p, hp⟩ => absurd (hbefore ⟨.of_entry hp, by decide⟩) (by decide)
  refine ⟨hto5.1 rfl, fun hdom => ?_, fun hpath => absurd (hto2.2 hpath) (by decide), hunreached, (hplain hunreached).1 rfl⟩
  exact absurd (hdom.2 _ haround) (by decide)

end GuardedRegions.Dominance
