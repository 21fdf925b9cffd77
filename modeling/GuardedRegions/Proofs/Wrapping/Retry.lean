import GuardedRegions.Proofs.Wrapping.Fate
import GuardedRegions.Proofs.Wrapping.Settled

/-!
# Reconstructing what was given up

A second reconstruction finds pending what the first one gave up, and nothing else (`Outcome.perm_failures`). It ends without
error, as the first one has given up no more try-blocks in a region than it was allowed sweeps. It may succeed where the first
one failed: other carvings have moved the children that stood in its way into regions of their own. This can only happen to a
try-block that was misplaced from the start: its dominator had a child in front of it that it dominates
(`Outcome.misplaced_of_gained`).
-/

namespace GuardedRegions

namespace Method

variable {m m' m'' : Method} {doms : Dominance} {options : Options} {found found' : Search} {texts texts' : List String}
  {made made' : List (Nat × Nat)} {x y : Progress} {summary summary' : Summary} {e : Nat × Nat} {id n : Nat}

/-- Among the children in front of the block where a try-block begins is one that the block dominates. -/
def Misplaced (m : Method) (doms : Dominance) (id : Nat) : Prop :=
  ∃ d r front c behind, m.beginning? doms id = some d ∧ m.tree.childrenOf r = front ++ .block d :: behind ∧ c ∈ front ∧
    m.tree.isDominated doms d c = .ok true

namespace Outcome

theorem not_made_of_failed (h : m.Outcome doms found texts made x m' summary) (he : e ∈ x.failures) {e' : Nat × Nat}
    (he' : e' ∈ made) : e'.2 ≠ e.2 := by
  intro heq
  refine (List.nodup_append.1 h.nodup).2.2 e'.2 (List.mem_map_of_mem he') e.2 ?_ heq
  exact List.mem_append_left _ (List.mem_map_of_mem he)

theorem contender_of_failed (h : m.Outcome doms found texts made x m' summary) (he : e ∈ x.failures) :
    e.2 ∈ m'.contenders doms := by
  have hentry := h.ledger.mem_of_failed he
  obtain ⟨hcontender, hbegins⟩ := h.contender_of_entry hentry
  obtain ⟨huse, htag, hfree⟩ := mem_contenders_iff.1 hcontender
  refine mem_contenders_iff.2 ⟨by rwa [h.method], fun hmem => ?_, fun d hd => ?_⟩
  · rcases h.mem_tags_iff.1 hmem with hold | ⟨e', he', heq⟩
    · exact htag hold
    · exact h.not_made_of_failed he he' heq
  · rw [h.beginning?_eq, hbegins] at hd
    obtain rfl := Option.some.inj hd
    rw [← Bool.not_eq_true]
    intro hclaims
    obtain ⟨other, hother, hmem, hbegins'⟩ := claims_iff.1 hclaims
    rw [h.beginning?_eq] at hbegins'
    rcases h.mem_tags_iff.1 hmem with hold | ⟨e', he', rfl⟩
    · have := hfree e.1 hbegins
      rw [claims_iff.2 ⟨other, by rwa [h.method] at hother, hold, hbegins'⟩] at this
      cases this
    · -- two entries under one dominator
      have hentry' := h.ledger.mem_of_made he'
      have hd := (h.contender_of_entry hentry').2
      rw [hbegins', Option.some.injEq] at hd
      exact h.not_made_of_failed he he' (by rw [Pending.eq_of_fst_eq hentry hentry' hd])

/-- **What was given up is pending again**, and nothing else is. -/
theorem perm_failures (h : m.Outcome doms found texts made x m' summary)
    (hplaced : Search.Placed m' doms (m'.contenders doms).toList found' texts') :
    found'.pending.entries.Perm x.failures := by
  have hnd : x.failures.Nodup := by
    have hall := h.entries.nodup_iff.2 found.pending.nodup_entries
    exact (List.nodup_append.1 hall).2.1
  -- of the contenders that begin at a dominator, the first is one for both reconstructions
  have hfirst : ∀ e ∈ x.failures, found'.pending.get? e.1 = some e.2 := by
    intro e he
    obtain ⟨-, hbegins, hleast⟩ := h.placed.get?_eq_some_iff.1 (Pending.get?_eq_some_iff.2 (h.ledger.mem_of_failed he))
    refine hplaced.get?_eq_some_iff.2 ⟨h.contender_of_failed he, by rwa [h.beginning?_eq], fun j hj hbegin => ?_⟩
    exact hleast j (h.contender_of_contender hj) (by rwa [h.beginning?_eq] at hbegin)
  refine (List.perm_ext_iff_of_nodup found'.pending.nodup_entries hnd).2 fun e => ⟨fun he => ?_, fun he => ?_⟩
  · have hget := Pending.get?_eq_some_iff.2 he
    obtain ⟨hcontender, hbegins, -⟩ := hplaced.get?_eq_some_iff.1 hget
    obtain ⟨e', he', hbegin⟩ := h.exists_failure_of_contender hcontender
    rw [h.beginning?_eq, hbegin, Option.some.injEq] at hbegins
    have hget' := hfirst e' he'
    rw [hbegins, hget, Option.some.injEq] at hget'
    rwa [Prod.ext hbegins.symm hget']
  · exact Pending.get?_eq_some_iff.1 (hfirst e he)

theorem holds_of_failed (h : m.Outcome doms found texts made x m' summary) (hw : m.tree.WellFormed)
    (he : e ∈ x.failures) : m.tree.Holds e.1 := by
  by_contra hno
  have hleft := h.steps.get?_eq hw hno
  rw [Pending.get?_eq_some_iff.2 (h.ledger.mem_of_failed he), Pending.get?_eq_some_iff] at hleft
  have hnil : x.pending.entries = [] := List.isEmpty_iff.1 h.drained
  rw [hnil] at hleft
  cases hleft

theorem handlersExist (h : m.Outcome doms found texts made x m' summary) (hh : m.HandlersExist) : m'.HandlersExist := by
  rw [h.method]
  exact hh

/-- **A second reconstruction ends without error.** -/
theorem second_ok (h : m.Outcome doms found texts made x m' summary) (hw : m.tree.WellFormed) (hh : m.HandlersExist)
    (hidle : (m'.hasNoCode || !m'.hasTryBlocks) = false) (hdoms : m'.graph.dominance = .ok doms)
    (hcount : ∀ q, x.tree.countIn x.failures q ≤ options.passLimit + 1) :
    ∃ done summary', m'.reconstruct options = .ok done ∧ done.result = .ok summary' := by
  obtain ⟨searched, texts', hsearch, hmethod, ⟨-, found', hfound, hplaced⟩ | ⟨hno, -⟩⟩ := search_ok h.wellFormed doms
  · have hperm := h.perm_failures hplaced
    have htree : searched.method.tree = x.tree := by rw [hmethod, h.tree]
    have hw' : searched.method.tree.WellFormed := htree ▸ h.ledger.wellFormed
    have hmarked : Marked m' searched.method := hmethod ▸ ⟨rfl, rfl, rfl, rfl⟩
    have hh' : searched.method.HandlersExist := hmarked.handlersExist (h.handlersExist hh)
    obtain ⟨resolved, hrun⟩ := resolve_of_load hw' hh' doms found'.pending options.passLimit
      (fun e he => by
        rw [htree, (h.steps.extends hw).holds_iff hw]
        exact h.holds_of_failed hw (hperm.mem_iff.1 he))
      (Pending.load_le_iff.2 fun q => by
        rw [Pending.waitingIn, hperm.countP_eq, htree]
        exact hcount q)
    obtain ⟨events, hok⟩ :=
      reconstruct_of_found h.wellFormed (h.handlersExist hh) hidle hdoms hsearch hmethod hfound hrun
    exact ⟨_, _, hok, rfl⟩
  · exact absurd h.locatable' hno

theorem retried (h : m.Outcome doms found texts made x m' summary)
    (h' : m'.Outcome doms found' texts' made' y m'' summary') : summary'.wrapped + summary'.failed = summary.failed := by
  have hlength := (h'.entries.trans (h.perm_failures h'.placed)).length_eq
  rw [List.length_append] at hlength
  rw [h'.wrapped, h'.failed, h.failed, hlength]

/-- **What gets its region from the second reconstruction is misplaced.** -/
theorem misplaced_of_gained (h : m.Outcome doms found texts made x m' summary)
    (h' : m'.Outcome doms found' texts' made' y m'' summary') (hw : m.tree.WellFormed) (hh : m.HandlersExist)
    (hgained : m'.tree.Gained m''.tree id n) : m.Misplaced doms id := by
  obtain ⟨made₁, hord⟩ := h.steps.ordered hw hh
  obtain ⟨made₂, hord'⟩ := h'.steps.ordered h.wellFormed (h.handlersExist hh)
  rw [h'.tree, hord'.gained_iff] at hgained
  obtain ⟨-, e, hk, rfl⟩ := hgained
  have he : e ∈ made₂ := List.mem_of_getElem? hk
  have hfailed : e ∈ x.failures := (h.perm_failures h'.placed).mem_iff.1 (hord'.mem_of_made he)
  have hno : ¬ ∃ r, m.tree.Leads doms e.1 r := by
    intro hlead
    refine hord.failures_not_carvable e hfailed hlead ?_
    -- the dominator has led ever since, so that nothing has ever stood against it
    have hlead' : ∃ r, m'.tree.Leads doms e.1 r := h.tree ▸ hord.leads e.1 hlead
    obtain ⟨hseq, hreach⟩ := hord'.made_carvable e he hlead'
    rw [h.tree, hord.inSequence] at hseq
    rw [h.method] at hreach
    exact ⟨hseq, hreach⟩
  obtain ⟨r, hr⟩ := h.holds_of_failed hw hfailed
  obtain ⟨front, c, behind, hcs, hc, hdom⟩ := hw.exists_front_of_not_leads hr fun hlead => hno ⟨r, hlead⟩
  have hhas : m.tree.Has c := hw.has_of_mem (hcs ▸ List.mem_append_left _ hc)
  refine ⟨e.1, r, front, c, behind, (h.contender_of_entry (h.ledger.mem_of_failed hfailed)).2, hcs, hc, ?_⟩
  rw [hw.isDominated_eq hhas, hdom]

end Outcome

end Method

end GuardedRegions
