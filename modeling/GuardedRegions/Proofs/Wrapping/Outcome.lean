import GuardedRegions.Proofs.Wrapping.Ledger
import GuardedRegions.Proofs.Wrapping.Limit
import GuardedRegions.Proofs.Wrapping.Refused
import GuardedRegions.Proofs.Wrapping.Validity

/-!
# What a reconstruction without error has done

A reconstruction searches the contenders, makes a run with those that are pending, and counts. `Method.Outcome` puts together
what the search found, the books of the run and the method that is left; every reconstruction without error has an outcome
(`Method.exists_outcome`). By the books each contender has a region, was given up or was dropped (`Outcome.perm`).
-/

namespace GuardedRegions

namespace Method

/-- What the search has found, what the run has made of it, and the method and the counts that are left. -/
structure Outcome (m : Method) (doms : Dominance) (found : Search) (texts : List String) (made : List (Nat × Nat))
    (x : Progress) (m' : Method) (summary : Summary) : Prop where
  locatable : m.Locatable doms
  placed : Search.Placed m doms (m.contenders doms).toList found texts
  steps : Progress.Steps m.graph doms m.tryBlocks { tree := m.tree, pending := found.pending } x
  ledger : Progress.Ledger m.tree found.pending made x
  drained : x.pending.isEmpty = true
  method : m' = { m with
    tree := x.tree
    inconsistentCode := m.inconsistentCode || !x.failures.isEmpty
    warnings := m.warnings ++ texts ++ x.failures.map fun e => Warning.givenUp e.2 e.1 }
  wrapped : summary.wrapped = made.length
  failed : summary.failed = x.failures.length
  dropped : summary.dropped = found.dropped.length

variable {m m' : Method} {doms : Dominance} {options : Options} {found : Search} {texts : List String}
  {made : List (Nat × Nat)} {x : Progress} {summary : Summary}

theorem reconstruct_of_found (hw : m.tree.WellFormed) (hh : m.HandlersExist) (hidle : (m.hasNoCode || !m.hasTryBlocks) = false)
    (hdoms : m.graph.dominance = .ok doms) {searched : Search.Run (Except Error Search)}
    (hsearch : m.search doms = .ok searched) (hmethod : searched.method = { m with warnings := m.warnings ++ texts })
    (hfound : searched.found = .ok found) {resolved : Resolution} {result : Except Error Tally}
    (hrun : searched.method.resolve doms found.pending options.passLimit = .ok (resolved, result)) :
    ∃ events, m.reconstruct options = .ok {
      method := resolved.method
      result := result.map fun tally =>
        { wrapped := tally.wrapped, failed := tally.failed, dropped := found.dropped.length, passes := tally.passes }
      events } := by
  have hmarked : Marked m searched.method := hmethod ▸ ⟨rfl, rfl, rfl, rfl⟩
  have hw' : searched.method.tree.WellFormed := hmarked.tree ▸ hw
  unfold reconstruct
  rw [if_neg (by simp [hidle]), check_eq_ok hw]
  simp only [hdoms, hsearch, ok_bind, hfound]
  exact ⟨_, reconstructFrom_eq hw' (hmarked.handlersExist hh) hrun _⟩

theorem reconstruct_of_unlocatable (hw : m.tree.WellFormed) (hidle : (m.hasNoCode || !m.hasTryBlocks) = false)
    (hdoms : m.graph.dominance = .ok doms) {searched : Search.Run (Except Error Search)}
    (hsearch : m.search doms = .ok searched) {e : Error} (he : searched.found = .error e) (options : Options) :
    ∃ events, m.reconstruct options = .ok { method := searched.method, result := .error e, events } := by
  unfold reconstruct
  rw [if_neg (by simp [hidle]), check_eq_ok hw]
  simp only [hdoms, hsearch, ok_bind, he]
  exact ⟨_, rfl⟩

/-- **A reconstruction without error has an outcome**, and has given up no more try-blocks in a region than it may make
sweeps. -/
theorem exists_outcome (hw : m.tree.WellFormed) (hh : m.HandlersExist) (hidle : (m.hasNoCode || !m.hasTryBlocks) = false)
    (hdoms : m.graph.dominance = .ok doms) {done : Reconstruction} (h : m.reconstruct options = .ok done)
    (hs : done.result = .ok summary) :
    ∃ found texts made x, m.Outcome doms found texts made x done.method summary ∧
      ∀ q, x.tree.countIn x.failures q ≤ options.passLimit + 1 := by
  obtain ⟨searched, texts, hsearch, hmethod, hfound⟩ := search_ok hw doms
  rcases hfound with ⟨hlocatable, found, hfound, hplaced⟩ | ⟨-, e, he, -⟩
  · have hmarked : Marked m searched.method := hmethod ▸ ⟨rfl, rfl, rfl, rfl⟩
    obtain ⟨resolved, result, y, hrun, hsteps, hy, hrefused⟩ :=
      resolve_refused (hmarked.tree ▸ hw) (hmarked.handlersExist hh) doms found.pending options.passLimit
    obtain ⟨events, hok⟩ := reconstruct_of_found hw hh hidle hdoms hsearch hmethod hfound hrun
    obtain rfl := Except.ok.inj (hok.symm.trans h)
    cases result with
    | error e => cases hs
    | ok tally =>
      obtain ⟨hempty, htally⟩ := Resolution.of_run_eq_ok hrun
      have hresolved := hy.method
      rw [hmethod] at hsteps hresolved
      obtain ⟨made, hledger⟩ := hsteps.ledger hw
      obtain rfl := (Except.ok.inj hs).symm
      refine ⟨found, texts, made, y, ⟨hlocatable, hplaced, hsteps, hledger, hy.pending ▸ hempty, ?_, ?_, ?_, rfl⟩, hrefused⟩
      · rw [hresolved, Resolution.foldl_giveUp_eq]
      · show tally.wrapped = made.length
        rw [← htally, hy.wrapped, hledger.wrapped]
      · show tally.failed = y.failures.length
        rw [← htally, hy.failed]
  · obtain ⟨events, hok⟩ := reconstruct_of_unlocatable hw hidle hdoms hsearch he options
    obtain rfl := Except.ok.inj (hok.symm.trans h)
    cases hs

namespace Outcome

variable {id d : Nat}

theorem tree (h : m.Outcome doms found texts made x m' summary) : m'.tree = x.tree := by rw [h.method]

theorem size (h : m.Outcome doms found texts made x m' summary) : m'.tree.size = m.tree.size + summary.wrapped := by
  rw [h.tree, h.ledger.size, h.wrapped]

theorem tree_eq (h : m.Outcome doms found texts made x m' summary) (hnone : summary.wrapped = 0) : m'.tree = m.tree := by
  have hsize := h.size
  rw [h.tree, hnone] at hsize
  rw [h.tree]
  exact h.steps.tree_eq (Nat.le_of_eq hsize)

theorem exists_gained (h : m.Outcome doms found texts made x m' summary) {n : Nat} (hn : m.tree.size ≤ n)
    (hlt : n < m'.tree.size) : ∃ id, m.tree.Gained m'.tree id n := by
  have hk : n - m.tree.size < made.length := by
    have := h.size
    rw [h.wrapped] at this
    omega
  refine ⟨made[n - m.tree.size].2, ?_⟩
  rw [h.tree, h.ledger.gained_iff]
  exact ⟨hn, _, List.getElem?_eq_getElem hk, rfl⟩

theorem tags (h : m.Outcome doms found texts made x m' summary) :
    m'.tree.tags = m.tree.tags ++ made.map fun e => some e.2 := by
  rw [h.tree, h.ledger.tags]

theorem entries (h : m.Outcome doms found texts made x m' summary) : (made ++ x.failures).Perm found.pending.entries :=
  h.ledger.perm_of_isEmpty h.drained

/-- **Every contender has a region, was given up, or was dropped**, and each has met one of these fates. -/
theorem perm (h : m.Outcome doms found texts made x m' summary) :
    (made.map (·.2) ++ (x.failures.map (·.2) ++ found.dropped)).Perm (m.contenders doms).toList := by
  have hentries := (h.entries.map (·.2)).append_right found.dropped
  rw [List.map_append, List.append_assoc] at hentries
  exact hentries.trans h.placed.perm

theorem nodup (h : m.Outcome doms found texts made x m' summary) :
    (made.map (·.2) ++ (x.failures.map (·.2) ++ found.dropped)).Nodup := by
  refine h.perm.nodup_iff.2 ((m.contenders doms).ascending.imp ?_)
  intro a b hab
  exact Nat.ne_of_lt hab

theorem nodup_ids (h : m.Outcome doms found texts made x m' summary) : (found.pending.entries.map (·.2)).Nodup := by
  have hmap := h.entries.map (·.2)
  rw [List.map_append] at hmap
  have hnd := h.nodup
  rw [← List.append_assoc] at hnd
  exact hmap.nodup_iff.1 (List.nodup_append.1 hnd).1

theorem wellFormed (h : m.Outcome doms found texts made x m' summary) : m'.tree.WellFormed :=
  h.tree ▸ h.ledger.wellFormed

theorem bodiesOf_of_made (h : m.Outcome doms found texts made x m' summary) (hid : id ∈ made.map (·.2))
    (htag : some id ∉ m.tree.tags) : ∃ n, m'.tree.bodiesOf id = .ok [n] := by
  obtain ⟨e, he, rfl⟩ := List.mem_map.1 hid
  have hentry := h.ledger.mem_of_made he
  obtain ⟨n, hn⟩ := (h.ledger.exists_gained_iff h.nodup_ids hentry).2 he
  refine ⟨n, h.wellFormed.bodiesOf_eq_singleton_iff.2 fun r => ?_⟩
  rw [h.tree, RegionTree.getElem?_tags_eq_some_iff]
  constructor
  · intro hr
    refine h.ledger.eq_of_gained h.nodup_ids hentry ⟨?_, hr⟩ hn
    by_contra hlt
    have hold := RegionTree.getElem?_tags_eq_some_iff.2 hr
    rw [h.ledger.tags, List.getElem?_append_left (by simpa using hlt)] at hold
    exact htag (List.mem_of_getElem? hold)
  · rintro rfl
    exact hn.2

theorem bodiesOf_of_not_made (h : m.Outcome doms found texts made x m' summary) (hid : id ∉ made.map (·.2))
    (htag : some id ∉ m.tree.tags) : m'.tree.bodiesOf id = .ok [] := by
  refine h.wellFormed.bodiesOf_eq_nil_iff.2 fun hmem => ?_
  rw [h.tags, List.mem_append] at hmem
  rcases hmem with hold | hnew
  · exact htag hold
  · obtain ⟨e, he, heq⟩ := List.mem_map.1 hnew
    exact hid (List.mem_map.2 ⟨e, he, Option.some.inj heq⟩)

end Outcome

end Method

end GuardedRegions
