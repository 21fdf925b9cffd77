import GuardedRegions.Proofs.Document.Build
import GuardedRegions.Proofs.Flow.Nearest
import GuardedRegions.Proofs.Wrapping.Settled

/-!
# How a reconstruction fails

Two things end a reconstruction early: a search that cannot locate a try-block, and the limit of its run. On a method that is
built from a description every try-block that guards a block is in the list, and blocks have a nearest common dominator as soon
as control reaches all of them. So only code that control never reaches keeps a search from its end, and as such code has no
dominators at all, the error names no block.
-/

namespace GuardedRegions

namespace Method

variable {m : Method} {doms : Dominance} {entry id : Nat}

/-- What a reconstruction comes to where there is something to do: if all try-blocks can be located, it ends without error or
at the limit; if not, with what is wrong with one of them, and then it has done nothing but to warn. -/
theorem reconstruct_ends (hw : m.tree.WellFormed) (hh : m.HandlersExist) (hidle : (m.hasNoCode || !m.hasTryBlocks) = false)
    (hdoms : m.graph.dominance = .ok doms) (options : Options) :
    ∃ done, m.reconstruct options = .ok done ∧
      (m.Locatable doms ∧ (∀ e, done.result = .error e → ∃ passes, e = .wrapLimitReached m.name passes) ∨
        ¬ m.Locatable doms ∧ ∃ e texts, m.Unlocatable doms e ∧ done.result = .error e ∧
          done.method = { m with warnings := m.warnings ++ texts } ∧
          ∀ text ∈ texts, ∃ id, Warning.SaysDropped id text) := by
  obtain ⟨searched, texts, hsearch, hmethod, hsearched⟩ := search_ok hw doms
  rcases hsearched with ⟨hlocatable, found, hfound, -⟩ | ⟨hno, e, herror, hfails, htexts⟩
  · have hmarked : Marked m searched.method := hmethod ▸ ⟨rfl, rfl, rfl, rfl⟩
    obtain ⟨resolved, result, x, hrun, -, hx⟩ :=
      resolve_ok (hmarked.tree ▸ hw) (hmarked.handlersExist hh) doms found.pending options.passLimit
    obtain ⟨events, hok⟩ := reconstruct_of_found hw hh hidle hdoms hsearch hmethod hfound hrun
    refine ⟨_, hok, Or.inl ⟨hlocatable, fun e he => ?_⟩⟩
    obtain ⟨n, -, -, ⟨-, hresult⟩ | ⟨-, -, hresult⟩⟩ := Resolution.exists_sweeps hrun
    · rw [hresult] at he
      cases he
    · rw [hresult] at he
      have hname : resolved.method.name = m.name := hx.marked.name.trans hmarked.name
      exact ⟨_, (Except.error.inj he).symm.trans (by rw [hname])⟩
  · obtain ⟨events, hok⟩ := reconstruct_of_unlocatable hw hidle hdoms hsearch herror options
    exact ⟨_, hok, Or.inr ⟨hno, e, texts, hfails, rfl, hmethod, htexts⟩⟩

/-- A try-block that is the tag of no region guards a block that control never reaches. -/
def GuardsUnreached (m : Method) (tb : TryBlock) : Prop :=
  (∀ r region, m.tree.get? r = some region → region.tryBlock ≠ some tb.id) ∧
    ∃ entry b, m.graph.entry = some entry ∧ m.graph.guardOf b = some tb.id ∧ ¬∃ p, m.graph.Path entry b p

theorem not_mem_tags_iff {tag : Option Nat} :
    tag ∉ m.tree.tags ↔ ∀ r region, m.tree.get? r = some region → region.tryBlock ≠ tag := by
  simp only [List.mem_iff_getElem?, RegionTree.getElem?_tags_eq_some_iff, not_exists, not_and, ne_eq]

theorem beginning?_ne_none (hmem : ∀ a b, a ∈ doms.dominators b ↔ m.graph.Dominates entry a b)
    (huse : id ∈ m.graph.tryBlocksInUse) (hreached : ∀ b, m.graph.guardOf b = some id → ∃ p, m.graph.Path entry b p) :
    m.beginning? doms id ≠ none := by
  obtain ⟨b, hb⟩ := Graph.mem_tryBlocksInUse.1 huse
  have hne : (m.graph.guardedBy id).toList ≠ [] := List.ne_nil_of_mem (Graph.mem_guardedBy.2 hb)
  obtain ⟨n, hn, -⟩ := Dominance.nearest_of_reached hmem hne fun b hb => hreached b (Graph.mem_guardedBy.1 hb)
  rw [beginning?, hn]
  exact Option.some_ne_none n

/-- If it does not reach all of them, nothing is left of their common dominators. -/
theorem nearest_eq_error (hmem : ∀ a b, a ∈ doms.dominators b ↔ m.graph.Dominates entry a b) {b : Nat}
    (hb : m.graph.guardOf b = some id) (hno : ¬∃ p, m.graph.Path entry b p) :
    doms.nearest (m.graph.guardedBy id).toList = .error ∅ :=
  Dominance.nearest_of_unreached hmem (Graph.mem_guardedBy.2 hb) hno

end Method

namespace Description

variable {d : Description} {m : Method} {doms : Dominance} {entry : Nat}

/-- **What keeps a search from its end** on a method that was built: a block that control never reaches. -/
theorem Built.not_locatable_iff (h : d.Built m) (he : m.graph.entry = some entry)
    (hmem : ∀ a b, a ∈ doms.dominators b ↔ m.graph.Dominates entry a b) :
    ¬ m.Locatable doms ↔ ∃ tb ∈ m.tryBlocks, m.GuardsUnreached tb := by
  constructor
  · intro hno
    by_contra hnone
    refine hno ⟨fun id hid => ?_, fun id hid htag => ?_⟩
    · obtain ⟨b, hb⟩ := Graph.mem_tryBlocksInUse.1 hid
      exact (h.ids id).2 (h.guards b id hb)
    · apply Method.beginning?_ne_none hmem hid
      intro b hb
      by_contra hunreached
      obtain ⟨tb, htb⟩ := Option.ne_none_iff_exists'.1 ((h.ids id).2 (h.guards b id hb))
      obtain rfl : tb.id = id := by simpa using List.find?_some htb
      exact hnone ⟨tb, List.mem_of_find?_eq_some htb, Method.not_mem_tags_iff.1 htag, entry, b, he, hb, hunreached⟩
  · rintro ⟨tb, -, htag, first, b, hfirst, hb, hunreached⟩ hl
    obtain rfl : entry = first := Option.some.inj (he.symm.trans hfirst)
    apply hl.located tb.id (Graph.mem_tryBlocksInUse.2 ⟨b, hb⟩) (Method.not_mem_tags_iff.2 htag)
    exact Method.beginning?_eq_none (Method.nearest_eq_error hmem hb hunreached)

theorem Built.eq_of_unlocatable (h : d.Built m) (hmem : ∀ a b, a ∈ doms.dominators b ↔ m.graph.Dominates entry a b)
    {e : Error} (he : m.Unlocatable doms e) : e = .structuralInconsistency m.name [] := by
  cases he with
  | @unknown id hid hnone =>
    obtain ⟨b, hb⟩ := Graph.mem_tryBlocksInUse.1 hid
    exact absurd hnone ((h.ids id).2 (h.guards b id hb))
  | @nowhere id residual hid _ hnearest _ =>
    have hunreached : ∃ b, m.graph.guardOf b = some id ∧ ¬∃ p, m.graph.Path entry b p := by
      by_contra hnone
      apply Method.beginning?_ne_none hmem hid
      · intro b hb
        by_contra hno
        exact hnone ⟨b, hb, hno⟩
      · exact Method.beginning?_eq_none hnearest
    obtain ⟨b, hb, hno⟩ := hunreached
    rw [Method.nearest_eq_error hmem hb hno] at hnearest
    rw [← Except.error.inj hnearest]
    rfl

/-- **How the reconstruction of a described method fails.** It always comes to an end, and an error is one of two: the limit
of its sweeps, or blocks without nearest common dominator. The latter comes up exactly if there are code and try-blocks and
some try-block that is the tag of no region guards a block that control never reaches. It then names no block, and nothing of
the method has changed, but for warnings of try-blocks that were dropped. -/
theorem reconstruction_fails_on_unreached_code (h : d.toMethod = .ok m) (options : Options) :
    ∃ done, m.reconstruct options = .ok done ∧
      (∀ e, done.result = .error e →
        e = .structuralInconsistency m.name [] ∨ ∃ passes, e = .wrapLimitReached m.name passes) ∧
      ((∃ name blocks, done.result = .error (.structuralInconsistency name blocks)) ↔
        m.hasNoCode = false ∧ m.hasTryBlocks = true ∧ ∃ tb ∈ m.tryBlocks, m.GuardsUnreached tb) ∧
      ((∃ name blocks, done.result = .error (.structuralInconsistency name blocks)) →
        ∃ texts, done.method = { m with warnings := m.warnings ++ texts } ∧
          ∀ text ∈ texts, ∃ id, Warning.SaysDropped id text) := by
  have hbuilt := built_of_toMethod h
  cases hidle : m.hasNoCode || !m.hasTryBlocks with
  | true =>
    have hbusy : ¬(m.hasNoCode = false ∧ m.hasTryBlocks = true ∧ ∃ tb ∈ m.tryBlocks, m.GuardsUnreached tb) := by
      rintro ⟨hcode, htries, -⟩
      rw [hcode, htries] at hidle
      cases hidle
    refine ⟨_, Method.reconstruct_of_idle hidle options, fun e he => (by cases he), ?_, ?_⟩
    · refine iff_of_false ?_ hbusy
      rintro ⟨name, blocks, he⟩
      cases he
    · rintro ⟨name, blocks, he⟩
      cases he
  | false =>
    obtain ⟨hcode, htries⟩ := Bool.or_eq_false_iff.1 hidle
    have htries : m.hasTryBlocks = true := by simpa using htries
    obtain ⟨graph, tryBlocks, tree, hgraph, -, -, rfl⟩ := toMethod_eq_ok_iff.1 h
    obtain ⟨entry, he⟩ := exists_entry_of_buildGraph hgraph hcode
    obtain ⟨doms, hdoms, hmem, -⟩ := Graph.dominance_of_entry he (entry_lt_of_buildGraph hgraph entry he)
    have hiff := hbuilt.not_locatable_iff he hmem
    obtain ⟨done, hok, ⟨hl, hlimit⟩ | ⟨hno, e, texts, hfails, hresult, hmethod, htexts⟩⟩ :=
      Method.reconstruct_ends hbuilt.wellFormed hbuilt.handlersExist hidle hdoms options
    · have hnot : ¬∃ name blocks, done.result = .error (.structuralInconsistency name blocks) := by
        rintro ⟨name, blocks, hresult⟩
        obtain ⟨passes, heq⟩ := hlimit _ hresult
        cases heq
      refine ⟨done, hok, fun e he => Or.inr (hlimit e he), iff_of_false hnot ?_, fun h => absurd h hnot⟩
      rintro ⟨-, -, hguards⟩
      exact hiff.2 hguards hl
    · obtain rfl := hbuilt.eq_of_unlocatable hmem hfails
      have hinconsistent : ∃ name blocks, done.result = .error (.structuralInconsistency name blocks) := ⟨_, _, hresult⟩
      refine ⟨done, hok, fun e he => Or.inl ?_, ?_, fun _ => ⟨texts, hmethod, htexts⟩⟩
      · rw [hresult] at he
        exact (Except.error.inj he).symm
      · exact iff_of_true hinconsistent ⟨hcode, htries, hiff.1 hno⟩

/-- A method whose first two try-blocks begin at its entry. The third one protects block 5, to which no edge leads. -/
def unreachedTry : Description where
  name := "unreached"
  blocks := [{}, { guard := some 0 }, { guard := some 0 }, { guard := some 1 }, { guard := some 1 }, { guard := some 2 }, {}]
  edges := [⟨0, 1, .switchCase 0⟩, ⟨0, 2, .switchCase 1⟩, ⟨0, 3, .switchCase 2⟩, ⟨0, 4, .switchDefault⟩, ⟨1, 6, .exception⟩]
  tryBlocks := [[⟨none, 6⟩], [⟨none, 6⟩], [⟨none, 6⟩]]
  regions := { contents := .block 0 (.block 1 (.block 2 (.block 3 (.block 4 (.block 5 (.block 6 .nil)))))) }

/-- The second try-block is dropped before the search comes to the third one. -/
theorem reconstruction_fails_on_unreached_code_unreachedTry :
    ∃ m done, unreachedTry.toMethod = .ok m ∧ m.reconstruct {} = .ok done ∧
      done.result = .error (.structuralInconsistency "unreached" []) ∧ (∃ tb ∈ m.tryBlocks, m.GuardsUnreached tb) ∧
      ∃ text, done.method = { m with warnings := [text] } ∧ ∃ id, Warning.SaysDropped id text := by
  have hrun : (unreachedTry.toMethod.toOption.bind fun m => (m.reconstruct {}).toOption.map fun done =>
      (m.name, m.warnings, decide (done.result = .error (.structuralInconsistency "unreached" [])), done.method.warnings)) =
      some ("unreached", [], true, [Warning.dropped 1 0 0]) := by decide +kernel
  simp only [Option.bind_eq_some_iff, Option.map_eq_some_iff, toOption_eq_some_iff, Prod.mk.injEq] at hrun
  obtain ⟨m, hm, done, hdone, hname, hbefore, hresult, hwarnings⟩ := hrun
  have hresult := of_decide_eq_true hresult
  obtain ⟨done', hok, -, hiff, hleft⟩ := reconstruction_fails_on_unreached_code hm {}
  obtain rfl : done' = done := Except.ok.inj (hok.symm.trans hdone)
  obtain ⟨texts, hmethod, htexts⟩ := hleft ⟨_, _, hresult⟩
  obtain rfl : texts = [Warning.dropped 1 0 0] := by
    rw [hmethod, hbefore] at hwarnings
    exact hwarnings
  refine ⟨m, done', hm, hdone, hresult, (hiff.1 ⟨_, _, hresult⟩).2.2, Warning.dropped 1 0 0, ?_, htexts _ List.mem_cons_self⟩
  rw [hmethod, hbefore]
  rfl

end Description

end GuardedRegions
