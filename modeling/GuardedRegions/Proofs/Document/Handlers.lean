import GuardedRegions.Proofs.Document.Build
import GuardedRegions.Proofs.Wrapping.Handlers
import GuardedRegions.Proofs.Wrapping.Traced

/-!
# Where the handlers are after a reconstruction

The region of a try-block has no entry of its own handlers among its children. One can be in a nested region that was there
before and that holds other code as well.
-/

namespace GuardedRegions.Description

open Relation

variable {d : Description} {m : Method}

/-- **A body is kept apart from its handlers, container by container.** Whatever a reconstruction comes to, no entry of a
handler of a try-block is a child of the region that was made for it. Where an entry is deeper below that region, it is not
the block where the try-block begins, which dominates it; and the nested region that it is in has a block as well to which
control cannot come from the entry but through a strict dominator of the entry. -/
theorem handlers_are_no_children (h : d.toMethod = .ok m) (options : Options) :
    ∃ done doms, m.reconstruct options = .ok done ∧ m.graph.dominance = .ok doms ∧
      ∀ n, m.tree.size ≤ n → n < done.method.tree.size → ∃ region tryBlock dominator,
        done.method.tree.get? n = some region ∧ region.tryBlock = some tryBlock.id ∧
        m.tryBlock? tryBlock.id = some tryBlock ∧ m.beginning? doms tryBlock.id = some dominator ∧
        ∀ handler ∈ tryBlock.handlers, .block handler.entry ∉ region.children ∧
          (done.method.tree.Encloses (.region n) (.block handler.entry) →
            dominator ≠ handler.entry ∧ doms.dominates dominator handler.entry = true ∧
            ∃ q b, .region q ∈ region.children ∧ done.method.tree.Encloses (.region q) (.block handler.entry) ∧
              done.method.tree.Encloses (.region q) (.block b) ∧
              ∀ p, m.graph.Path handler.entry b p → ∃ c ∈ p, c ∈ doms.strict handler.entry) := by
  have hbuilt := built_of_toMethod h
  obtain ⟨done, doms, pending, x, htraced⟩ :=
    Method.exists_traced hbuilt.wellFormed hbuilt.handlersExist hbuilt.entry options
  have hw : x.tree.WellFormed := htraced.steps.wellFormed hbuilt.wellFormed
  refine ⟨done, doms, htraced.run, htraced.dominance, ?_⟩
  rw [htraced.tree]
  intro n hn hlt
  obtain ⟨dominator, tb, -, htb, hbegins, hbody⟩ := htraced.exists_body hbuilt.wellFormed hn hlt
  obtain ⟨region, hr, -, htag⟩ := hbody.region
  have hin : tb.HandlersIn m.graph := hbuilt.handlersExist tb (List.mem_of_find?_eq_some htb)
  refine ⟨region, tb, dominator, hr, htag, htb, hbegins, fun handler hh => ?_⟩
  rw [← RegionTree.childrenOf_eq hr]
  refine ⟨hbody.entry_not_child hin hh, fun henc => ?_⟩
  obtain ⟨hne, hdom, q, b, hq, hentry, hb, hforward⟩ := hbody.exists_of_entry hw htraced.dominance hin hh henc
  refine ⟨hne, hdom, q, b, hq, hentry, hb, fun p hp => ?_⟩
  by_contra hnone
  have := (Dominance.forward_iff (hin handler hh)).2 ⟨p, hp, fun c hc hs => hnone ⟨c, hc, hs⟩⟩
  rw [hforward] at this
  cases this

/-- A method whose handler starts at block 3, which is in one region with block 2. -/
def handlerInBranch : Description where
  name := "branch"
  blocks := [{}, { guard := some 0 }, {}, {}]
  edges := [⟨0, 1, .fall⟩, ⟨1, 2, .fall⟩, ⟨1, 3, .exception⟩]
  tryBlocks := [[⟨none, 3⟩]]
  regions := { contents := .block 0 (.block 1 (.region .sequence none (.block 2 (.block 3 .nil)) .nil)) }

def handlerInBranchAfter : RegionTree where
  regions := #[
    { kind := .sequence, parent := none, children := [.block 0, .region 2] },
    { kind := .sequence, parent := some 2, children := [.block 2, .block 3] },
    { kind := .sequence, parent := some 0, children := [.block 1, .region 1], tryBlock := some 0 }]

theorem runs_handlerInBranch :
    ∃ m done, handlerInBranch.toMethod = .ok m ∧ m.reconstruct {} = .ok done ∧
      done.result = .ok { wrapped := 1, failed := 0, dropped := 0, passes := 1 } ∧ m.tree.size = 2 ∧
      m.tryBlock? 0 = some ⟨0, [⟨none, 3⟩]⟩ ∧ done.method.tree = handlerInBranchAfter := by
  have hrun : (handlerInBranch.toMethod.toOption.bind fun m => (m.reconstruct {}).toOption.bind fun done =>
      done.result.toOption.map fun summary => (summary, m.tree.size, m.tryBlock? 0, done.method.tree)) =
      some (⟨1, 0, 0, 1⟩, 2, some ⟨0, [⟨none, 3⟩]⟩, handlerInBranchAfter) := by decide +kernel
  simp only [Option.bind_eq_some_iff, Option.map_eq_some_iff, toOption_eq_some_iff, Prod.mk.injEq] at hrun
  obtain ⟨m, hm, done, hdone, summary, hsummary, rfl, hsize, htb, htree⟩ := hrun
  exact ⟨m, done, hm, hdone, hsummary, hsize, htb, htree⟩

/-- **A body may have the entry of its own handler below it.** -/
theorem handlers_may_be_below :
    ¬ ∀ (d : Description) (m : Method) (options : Options) (done : Reconstruction) (summary : Summary),
      d.toMethod = .ok m → m.reconstruct options = .ok done → done.result = .ok summary →
      ∀ n region tryBlock, m.tree.size ≤ n → done.method.tree.get? n = some region →
        region.tryBlock = some tryBlock.id → m.tryBlock? tryBlock.id = some tryBlock →
        ∀ handler ∈ tryBlock.handlers, ¬ done.method.tree.Encloses (.region n) (.block handler.entry) := by
  intro hall
  obtain ⟨m, done, hm, hdone, hresult, hsize, htb, htree⟩ := runs_handlerInBranch
  have hnone := hall _ m {} done _ hm hdone hresult 2
  rw [hsize, htree] at hnone
  have houter : .region 1 ∈ handlerInBranchAfter.childrenOf 2 := by decide
  have hinner : .block 3 ∈ handlerInBranchAfter.childrenOf 1 := by decide
  exact hnone _ ⟨0, [⟨none, 3⟩]⟩ (Nat.le_refl 2) rfl rfl htb ⟨none, 3⟩ List.mem_cons_self
    (TransGen.head houter (TransGen.single hinner))

/-- The handler of that method cannot come to all of the region with its entry in it. -/
theorem handlers_are_no_children_handlerInBranch :
    ∃ m done doms, handlerInBranch.toMethod = .ok m ∧ m.reconstruct {} = .ok done ∧
      done.method.tree = handlerInBranchAfter ∧ m.graph.dominance = .ok doms ∧
      .block 3 ∉ handlerInBranchAfter.childrenOf 2 ∧
      ∃ dominator q b, m.beginning? doms 0 = some dominator ∧ doms.dominates dominator 3 = true ∧
        .region q ∈ handlerInBranchAfter.childrenOf 2 ∧ handlerInBranchAfter.Encloses (.region q) (.block b) ∧
        ∀ p, m.graph.Path 3 b p → ∃ c ∈ p, c ∈ doms.strict 3 := by
  obtain ⟨m, done, hm, hdone, -, hsize, htb, htree⟩ := runs_handlerInBranch
  obtain ⟨done', doms, hok, hdoms, hall⟩ := handlers_are_no_children hm {}
  obtain rfl : done' = done := Except.ok.inj (hok.symm.trans hdone)
  rw [hsize, htree] at hall
  obtain ⟨region, tb, dominator, hr, htag, htb', hbegins, hhandlers⟩ := hall 2 (Nat.le_refl 2) (by decide)
  obtain rfl := Option.some.inj hr
  obtain rfl : tb = ⟨0, [⟨none, 3⟩]⟩ := by
    have hid : tb.id = 0 := (Option.some.inj htag).symm
    rw [hid, htb] at htb'
    exact (Option.some.inj htb').symm
  obtain ⟨hchild, hbelow⟩ := hhandlers ⟨none, 3⟩ List.mem_cons_self
  have houter : .region 1 ∈ handlerInBranchAfter.childrenOf 2 := by decide
  have hinner : .block 3 ∈ handlerInBranchAfter.childrenOf 1 := by decide
  obtain ⟨-, hdom, q, b, hq, -, hb, hp⟩ := hbelow (TransGen.head houter (TransGen.single hinner))
  exact ⟨m, done', doms, hm, hdone, htree, hdoms, hchild, dominator, q, b, hbegins, hdom, hq, hb, hp⟩

end GuardedRegions.Description
