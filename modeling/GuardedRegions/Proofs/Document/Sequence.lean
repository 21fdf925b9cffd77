import GuardedRegions.Proofs.Document.Build
import GuardedRegions.Proofs.Wrapping.Sequence
import GuardedRegions.Proofs.Wrapping.Traced

/-!
# The order of the code after a reconstruction

A reconstruction moves code, and only to bring together what a try-block protects: siblings that its beginning does not dominate
may stand between those that move, and they come to stand behind them.
-/

namespace GuardedRegions.Description

variable {d : Description} {m : Method}

/-- **A reconstruction only gathers code.** Whatever it comes to, the blocks of the root are afterwards those among its leaves
before, gathered for each region that was made, in the order in which they were made. Where the leaves of each such region
stood together, in the order that they have in it, no block is at another place; and where no block is at another place, the
blocks of each such region stood together. -/
theorem reconstruction_gathers_code (h : d.toMethod = .ok m) (options : Options) :
    ∃ done before after, m.reconstruct options = .ok done ∧
      m.tree.blocksOf (.region m.tree.root) = .ok before ∧
      done.method.tree.blocksOf (.region m.tree.root) = .ok after ∧
      before = (m.tree.leafList (.region m.tree.root)).filterMap Container.block? ∧
      after = (done.method.tree.gatheredBy (List.range' m.tree.size (done.method.tree.size - m.tree.size))
        (m.tree.leafList (.region m.tree.root))).filterMap Container.block? ∧
      ((∀ n, m.tree.size ≤ n → n < done.method.tree.size →
        done.method.tree.leafList (.region n) <:+: m.tree.leafList (.region m.tree.root)) → after = before) ∧
      (after = before → ∀ n, m.tree.size ≤ n → n < done.method.tree.size →
        ∃ blocks, done.method.tree.blocksOf (.region n) = .ok blocks ∧ blocks <:+: before) := by
  have hbuilt := built_of_toMethod h
  have hw := hbuilt.wellFormed
  obtain ⟨done, doms, pending, x, htraced⟩ := Method.exists_traced hw hbuilt.handlersExist hbuilt.entry options
  have hseq : Progress.Sequenced m.tree x := htraced.steps.sequenced hw
  have hw' := hseq.wellFormed
  have hafter := hw'.blocksOf_eq hw'.has_root
  rw [hseq.root] at hafter
  have hleaves := hseq.leafList_eq
  have hiff := hseq.leafList_eq_iff hw
  rw [hseq.root] at hleaves hiff
  refine ⟨done, m.tree.blockList (.region m.tree.root), x.tree.blockList (.region m.tree.root), htraced.run, ?_⟩
  rw [htraced.tree]
  refine ⟨hw.blocksOf_eq hw.has_root, hafter, RegionTree.blockList_eq_filterMap _, ?_, fun hall => ?_, fun he n hn hlt => ?_⟩
  · rw [RegionTree.blockList_eq_filterMap, hleaves]
  · rw [RegionTree.blockList_eq_filterMap, RegionTree.blockList_eq_filterMap, hiff.2 hall]
  · refine ⟨_, hw'.blocksOf_eq hlt, ?_⟩
    have hinfix := hw'.leafList_infix (hw'.reached n hlt)
    rw [← he, RegionTree.blockList_eq_filterMap, RegionTree.blockList_eq_filterMap, ← hseq.root]
    exact hinfix.filterMap _

/-- A method whose try-block protects blocks 1 and 2. Block 3 stands between them and can be reached without them. -/
def joinBetween : Description where
  name := "join"
  blocks := [{}, { guard := some 0 }, { guard := some 0 }, {}, {}]
  edges := [⟨0, 1, .whenTrue⟩, ⟨0, 3, .whenFalse⟩, ⟨1, 2, .fall⟩, ⟨1, 4, .exception⟩, ⟨2, 3, .fall⟩]
  tryBlocks := [[⟨none, 4⟩]]
  regions := { contents := .block 0 (.block 1 (.block 3 (.block 2 (.block 4 .nil)))) }

theorem runs_joinBetween :
    ∃ m done, joinBetween.toMethod = .ok m ∧ m.reconstruct {} = .ok done ∧
      done.result = .ok { wrapped := 1, failed := 0, dropped := 0, passes := 1 } ∧
      m.tree.blocksOf (.region m.tree.root) = .ok [0, 1, 3, 2, 4] ∧
      done.method.tree.blocksOf (.region m.tree.root) = .ok [0, 1, 2, 3, 4] := by
  have hrun : (joinBetween.toMethod.toOption.bind fun m => (m.reconstruct {}).toOption.bind fun done =>
      done.result.toOption.bind fun summary => (m.tree.blocksOf (.region m.tree.root)).toOption.bind fun before =>
        (done.method.tree.blocksOf (.region m.tree.root)).toOption.map fun after => (summary, before, after)) =
      some (⟨1, 0, 0, 1⟩, [0, 1, 3, 2, 4], [0, 1, 2, 3, 4]) := by decide +kernel
  simp only [Option.bind_eq_some_iff, Option.map_eq_some_iff, toOption_eq_some_iff, Prod.mk.injEq] at hrun
  obtain ⟨m, hm, done, hdone, summary, hsummary, before, hbefore, after, hafter, rfl, rfl, rfl⟩ := hrun
  exact ⟨m, done, hm, hdone, hsummary, hbefore, hafter⟩

/-- **Code may change its order**: it is not so that the blocks of the root stay in theirs. -/
theorem reconstruction_may_reorder_code :
    ¬ ∀ (d : Description) (m : Method) (options : Options) (done : Reconstruction) (summary : Summary),
      d.toMethod = .ok m → m.reconstruct options = .ok done → done.result = .ok summary →
      done.method.tree.blocksOf (.region m.tree.root) = m.tree.blocksOf (.region m.tree.root) := by
  intro hall
  obtain ⟨m, done, hm, hdone, hresult, hbefore, hafter⟩ := runs_joinBetween
  have hsame := hall joinBetween m {} done _ hm hdone hresult
  rw [hbefore, hafter] at hsame
  exact absurd (Except.ok.inj hsame) (by decide)

/-- The blocks of the method are those after its leaves were gathered, and the leaves of the body did not stand together. -/
theorem reconstruction_gathers_code_joinBetween :
    ∃ m done, joinBetween.toMethod = .ok m ∧ m.reconstruct {} = .ok done ∧
      (done.method.tree.gatheredBy (List.range' m.tree.size (done.method.tree.size - m.tree.size))
        (m.tree.leafList (.region m.tree.root))).filterMap Container.block? = [0, 1, 2, 3, 4] ∧
      ∃ n, m.tree.size ≤ n ∧ n < done.method.tree.size ∧
        ¬ done.method.tree.leafList (.region n) <:+: m.tree.leafList (.region m.tree.root) := by
  obtain ⟨m, done, hm, hdone, -, hbefore, hafter⟩ := runs_joinBetween
  obtain ⟨done', before, after, hok, hbefore', hafter', -, hgathered, hkept, -⟩ := reconstruction_gathers_code hm {}
  obtain rfl : done' = done := Except.ok.inj (hok.symm.trans hdone)
  obtain rfl := Except.ok.inj (hbefore.symm.trans hbefore')
  obtain rfl := Except.ok.inj (hafter.symm.trans hafter')
  refine ⟨m, done', hm, hdone, hgathered.symm, ?_⟩
  by_contra hnone
  refine absurd (hkept fun n hn hlt => ?_) (by decide)
  by_contra hno
  exact hnone ⟨n, hn, hlt, hno⟩

end GuardedRegions.Description
