import GuardedRegions.Proofs.Document.Build
import GuardedRegions.Proofs.Wrapping.Coverage
import GuardedRegions.Proofs.Wrapping.Traced

/-!
# What a try-block protects after a reconstruction

The region of a try-block holds what was collected for it, and no check compares that with the blocks that the try-block
guards. A block is left out if it was not to be collected from the tree as it was described, or if another body came between it
and the block where the try-block begins.
-/

namespace GuardedRegions.Description

open Relation

variable {d : Description} {m : Method}

/-- **Which blocks are below the region of a try-block.** Where no region is described as the body of a try-block, each tagged
region is, whatever the reconstruction comes to, that of a try-block that begins at a child of some described region. A block,
guarded or not, lies below the tagged region unless

* it does not lie below that described region, or
* the child over it is not dominated by the beginning, or that child or a dominated one in front of it is on a handler path, or
* a region was made for a try-block that begins at a strict dominator of the beginning, with just one of the two blocks. -/
theorem guarded_blocks_are_collected (h : d.toMethod = .ok m) (hnone : ∀ id, some id ∉ m.tree.tags) (options : Options) :
    ∃ done doms, m.reconstruct options = .ok done ∧ m.graph.dominance = .ok doms ∧
      ∀ n region id, done.method.tree.get? n = some region → region.tryBlock = some id →
        ∃ tryBlock dominator r, m.tryBlock? id = some tryBlock ∧ m.beginning? doms id = some dominator ∧
          .block dominator ∈ m.tree.childrenOf r ∧
          ∀ b, done.method.tree.Encloses (.region n) (.block b) ∨
            ¬ m.tree.Encloses (.region r) (.block b) ∨
            (∃ front c behind, m.tree.childrenOf r = front ++ c :: behind ∧ m.tree.Covers c (.block b) ∧
              (m.tree.dominated doms dominator c = false ∨ ∃ e ∈ front ++ [c],
                m.tree.dominated doms dominator e = true ∧ m.tree.handled m.graph doms tryBlock e = true)) ∨
            m.Parted doms dominator b done.method.tree := by
  have hbuilt := built_of_toMethod h
  have hw := hbuilt.wellFormed
  obtain ⟨done, doms, pending, x, htraced⟩ := Method.exists_traced hw hbuilt.handlersExist hbuilt.entry options
  refine ⟨done, doms, htraced.run, htraced.dominance, ?_⟩
  rw [htraced.tree]
  intro n region id hr htag
  have hgrown : m.tree.Extends x.tree := htraced.steps.extends hw
  have hgained : m.tree.Gained x.tree id n := hgrown.gained_of_tag hnone hr htag
  obtain ⟨dominator, tb, he, htb, hbegins, hbody⟩ := htraced.exists_body hw hgained.1 hgained.lt
  obtain ⟨region', hr', -, htag'⟩ := hbody.region
  obtain rfl := Option.some.inj (hr'.symm.trans hr)
  obtain rfl := Option.some.inj (htag'.symm.trans htag)
  obtain ⟨r, hd⟩ := htraced.holds_of_gained hw hgained hbegins
  refine ⟨tb, dominator, r, htb, hbegins, hd, fun b => ?_⟩
  by_cases henc : m.tree.Encloses (.region r) (.block b)
  · obtain ⟨c, hc, hcov⟩ := RegionTree.encloses_iff.1 henc
    by_cases hcol : c ∈ m.tree.bodyOf m.graph doms tb dominator r
    · have hfollows : Progress.Follows m doms pending tb dominator b x :=
        htraced.steps.preserve (fun _ _ _ hx hxy => hx.step htraced.dominance htraced.begins htb hbegins hxy)
          (.start hw ⟨r, hd, c, hcol, hcov⟩)
      rcases hfollows.covered with hparted | ⟨hall, -⟩
      · exact Or.inr (Or.inr (Or.inr hparted))
      · exact Or.inl (hall n hgained)
    · obtain ⟨front, behind, hcs⟩ := List.append_of_mem (RegionTree.child_region.1 hc)
      refine Or.inr (Or.inr (Or.inl ⟨front, c, behind, hcs, hcov, ?_⟩))
      cases hdom : m.tree.dominated doms dominator c with
      | false => exact Or.inl rfl
      | true =>
        refine Or.inr ?_
        by_contra hclear
        have hfree : ∀ e ∈ front ++ [c], m.tree.dominated doms dominator e = true →
            m.tree.handled m.graph doms tb e = false := by
          intro e he hedom
          rw [← Bool.not_eq_true]
          exact fun hhandled => hclear ⟨e, he, hedom, hhandled⟩
        refine hcol (hw.mem_bodyOf_iff.2 ⟨hc, hdom, hfree c (by simp) hdom, fun e hpair => hfree e ?_⟩)
        have hnd := hw.nodup r
        rw [hcs] at hpair hnd
        exact List.mem_append_left _ (RegionTree.mem_of_pair_sublist hnd hpair)
  · exact Or.inr (Or.inl henc)

/-- A method whose try-block guards block 2, which stands behind the handler and is reached from it. -/
def guardedBehindHandler : Description where
  name := "behind"
  blocks := [{}, { guard := some 0 }, { guard := some 0 }, {}]
  edges := [⟨0, 1, .fall⟩, ⟨1, 2, .fall⟩, ⟨1, 3, .exception⟩, ⟨3, 2, .fall⟩]
  tryBlocks := [[⟨none, 3⟩]]
  regions := { contents := .block 0 (.block 1 (.block 3 (.block 2 .nil))) }

def guardedBehindHandlerBefore : RegionTree where
  regions := #[{ kind := .sequence, parent := none, children := [.block 0, .block 1, .block 3, .block 2] }]

def guardedBehindHandlerAfter : RegionTree where
  regions := #[
    { kind := .sequence, parent := none, children := [.block 0, .region 1, .block 3, .block 2] },
    { kind := .sequence, parent := some 0, children := [.block 1], tryBlock := some 0 }]

theorem runs_guardedBehindHandler :
    ∃ m done, guardedBehindHandler.toMethod = .ok m ∧ m.reconstruct {} = .ok done ∧
      done.result = .ok { wrapped := 1, failed := 0, dropped := 0, passes := 1 } ∧
      m.tree = guardedBehindHandlerBefore ∧ done.method.tree = guardedBehindHandlerAfter ∧
      (m.graph.guardedBy 0).toList = [1, 2] ∧ done.method.inconsistentCode = false := by
  have hrun : (guardedBehindHandler.toMethod.toOption.bind fun m => (m.reconstruct {}).toOption.bind fun done =>
      done.result.toOption.map fun summary =>
        (summary, m.tree, done.method.tree, (m.graph.guardedBy 0).toList, done.method.inconsistentCode)) =
      some (⟨1, 0, 0, 1⟩, guardedBehindHandlerBefore, guardedBehindHandlerAfter, [1, 2], false) := by decide +kernel
  simp only [Option.bind_eq_some_iff, Option.map_eq_some_iff, toOption_eq_some_iff, Prod.mk.injEq] at hrun
  obtain ⟨m, hm, done, hdone, summary, hsummary, rfl, hbefore, hafter, hguarded, hflag⟩ := hrun
  exact ⟨m, done, hm, hdone, hsummary, hbefore, hafter, hguarded, hflag⟩

theorem untagged_guardedBehindHandlerBefore : ∀ id, some id ∉ guardedBehindHandlerBefore.tags := by
  simp [RegionTree.tags, guardedBehindHandlerBefore]

theorem not_encloses_guardedBehindHandlerAfter : ¬ guardedBehindHandlerAfter.Encloses (.region 1) (.block 2) := by
  rw [RegionTree.encloses_iff]
  rintro ⟨c, hc, hcov⟩
  obtain rfl : c = .block 1 := List.mem_singleton.1 hc
  cases RegionTree.covers_block_iff.1 hcov

/-- **A guarded block may be left out without a sign of it.** -/
theorem guarded_blocks_may_be_left_out :
    ¬ ∀ (d : Description) (m : Method) (options : Options) (done : Reconstruction) (summary : Summary),
      d.toMethod = .ok m → (∀ id, some id ∉ m.tree.tags) → m.reconstruct options = .ok done → done.result = .ok summary →
      ∀ n region id, done.method.tree.get? n = some region → region.tryBlock = some id →
        ∀ b ∈ m.graph.guardedBy id, m.tree.Holds b →
          done.method.tree.Encloses (.region n) (.block b) ∨ done.method.inconsistentCode = true := by
  intro hall
  obtain ⟨m, done, hm, hdone, hresult, hbefore, hafter, hguarded, hflag⟩ := runs_guardedBehindHandler
  have hblock : 2 ∈ m.graph.guardedBy 0 := by
    rw [← IdSet.mem_toList, hguarded]
    decide
  have hlost := hall _ m {} done ⟨1, 0, 0, 1⟩ hm
  rw [hbefore, hafter, hflag] at hlost
  rcases hlost untagged_guardedBehindHandlerBefore hdone hresult 1 _ 0 rfl rfl 2 hblock ⟨0, by decide⟩ with henc | hflagged
  · exact not_encloses_guardedBehindHandlerAfter henc
  · cases hflagged

/-- Block 2 of that method is left out because it, or a dominated child in front of it, is on a handler path. -/
theorem guarded_blocks_are_collected_guardedBehindHandler :
    ∃ m done doms tryBlock dominator, guardedBehindHandler.toMethod = .ok m ∧ m.reconstruct {} = .ok done ∧
      m.graph.dominance = .ok doms ∧ m.tryBlock? 0 = some tryBlock ∧ m.beginning? doms 0 = some dominator ∧
      ∃ r front c behind, m.tree.childrenOf r = front ++ c :: behind ∧ m.tree.Covers c (.block 2) ∧
        (m.tree.dominated doms dominator c = false ∨ ∃ e ∈ front ++ [c],
          m.tree.dominated doms dominator e = true ∧ m.tree.handled m.graph doms tryBlock e = true) := by
  obtain ⟨m, done, hm, hdone, -, hbefore, hafter, -, -⟩ := runs_guardedBehindHandler
  have hnone : ∀ id, some id ∉ m.tree.tags := hbefore ▸ untagged_guardedBehindHandlerBefore
  obtain ⟨done', doms, hok, hdoms, hall⟩ := guarded_blocks_are_collected hm hnone {}
  obtain rfl : done' = done := Except.ok.inj (hok.symm.trans hdone)
  obtain ⟨tb, dominator, r, htb, hbegins, hd, hblocks⟩ := hall 1 _ 0 (by rw [hafter]; rfl) rfl
  refine ⟨m, done', doms, tb, dominator, hm, hdone, hdoms, htb, hbegins, r, ?_⟩
  rcases hblocks 2 with henc | hno | hleft | ⟨n, id, d', hgained, hbegins', hne, -⟩
  · rw [hafter] at henc
    exact absurd henc not_encloses_guardedBehindHandlerAfter
  · refine absurd (TransGen.single ?_) hno
    have hr := RegionTree.lt_size_of_mem hd
    rw [hbefore] at hr ⊢
    obtain rfl : r = 0 := Nat.lt_one_iff.1 hr
    rw [RegionTree.child_region]
    decide
  · exact hleft
  · -- no other try-block has a region
    rw [hbefore, hafter] at hgained
    obtain ⟨hn, region, hr, htag⟩ := hgained
    have hlt : n < 2 := RegionTree.lt_size_of_get? hr
    have hn : 1 ≤ n := hn
    obtain rfl : n = 1 := by omega
    obtain rfl := Option.some.inj hr
    obtain rfl : 0 = id := Option.some.inj htag
    exact absurd (Option.some.inj (hbegins'.symm.trans hbegins)) hne

end GuardedRegions.Description
