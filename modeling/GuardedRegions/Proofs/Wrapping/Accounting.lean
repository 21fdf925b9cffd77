import GuardedRegions.Proofs.Wrapping.Outcome

/-!
# Every try-block is accounted for

The contenders of a method are resolved in three ways, and a reconstruction without error tells how often each was taken. A
contender gets one region, or it gets none and one warning says why.
-/

namespace GuardedRegions.Method

variable {m m' : Method} {doms : Dominance} {found : Search} {texts : List String} {made : List (Nat × Nat)} {x : Progress}
  {summary : Summary} {id : Nat}

theorem mem_contenders_iff_bodiesOf (hw : m.tree.WellFormed) :
    id ∈ m.contenders doms ↔ id ∈ m.graph.tryBlocksInUse ∧ m.tree.bodiesOf id = .ok [] ∧
      ∀ other ∈ m.graph.tryBlocksInUse, m.tree.bodiesOf other ≠ .ok [] →
        ∀ d, m.beginning? doms id = some d → m.beginning? doms other ≠ some d := by
  have htagged : ∀ i, m.tree.bodiesOf i ≠ .ok [] ↔ some i ∈ m.tree.tags := by
    intro i
    rw [ne_eq, hw.bodiesOf_eq_nil_iff, not_not]
  rw [mem_contenders_iff, hw.bodiesOf_eq_nil_iff]
  refine and_congr_right fun _ => and_congr_right fun _ => ?_
  simp only [htagged, ← Bool.not_eq_true, claims_iff, not_exists, not_and]
  exact ⟨fun h other huse htag d hd => h d hd other huse htag, fun h d hd other huse htag => h other huse htag d hd⟩

namespace Outcome

theorem warnings (h : m.Outcome doms found texts made x m' summary) :
    m'.warnings = m.warnings ++ (texts ++ x.failures.map fun e => Warning.givenUp e.2 e.1) := by
  rw [h.method, List.append_assoc]

open Classical in
theorem countP_news (h : m.Outcome doms found texts made x m' summary) (id : Nat) :
    (texts ++ x.failures.map fun e => Warning.givenUp e.2 e.1).countP (fun w => decide (Warning.SaysGivenUp id w)) =
        (x.failures.map (·.2)).count id ∧
      (texts ++ x.failures.map fun e => Warning.givenUp e.2 e.1).countP (fun w => decide (Warning.SaysDropped id w)) =
        found.dropped.count id := by
  obtain ⟨hdropped, hgivenUp⟩ := Warning.countP_of_forall₂ h.placed.texts id
  rw [List.countP_append, List.countP_append, hdropped, hgivenUp, Warning.countP_saysGivenUp_map,
    Warning.countP_saysDropped_map]
  omega

end Outcome

open Classical in
/-- **Every try-block is accounted for.** Those that are left to a reconstruction are the try-blocks in use that have no
region and do not begin where one with a region begins. If the reconstruction comes to no error, it counts all of them; it
makes a region for each that it counts as wrapped, and warns of each other one; and each of them has one region and no
warning, or no region and one warning that it was given up, or no region and one warning that it was dropped. -/
theorem every_try_block_is_accounted_for (hv : m.tree.validate = .ok ()) (hh : m.HandlersExist)
    (he : ∀ entry, m.graph.entry = some entry → entry < m.graph.blockCount) (hcode : m.hasNoCode = false)
    (htries : m.hasTryBlocks = true) (options : Options) :
    ∃ doms done, m.graph.dominance = .ok doms ∧ m.reconstruct options = .ok done ∧
      ∀ summary, done.result = .ok summary → ∃ (left : IdSet) (news : List String),
        (∀ id, id ∈ left ↔ id ∈ m.graph.tryBlocksInUse ∧ m.tree.bodiesOf id = .ok [] ∧
          ∀ other ∈ m.graph.tryBlocksInUse, m.tree.bodiesOf other ≠ .ok [] →
            ∀ d, m.beginning? doms id = some d → m.beginning? doms other ≠ some d) ∧
        summary.wrapped + summary.failed + summary.dropped = left.toList.length ∧
        done.method.tree.size = m.tree.size + summary.wrapped ∧
        done.method.warnings = m.warnings ++ news ∧ news.length = summary.failed + summary.dropped ∧
        (done.method.inconsistentCode = true ↔ m.inconsistentCode = true ∨ 0 < summary.failed) ∧
        ∀ id ∈ left,
          let givenUp := news.countP fun w => decide (Warning.SaysGivenUp id w)
          let dropped := news.countP fun w => decide (Warning.SaysDropped id w)
          (∃ n, done.method.tree.bodiesOf id = .ok [n]) ∧ givenUp = 0 ∧ dropped = 0 ∨
            done.method.tree.bodiesOf id = .ok [] ∧ givenUp = 1 ∧ dropped = 0 ∨
            done.method.tree.bodiesOf id = .ok [] ∧ givenUp = 0 ∧ dropped = 1 := by
  have hw := RegionTree.validate_eq_ok_iff.1 hv
  obtain ⟨doms, hdoms⟩ := Graph.dominance_ok he
  obtain ⟨done, hok, -, -⟩ := reconstruct_ok hw hh he options options rfl
  refine ⟨doms, done, hdoms, hok, fun summary hs => ?_⟩
  obtain ⟨found, texts, made, x, hout, -⟩ := exists_outcome hw hh (by simp [hcode, htries]) hdoms hok hs
  refine ⟨m.contenders doms, _, fun id => mem_contenders_iff_bodiesOf hw, ?_, ?_, hout.warnings, ?_, ?_, ?_⟩
  · have := hout.perm.length_eq
    simp only [List.length_append, List.length_map] at this
    rw [hout.wrapped, hout.failed, hout.dropped, ← this]
    omega
  · exact hout.size
  · rw [List.length_append, List.length_map, ← hout.placed.texts.length_eq, hout.failed, hout.dropped]
    omega
  · rw [hout.method, hout.failed, Bool.or_eq_true]
    simp [List.length_pos_iff]
  · intro id hid
    obtain ⟨hgivenUp, hdropped⟩ := hout.countP_news id
    have htag := (mem_contenders_iff.1 hid).2.1
    have hone : (made.map (·.2)).count id + ((x.failures.map (·.2)).count id + found.dropped.count id) = 1 := by
      rw [← List.count_append, ← List.count_append]
      exact List.count_eq_one_of_mem hout.nodup (hout.perm.mem_iff.2 hid)
    dsimp only
    rw [hgivenUp, hdropped]
    by_cases hmade : id ∈ made.map (·.2)
    · have := List.count_pos_iff.2 hmade
      exact Or.inl ⟨hout.bodiesOf_of_made hmade htag, by omega, by omega⟩
    · have := List.count_eq_zero.2 hmade
      have hnone := hout.bodiesOf_of_not_made hmade htag
      rcases Nat.eq_zero_or_pos (found.dropped.count id) with hzero | hpos
      · exact Or.inr (Or.inl ⟨hnone, by omega, hzero⟩)
      · exact Or.inr (Or.inr ⟨hnone, by omega, by omega⟩)

/-- The method of the nested try-blocks, with one more whose handler comes to the block where it begins, and one that guards
both branches from that block. -/
def allFates : Method where
  name := "fates"
  graph := {
    blocks := #[{}, { guard := some 7 }, { guard := some 8 }, {}, { guard := some 9 }, { guard := some 10 },
      { guard := some 10 }]
    edges := #[⟨0, 1, .fall⟩, ⟨1, 2, .fall⟩, ⟨1, 3, .exception⟩, ⟨2, 3, .exception⟩, ⟨2, 4, .jump⟩, ⟨3, 4, .fall⟩,
      ⟨4, 5, .whenTrue⟩, ⟨4, 6, .whenFalse⟩]
    entry := some 0
    edges_inside := by decide }
  tryBlocks := [⟨7, [⟨none, 3⟩]⟩, ⟨8, [⟨none, 3⟩]⟩, ⟨9, [⟨none, 3⟩]⟩, ⟨10, [⟨none, 3⟩]⟩]
  tree := {
    regions := #[
      { kind := .sequence, parent := none,
        children := [.block 0, .region 1, .block 3, .block 4, .block 5, .block 6] },
      { kind := .sequence, parent := some 0, children := [.block 1, .block 2] }] }

/-- Two try-blocks get their regions, one is given up, and one is dropped. -/
theorem every_try_block_is_accounted_for_allFates :
    ∃ done left news, allFates.reconstruct {} = .ok done ∧
      done.result = .ok { wrapped := 2, failed := 1, dropped := 1, passes := 2 } ∧
      2 + 1 + 1 = (left : IdSet).toList.length ∧ 10 ∈ left ∧ done.method.tree.size = 4 ∧
      done.method.warnings = news ∧ news.length = 2 ∧ done.method.inconsistentCode = true := by
  obtain ⟨doms, done, -, hok, hall⟩ := every_try_block_is_accounted_for (m := allFates) (by decide) (by decide)
    (by simp [allFates, Graph.blockCount]) (by decide) (by decide) {}
  have hrun : (allFates.reconstruct {}).map (·.result) =
      .ok (.ok { wrapped := 2, failed := 1, dropped := 1, passes := 2 }) := by decide +kernel
  rw [hok] at hrun
  have hresult := Except.ok.inj hrun
  obtain ⟨left, news, hleft, hcount, hsize, hwarnings, hlength, hflag, -⟩ := hall _ hresult
  have hnone : ∀ id, allFates.tree.bodiesOf id = .ok [] := by
    intro id
    have hw : allFates.tree.WellFormed := RegionTree.validate_eq_ok_iff.1 (by decide)
    exact hw.bodiesOf_eq_nil_iff.2 (by simp [allFates, RegionTree.tags])
  have hten : 10 ∈ left := (hleft 10).2 ⟨by decide, hnone 10, fun other _ hother => absurd (hnone other) hother⟩
  exact ⟨done, left, news, hok, hresult, hcount, hten, hsize, hwarnings, hlength, hflag.2 (Or.inr (by decide))⟩

end GuardedRegions.Method
