import GuardedRegions.Proofs.Flow.Forward
import GuardedRegions.Proofs.Wrapping.Bodies
import GuardedRegions.Proofs.Wrapping.Order

/-!
# Handlers and the bodies that they handle

A handler comes to its own entry, so the entry is no child of a body (`IsBody.entry_not_child`). It may lie deeper: a nested
region is on the handler path only if the handler comes to all of it, so one with an entry in it is taken into the body for the
sake of a block to which the handler does not come (`IsBody.exists_of_entry`). A handler that comes to the dominator comes to
all that it dominates, so nothing is left for a body (`RegionTree.never_carved_of_handler_back`).
-/

namespace GuardedRegions.RegionTree

/-! ## What lies below a body -/

namespace IsBody

open Relation

variable {t : RegionTree} {g : Graph} {doms : Dominance} {tryBlock : TryBlock} {handler : Handler} {dominator n : Nat}

theorem entry_not_child (hb : t.IsBody g doms tryBlock dominator n) (hin : tryBlock.HandlersIn g)
    (hh : handler ∈ tryBlock.handlers) : .block handler.entry ∉ t.childrenOf n := by
  intro hmem
  have hno := hb.unhandled _ hmem
  rw [handled_block, List.any_eq_false] at hno
  exact hno handler hh (Dominance.forward_self (hin handler hh))

/-- The entry of a handler below a body is not where the body begins, and it is in a nested region with a block to which the
handler does not come. -/
theorem exists_of_entry (hb : t.IsBody g doms tryBlock dominator n) (hw : t.WellFormed) (hdoms : g.dominance = .ok doms)
    (hin : tryBlock.HandlersIn g) (hh : handler ∈ tryBlock.handlers)
    (henc : t.Encloses (.region n) (.block handler.entry)) :
    dominator ≠ handler.entry ∧ doms.dominates dominator handler.entry = true ∧
      ∃ q b, .region q ∈ t.childrenOf n ∧ t.Encloses (.region q) (.block handler.entry) ∧
        t.Encloses (.region q) (.block b) ∧ doms.forward g handler.entry b = false := by
  have hhas : t.Has (.region n) := hb.lt
  have hdominated : ∀ b, t.Encloses (.region n) (.block b) → b = dominator ∨ doms.dominates dominator b = true :=
    fun b hnb => dominated_iff.1 hb.dominated b ((hw.mem_blockList hhas).2 hnb.to_reflTransGen)
  obtain ⟨c, hc, hcov⟩ := encloses_iff.1 henc
  cases c with
  | block b =>
    obtain rfl := Container.block.inj (covers_block_iff.1 hcov)
    exact absurd hc (hb.entry_not_child hin hh)
  | region q =>
    have hbelow : ∀ b, t.Covers (.region q) (.block b) → t.Encloses (.region q) (.block b) := fun b h =>
      (covers_iff.1 h).resolve_left (by simp)
    have hno := hb.unhandled _ hc
    rw [handled, List.any_eq_false] at hno
    obtain ⟨b, hbq, hforward⟩ : ∃ b ∈ t.blockList (.region q), doms.forward g handler.entry b = false := by
      simpa [List.all_eq_false] using hno handler hh
    rw [hw.mem_blockList (hw.has_of_mem hc)] at hbq
    have hne : dominator ≠ handler.entry := by
      rintro rfl
      rcases hdominated b (TransGen.head hc (hbelow b hbq)) with rfl | hdom
      · rw [Dominance.forward_self (hin handler hh)] at hforward
        cases hforward
      · rw [Dominance.forward_of_dominates hdoms hdom] at hforward
        cases hforward
    exact ⟨hne, (hdominated _ henc).resolve_left hne.symm, q, b, hc, hbelow _ hcov, hbelow b hbq, hforward⟩

end IsBody

/-! ## Handlers that come to the dominator -/

variable {t : RegionTree} {g : Graph} {doms : Dominance} {tryBlock : TryBlock} {dominator : Nat} {c : Container}

theorem handled_of_dominated (hdoms : g.dominance = .ok doms) (hin : tryBlock.HandlersIn g)
    (hback : t.handled g doms tryBlock (.block dominator) = true) (hc : t.dominated doms dominator c = true) :
    t.handled g doms tryBlock c = true := by
  rw [handled_block] at hback
  obtain ⟨handler, hh, hforward⟩ := List.any_eq_true.1 hback
  refine List.any_eq_true.2 ⟨handler, hh, List.all_eq_true.2 fun b hb => ?_⟩
  rcases dominated_iff.1 hc b hb with rfl | hdominated
  · exact hforward
  · exact Dominance.forward_of_forward hdoms (hin handler hh) hforward hdominated

theorem bodyOf_eq_nil (hall : ∀ c, t.dominated doms dominator c = true → t.handled g doms tryBlock c = true) (r : Nat) :
    t.bodyOf g doms tryBlock dominator r = [] := by
  refine List.eq_nil_iff_forall_not_mem.2 fun c hc => ?_
  have hhandled := hall c (dominated_of_mem_bodyOf hc)
  rw [handled_of_mem_bodyOf hc] at hhandled
  cases hhandled

/-- **A try-block with a handler that comes to its dominator gets no region.** All that the dominator dominates is on the
handler path then, so carving out the body fails in every region and leaves the tree as it is. -/
theorem never_carved_of_handler_back (g : Graph) (entry : Nat) (he : g.entry = some entry) (hlt : entry < g.blockCount) :
    ∃ doms, g.dominance = .ok doms ∧ ∀ (t : RegionTree) (tryBlock : TryBlock) (dominator : Nat),
      t.validate = .ok () → tryBlock.HandlersIn g →
      t.onHandlerPath g doms tryBlock (.block dominator) = .ok true →
      (∀ c, t.Has c → t.isDominated doms dominator c = .ok true → t.onHandlerPath g doms tryBlock c = .ok true) ∧
        ∀ r < t.size, ∃ carving, t.carve g doms r tryBlock dominator = .ok (carving, t) ∧ carving.succeeded = false := by
  obtain ⟨doms, hdoms, -⟩ := Graph.dominance_of_entry he hlt
  refine ⟨doms, hdoms, fun t tryBlock dominator hv hin hback => ?_⟩
  have hw := validate_eq_ok_iff.1 hv
  rw [hw.onHandlerPath_eq has_block hin, Except.ok.injEq] at hback
  have hall (c : Container) : t.dominated doms dominator c = true → t.handled g doms tryBlock c = true :=
    handled_of_dominated hdoms hin hback
  refine ⟨fun c hc hdominated => ?_, fun r hr => ?_⟩
  · rw [hw.isDominated_eq hc, Except.ok.injEq] at hdominated
    rw [hw.onHandlerPath_eq hc hin, hall c hdominated]
  · obtain ⟨carving, u, hok, ⟨hfailed, -, rfl⟩ | ⟨-, hre⟩⟩ := hw.carve_ok hr hin doms dominator
    · exact ⟨carving, hok, hfailed⟩
    · exact absurd (bodyOf_eq_nil hall r) hre.allowed.1

/-- The entry may fail, as may the loop of blocks 1 and 2; block 3 handles both and leads into the loop. -/
def retryGraph : Graph where
  blocks := #[{}, { guard := some 7 }, { guard := some 7 }, {}, {}]
  edges := #[⟨0, 1, .fall⟩, ⟨0, 3, .exception⟩, ⟨1, 2, .fall⟩, ⟨1, 3, .exception⟩, ⟨2, 1, .jump⟩, ⟨2, 3, .exception⟩,
    ⟨2, 4, .fall⟩, ⟨3, 1, .jump⟩]
  entry := some 0
  edges_inside := by decide

def retryTree : RegionTree where
  regions := #[
    { kind := .sequence, parent := none, children := [.block 0, .region 1, .block 3, .block 4] },
    { kind := .loop, parent := some 0, children := [.block 1, .block 2] }]

/-- The handler comes to the head of the loop, so neither the loop nor a part of it is carved out. -/
theorem never_carved_of_handler_back_retryTree :
    ∃ doms, retryGraph.dominance = .ok doms ∧ retryTree.isDominated doms 1 (.region 1) = .ok true ∧
      retryTree.onHandlerPath retryGraph doms ⟨7, [⟨none, 3⟩]⟩ (.region 1) = .ok true ∧
      ∀ r < 2, ∃ carving, retryTree.carve retryGraph doms r ⟨7, [⟨none, 3⟩]⟩ 1 = .ok (carving, retryTree) ∧
        carving.succeeded = false := by
  obtain ⟨doms, hdoms, hnever⟩ := never_carved_of_handler_back retryGraph 0 rfl (by decide)
  have hrun : retryGraph.dominance.map (fun doms => (retryTree.isDominated doms 1 (.region 1),
      retryTree.onHandlerPath retryGraph doms ⟨7, [⟨none, 3⟩]⟩ (.block 1))) = .ok (.ok true, .ok true) := by
    decide +kernel
  rw [hdoms] at hrun
  obtain ⟨hdominated, hback⟩ := Prod.mk.inj (Except.ok.inj hrun)
  obtain ⟨hhandled, hcarve⟩ := hnever retryTree ⟨7, [⟨none, 3⟩]⟩ 1 (by decide) (by decide) hback
  exact ⟨doms, hdoms, hdominated, hhandled (.region 1) (show 1 < 2 by decide) hdominated, hcarve⟩

end GuardedRegions.RegionTree
