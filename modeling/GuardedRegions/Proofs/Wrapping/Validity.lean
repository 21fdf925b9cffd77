import GuardedRegions.Proofs.Region.Valid
import GuardedRegions.Proofs.Wrapping.Run
import GuardedRegions.Proofs.Wrapping.Search
import GuardedRegions.Wrapping.Reconstruct

/-!
# The tree stays in order

A tree that `RegionTree.validate` accepts is accepted again after every carving and every run, so that the check at the end
of a reconstruction never fails.
-/

namespace GuardedRegions

variable {m : Method} {options : Options}

/-- A carving leaves a tree: the same one if it fails, and one with one region more if it succeeds. -/
theorem RegionTree.WellFormed.carve_wellFormed {t : RegionTree} {g : Graph} {tryBlock : TryBlock} {r : Nat}
    (h : t.WellFormed) (hr : r < t.size) (hh : tryBlock.HandlersIn g) (doms : Dominance) (dominator : Nat) :
    ∃ carving u, t.carve g doms r tryBlock dominator = .ok (carving, u) ∧ u.WellFormed ∧
      (carving.succeeded = false → u = t) ∧ (carving.succeeded = true → u.size = t.size + 1) := by
  obtain ⟨carving, u, hok, ⟨hfailed, -, rfl⟩ | ⟨hsucceeded, hre⟩⟩ := h.carve_ok hr hh doms dominator
  · refine ⟨carving, u, hok, h, fun _ => rfl, fun hs => ?_⟩
    rw [hfailed] at hs
    cases hs
  · refine ⟨carving, u, hok, hre.wellFormed h, fun hs => ?_, fun _ => hre.size⟩
    rw [hsucceeded] at hs
    cases hs

namespace Method

theorem resolve_wellFormed (hw : m.tree.WellFormed) (hh : m.HandlersExist) (doms : Dominance) (pending : Pending)
    (limit : Nat) :
    ∃ resolved result, m.resolve doms pending limit = .ok (resolved, result) ∧ resolved.method.tree.WellFormed := by
  obtain ⟨resolved, result, y, hok, hsteps, hy⟩ := resolve_ok hw hh doms pending limit
  exact ⟨resolved, result, hok, hy.tree ▸ hsteps.wellFormed hw⟩

theorem check_eq_ok (hw : m.tree.WellFormed) : m.check options = .ok () := by
  unfold check
  split
  · rw [RegionTree.validate_eq_ok_iff.2 hw]
    rfl
  · rfl

theorem reconstructFrom_eq (hw : m.tree.WellFormed) (hh : m.HandlersExist) {doms : Dominance} {search : Search}
    {resolved : Resolution} {result : Except Error Tally}
    (hok : m.resolve doms search.pending options.passLimit = .ok (resolved, result)) (events : List Event) :
    m.reconstructFrom options doms search events = .ok {
      method := resolved.method
      result := result.map fun tally =>
        { wrapped := tally.wrapped, failed := tally.failed, dropped := search.dropped.length, passes := tally.passes }
      events := events ++ [.searched m.name search.pending.size search.dropped.length] ++ resolved.events } := by
  obtain ⟨resolved', result', hok', hr⟩ := resolve_wellFormed hw hh doms search.pending options.passLimit
  rw [hok, Except.ok.injEq, Prod.mk.injEq] at hok'
  obtain ⟨rfl, rfl⟩ := hok'
  unfold reconstructFrom
  rw [hok, ok_bind]
  simp only [check_eq_ok hr]
  cases result <;> rfl

end Method

theorem Graph.dominance_ok {g : Graph} (he : ∀ entry, g.entry = some entry → entry < g.blockCount) :
    ∃ doms, g.dominance = .ok doms := by
  unfold dominance
  split
  · exact ⟨_, rfl⟩
  · rename_i entry hentry
    rw [if_pos (he entry hentry)]
    exact ⟨_, rfl⟩

namespace Method

/-- A reconstruction ends, and it makes no difference whether it checks the tree. -/
theorem reconstruct_ok (hw : m.tree.WellFormed) (hh : m.HandlersExist)
    (he : ∀ entry, m.graph.entry = some entry → entry < m.graph.blockCount) (options options' : Options)
    (heq : options.passLimit = options'.passLimit) :
    ∃ done, m.reconstruct options = .ok done ∧ m.reconstruct options' = .ok done ∧ done.method.tree.WellFormed := by
  unfold reconstruct
  split
  · exact ⟨_, rfl, rfl, hw⟩
  · obtain ⟨doms, hdoms⟩ := Graph.dominance_ok he
    obtain ⟨searched, texts, hsearched, hmethod, -⟩ := search_ok hw doms
    have hmarked : Marked m searched.method := hmethod ▸ ⟨rfl, rfl, rfl, rfl⟩
    have hw' : searched.method.tree.WellFormed := hmarked.tree ▸ hw
    simp only [check_eq_ok hw, hdoms, ok_bind, hsearched]
    cases searched.found with
    | error e => exact ⟨_, rfl, rfl, hw'⟩
    | ok search =>
      have hh' := hmarked.handlersExist hh
      obtain ⟨resolved, result, hok, hr⟩ := resolve_wellFormed hw' hh' doms search.pending options.passLimit
      exact ⟨_, reconstructFrom_eq hw' hh' hok _, reconstructFrom_eq hw' hh' (heq ▸ hok) _, hr⟩

/-- **What reconstructs a method keeps its tree in order**, whatever is taken for dominance: each carving, which makes one
region or leaves the tree as it is, and each run, within the limit or not. The check at the end of a reconstruction
therefore changes nothing. -/
theorem tree_stays_valid (hv : m.tree.validate = .ok ()) (hh : m.HandlersExist) (doms : Dominance) :
    (∀ (tryBlock : TryBlock) (dominator r : Nat), tryBlock.HandlersIn m.graph → r < m.tree.size →
      ∃ carving u, m.tree.carve m.graph doms r tryBlock dominator = .ok (carving, u) ∧ u.validate = .ok () ∧
        (carving.succeeded = false → u = m.tree) ∧ (carving.succeeded = true → u.size = m.tree.size + 1)) ∧
    (∀ (pending : Pending) (limit : Nat), ∃ resolved result,
      m.resolve doms pending limit = .ok (resolved, result) ∧ resolved.method.tree.validate = .ok ()) ∧
    ((∀ entry, m.graph.entry = some entry → entry < m.graph.blockCount) → ∀ limit, ∃ done,
      m.reconstruct { passLimit := limit, validate := true } = .ok done ∧
      m.reconstruct { passLimit := limit, validate := false } = .ok done ∧ done.method.tree.validate = .ok ()) := by
  have hw := RegionTree.validate_eq_ok_iff.1 hv
  refine ⟨fun tryBlock dominator r htb hr => ?_, fun pending limit => ?_, fun he limit => ?_⟩
  · obtain ⟨carving, u, hok, hu, hsize⟩ := hw.carve_wellFormed hr htb doms dominator
    exact ⟨carving, u, hok, RegionTree.validate_eq_ok_iff.2 hu, hsize⟩
  · obtain ⟨resolved, result, hok, hr⟩ := resolve_wellFormed hw hh doms pending limit
    exact ⟨resolved, result, hok, RegionTree.validate_eq_ok_iff.2 hr⟩
  · obtain ⟨done, hchecked, hunchecked, hd⟩ := reconstruct_ok hw hh he
      { passLimit := limit, validate := true } { passLimit := limit, validate := false } rfl
    exact ⟨done, hchecked, hunchecked, RegionTree.validate_eq_ok_iff.2 hd⟩

theorem tree_stays_valid_nestedTries :
    (∃ carving u, nestedTries.tree.carve nestedTries.graph .nestedTries 1 ⟨7, [⟨none, 3⟩]⟩ 1 = .ok (carving, u) ∧
      u.validate = .ok ()) ∧
    (∃ resolved result, nestedTries.resolve .nestedTries .nestedTries 100 = .ok (resolved, result) ∧
      resolved.method.tree.validate = .ok ()) ∧
    ∃ done, nestedTries.reconstruct { passLimit := 100, validate := true } = .ok done ∧
      nestedTries.reconstruct { passLimit := 100, validate := false } = .ok done ∧ done.method.tree.validate = .ok () := by
  obtain ⟨hcarve, hresolve, hreconstruct⟩ := tree_stays_valid (m := nestedTries) (by decide) (by decide) .nestedTries
  refine ⟨?_, hresolve .nestedTries 100, hreconstruct ?_ 100⟩
  · obtain ⟨carving, u, hok, hu, -⟩ := hcarve ⟨7, [⟨none, 3⟩]⟩ 1 1 (by decide) (by decide)
    exact ⟨carving, u, hok, hu⟩
  · intro entry hentry
    cases hentry
    decide

end Method

end GuardedRegions
