import GuardedRegions.Proofs.Warning
import GuardedRegions.Proofs.Wrapping.Sweep

/-!
# A run, sweep by sweep

A run of sweeps ends on every tree and comes to what a number of steps come to (`Method.resolve_ok`): the tree and what is
pending are those after the steps, and what was given up is recorded on the method. An invariant of the steps is therefore
one of the whole run, with whatever result it ends.
-/

namespace GuardedRegions

open Relation

namespace Resolution

variable {m : Method} {doms : Dominance} {x : Progress} {s : Resolution}

/-! ## Giving up -/

theorem foldl_giveUp_eq (es : List (Nat × Nat)) (m : Method) :
    es.foldl giveUp m = { m with
      inconsistentCode := m.inconsistentCode || !es.isEmpty
      warnings := m.warnings ++ es.map fun e => Warning.givenUp e.2 e.1 } := by
  induction es generalizing m with
  | nil => simp
  | cons e es ih =>
    have hfirst : giveUp m e = { m with
        inconsistentCode := true
        warnings := m.warnings ++ [Warning.givenUp e.2 e.1] } := rfl
    rw [List.foldl_cons, ih, hfirst]
    simp

theorem foldl_giveUp_with (es : List (Nat × Nat)) (m : Method) (t : RegionTree) :
    es.foldl giveUp { m with tree := t } = { es.foldl giveUp m with tree := t } := by
  rw [foldl_giveUp_eq, foldl_giveUp_eq]

/-! ## A sweep -/

/-- The resolution of a method that has come so far. -/
structure Reports (m : Method) (x : Progress) (s : Resolution) : Prop where
  method : s.method = x.failures.foldl giveUp { m with tree := x.tree }
  pending : s.pending = x.pending
  wrapped : s.tally.wrapped = x.wrapped
  failed : s.tally.failed = x.failures.length

namespace Reports

theorem start (m : Method) (pending : Pending) :
    Reports m { tree := m.tree, pending } { method := m, pending } := ⟨rfl, rfl, rfl, rfl⟩

theorem marked (h : Reports m x s) : Method.Marked { m with tree := x.tree } s.method := by
  rw [h.method, foldl_giveUp_eq]
  exact ⟨rfl, rfl, rfl, rfl⟩

theorem tree (h : Reports m x s) : s.method.tree = x.tree := h.marked.tree

theorem graph (h : Reports m x s) : s.method.graph = m.graph := h.marked.graph

theorem tryBlocks (h : Reports m x s) : s.method.tryBlocks = m.tryBlocks := h.marked.tryBlocks

end Reports

theorem sweep_eq {u : RegionTree} {swept : Sweep}
    (h : s.method.tree.traverse (Sweep.visitor s.method.graph doms s.method.tryBlocks) { pending := s.pending } =
      .ok (u, swept)) :
    ∃ s', s.sweep doms = .ok s' ∧ s'.method = swept.failures.foldl giveUp { s.method with tree := u } ∧
      s'.pending = swept.pending ∧ s'.tally = {
        wrapped := s.tally.wrapped + swept.wrapped
        failed := s.tally.failed + swept.failures.length
        passes := s.tally.passes + 1 } := by
  simp only [sweep, h, ok_bind]
  exact ⟨_, rfl, rfl, rfl, rfl⟩

/-- What a sweep keeps from one region that it leaves to the next holds when it has left all of them. -/
theorem Reports.sweep_invariant (h : Reports m x s) (hw : x.tree.WellFormed) (hh : m.HandlersExist) (doms : Dominance)
    (J : List Nat → Progress → Prop)
    (step : ∀ r rest a b, Sweep.Ahead x.tree (r :: rest) a.tree → J (r :: rest) a →
      Progress.Step m.graph doms m.tryBlocks r a b → J rest b)
    (hJ : J ((x.tree.postOrder (.region x.tree.root)).filterMap Container.region?) x) :
    ∃ s' y, s.sweep doms = .ok s' ∧ s'.tally.passes = s.tally.passes + 1 ∧ Reports m y s' ∧ J [] y := by
  -- a sweep counts from zero, and what came of the sweeps before is added at its end
  let behind : Progress → Progress := fun a =>
    { a with wrapped := x.wrapped + a.wrapped, failures := x.failures ++ a.failures }
  have hstart : behind (Sweep.progress x.tree { pending := x.pending }) = x := by
    show { x with wrapped := x.wrapped + 0, failures := x.failures ++ [] } = x
    rw [Nat.add_zero, List.append_nil]
  obtain ⟨u, swept, hok, -, hend⟩ := Sweep.traverse_invariant (s := { pending := x.pending }) hw hh
    (fun rest a => J rest (behind a))
    (fun r rest a b ha hJ hab => step r rest (behind a) (behind b) ha hJ (hab.after x.wrapped x.failures)) (by rwa [hstart])
  rw [← h.tree, ← h.graph, ← h.tryBlocks, ← h.pending] at hok
  obtain ⟨s', hs, hmethod, hpending, htally⟩ := sweep_eq hok
  refine ⟨s', behind (swept.progress u), hs, by rw [htally], ⟨?_, hpending, ?_, ?_⟩, hend⟩
  · rw [hmethod, h.method, ← foldl_giveUp_with]
    exact List.foldl_append.symm
  · rw [htally, h.wrapped]
    rfl
  · rw [htally, h.failed]
    exact List.length_append.symm

/-- **A sweep makes steps**, and counts itself. -/
theorem Reports.sweep_ok (h : Reports m x s) (hw : x.tree.WellFormed) (hh : m.HandlersExist) (doms : Dominance) :
    ∃ s' y, s.sweep doms = .ok s' ∧ s'.tally.passes = s.tally.passes + 1 ∧
      Progress.Steps m.graph doms m.tryBlocks x y ∧ Reports m y s' := by
  obtain ⟨s', y, hs, hpasses, hy, hxy⟩ := h.sweep_invariant hw hh doms
    (fun _ a => Progress.Steps m.graph doms m.tryBlocks x a) (fun r _ _ _ _ ha hab => ha.tail ⟨r, hab⟩) ReflTransGen.refl
  exact ⟨s', y, hs, hpasses, hxy, hy⟩

/-! ## A run -/

theorem Reports.run_invariant (K : Nat → Progress → Prop)
    (sweep : ∀ n s x, Reports m x s → K n x → ∃ s' y, s.sweep doms = .ok s' ∧ Reports m y s' ∧ K (n + 1) y)
    {n : Nat} (h : Reports m x s) (hK : K n x) (bound : Nat) :
    ∃ s' result y k, run doms bound s = .ok (s', result) ∧ Reports m y s' ∧ k ≤ n + bound ∧ K k y := by
  induction bound generalizing n x s with
  | zero =>
    unfold run
    split
    · exact ⟨s, _, x, n, rfl, h, Nat.le_refl n, hK⟩
    · exact ⟨s, _, x, n, rfl, h, Nat.le_refl n, hK⟩
  | succ bound ih =>
    unfold run
    split
    · exact ⟨s, _, x, n, rfl, h, Nat.le_add_right n _, hK⟩
    · obtain ⟨s', y, hs, hy, hK'⟩ := sweep n s x h hK
      obtain ⟨s'', result, z, k, hrun, hz, hk, hKz⟩ := ih hy hK'
      exact ⟨s'', result, z, k, by rw [hs]; exact hrun, hz, by omega, hKz⟩

end Resolution

/-- **A run comes to what a number of steps come to**, whatever its result. -/
theorem Method.resolve_ok {m : Method} (hw : m.tree.WellFormed) (hh : m.HandlersExist) (doms : Dominance)
    (pending : Pending) (limit : Nat) :
    ∃ resolved result y, m.resolve doms pending limit = .ok (resolved, result) ∧
      Progress.Steps m.graph doms m.tryBlocks { tree := m.tree, pending } y ∧ Resolution.Reports m y resolved := by
  let K : Nat → Progress → Prop := fun _ x => Progress.Steps m.graph doms m.tryBlocks { tree := m.tree, pending } x
  have hsweep : ∀ n s x, Resolution.Reports m x s → K n x →
      ∃ s' y, s.sweep doms = .ok s' ∧ Resolution.Reports m y s' ∧ K (n + 1) y := by
    intro n s x hx hK
    obtain ⟨s', y, hs, -, hxy, hy⟩ := hx.sweep_ok (hK.wellFormed hw) hh doms
    exact ⟨s', y, hs, hy, hK.trans hxy⟩
  obtain ⟨resolved, result, y, _, hok, hy, _, hsteps⟩ :=
    (Resolution.Reports.start m pending).run_invariant K hsweep (n := 0) ReflTransGen.refl (limit + 1)
  exact ⟨resolved, result, y, hok, hsteps, hy⟩

/-- A method whose first try-block has the second one in it: block 0 leads to 1, which leads to 2; the handlers of both start
at block 3, and block 4 is where all ways end. -/
def Method.nestedTries : Method where
  name := "nested"
  graph := {
    blocks := #[{}, { guard := some 7 }, { guard := some 8 }, {}, {}]
    edges := #[⟨0, 1, .fall⟩, ⟨1, 2, .fall⟩, ⟨1, 3, .exception⟩, ⟨2, 3, .exception⟩, ⟨2, 4, .jump⟩, ⟨3, 4, .fall⟩]
    entry := some 0
    edges_inside := by decide }
  tryBlocks := [⟨7, [⟨none, 3⟩]⟩, ⟨8, [⟨none, 3⟩]⟩]
  tree := {
    regions := #[
      { kind := .sequence, parent := none, children := [.block 0, .region 1, .block 3, .block 4] },
      { kind := .sequence, parent := some 0, children := [.block 1, .block 2] }] }

def Dominance.nestedTries : Dominance :=
  .ofSets [(0, [0]), (1, [0, 1]), (2, [0, 1, 2]), (3, [0, 1, 3]), (4, [0, 1, 4])]

def Pending.nestedTries : Pending := ((∅ : Pending).insert 1 7).insert 2 8

end GuardedRegions
