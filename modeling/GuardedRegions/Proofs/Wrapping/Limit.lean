import GuardedRegions.Proofs.Region.Valid
import GuardedRegions.Proofs.Wrapping.Hierarchy
import GuardedRegions.Proofs.Wrapping.Load

/-!
# How many sweeps a run makes

`Resolution.Sweeps` counts sweeps that are made one after the other. A run ends as soon as nothing is pending, and with an
error after as many sweeps as its bound says (`Resolution.exists_sweeps`). Each sweep lowers the load, and
once that is zero no dominator that is still pending is a block of the tree. So a run needs no more sweeps than its load if
all pending dominators are blocks of the tree; otherwise it makes all sweeps that it may, and those that are not are left.
-/

namespace GuardedRegions

open Relation

variable {m : Method} {g : Graph} {doms : Dominance} {tryBlocks : List TryBlock} {x y : Progress}

/-! ## Blocks that are in the tree -/

namespace RegionTree

variable {t u : RegionTree}

theorem Extends.holds_iff (h : Extends t u) (hw : t.WellFormed) {b : Nat} : u.Holds b ↔ t.Holds b := by
  rw [← h.wellFormed.mem_blockList_root, ← hw.mem_blockList_root, h.root]
  exact h.mem_blockList hw hw.has_root

end RegionTree

namespace Progress

theorem Step.get?_eq {r d : Nat} (h : Step g doms tryBlocks r x y) (hd : ¬ x.tree.Holds d) :
    y.pending.get? d = x.pending.get? d := by
  have hne : ∀ {e}, x.pending.first? x.tree r = some e → d ≠ e.1 := by
    rintro e he rfl
    exact hd ⟨r, Pending.child_of_first? he⟩
  cases h with
  | idle => rfl
  | gaveUp hfirst => rw [Pending.get?_remove, if_neg (hne hfirst)]
  | wrapped hfirst => rw [Pending.get?_remove, if_neg (hne hfirst)]

theorem Steps.get?_eq {d : Nat} (h : Steps g doms tryBlocks x y) (hw : x.tree.WellFormed) (hd : ¬ x.tree.Holds d) :
    y.pending.get? d = x.pending.get? d := by
  have hkept : x.tree.Extends y.tree ∧ y.pending.get? d = x.pending.get? d := by
    refine h.preserve (P := fun a => x.tree.Extends a.tree ∧ a.pending.get? d = x.pending.get? d) ?_
      ⟨RegionTree.Extends.refl hw, rfl⟩
    rintro r a b ⟨hext, ha⟩ hab
    have hda := mt (hext.holds_iff hw).1 hd
    exact ⟨hext.trans (hab.extends hext.wellFormed), (hab.get?_eq hda).trans ha⟩
  exact hkept.2

def AllHeld (x : Progress) : Prop := ∀ e ∈ x.pending.entries, x.tree.Holds e.1

theorem Steps.allHeld (h : Steps g doms tryBlocks x y) (hw : x.tree.WellFormed) (hx : x.AllHeld) : y.AllHeld :=
  fun e he => ((h.extends hw).holds_iff hw).2 (hx e (h.pending_sublist.subset he))

theorem not_holds_of_load (h : x.load = 0) {e : Nat × Nat} (he : e ∈ x.pending.entries) : ¬ x.tree.Holds e.1 := by
  rintro ⟨r, hr⟩
  have hpos := Pending.waitingIn_pos_iff.2 ⟨e, he, hr⟩
  have hle : x.pending.waitingIn x.tree r ≤ x.load := Pending.waitingIn_le_load ..
  omega

/-- Once the load is used up, what is left is not in the tree. -/
theorem Steps.not_holds (h : Steps g doms tryBlocks x y) (hw : x.tree.WellFormed) (hzero : y.load = 0) {e : Nat × Nat}
    (he : e ∈ y.pending.entries) : ¬ x.tree.Holds e.1 :=
  mt ((h.extends hw).holds_iff hw).2 (not_holds_of_load hzero he)

theorem exists_of_not_isEmpty {p : Pending} (h : p.isEmpty = false) : ∃ e, e ∈ p.entries :=
  List.exists_mem_of_ne_nil _ (List.isEmpty_eq_false_iff.1 h)

end Progress

/-! ## Sweeps one after the other -/

namespace Resolution

variable {s s' s'' : Resolution} {n : Nat}

/-- So many sweeps lead from one state to another, each from a state in which something is pending. -/
inductive Sweeps (doms : Dominance) : Nat → Resolution → Resolution → Prop
  | none {s : Resolution} : Sweeps doms 0 s s
  | more {n : Nat} {s s' s'' : Resolution} (hleft : s.pending.isEmpty = false) (hsweep : s.sweep doms = .ok s')
      (hrest : Sweeps doms n s' s'') : Sweeps doms (n + 1) s s''

theorem run_of_isEmpty (h : s.pending.isEmpty = true) (bound : Nat) : run doms bound s = .ok (s, .ok s.tally) := by
  unfold run
  rw [if_pos h]

theorem run_zero (h : s.pending.isEmpty = false) :
    run doms 0 s = .ok (s, .error (.wrapLimitReached s.method.name s.tally.passes)) := by
  unfold run
  rw [if_neg (by simp [h])]

theorem run_succ (h : s.pending.isEmpty = false) (bound : Nat) :
    run doms (bound + 1) s = s.sweep doms >>= fun s' => run doms bound s' := by
  conv => lhs; unfold run
  rw [if_neg (by simp [h])]

/-- **A run is a number of sweeps**: until nothing is pending, or as many as it may make. -/
theorem exists_sweeps {bound : Nat} {result : Except Error Tally} (h : run doms bound s = .ok (s', result)) :
    ∃ n ≤ bound, Sweeps doms n s s' ∧ (s'.pending.isEmpty = true ∧ result = .ok s'.tally ∨
      s'.pending.isEmpty = false ∧ n = bound ∧ result = .error (.wrapLimitReached s'.method.name s'.tally.passes)) := by
  induction bound generalizing s with
  | zero =>
    cases hleft : s.pending.isEmpty with
    | true =>
      rw [run_of_isEmpty hleft] at h
      cases h
      exact ⟨0, Nat.le_refl 0, Sweeps.none, Or.inl ⟨hleft, rfl⟩⟩
    | false =>
      rw [run_zero hleft] at h
      cases h
      exact ⟨0, Nat.le_refl 0, Sweeps.none, Or.inr ⟨hleft, rfl, rfl⟩⟩
  | succ bound ih =>
    cases hleft : s.pending.isEmpty with
    | true =>
      rw [run_of_isEmpty hleft] at h
      cases h
      exact ⟨0, Nat.zero_le _, Sweeps.none, Or.inl ⟨hleft, rfl⟩⟩
    | false =>
      rw [run_succ hleft, bind_eq_ok_iff] at h
      obtain ⟨s₁, hs₁, hrun⟩ := h
      obtain ⟨n, hn, hsweeps, hend⟩ := ih hrun
      refine ⟨n + 1, Nat.succ_le_succ hn, Sweeps.more hleft hs₁ hsweeps, hend.imp_right ?_⟩
      rintro ⟨hpending, rfl, hresult⟩
      exact ⟨hpending, rfl, hresult⟩

theorem of_run_eq_ok {bound : Nat} {tally : Tally} (h : run doms bound s = .ok (s', .ok tally)) :
    s'.pending.isEmpty = true ∧ s'.tally = tally := by
  obtain ⟨n, -, -, ⟨hempty, hresult⟩ | ⟨-, -, hresult⟩⟩ := exists_sweeps h
  · exact ⟨hempty, (Except.ok.inj hresult).symm⟩
  · cases hresult

/-- Sweeps after which nothing is pending are the run of every bound that allows them. -/
theorem Sweeps.run_eq (h : Sweeps doms n s s') (hempty : s'.pending.isEmpty = true) {bound : Nat} (hn : n ≤ bound) :
    run doms bound s = .ok (s', .ok s'.tally) := by
  induction h generalizing bound with
  | none => exact run_of_isEmpty hempty bound
  | more hleft hsweep _ ih =>
    obtain ⟨bound, rfl⟩ := Nat.exists_eq_add_one.2 (Nat.lt_of_lt_of_le (Nat.succ_pos _) hn)
    rw [run_succ hleft, hsweep, ok_bind]
    exact ih hempty (Nat.le_of_succ_le_succ hn)

/-- **What sweeps do to the load**: each lowers it by one, and where all pending dominators are blocks of the tree, none is
made that has nothing to lower. -/
theorem Sweeps.reports (h : Sweeps doms n s s') (hx : Reports m x s) (hw : x.tree.WellFormed) (hh : m.HandlersExist) :
    ∃ y, Progress.Steps m.graph doms m.tryBlocks x y ∧ Reports m y s' ∧ s'.tally.passes = s.tally.passes + n ∧
      y.load ≤ x.load - n ∧ (x.AllHeld → n ≤ x.load) := by
  induction h generalizing x with
  | none => exact ⟨x, ReflTransGen.refl, hx, rfl, Nat.le_refl _, fun _ => Nat.zero_le _⟩
  | @more n s s₁ s' hleft hsweep _ ih =>
    obtain ⟨s₂, y, hs₂, hpasses, hxy, hy⟩ := hx.sweep_ok hw hh doms
    obtain rfl : s₂ = s₁ := Except.ok.inj (hs₂.symm.trans hsweep)
    have hload := hx.load_sweep hw hh hsweep hy
    obtain ⟨z, hyz, hz, hpasses', hload', hheld⟩ := ih hy (hxy.wellFormed hw)
    refine ⟨z, hxy.trans hyz, hz, by omega, by omega, fun hxh => ?_⟩
    have hpos : x.load ≠ 0 := by
      intro hzero
      rw [hx.pending] at hleft
      obtain ⟨e, he⟩ := Progress.exists_of_not_isEmpty hleft
      exact Progress.not_holds_of_load hzero he (hxh e he)
    have := hheld (hxy.allHeld hw hxh)
    omega

end Resolution

namespace Method

theorem resolve_of_load (hw : m.tree.WellFormed) (hh : m.HandlersExist) (doms : Dominance) (pending : Pending) (limit : Nat)
    (hheld : ∀ e ∈ pending.entries, m.tree.Holds e.1) (hload : pending.load m.tree ≤ limit + 1) :
    ∃ resolved, m.resolve doms pending limit = .ok (resolved, .ok resolved.tally) := by
  obtain ⟨resolved, result, -, hok, -, -⟩ := resolve_ok hw hh doms pending limit
  obtain ⟨n, -, hsweeps, hend⟩ := Resolution.exists_sweeps hok
  rcases hend with ⟨-, rfl⟩ | ⟨hsome, rfl, -⟩
  · exact ⟨resolved, hok⟩
  · -- the sweeps have used up the load, and yet something in the tree is left
    obtain ⟨y, hsteps, hy, -, hused, -⟩ := hsweeps.reports (Resolution.Reports.start m pending) hw hh
    rw [hy.pending] at hsome
    obtain ⟨e, he⟩ := Progress.exists_of_not_isEmpty hsome
    have hzero : Progress.load { tree := m.tree, pending } - (limit + 1) = 0 := Nat.sub_eq_zero_of_le hload
    exact absurd (hheld e (hsteps.pending_sublist.subset he)) (hsteps.not_holds hw (by omega) he)

/-- **How many sweeps a run makes, and what an error means.** If all pending dominators are blocks of the tree and the limit
is not below the load, everything is resolved, in as many sweeps as the load at most. A pending dominator that is no block
of the tree makes the run reach the limit; such ones are left, and none but them if the limit is not below the load. An
error tells of one sweep more than the limit, and a run without error is the same with any higher limit. -/
theorem resolve_sweeps (hv : m.tree.validate = .ok ()) (hh : m.HandlersExist) (doms : Dominance) (pending : Pending)
    (limit : Nat) :
    ∃ blocks resolved result, m.tree.blocksOf (.region m.tree.root) = .ok blocks ∧
      m.resolve doms pending limit = .ok (resolved, result) ∧
      Resolution.Sweeps doms resolved.tally.passes { method := m, pending } resolved ∧
      ((∀ e ∈ pending.entries, e.1 ∈ blocks) → pending.load m.tree ≤ limit + 1 →
        result = .ok resolved.tally ∧ resolved.pending.isEmpty = true ∧ resolved.tally.passes ≤ pending.load m.tree) ∧
      ((∃ e ∈ pending.entries, e.1 ∉ blocks) →
        result = .error (.wrapLimitReached m.name (limit + 1)) ∧ resolved.tally.passes = limit + 1 ∧
        (∀ d i, pending.get? d = some i → d ∉ blocks → resolved.pending.get? d = some i) ∧
        (pending.load m.tree ≤ limit + 1 →
          ∀ d i, resolved.pending.get? d = some i → pending.get? d = some i ∧ d ∉ blocks)) ∧
      (∀ e, result = .error e → e = .wrapLimitReached m.name (limit + 1) ∧ resolved.tally.passes = limit + 1) ∧
      (∀ tally, result = .ok tally →
        ∀ limit', limit ≤ limit' → m.resolve doms pending limit' = .ok (resolved, result)) := by
  have hw := RegionTree.validate_eq_ok_iff.1 hv
  obtain ⟨resolved, result, -, hok, -, -⟩ := resolve_ok hw hh doms pending limit
  obtain ⟨n, hn, hsweeps, hend⟩ := Resolution.exists_sweeps hok
  obtain ⟨y, hsteps, hy, hpasses, hload, hheld⟩ := hsweeps.reports (Resolution.Reports.start m pending) hw hh
  have hpasses : resolved.tally.passes = n := by rw [hpasses, Nat.zero_add]
  have hblocks : ∀ {b}, b ∈ m.tree.blockList (.region m.tree.root) ↔ m.tree.Holds b := hw.mem_blockList_root
  have hleft : n = limit + 1 → pending.load m.tree ≤ limit + 1 → ∀ e ∈ y.pending.entries, ¬ m.tree.Holds e.1 := by
    intro hlimit hle e he
    have hused : Progress.load { tree := m.tree, pending } - n = 0 := Nat.sub_eq_zero_of_le (hlimit ▸ hle)
    exact hsteps.not_holds hw (by omega) he
  refine ⟨_, resolved, result, hw.blocksOf_eq hw.has_root, hok, hpasses ▸ hsweeps, ?_, ?_, ?_, ?_⟩
  · intro hall hle
    have hall' : Progress.AllHeld { tree := m.tree, pending } := fun e he => hblocks.1 (hall e he)
    rcases hend with ⟨hempty, hresult⟩ | ⟨hsome, hlimit, -⟩
    · exact ⟨hresult, hempty, hpasses ▸ hheld hall'⟩
    · rw [hy.pending] at hsome
      obtain ⟨e, he⟩ := Progress.exists_of_not_isEmpty hsome
      exact absurd (hall' e (hsteps.pending_sublist.subset he)) (hleft hlimit hle e he)
  · rintro ⟨⟨d, i⟩, hentry, hmissing⟩
    have hkept : ∀ d i, pending.get? d = some i → d ∉ m.tree.blockList (.region m.tree.root) →
        resolved.pending.get? d = some i := by
      intro d i hd hno
      rw [hy.pending, hsteps.get?_eq hw (mt hblocks.2 hno)]
      exact hd
    have hstays := Pending.get?_eq_some_iff.1 (hkept d i (Pending.get?_eq_some_iff.2 hentry) hmissing)
    rcases hend with ⟨hempty, -⟩ | ⟨-, hlimit, hresult⟩
    · rw [Pending.isEmpty, List.isEmpty_iff] at hempty
      rw [hempty] at hstays
      cases hstays
    · rw [hy.marked.name, hpasses, hlimit] at hresult
      refine ⟨hresult, hpasses.trans hlimit, hkept, fun hle d i hd => ?_⟩
      rw [hy.pending, Pending.get?_eq_some_iff] at hd
      have hno := hleft hlimit hle (d, i) hd
      exact ⟨Pending.get?_eq_some_iff.2 (hsteps.pending_sublist.subset hd), mt hblocks.1 hno⟩
  · intro e he
    rcases hend with ⟨-, hresult⟩ | ⟨-, hlimit, hresult⟩
    · rw [hresult] at he
      cases he
    · rw [hresult, hy.marked.name, hpasses, hlimit, Except.error.injEq] at he
      exact ⟨he.symm, hpasses.trans hlimit⟩
  · intro tally htally limit' hlimit'
    rcases hend with ⟨hempty, hresult⟩ | ⟨-, -, hresult⟩
    · rw [hresult]
      exact hsweeps.run_eq hempty (Nat.le_trans hn (Nat.succ_le_succ hlimit'))
    · rw [hresult] at htally
      cases htally

/-- Two dominators in one region take two sweeps; one that is no block of the tree takes all that are allowed. -/
theorem resolve_sweeps_nestedTries :
    (∃ resolved result, nestedTries.resolve .nestedTries .nestedTries 1 = .ok (resolved, result) ∧
      result = .ok resolved.tally ∧ resolved.pending.isEmpty = true ∧ resolved.tally.passes ≤ 2 ∧
      ∀ limit', 1 ≤ limit' → nestedTries.resolve .nestedTries .nestedTries limit' = .ok (resolved, result)) ∧
    ∃ resolved result, nestedTries.resolve .nestedTries (Pending.nestedTries.insert 9 7) 1 = .ok (resolved, result) ∧
      result = .error (.wrapLimitReached "nested" 2) ∧ resolved.pending.get? 9 = some 7 := by
  have hall : nestedTries.tree.blocksOf (.region 0) = .ok [0, 1, 2, 3, 4] := rfl
  constructor
  · obtain ⟨blocks, resolved, result, hblocks, hok, -, hdone, -, -, hmore⟩ :=
      resolve_sweeps (m := nestedTries) (by decide) (by decide) .nestedTries .nestedTries 1
    obtain rfl : [0, 1, 2, 3, 4] = blocks := Except.ok.inj (hall.symm.trans hblocks)
    obtain ⟨hresult, hempty, hpasses⟩ := hdone (by decide) (by decide)
    exact ⟨resolved, result, hok, hresult, hempty, Nat.le_trans hpasses (by decide), hmore _ hresult⟩
  · obtain ⟨blocks, resolved, result, hblocks, hok, -, -, hmissing, -⟩ :=
      resolve_sweeps (m := nestedTries) (by decide) (by decide) .nestedTries (Pending.nestedTries.insert 9 7) 1
    obtain rfl : [0, 1, 2, 3, 4] = blocks := Except.ok.inj (hall.symm.trans hblocks)
    obtain ⟨hresult, -, hkept, -⟩ := hmissing (by decide)
    exact ⟨resolved, result, hok, hresult, hkept 9 7 (by decide) (by decide)⟩

end Method

end GuardedRegions
