import GuardedRegions.Proofs.Flow.Alike
import GuardedRegions.Proofs.Wrapping.Settled
import Mathlib.Data.Option.Basic

/-!
# The same reconstruction on code that is alike

A reconstruction reads the graph of its method and the try-blocks, and never changes them. On a graph that is alike and on
try-blocks with the same entries it reads the same answers: each stage commutes with giving the method such code
(`Method.recode`), from the carving of one body to the whole reconstruction.
-/

namespace GuardedRegions

variable {g g' : Graph} {doms : Dominance} {id r : Nat}

/-! ## Try-blocks -/

namespace TryBlock

/-- The second try-block has the number of the first one, and its handlers start at the same blocks. -/
structure Alike (tb tb' : TryBlock) : Prop where
  id : tb'.id = tb.id
  mem_entries_iff : ∀ b, b ∈ tb'.entries ↔ b ∈ tb.entries

theorem handlersIn_iff {tb : TryBlock} : tb.HandlersIn g ↔ ∀ b ∈ tb.entries, b < g.blockCount := by
  simp [HandlersIn, entries]

variable {tb tb' : TryBlock} {tbs tbs' : List TryBlock}

theorem Alike.handlersIn (h : tb.Alike tb') (hg : g.Alike g') (hh : tb.HandlersIn g) : tb'.HandlersIn g' := by
  rw [handlersIn_iff] at hh ⊢
  intro b hb
  rw [hg.blockCount]
  exact hh b ((h.mem_entries_iff b).1 hb)

theorem Alike.handled (h : tb.Alike tb') (hg : g.Alike g') (t : RegionTree) (c : Container) :
    t.handled g' doms tb' c = t.handled g doms tb c := by
  have hentries : ∀ (g : Graph) (tb : TryBlock),
      t.handled g doms tb c = tb.entries.any fun b => (t.blockList c).all (doms.forward g b) := by
    intro g tb
    rw [RegionTree.handled, entries, List.any_map]
    rfl
  have hforward : doms.forward g' = doms.forward g := by
    funext a b
    exact hg.forward doms a b
  rw [hentries g' tb', hentries g tb, hforward, Bool.eq_iff_iff]
  simp only [List.any_eq_true, h.mem_entries_iff]

theorem find?_alike (h : List.Forall₂ Alike tbs tbs') (id : Nat) :
    Option.Rel Alike (tbs.find? (·.id == id)) (tbs'.find? (·.id == id)) := by
  induction h with
  | nil => exact .none
  | @cons tb tb' tbs tbs' hfirst _ ih =>
    rw [List.find?_cons, List.find?_cons, hfirst.id]
    cases tb.id == id with
    | true => exact .some hfirst
    | false => exact ih

end TryBlock

/-! ## A sweep -/

theorem RegionTree.WellFormed.carve_alike {t : RegionTree} (h : t.WellFormed) (hr : r < t.size) {tb tb' : TryBlock}
    (htb : tb.Alike tb') (hg : g.Alike g') (hh : tb.HandlersIn g) (dominator : Nat) :
    t.carve g' doms r tb' dominator = t.carve g doms r tb dominator := by
  obtain ⟨region, hregion, hok⟩ := region_eq_ok hr
  have hhas : ∀ c ∈ region.children, t.Has c := by
    intro c hc
    apply h.has_of_mem
    rwa [childrenOf_eq hregion]
  have hbody : t.body g' doms tb' dominator region.children = t.body g doms tb dominator region.children := by
    rw [h.body_eq hh hhas, h.body_eq (htb.handlersIn hg hh) hhas]
    simp only [htb.handled hg]
  unfold carve
  rw [hok, ok_bind, ok_bind, hbody, htb.id]

namespace Sweep

variable {tbs tbs' : List TryBlock} {t : RegionTree}

theorem leave_alike (h : t.WellFormed) (hr : r < t.size) (htbs : List.Forall₂ TryBlock.Alike tbs tbs') (hg : g.Alike g')
    (hh : ∀ tb ∈ tbs, tb.HandlersIn g) (s : Sweep) : leave g' doms tbs' t r s = leave g doms tbs t r s := by
  unfold leave
  refine congrArg (s.pending.findIn t r >>= ·) (funext fun first => ?_)
  cases first with
  | none => rfl
  | some e =>
    have hfind := TryBlock.find?_alike htbs e.2
    dsimp only
    generalize hknown : tbs.find? (·.id == e.2) = known at hfind
    generalize tbs'.find? (·.id == e.2) = known' at hfind
    cases hfind with
    | none => rfl
    | some htb =>
      dsimp only
      rw [h.carve_alike hr htb hg (hh _ (List.mem_of_find?_eq_some hknown))]

/-- A traversal is the loop of anything that leaves regions in the same way. -/
theorem traverse_eq_foldlM (hw : t.WellFormed) (hh : ∀ tb ∈ tbs, tb.HandlersIn g)
    {f : RegionTree × Sweep → Nat → Except Fault (RegionTree × Sweep)}
    (hf : ∀ u r s, u.WellFormed → r < u.size → f (u, s) r = leave g doms tbs u r s) (s : Sweep) :
    t.traverse (visitor g doms tbs) s =
      ((t.postOrder (.region t.root)).filterMap Container.region?).foldlM f (t, s) := by
  let J : List Nat → RegionTree → Sweep → Prop := fun rest u s' => rest.foldlM f (u, s') =
    ((t.postOrder (.region t.root)).filterMap Container.region?).foldlM f (t, s)
  have hstep : ∀ r rest u s u' s', Ahead t (r :: rest) u → J (r :: rest) u s → leave g doms tbs u r s = .ok (u', s') →
      Progress.Step g doms tbs r (s.progress u) (s'.progress u') → J rest u' s' := by
    intro r rest u s u' s' ha hJ hleave _
    have hr : r < u.size := Nat.lt_of_lt_of_le (ha.lt r List.mem_cons_self) ha.size_le
    have hJ : (r :: rest).foldlM f (u, s) = _ := hJ
    rwa [List.foldlM_cons, hf u r s ha.wellFormed hr, hleave, ok_bind] at hJ
  obtain ⟨u, s', hok, -, hJ⟩ := traverse_leaves (s := s) hw hh J hstep rfl
  exact hok.trans hJ

/-- **A sweep is the same on code that is alike.** -/
theorem traverse_alike (hw : t.WellFormed) (htbs : List.Forall₂ TryBlock.Alike tbs tbs') (hg : g.Alike g')
    (hh : ∀ tb ∈ tbs, tb.HandlersIn g) (hh' : ∀ tb ∈ tbs', tb.HandlersIn g') (s : Sweep) :
    t.traverse (visitor g' doms tbs') s = t.traverse (visitor g doms tbs) s := by
  rw [traverse_eq_foldlM (f := fun x r => leave g doms tbs x.1 r x.2) hw hh fun _ _ _ _ _ => rfl]
  refine traverse_eq_foldlM hw hh' (fun u r s hu hr => ?_) s
  exact (leave_alike hu hr htbs hg hh s).symm

end Sweep

/-! ## A whole reconstruction -/

namespace Method

variable {m : Method} {tbs' : List TryBlock}

def recode (m : Method) (g' : Graph) (tbs' : List TryBlock) : Method := { m with graph := g', tryBlocks := tbs' }

structure CodeAlike (m : Method) (g' : Graph) (tbs' : List TryBlock) : Prop where
  graph : m.graph.Alike g'
  tryBlocks : List.Forall₂ TryBlock.Alike m.tryBlocks tbs'

theorem CodeAlike.hasTryBlocks (h : m.CodeAlike g' tbs') : (m.recode g' tbs').hasTryBlocks = m.hasTryBlocks := by
  have hsame : ∀ {xs ys : List TryBlock}, List.Forall₂ TryBlock.Alike xs ys → ys.isEmpty = xs.isEmpty := by
    intro xs ys hxy
    cases hxy <;> rfl
  exact congrArg (!·) (hsame h.tryBlocks)

theorem CodeAlike.isNone_tryBlock? (h : m.CodeAlike g' tbs') (id : Nat) :
    ((m.recode g' tbs').tryBlock? id).isNone = (m.tryBlock? id).isNone := by
  have hsame : ∀ {x y : Option TryBlock}, Option.Rel TryBlock.Alike x y → y.isNone = x.isNone := by
    intro x y hxy
    cases hxy <;> rfl
  exact hsame (TryBlock.find?_alike h.tryBlocks id)

end Method

/-! ### The run -/

namespace Resolution

variable {s : Resolution} {tbs' : List TryBlock}

def recode (s : Resolution) (g' : Graph) (tbs' : List TryBlock) : Resolution :=
  { s with method := s.method.recode g' tbs' }

theorem foldl_giveUp_recode (es : List (Nat × Nat)) (m : Method) :
    es.foldl giveUp (m.recode g' tbs') = (es.foldl giveUp m).recode g' tbs' := by
  rw [foldl_giveUp_eq, foldl_giveUp_eq]
  rfl

theorem sweep_recode (h : s.method.CodeAlike g' tbs') (hw : s.method.tree.WellFormed) (hh : s.method.HandlersExist)
    (hh' : ∀ tb ∈ tbs', tb.HandlersIn g') (doms : Dominance) :
    ∃ s', s.sweep doms = .ok s' ∧ (s.recode g' tbs').sweep doms = .ok (s'.recode g' tbs') ∧
      s'.method.tree.WellFormed ∧ s'.method.graph = s.method.graph ∧ s'.method.tryBlocks = s.method.tryBlocks := by
  obtain ⟨u, swept, hok, hu, -⟩ : ∃ u swept, s.method.tree.traverse (Sweep.visitor s.method.graph doms s.method.tryBlocks)
      { pending := s.pending } = .ok (u, swept) ∧ u.WellFormed ∧ True :=
    Sweep.traverse_leaves hw hh (fun _ _ _ => True) (fun _ _ _ _ _ _ _ _ _ _ => trivial) trivial
  have hsame : (s.recode g' tbs').method.tree.traverse (Sweep.visitor (s.recode g' tbs').method.graph doms
      (s.recode g' tbs').method.tryBlocks) { pending := (s.recode g' tbs').pending } = .ok (u, swept) :=
    (Sweep.traverse_alike hw h.tryBlocks h.graph hh hh' { pending := s.pending }).trans hok
  have hgivenUp : swept.failures.foldl giveUp { (s.recode g' tbs').method with tree := u } =
      (swept.failures.foldl giveUp { s.method with tree := u }).recode g' tbs' :=
    foldl_giveUp_recode swept.failures { s.method with tree := u }
  have hmethod := foldl_giveUp_eq swept.failures { s.method with tree := u }
  unfold sweep
  simp only [hsame, hok, ok_bind, hgivenUp]
  refine ⟨_, rfl, rfl, ?_⟩
  dsimp only
  rw [hmethod]
  exact ⟨hu, rfl, rfl⟩

theorem run_recode (h : s.method.CodeAlike g' tbs') (hw : s.method.tree.WellFormed) (hh : s.method.HandlersExist)
    (hh' : ∀ tb ∈ tbs', tb.HandlersIn g') (doms : Dominance) (bound : Nat) :
    ∃ s' result, run doms bound s = .ok (s', result) ∧ run doms bound (s.recode g' tbs') = .ok (s'.recode g' tbs', result) := by
  induction bound generalizing s with
  | zero =>
    cases hleft : s.pending.isEmpty with
    | true => exact ⟨s, _, run_of_isEmpty hleft 0, run_of_isEmpty (s := s.recode g' tbs') hleft 0⟩
    | false => exact ⟨s, _, run_zero hleft, run_zero (s := s.recode g' tbs') hleft⟩
  | succ bound ih =>
    cases hleft : s.pending.isEmpty with
    | true => exact ⟨s, _, run_of_isEmpty hleft _, run_of_isEmpty (s := s.recode g' tbs') hleft _⟩
    | false =>
      obtain ⟨s', hsweep, hsweep', hw', hgraph, htries⟩ := sweep_recode h hw hh hh' doms
      rw [run_succ hleft, run_succ (s := s.recode g' tbs') hleft, hsweep, hsweep']
      apply ih (s := s') _ hw'
      · unfold Method.HandlersExist
        rw [hgraph, htries]
        exact hh
      · exact ⟨hgraph ▸ h.graph, htries ▸ h.tryBlocks⟩

end Resolution

/-! ### The search -/

namespace Search

variable {m : Method} {tbs' : List TryBlock}

theorem triage_recode (h : m.CodeAlike g' tbs') (ids : List Nat) (s : Triage) :
    triage (m.recode g' tbs') doms ids s = triage m doms ids s := by
  induction ids generalizing s with
  | nil => rfl
  | cons id ids ih =>
    unfold triage
    rw [h.isNone_tryBlock?]
    have hguarded : (m.recode g' tbs').graph.guardedBy id = m.graph.guardedBy id := h.graph.guardedBy id
    simp only [ih, hguarded]
    rfl

def Run.recode {α : Type} (s : Run α) (g' : Graph) (tbs' : List TryBlock) : Run α :=
  { s with method := s.method.recode g' tbs' }

theorem place_recode (h : m.graph.Alike g') (claimed : Pending) (ids : List Nat) (found : Search) (events : List Event) :
    place doms claimed ids { method := m.recode g' tbs', found, events } =
      (place doms claimed ids { method := m, found, events }).recode g' tbs' := by
  induction ids generalizing m found events with
  | nil => rfl
  | cons id ids ih =>
    have hguarded : (m.recode g' tbs').graph.guardedBy id = m.graph.guardedBy id := h.guardedBy id
    unfold place
    dsimp only
    rw [hguarded]
    cases doms.nearest (m.graph.guardedBy id).toList with
    | error residual => rfl
    | ok dominator =>
      dsimp only
      cases claimed.get? dominator with
      | some wrapped => exact ih h _ _
      | none =>
        dsimp only
        cases found.pending.get? dominator with
        | some kept => exact ih (m := m.addWarning _) h _ _
        | none => exact ih h _ _

end Search

namespace Method

variable {m : Method} {tbs' : List TryBlock}

theorem search_recode (h : m.CodeAlike g' tbs') (doms : Dominance) :
    (m.recode g' tbs').search doms = (m.search doms).map (·.recode g' tbs') := by
  have huse : (m.recode g' tbs').graph.tryBlocksInUse = m.graph.tryBlocksInUse := h.graph.tryBlocksInUse
  unfold search
  rw [huse, Search.triage_recode h]
  cases Search.triage m doms m.graph.tryBlocksInUse.toList {} with
  | error fault => rfl
  | ok triaged =>
    obtain ⟨triage, verdict⟩ := triaged
    cases verdict with
    | error e => rfl
    | ok _ => exact congrArg Except.ok (Search.place_recode h.graph _ _ _ _)

/-! ### The reconstruction -/

theorem reconstructFrom_recode (h : m.CodeAlike g' tbs') (hw : m.tree.WellFormed) (hh : m.HandlersExist)
    (hh' : ∀ tb ∈ tbs', tb.HandlersIn g') (options : Options) (doms : Dominance) (search : Search) (events : List Event) :
    ∃ done, m.reconstructFrom options doms search events = .ok done ∧
      (m.recode g' tbs').reconstructFrom options doms search events =
        .ok { done with method := done.method.recode g' tbs' } := by
  obtain ⟨resolved, result, hrun, hrun'⟩ :=
    Resolution.run_recode (s := { method := m, pending := search.pending }) h hw hh hh' doms (options.passLimit + 1)
  have hresolve : m.resolve doms search.pending options.passLimit = .ok (resolved, result) := hrun
  have hresolve' : (m.recode g' tbs').resolve doms search.pending options.passLimit =
      .ok (resolved.recode g' tbs', result) := hrun'
  unfold reconstructFrom
  rw [hresolve, hresolve', ok_bind, ok_bind]
  exact ⟨_, rfl, rfl⟩

/-- **A reconstruction with other code that is alike** has the same result and the same trace, and leaves the same method, but
for its code. -/
theorem reconstruct_recode (h : m.CodeAlike g' tbs') (hw : m.tree.WellFormed) (hh : m.HandlersExist)
    (hh' : ∀ tb ∈ tbs', tb.HandlersIn g') (he : ∀ entry, m.graph.entry = some entry → entry < m.graph.blockCount)
    (options : Options) :
    ∃ done, m.reconstruct options = .ok done ∧
      (m.recode g' tbs').reconstruct options = .ok { done with method := done.method.recode g' tbs' } := by
  obtain ⟨doms, hdoms⟩ := Graph.dominance_ok he
  have hdoms' : (m.recode g' tbs').graph.dominance = .ok doms := h.graph.dominance.trans hdoms
  have hcode : (m.recode g' tbs').hasNoCode = m.hasNoCode := h.graph.isEmpty
  have hcheck : (m.recode g' tbs').check options = .ok () := check_eq_ok hw
  have hevents : (m.recode g' tbs').graph.dominanceEvents = m.graph.dominanceEvents := by
    show g'.dominanceEvents = m.graph.dominanceEvents
    unfold Graph.dominanceEvents
    rw [h.graph.entry, h.graph.blockCount]
  obtain ⟨searched, texts, hsearch, hmethod, -⟩ := search_ok hw doms
  have hsearch' : (m.recode g' tbs').search doms = .ok (searched.recode g' tbs') := by
    rw [search_recode h, hsearch]
    rfl
  have hfound : (searched.recode g' tbs').found = searched.found := rfl
  unfold reconstruct
  rw [hcode, h.hasTryBlocks]
  split
  · exact ⟨_, rfl, rfl⟩
  · rw [check_eq_ok hw, hcheck]
    simp only [hdoms, hdoms', ok_bind, hsearch, hsearch', hfound, hevents]
    cases searched.found with
    | error e => exact ⟨_, rfl, rfl⟩
    | ok search =>
      have hmarked : Marked m searched.method := hmethod ▸ ⟨rfl, rfl, rfl, rfl⟩
      exact reconstructFrom_recode ⟨hmarked.graph ▸ h.graph, hmarked.tryBlocks ▸ h.tryBlocks⟩ (hmarked.tree ▸ hw)
        (hmarked.handlersExist hh) hh' options doms search _

end Method

end GuardedRegions
