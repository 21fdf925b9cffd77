import GuardedRegions.Proofs.Region.Traversal
import GuardedRegions.Proofs.Wrapping.Pending
import GuardedRegions.Proofs.Wrapping.Regroup
import GuardedRegions.Wrapping.Resolve

/-!
# A sweep, region by region

`Progress.Step` says what leaving one region can do to the tree, to what is pending and to what has come of it so far:
nothing, the loss of an entry, or a regrouping. It is all that a sweep does (`Sweep.leave_ok`), so that what holds of the tree
and of what is pending after a sweep follows from what one step keeps (`Sweep.traverse_invariant`), also where that depends on
the regions that are still to be left. A step leaves the children of those alone (`Sweep.spares`).
-/

namespace GuardedRegions

open Relation

/-! ## The entry of a region -/

namespace Pending

variable {p : Pending} {t : RegionTree} {r : Nat} {e : Nat × Nat}

def first? (p : Pending) (t : RegionTree) (r : Nat) : Option (Nat × Nat) :=
  p.entries.find? fun e => (t.childrenOf r).contains (.block e.1)

theorem findIn_eq (hr : r < t.size) : p.findIn t r = .ok (p.first? t r) :=
  findM?_eq_ok fun e _ => RegionTree.contains_eq_ok hr (.block e.1)

theorem first?_eq_none_iff : p.first? t r = none ↔ ∀ e ∈ p.entries, .block e.1 ∉ t.childrenOf r := by
  simp [first?, List.find?_eq_none]

theorem mem_of_first? (h : p.first? t r = some e) : e ∈ p.entries := List.mem_of_find?_eq_some h

theorem child_of_first? (h : p.first? t r = some e) : .block e.1 ∈ t.childrenOf r := by
  have := List.find?_some h
  simpa using this

end Pending

/-! ## Steps -/

/-- How far a run has come: the tree, what is pending, how many try-blocks have their region, and which entries got
none. -/
structure Progress where
  tree : RegionTree
  pending : Pending
  wrapped : Nat := 0
  failures : List (Nat × Nat) := []

namespace Progress

variable {g : Graph} {doms : Dominance} {tryBlocks : List TryBlock} {r : Nat} {x y : Progress}

/-- What leaving a region can do. -/
inductive Step (g : Graph) (doms : Dominance) (tryBlocks : List TryBlock) (r : Nat) (x : Progress) : Progress → Prop
  | idle (hnone : x.pending.first? x.tree r = none) : Step g doms tryBlocks r x x
  | gaveUp {e : Nat × Nat} (hfirst : x.pending.first? x.tree r = some e)
      (hrefused : ∀ tb, tryBlocks.find? (·.id == e.2) = some tb → ¬ x.tree.Allows r (x.tree.bodyOf g doms tb e.1 r)) :
      Step g doms tryBlocks r x { x with pending := x.pending.remove e.1, failures := x.failures ++ [e] }
  | wrapped {e : Nat × Nat} {tb : TryBlock} {u : RegionTree} (hfirst : x.pending.first? x.tree r = some e)
      (hknown : tryBlocks.find? (·.id == e.2) = some tb)
      (hre : RegionTree.Regrouped x.tree r (x.tree.bodyOf g doms tb e.1 r) tb.id u) :
      Step g doms tryBlocks r x { x with tree := u, pending := x.pending.remove e.1, wrapped := x.wrapped + 1 }

abbrev Steps (g : Graph) (doms : Dominance) (tryBlocks : List TryBlock) : Progress → Progress → Prop :=
  ReflTransGen fun x y => ∃ r, Step g doms tryBlocks r x y

theorem Step.wellFormed (h : Step g doms tryBlocks r x y) (hx : x.tree.WellFormed) : y.tree.WellFormed := by
  cases h with
  | idle => exact hx
  | gaveUp => exact hx
  | wrapped _ _ hre => exact hre.wellFormed hx

theorem Step.size_le (h : Step g doms tryBlocks r x y) : x.tree.size ≤ y.tree.size := by
  cases h with
  | idle => exact Nat.le_refl _
  | gaveUp => exact Nat.le_refl _
  | wrapped _ _ hre => exact hre.size ▸ Nat.le_succ _

/-- A step changes the children of its region, and makes a region of the next number. -/
theorem Step.childrenOf_eq (h : Step g doms tryBlocks r x y) {q : Nat} (hqr : q ≠ r) (hq : q < x.tree.size) :
    y.tree.childrenOf q = x.tree.childrenOf q := by
  cases h with
  | idle => rfl
  | gaveUp => rfl
  | wrapped _ _ hre => exact hre.childrenOf_of_ne hqr (Nat.ne_of_lt hq)

theorem Step.pending_sublist (h : Step g doms tryBlocks r x y) : y.pending.entries.Sublist x.pending.entries := by
  cases h with
  | idle => exact List.Sublist.refl _
  | gaveUp => exact List.filter_sublist
  | wrapped => exact List.filter_sublist

/-- A step does not look at what came of the steps before. -/
theorem Step.after (h : Step g doms tryBlocks r x y) (n : Nat) (es : List (Nat × Nat)) :
    Step g doms tryBlocks r { x with wrapped := n + x.wrapped, failures := es ++ x.failures }
      { y with wrapped := n + y.wrapped, failures := es ++ y.failures } := by
  cases h with
  | idle hnone => exact Step.idle hnone
  | gaveUp hfirst hrefused =>
    rw [← List.append_assoc]
    exact Step.gaveUp hfirst hrefused
  | wrapped hfirst hknown hre => exact Step.wrapped hfirst hknown hre

theorem Steps.preserve {P : Progress → Prop} (h : Steps g doms tryBlocks x y)
    (hstep : ∀ r a b, P a → Step g doms tryBlocks r a b → P b) (hx : P x) : P y := by
  induction h with
  | refl => exact hx
  | tail _ h ih =>
    obtain ⟨r, h⟩ := h
    exact hstep r _ _ ih h

theorem Steps.wellFormed (h : Steps g doms tryBlocks x y) (hx : x.tree.WellFormed) : y.tree.WellFormed :=
  h.preserve (P := fun a => a.tree.WellFormed) (fun _ _ _ ha hab => hab.wellFormed ha) hx

theorem Steps.pending_sublist (h : Steps g doms tryBlocks x y) : y.pending.entries.Sublist x.pending.entries :=
  h.preserve (P := fun a => a.pending.entries.Sublist x.pending.entries)
    (fun _ _ _ ha hab => hab.pending_sublist.trans ha) (List.Sublist.refl _)

theorem Steps.tree_eq (h : Steps g doms tryBlocks x y) (hsize : y.tree.size ≤ x.tree.size) : y.tree = x.tree := by
  have hkept : x.tree.size ≤ y.tree.size ∧ (y.tree.size ≤ x.tree.size → y.tree = x.tree) := by
    refine h.preserve (P := fun a => x.tree.size ≤ a.tree.size ∧ (a.tree.size ≤ x.tree.size → a.tree = x.tree)) ?_
      ⟨Nat.le_refl _, fun _ => rfl⟩
    rintro r a b ⟨hle, ha⟩ hab
    refine ⟨Nat.le_trans hle hab.size_le, fun hb => ?_⟩
    cases hab with
    | idle => exact ha hb
    | gaveUp => exact ha hb
    | @wrapped e tb u _ _ hre =>
      have hb : u.size ≤ x.tree.size := hb
      rw [hre.size] at hb
      omega
  exact hkept.2 hsize

end Progress

/-! ## Leaving a region -/

namespace Sweep

variable {g : Graph} {doms : Dominance} {tryBlocks : List TryBlock} {t : RegionTree} {r : Nat}

def progress (t : RegionTree) (s : Sweep) : Progress where
  tree := t
  pending := s.pending
  wrapped := s.wrapped
  failures := s.failures

/-- **Leaving a region is a step.** -/
theorem leave_ok (hw : t.WellFormed) (hr : r < t.size) (hh : ∀ tb ∈ tryBlocks, tb.HandlersIn g) (doms : Dominance)
    (s : Sweep) :
    ∃ u s', leave g doms tryBlocks t r s = .ok (u, s') ∧
      Progress.Step g doms tryBlocks r (s.progress t) (s'.progress u) := by
  rw [leave, Pending.findIn_eq hr, ok_bind]
  cases hfirst : s.pending.first? t r with
  | none => exact ⟨t, s, rfl, Progress.Step.idle hfirst⟩
  | some e =>
    dsimp only
    cases hknown : tryBlocks.find? (·.id == e.2) with
    | none =>
      refine ⟨t, _, rfl, Progress.Step.gaveUp hfirst fun tb htb => ?_⟩
      rw [hknown] at htb
      cases htb
    | some tb =>
      have hid : tb.id = e.2 := by simpa using List.find?_some hknown
      obtain ⟨carving, u, hok, ⟨hsucc, hno, rfl⟩ | ⟨hsucc, hre⟩⟩ :=
        hw.carve_ok hr (hh tb (List.mem_of_find?_eq_some hknown)) doms e.1
      · simp only [hok, ok_bind, hsucc, Bool.false_eq_true, if_false]
        refine ⟨u, _, rfl, Progress.Step.gaveUp hfirst fun tb' htb' => ?_⟩
        rw [hknown] at htb'
        exact Option.some.inj htb' ▸ hno
      · simp only [hok, ok_bind, hsucc, if_true]
        exact ⟨u, _, rfl, Progress.Step.wrapped hfirst hknown hre⟩

/-! ## A whole sweep -/

/-- In the middle of a sweep that has started on a tree, the regions still to be left are as they were. -/
structure Ahead (t : RegionTree) (rest : List Nat) (u : RegionTree) : Prop where
  wellFormed : u.WellFormed
  size_le : t.size ≤ u.size
  nodup : rest.Nodup
  lt : ∀ r ∈ rest, r < t.size
  childrenOf_eq : ∀ r ∈ rest, u.childrenOf r = t.childrenOf r

theorem Ahead.start (hw : t.WellFormed) : Ahead t ((t.postOrder (.region t.root)).filterMap Container.region?) t where
  wellFormed := hw
  size_le := Nat.le_refl _
  nodup := (hw.nodup_postOrder hw.has_root).filterMap (by simp +contextual)
  lt := by
    intro r hr
    obtain ⟨c, hc, hcr⟩ := List.mem_filterMap.1 hr
    rw [Container.region?_eq_some.1 hcr] at hc
    exact hw.has_of_mem_postOrder hc
  childrenOf_eq _ _ := rfl

theorem Ahead.step {rest : List Nat} {x y : Progress} (h : Ahead t (r :: rest) x.tree)
    (hxy : Progress.Step g doms tryBlocks r x y) : Ahead t rest y.tree where
  wellFormed := hxy.wellFormed h.wellFormed
  size_le := Nat.le_trans h.size_le hxy.size_le
  nodup := (List.nodup_cons.1 h.nodup).2
  lt q hq := h.lt q (List.mem_cons_of_mem _ hq)
  childrenOf_eq := by
    intro q hq
    have hqr : q ≠ r := fun hqr => (List.nodup_cons.1 h.nodup).1 (hqr ▸ hq)
    have hlt : q < x.tree.size := Nat.lt_of_lt_of_le (h.lt q (List.mem_cons_of_mem _ hq)) h.size_le
    rw [hxy.childrenOf_eq hqr hlt, h.childrenOf_eq q (List.mem_cons_of_mem _ hq)]

theorem Ahead.children_eq {rest : List Nat} {u : RegionTree} (h : Ahead t rest u) (hr : r ∈ rest) :
    u.children r = .ok (t.childrenOf r) := by
  rw [RegionTree.children_eq_ok (Nat.lt_of_lt_of_le (h.lt r hr) h.size_le), h.childrenOf_eq r hr]

/-- **A sweep spares what is still to be left.** -/
theorem spares (hw : t.WellFormed) (hh : ∀ tb ∈ tryBlocks, tb.HandlersIn g) (doms : Dominance) (s : Sweep) :
    (visitor g doms tryBlocks).Spares t s := by
  let I : List Container → RegionTree → Sweep → Prop := fun rest u _ => Ahead t (rest.filterMap Container.region?) u
  have hunread : ∀ rest u s, I rest u s → ∀ r, .region r ∈ rest → u.children r = .ok (t.childrenOf r) :=
    fun rest u s ha r hr => Ahead.children_eq ha (List.mem_filterMap.2 ⟨_, hr, rfl⟩)
  have hleave : ∀ r rest u s u' s', I (.region r :: rest) u s → leave g doms tryBlocks u r s = .ok (u', s') →
      I rest u' s' := by
    intro r rest u s u' s' ha hcall
    have hr : r < u.size := Nat.lt_of_lt_of_le (ha.lt r List.mem_cons_self) ha.size_le
    obtain ⟨v, s'', hok, hstep⟩ := leave_ok ha.wellFormed hr hh doms s
    obtain ⟨rfl, rfl⟩ := Prod.mk.inj (Except.ok.inj (hok.symm.trans hcall))
    exact Ahead.step ha hstep
  exact RegionTree.Visitor.spares_of_invariant hw I hunread (fun _ _ _ _ ha => ha) hleave (Ahead.start hw)

/-- **A sweep is a loop over the regions of the tree that it starts on**, each after what is below it, and in each round of it
a region is left. -/
theorem traverse_leaves (hw : t.WellFormed) (hh : ∀ tb ∈ tryBlocks, tb.HandlersIn g)
    (J : List Nat → RegionTree → Sweep → Prop)
    (step : ∀ r rest u s u' s', Ahead t (r :: rest) u → J (r :: rest) u s → leave g doms tryBlocks u r s = .ok (u', s') →
      Progress.Step g doms tryBlocks r (s.progress u) (s'.progress u') → J rest u' s')
    {s : Sweep} (hJ : J ((t.postOrder (.region t.root)).filterMap Container.region?) t s) :
    ∃ u s', RegionTree.traverse (visitor g doms tryBlocks) t s = .ok (u, s') ∧ u.WellFormed ∧ J [] u s' := by
  let I : List Container → RegionTree → Sweep → Prop := fun rest u s =>
    Ahead t (rest.filterMap Container.region?) u ∧ J (rest.filterMap Container.region?) u s
  have hI : I (t.postOrder (.region t.root)) t s := ⟨Ahead.start hw, hJ⟩
  have hunread : ∀ rest u s, I rest u s → ∀ r, .region r ∈ rest → u.children r = .ok (t.childrenOf r) :=
    fun rest u s ⟨ha, _⟩ r hr => ha.children_eq (List.mem_filterMap.2 ⟨_, hr, rfl⟩)
  have hleave : ∀ r rest u s, I (.region r :: rest) u s →
      ∃ u' s', leave g doms tryBlocks u r s = .ok (u', s') ∧ I rest u' s' := by
    rintro r rest u s ⟨ha, hJ⟩
    have hr : r < u.size := Nat.lt_of_lt_of_le (ha.lt r List.mem_cons_self) ha.size_le
    obtain ⟨u', s', hok, hstep⟩ := leave_ok ha.wellFormed hr hh doms s
    rw [List.filterMap_cons_some (Container.region?_region r)] at ha hJ
    exact ⟨u', s', hok, ha.step hstep, step r _ _ _ _ _ ha hJ hok hstep⟩
  have hblock : ∀ b rest u s, I (.block b :: rest) u s → I rest u ((visitor g doms tryBlocks).block u b s) :=
    fun b rest u s hI => hI
  obtain ⟨u, s', hok, ha, hJ'⟩ := hw.traverse_invariant I hunread hblock hleave hI
  exact ⟨u, s', hok, ha.wellFormed, hJ'⟩

theorem traverse_invariant (hw : t.WellFormed) (hh : ∀ tb ∈ tryBlocks, tb.HandlersIn g) (J : List Nat → Progress → Prop)
    (step : ∀ r rest x y, Ahead t (r :: rest) x.tree → J (r :: rest) x → Progress.Step g doms tryBlocks r x y → J rest y)
    {s : Sweep} (hJ : J ((t.postOrder (.region t.root)).filterMap Container.region?) (s.progress t)) :
    ∃ u s', RegionTree.traverse (visitor g doms tryBlocks) t s = .ok (u, s') ∧ u.WellFormed ∧ J [] (s'.progress u) :=
  traverse_leaves hw hh (fun rest u s => J rest (s.progress u))
    (fun r rest u s u' s' ha hJ _ hstep => step r rest (s.progress u) (s'.progress u') ha hJ hstep) hJ

end Sweep

end GuardedRegions
