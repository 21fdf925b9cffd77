import GuardedRegions.Proofs.Region.Valid

/-!
# The examination, read by read

`RegionTree.validate` ends after a number of rounds that is set beforehand, and to it a region that does not exist has no
children. `RegionTree.examine` is the examination as a loop that goes on while a region waits and takes each region from where
its number points: it is stopped by a number that no region has, and by a region that still waits when its rounds are used up.
Neither happens on any arena, circles and loose ends included, if it has as many rounds as there are regions
(`run_examine`).
-/

namespace GuardedRegions.RegionTree

variable {t : RegionTree}

namespace Survey

/-- Takes a child of a region into account. A region is read only after its number was compared with the size. -/
def note (t : RegionTree) (parent : Nat) (s : Survey) : Container → ExceptT TreeFlaw (Except Fault) Survey
  | .block b =>
    if s.blocks.contains b then throw (.repeatedBlock b)
    else return { s with blocks := b :: s.blocks }
  | .region r =>
    if t.size ≤ r then throw (.missingRegion r)
    else if s.regions.contains r then throw (.sharedRegion r)
    else do
      let region ← t.region r
      if region.parent ≠ some parent then throw (.wrongParent r region.parent parent)
      else return { s with regions := r :: s.regions, waiting := r :: s.waiting }

def exhaust (t : RegionTree) : Nat → Survey → ExceptT TreeFlaw (Except Fault) Survey
  | rounds, s =>
    match s.waiting with
    | [] => return s
    | r :: waiting =>
      match rounds with
      | 0 => throwThe Fault .endlessNesting
      | rounds + 1 => do
        let s ← (← t.children r).foldlM (note t r) { s with waiting }
        exhaust t rounds s

end Survey

/-- Examines an arena in a number of rounds at most, each of which looks at the children of one region. -/
def examine (t : RegionTree) (rounds : Nat) : ExceptT TreeFlaw (Except Fault) Unit :=
  if t.size ≤ t.root then throw .missingRoot
  else do
    match (← t.region t.root).parent with
    | some parent => throw (.rootHasParent parent)
    | none =>
      let survey ← Survey.exhaust t rounds { regions := [t.root], blocks := [], waiting := [t.root] }
      if survey.regions.length = t.size then return ()
      else throw (.detached ((List.range t.size).filter fun r => !survey.regions.contains r))

/-! ## No fault is met -/

theorem lift_ok_bind {ε δ α β : Type} (a : α) (f : α → ExceptT ε (Except δ) β) :
    ((liftM (Except.ok a : Except δ α) : ExceptT ε (Except δ) α) >>= f) = f a := rfl

theorem run_bind_of_ok {ε δ α β : Type} {x : ExceptT ε (Except δ) α} {f : α → ExceptT ε (Except δ) β} {a : α}
    (h : x.run = .ok (.ok a)) : (x >>= f).run = (f a).run := by
  rw [ExceptT.run_bind, h]
  rfl

theorem run_bind_of_error {ε δ α β : Type} {x : ExceptT ε (Except δ) α} {f : α → ExceptT ε (Except δ) β} {e : ε}
    (h : x.run = .ok (.error e)) : (x >>= f).run = .ok (.error e) := by
  rw [ExceptT.run_bind, h]
  rfl

namespace Survey

variable {s : Survey} {done : List Nat} {rounds bound : Nat}

theorem run_note (t : RegionTree) (parent : Nat) (s : Survey) (c : Container) :
    (note t parent s c).run = .ok (add t parent s c) := by
  cases c with
  | block b =>
    by_cases hb : s.blocks.contains b <;> simp only [note, add, hb] <;> rfl
  | region r =>
    cases hr : t.get? r with
    | none =>
      simp only [note, add, hr, get?_eq_none_iff.1 hr]
      rfl
    | some region =>
      have hsize := Nat.not_le.2 (lt_size_of_get? hr)
      simp only [note, add, hr, if_neg hsize, region_eq_ok_iff.2 hr, lift_ok_bind]
      by_cases hs : s.regions.contains r
      · simp only [hs]
        rfl
      · by_cases hp : region.parent ≠ some parent
        · simp only [hs, if_pos hp]
          rfl
        · simp only [hs, if_neg hp]
          rfl

theorem run_foldlM_note (t : RegionTree) (parent : Nat) (cs : List Container) (s : Survey) :
    (cs.foldlM (note t parent) s).run = .ok (cs.foldlM (add t parent) s) := by
  induction cs generalizing s with
  | nil => rfl
  | cons c cs ih =>
    rw [List.foldlM_cons, List.foldlM_cons]
    have hc := run_note t parent s c
    cases hadd : add t parent s c with
    | error flaw => exact run_bind_of_error (hadd ▸ hc)
    | ok u => exact (run_bind_of_ok (hadd ▸ hc)).trans (ih u)

theorem run_exhaust_nil (hw : s.waiting = []) : (exhaust t rounds s).run = .ok (complete t bound s) := by
  unfold exhaust
  cases bound <;> simp only [complete, hw] <;> rfl

/-- With rounds for all regions that were not looked at, the loop is not stopped, and it does what so many bounded steps do. -/
theorem Fits.run_exhaust (h : Fits t done s) (hroot : t.root < t.size) (hr : s.regions.Nodup) (hb : s.blocks.Nodup)
    (hrounds : t.size ≤ done.length + rounds) (hbound : t.size ≤ done.length + bound) :
    (exhaust t rounds s).run = .ok (complete t bound s) := by
  induction rounds generalizing done s bound with
  | zero =>
    have hlength := h.length_le hroot hr
    exact run_exhaust_nil (List.length_eq_zero_iff.1 (by omega))
  | succ rounds ih =>
    cases hw : s.waiting with
    | nil => exact run_exhaust_nil hw
    | cons r waiting =>
      obtain ⟨bound, rfl⟩ : ∃ k, bound = k + 1 := by
        have hlength := h.length_le hroot hr
        rw [hw, List.length_cons] at hlength
        exact Nat.exists_eq_add_one.2 (by omega)
      have hread := children_eq_ok (h.lt_size hroot (h.split.mem_iff.2 (by simp [hw]) : r ∈ s.regions))
      unfold exhaust
      simp only [complete, hw, hread, lift_ok_bind]
      have hnote := run_foldlM_note t r (t.childrenOf r) { s with waiting }
      cases hadd : (t.childrenOf r).foldlM (add t r) { s with waiting } with
      | error flaw => exact run_bind_of_error (hadd ▸ hnote)
      | ok u =>
        obtain ⟨rfl, h1, h2, h3⟩ := (foldlM_add_eq_ok_iff (s := { s with waiting }) hr hb).1 hadd
        rw [run_bind_of_ok (hadd ▸ hnote), ok_bind]
        refine ih (h.step hw h3) h1 h2 ?_ ?_ <;> rw [List.length_cons] <;> omega

theorem Fits.filter_eq_nil_iff (h : Fits t done s) (hroot : t.root < t.size) (hr : s.regions.Nodup) :
    (List.range t.size).filter (fun r => !s.regions.contains r) = [] ↔ s.regions.length = t.size := by
  have hsub : s.regions.Subperm (List.range t.size) :=
    List.subperm_of_subset hr fun r hr => List.mem_range.2 (h.lt_size hroot hr)
  have hmem : (List.range t.size).filter (fun r => !s.regions.contains r) = [] ↔ List.range t.size ⊆ s.regions := by
    rw [List.filter_eq_nil_iff]
    exact forall₂_congr fun r _ => by simp
  rw [hmem]
  constructor
  · intro hall
    have hle := (List.subperm_of_subset List.nodup_range hall).length_le
    have hge := hsub.length_le
    rw [List.length_range] at hle hge
    omega
  · intro hlength
    have hperm := hsub.perm_of_length_le (by rw [List.length_range, hlength])
    exact hperm.symm.subset

end Survey

/-- **The examination of any arena ends**, within as many rounds as there are regions, and meets no fault under way. -/
theorem run_examine (t : RegionTree) {rounds : Nat} (hrounds : t.size ≤ rounds) :
    (t.examine rounds).run = .ok t.validate := by
  unfold examine validate
  cases hroot : t.get? t.root with
  | none =>
    rw [if_pos (get?_eq_none_iff.1 hroot)]
    rfl
  | some root =>
    have hlt := lt_size_of_get? hroot
    simp only [if_neg (Nat.not_le.2 hlt), region_eq_ok_iff.2 hroot, lift_ok_bind]
    cases hparent : root.parent with
    | some parent => rfl
    | none =>
      have hnil : ([] : List Nat).Nodup := .nil
      have hstart := Survey.Fits.start t
      have hrun : (Survey.exhaust t rounds { regions := [t.root], blocks := [], waiting := [t.root] }).run =
          .ok (Survey.complete t t.size { regions := [t.root], blocks := [], waiting := [t.root] }) :=
        hstart.run_exhaust hlt (List.nodup_singleton _) hnil (by simpa using hrounds) (by simp)
      cases hs : Survey.complete t t.size { regions := [t.root], blocks := [], waiting := [t.root] } with
      | error flaw => exact run_bind_of_error (hs ▸ hrun)
      | ok survey =>
        obtain ⟨done, hfit, hr, -, -⟩ := hstart.of_complete hlt (List.nodup_singleton _) hnil (by simp) hs
        have hall := hfit.filter_eq_nil_iff hlt hr
        simp only [run_bind_of_ok (hs ▸ hrun), ok_bind]
        by_cases hlength : survey.regions.length = t.size
        · rw [if_pos hlength, hall.2 hlength]
          rfl
        · rw [if_neg hlength]
          cases hmissing : (List.range t.size).filter fun r => !survey.regions.contains r with
          | nil => exact absurd (hall.1 hmissing) hlength
          | cons r rs => rfl

/-- **The examination is exact.** On any arena whatever it comes to an end, within as many rounds as there are regions, and reads
no region that is not there. It accepts the arena if and only if the root exists and has no parent, every region that is listed
exists and has the region that lists it as its parent, no region is listed twice, over all lists of children together, and the
root not at all, the root leads to every region, and no block is listed twice. -/
theorem validation_is_exact (t : RegionTree) :
    (∀ extra, (t.examine (t.size + extra)).run = .ok t.validate) ∧
      (t.validate = .ok () ↔
        (∃ root, t.get? t.root = some root ∧ root.parent = none) ∧
        (∀ p c, .region c ∈ t.childrenOf p → ∃ region, t.get? c = some region ∧ region.parent = some p) ∧
        (t.listed.filterMap Container.region?).Nodup ∧ .region t.root ∉ t.listed ∧
        (∀ r < t.size, t.Covers (.region t.root) (.region r)) ∧
        (t.listed.filterMap Container.block?).Nodup) := by
  refine ⟨fun extra => t.run_examine (Nat.le_add_right _ _), ?_⟩
  rw [validate_eq_ok_iff, wellFormed_iff_framed]
  constructor
  · rintro ⟨hf, hb⟩
    exact ⟨hf.root_parent, hf.child_parent, hf.nodup, hf.root_not_listed, hf.reached, hb⟩
  · rintro ⟨hroot, hparents, hr, -, hreached, hb⟩
    exact ⟨⟨hroot, hparents, hr, hreached⟩, hb⟩

/-- Two regions in a circle, which the root does not lead to, are missed at the end. -/
example : validate { regions := #[
    { kind := .sequence, parent := none },
    { kind := .sequence, parent := some 2, children := [.region 2] },
    { kind := .sequence, parent := some 1, children := [.region 1] }] } = .error (.detached [1, 2]) := by
  decide

end GuardedRegions.RegionTree
