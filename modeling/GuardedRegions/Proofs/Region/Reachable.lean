import GuardedRegions.Proofs.Region.Listed
import GuardedRegions.Proofs.Region.Valid
import GuardedRegions.Proofs.Region.Walk

/-!
# What the root leads to

`RegionTree.reachable` goes down from the root into one region after the other. `RegionTree.unstack` is the same walk as a loop:
the regions that are still to be entered wait on a stack, where a region may stand more than once, and is dropped when it comes
up again. Both are the same on any arena (`unstack_eq_reachable`), so that what a round of the loop keeps (`Open.drop`,
`Open.enter`) holds of the walk: it comes to an end, circles or not, and finds what the root leads to, once
(`exists_reachable`). In a tree it goes in pre-order.
-/

namespace GuardedRegions.RegionTree

open Relation

variable {t : RegionTree} {seen seen' stack rs : List Nat} {r q n depth : Nat}

/-! ## The walk on a stack -/

/-- Takes the regions from the top of a stack until it is empty, in a number of rounds at most. A region that was seen is dropped;
any other one is seen now, and the regions that it lists are put on the stack, the first of them on top. -/
def unstack (t : RegionTree) : Nat → List Nat → List Nat → Except Fault (List Nat)
  | _, seen, [] => .ok seen
  | 0, _, _ :: _ => .error .endlessNesting
  | rounds + 1, seen, r :: stack =>
    if seen.contains r then t.unstack rounds seen stack
    else do
      let children ← t.children r
      t.unstack rounds (seen ++ [r]) (children.filterMap Container.region? ++ stack)

theorem unstack_nil (t : RegionTree) (n : Nat) (seen : List Nat) : t.unstack n seen [] = .ok seen := by
  cases n <;> rfl

theorem unstack_of_mem (hr : r ∈ seen) (n : Nat) (stack : List Nat) :
    t.unstack (n + 1) seen (r :: stack) = t.unstack n seen stack := by
  rw [unstack, if_pos (by simpa using hr)]

theorem unstack_of_notMem (hr : r ∉ seen) (n : Nat) (stack : List Nat) :
    t.unstack (n + 1) seen (r :: stack) =
      t.children r >>= fun cs => t.unstack n (seen ++ [r]) (cs.filterMap Container.region? ++ stack) := by
  rw [unstack, if_neg (by simpa using hr)]

theorem unstack_enter (hnew : r ∉ seen) (hr : r < t.size) (n : Nat) (stack : List Nat) :
    t.unstack (n + 1) seen (r :: stack) = t.unstack n (seen ++ [r]) (t.regionsIn r ++ stack) := by
  rw [unstack_of_notMem hnew, children_eq_ok hr, ok_bind, regionsIn]

theorem children_eq_error (hr : t.size ≤ r) : t.children r = .error (.missingRegion r) := by
  rw [children, region, get?_eq_none_iff.2 hr]
  rfl

theorem unstack_missing (hnew : r ∉ seen) (hr : t.size ≤ r) (n : Nat) (stack : List Nat) :
    t.unstack (n + 1) seen (r :: stack) = .error (.missingRegion r) := by
  rw [unstack_of_notMem hnew, children_eq_error hr]
  rfl

/-! ## How many rounds there are -/

def unseen (t : RegionTree) (seen : List Nat) : List Nat := (List.range t.size).filter fun r => !seen.contains r

/-- A round for each region that waits, and one for each that will be put on the stack by a region that was not seen. -/
def roundsFor (t : RegionTree) (seen stack : List Nat) : Nat :=
  stack.length + ((t.unseen seen).flatMap t.regionsIn).length

theorem unseen_perm (hnew : r ∉ seen) (hr : r < t.size) : (t.unseen seen).Perm (r :: t.unseen (seen ++ [r])) := by
  have hnd (seen : List Nat) : (t.unseen seen).Nodup := List.nodup_range.filter _
  refine (List.perm_ext_iff_of_nodup (hnd seen) (List.nodup_cons.2 ⟨by simp [unseen], hnd _⟩)).2 fun q => ?_
  by_cases hqr : q = r
  · subst hqr
    simp [unseen, hnew, hr]
  · simp [unseen, hqr]

theorem roundsFor_enter (hnew : r ∉ seen) (hr : r < t.size) (stack : List Nat) :
    t.roundsFor seen (r :: stack) = t.roundsFor (seen ++ [r]) (t.regionsIn r ++ stack) + 1 := by
  have hlength := ((unseen_perm hnew hr).flatMap_right t.regionsIn).length_eq
  rw [List.flatMap_cons, List.length_append] at hlength
  rw [roundsFor, roundsFor, hlength, List.length_cons, List.length_append]
  omega

theorem roundsFor_drop (t : RegionTree) (seen : List Nat) (r : Nat) (stack : List Nat) :
    t.roundsFor seen (r :: stack) = t.roundsFor seen stack + 1 := by
  rw [roundsFor, roundsFor, List.length_cons]
  omega

theorem roundsFor_start (t : RegionTree) :
    t.roundsFor [] [t.root] = (t.listed.filterMap Container.region?).length + 1 := by
  have hall : t.unseen [] = List.range t.size := by simp [unseen]
  rw [roundsFor, hall, regions_listed, List.length_singleton, Nat.add_comm]

theorem unstack_congr {m : Nat} (hm : t.roundsFor seen stack ≤ m) (hn : t.roundsFor seen stack ≤ n) :
    t.unstack m seen stack = t.unstack n seen stack := by
  induction m generalizing n seen stack with
  | zero =>
    have hnil : stack = [] := List.length_eq_zero_iff.1 (by rw [roundsFor] at hm; omega)
    rw [hnil, unstack_nil, unstack_nil]
  | succ m ih =>
    cases stack with
    | nil => rw [unstack_nil, unstack_nil]
    | cons r stack =>
      have hdrop := t.roundsFor_drop seen r stack
      obtain ⟨n, rfl⟩ : ∃ k, n = k + 1 := Nat.exists_eq_add_one.2 (by omega)
      by_cases hseen : r ∈ seen
      · rw [unstack_of_mem hseen, unstack_of_mem hseen]
        exact ih (by omega) (by omega)
      · by_cases hr : r < t.size
        · have henter := roundsFor_enter hseen hr stack
          rw [unstack_enter hseen hr, unstack_enter hseen hr]
          exact ih (by omega) (by omega)
        · rw [unstack_missing hseen (Nat.not_lt.1 hr), unstack_missing hseen (Nat.not_lt.1 hr)]

/-- What the loop comes to with as many rounds as it needs. -/
def drain (t : RegionTree) (seen stack : List Nat) : Except Fault (List Nat) :=
  t.unstack (t.roundsFor seen stack) seen stack

theorem drain_eq (hn : t.roundsFor seen stack ≤ n) : t.drain seen stack = t.unstack n seen stack :=
  unstack_congr (Nat.le_refl _) hn

theorem drain_nil (t : RegionTree) (seen : List Nat) : t.drain seen [] = .ok seen := unstack_nil t _ seen

theorem drain_of_mem (hr : r ∈ seen) (stack : List Nat) : t.drain seen (r :: stack) = t.drain seen stack := by
  rw [drain, roundsFor_drop, unstack_of_mem hr, drain]

theorem drain_enter (hnew : r ∉ seen) (hr : r < t.size) (stack : List Nat) :
    t.drain seen (r :: stack) = t.drain (seen ++ [r]) (t.regionsIn r ++ stack) := by
  rw [drain, roundsFor_enter hnew hr, unstack_enter hnew hr, drain]

theorem drain_missing (hnew : r ∉ seen) (hr : t.size ≤ r) (stack : List Nat) :
    t.drain seen (r :: stack) = .error (.missingRegion r) := by
  rw [drain, roundsFor_drop, unstack_missing hnew hr]

/-! ## Going down is taking from the stack -/

/-- Regions that were seen: each exists, and none is noted twice. -/
structure Noted (t : RegionTree) (seen : List Nat) : Prop where
  nodup : seen.Nodup
  lt : ∀ r ∈ seen, r < t.size

theorem Noted.nil (t : RegionTree) : Noted t [] := ⟨.nil, fun _ h => absurd h List.not_mem_nil⟩

theorem Noted.concat (h : Noted t seen) (hnew : r ∉ seen) (hr : r < t.size) : Noted t (seen ++ [r]) where
  nodup := by
    exact (List.perm_append_singleton r seen).nodup_iff.2 (List.nodup_cons.2 ⟨hnew, h.nodup⟩)
  lt q hq := by
    rcases List.mem_append.1 hq with hq | hq
    · exact h.lt q hq
    · exact List.mem_singleton.1 hq ▸ hr

theorem Noted.length_le (h : Noted t seen) : seen.length ≤ t.size := by
  have hsub := (List.subperm_of_subset h.nodup fun r hr => List.mem_range.2 (h.lt r hr)).length_le
  rwa [List.length_range] at hsub

theorem visitWithin_of_mem (hr : r ∈ seen) (depth : Nat) : t.visitWithin depth seen r = .ok seen := by
  cases depth <;> rw [visitWithin, if_pos (by simpa using hr)]

theorem visitWithin_zero (hnew : r ∉ seen) : t.visitWithin 0 seen r = .error .endlessNesting := by
  rw [visitWithin, if_neg (by simpa using hnew)]

theorem visitWithin_enter (hnew : r ∉ seen) (hr : r < t.size) (depth : Nat) :
    t.visitWithin (depth + 1) seen r = (t.regionsIn r).foldlM (t.visitWithin depth) (seen ++ [r]) := by
  rw [visitWithin, if_neg (by simpa using hnew), children_eq_ok hr, ok_bind, regionsIn, List.foldlM_filterMap]
  refine congrArg (fun f => (t.childrenOf r).foldlM f (seen ++ [r])) ?_
  funext seen c
  cases c <;> rfl

theorem visitWithin_missing (hnew : r ∉ seen) (hr : t.size ≤ r) (depth : Nat) :
    t.visitWithin (depth + 1) seen r = .error (.missingRegion r) := by
  rw [visitWithin, if_neg (by simpa using hnew), children_eq_error hr]
  rfl

theorem Noted.visit (h : Noted t seen) (hok : t.visitWithin depth seen r = .ok seen') :
    Noted t seen' ∧ seen.length ≤ seen'.length := by
  induction depth generalizing r seen seen' with
  | zero =>
    by_cases hseen : r ∈ seen
    · rw [visitWithin_of_mem hseen, Except.ok.injEq] at hok
      exact hok ▸ ⟨h, Nat.le_refl _⟩
    · rw [visitWithin_zero hseen] at hok
      cases hok
  | succ depth ih =>
    by_cases hseen : r ∈ seen
    · rw [visitWithin_of_mem hseen, Except.ok.injEq] at hok
      exact hok ▸ ⟨h, Nat.le_refl _⟩
    · by_cases hr : r < t.size
      · rw [visitWithin_enter hseen hr] at hok
        refine foldlM_keeps (P := fun s => Noted t s ∧ seen.length ≤ s.length) ?_ ⟨h.concat hseen hr, by simp⟩ hok
        intro s q s' hs hq
        have hstep := ih hs.1 hq
        exact ⟨hstep.1, Nat.le_trans hs.2 hstep.2⟩
      · rw [visitWithin_missing hseen (Nat.not_lt.1 hr)] at hok
        cases hok

/-- **Taking a region from the stack is going down into it** and then on with the rest of the stack. There cannot be more regions
below each other than there are in the arena, so the bound on the depth of the walk is not met. -/
theorem Noted.drain_cons (h : Noted t seen) (hdepth : t.size < depth + seen.length) (r : Nat) (stack : List Nat) :
    t.drain seen (r :: stack) = t.visitWithin depth seen r >>= fun seen' => t.drain seen' stack := by
  induction depth generalizing seen r stack with
  | zero =>
    have := h.length_le
    omega
  | succ depth ih =>
    by_cases hseen : r ∈ seen
    · rw [drain_of_mem hseen, visitWithin_of_mem hseen, ok_bind]
    · by_cases hr : r < t.size
      · -- the regions that are put on the stack are taken from it before anything below them
        have hlisted (qs : List Nat) : ∀ s, Noted t s → t.size < depth + s.length →
            t.drain s (qs ++ stack) = qs.foldlM (t.visitWithin depth) s >>= fun s' => t.drain s' stack := by
          induction qs with
          | nil => exact fun s _ _ => rfl
          | cons q qs ihqs =>
            intro s hs hlt
            rw [List.cons_append, ih hs hlt, List.foldlM_cons]
            cases hq : t.visitWithin depth s q with
            | error fault => rfl
            | ok s' =>
              obtain ⟨hs', hle⟩ := hs.visit hq
              exact ihqs s' hs' (by omega)
        rw [drain_enter hseen hr, visitWithin_enter hseen hr]
        refine hlisted _ _ (h.concat hseen hr) ?_
        rw [List.length_append, List.length_singleton]
        omega
      · rw [drain_missing hseen (Nat.not_lt.1 hr), visitWithin_missing hseen (Nat.not_lt.1 hr)]
        rfl

/-- **The walk from the root is the loop over the stack**, on any arena and with any number of rounds above the number of times
that a region is listed. -/
theorem unstack_eq_reachable (hn : (t.listed.filterMap Container.region?).length < n) :
    t.unstack n [] [t.root] = t.reachable := by
  have hdrain : t.drain [] [t.root] = t.reachable >>= fun rs => t.drain rs [] :=
    (Noted.nil t).drain_cons (Nat.lt_succ_self t.size) t.root []
  rw [← drain_eq (by rwa [roundsFor_start]), hdrain]
  cases t.reachable with
  | error fault => rfl
  | ok rs => exact drain_nil t rs

/-! ## What a round keeps -/

/-- The walk has come so far: some regions were seen, and some wait. -/
structure Open (t : RegionTree) (seen stack : List Nat) : Prop where
  nodup : seen.Nodup
  start : t.root ∈ seen ++ stack
  covered : ∀ r ∈ seen ++ stack, t.Covers (.region t.root) (.region r)
  /-- What a seen region lists was seen or waits. -/
  closed : ∀ r ∈ seen, ∀ q ∈ t.regionsIn r, q ∈ seen ++ stack

namespace Open

theorem first (t : RegionTree) : Open t [] [t.root] where
  nodup := .nil
  start := List.mem_singleton_self _
  covered r hr := by
    rw [List.nil_append, List.mem_singleton] at hr
    rw [hr]
  closed r hr := absurd hr List.not_mem_nil

theorem drop (h : Open t seen (r :: stack)) (hr : r ∈ seen) : Open t seen stack := by
  have hmem (q : Nat) : q ∈ seen ++ r :: stack ↔ q ∈ seen ++ stack := by
    simp only [List.mem_append, List.mem_cons]
    constructor
    · rintro (hq | rfl | hq)
      · exact Or.inl hq
      · exact Or.inl hr
      · exact Or.inr hq
    · exact Or.imp_right Or.inr
  exact ⟨h.nodup, (hmem _).1 h.start, fun q hq => h.covered q ((hmem q).2 hq), fun p hp q hq => (hmem q).1 (h.closed p hp q hq)⟩

theorem enter (h : Open t seen (r :: stack)) (hnew : r ∉ seen) : Open t (seen ++ [r]) (t.regionsIn r ++ stack) := by
  have hmem (q : Nat) : q ∈ (seen ++ [r]) ++ (t.regionsIn r ++ stack) ↔ q ∈ seen ++ r :: stack ∨ q ∈ t.regionsIn r := by
    simp only [List.mem_append, List.mem_cons, List.not_mem_nil]
    tauto
  refine ⟨?_, (hmem _).2 (Or.inl h.start), fun q hq => ?_, fun p hp q hq => (hmem q).2 ?_⟩
  · exact (List.perm_append_singleton r seen).nodup_iff.2 (List.nodup_cons.2 ⟨hnew, h.nodup⟩)
  · rcases (hmem q).1 hq with hq | hq
    · exact h.covered q hq
    · exact (h.covered r (by simp)).tail (mem_regionsIn.1 hq)
  · rcases List.mem_append.1 hp with hp | hp
    · exact Or.inl (h.closed p hp q hq)
    · exact Or.inr (List.mem_singleton.1 hp ▸ hq)

theorem unstack_ok (h : Open t seen stack) (hall : ∀ r, t.Covers (.region t.root) (.region r) → r < t.size)
    (hn : t.roundsFor seen stack ≤ n) : ∃ rs, t.unstack n seen stack = .ok rs ∧ Open t rs [] := by
  induction n generalizing seen stack with
  | zero =>
    obtain rfl : stack = [] := List.length_eq_zero_iff.1 (by rw [roundsFor] at hn; omega)
    exact ⟨seen, unstack_nil t _ seen, h⟩
  | succ n ih =>
    cases stack with
    | nil => exact ⟨seen, unstack_nil t _ seen, h⟩
    | cons r stack =>
      by_cases hseen : r ∈ seen
      · rw [roundsFor_drop] at hn
        rw [unstack_of_mem hseen]
        exact ih (h.drop hseen) (Nat.le_of_succ_le_succ hn)
      · have hr := hall r (h.covered r (by simp))
        rw [roundsFor_enter hseen hr] at hn
        rw [unstack_enter hseen hr]
        exact ih (h.enter hseen) (Nat.le_of_succ_le_succ hn)

/-- When nothing waits, the seen regions are those that the root leads to. -/
theorem mem_iff (h : Open t rs []) : r ∈ rs ↔ t.Covers (.region t.root) (.region r) := by
  have hstart := h.start
  have hclosed := h.closed
  simp only [List.append_nil] at hstart hclosed
  refine ⟨fun hr => h.covered r (by simpa using hr), fun hr => ?_⟩
  suffices ∀ c, t.Covers (.region t.root) c → ∀ r, c = .region r → r ∈ rs from this _ hr r rfl
  intro c hc
  induction hc with
  | refl => exact fun r hr => Container.region.inj hr ▸ hstart
  | @tail p c _ hpc ih =>
    rintro r rfl
    cases p with
    | block b => exact absurd hpc child_block
    | region p => exact hclosed p (ih p rfl) r (mem_regionsIn.2 hpc)

end Open

/-- **The walk from the root finds what the root leads to**, each region once. -/
theorem exists_reachable (hall : ∀ r, t.Covers (.region t.root) (.region r) → r < t.size) :
    ∃ rs, t.reachable = .ok rs ∧ rs.Nodup ∧ ∀ r, r ∈ rs ↔ t.Covers (.region t.root) (.region r) := by
  obtain ⟨rs, hok, hopen⟩ := (Open.first t).unstack_ok hall (Nat.le_of_eq t.roundsFor_start)
  rw [unstack_eq_reachable (Nat.lt_succ_self _)] at hok
  exact ⟨rs, hok, hopen.nodup, fun _ => hopen.mem_iff⟩

theorem lt_size_of_covers (hroot : t.root < t.size) (hlisted : ∀ p c, .region c ∈ t.childrenOf p → c < t.size)
    (hr : t.Covers (.region t.root) (.region r)) : r < t.size := by
  rcases ReflTransGen.cases_tail hr with heq | ⟨p, -, hpr⟩
  · exact Container.region.inj heq ▸ hroot
  · cases p with
    | block b => exact absurd hpr child_block
    | region p => exact hlisted p r hpr

/-! ## The order in a tree -/

namespace WellFormed

theorem pair_sublist_preOrder (h : t.WellFormed) (hq : t.Encloses (.region r) (.region q)) :
    [r, q].Sublist (t.preOrder (.region t.root)) := by
  have hr : r < t.size := by
    obtain ⟨c, hc, -⟩ := encloses_iff.1 hq
    exact lt_size_of_mem hc
  refine List.Sublist.trans ?_ (h.preOrder_infix (h.reached r hr)).sublist
  rw [h.preOrder_region hr]
  refine (List.singleton_sublist.2 ?_).cons_cons r
  obtain ⟨c, hrc, hcq⟩ := encloses_iff.1 hq
  exact List.mem_flatMap.2 ⟨c, hrc, (h.mem_preOrder (h.has_of_child hrc)).2 hcq⟩

theorem siblings_sublist_preOrder (h : t.WellFormed) {p : Nat} {c d : Container} (hcd : [c, d].Sublist (t.childrenOf p))
    (hc : t.Covers c (.region q)) (hd : t.Covers d (.region r)) : [q, r].Sublist (t.preOrder (.region t.root)) := by
  have hpc : c ∈ t.childrenOf p := hcd.subset (by simp)
  have hpd : d ∈ t.childrenOf p := hcd.subset (by simp)
  have hq : [q].Sublist (t.preOrder c) := List.singleton_sublist.2 ((h.mem_preOrder (h.has_of_mem hpc)).2 hc)
  have hr : [r].Sublist (t.preOrder d) := List.singleton_sublist.2 ((h.mem_preOrder (h.has_of_mem hpd)).2 hd)
  have hparts : [q, r].Sublist ([c, d].flatMap t.preOrder) := by
    simpa using hq.append hr
  have hp : p < t.size := lt_size_of_mem hpc
  refine List.Sublist.trans ?_ (h.preOrder_infix (h.reached p hp)).sublist
  rw [h.preOrder_region hp]
  exact (hparts.trans (hcd.flatMap _)).cons p

end WellFormed

/-- **The walk from the root is exact.** On any arena it is the loop over a stack, which ends after no more rounds than regions
are listed, and one for the root. If the root and all regions that are listed exist, it finds the regions that the root leads to
through the lists of children, each once, and the tagged ones among them are the bodies of their try-blocks. In a tree it finds
every region, in pre-order: each in front of all that is below it, and all that is below a child in front of what is below a
later one. So no tagged region is missed. -/
theorem walk_from_root_is_exact (t : RegionTree) :
    (∀ extra, t.unstack ((t.listed.filterMap Container.region?).length + 1 + extra) [] [t.root] = t.reachable) ∧
      (t.root < t.size → (∀ p c, .region c ∈ t.childrenOf p → c < t.size) →
        ∃ rs, t.reachable = .ok rs ∧ rs.Nodup ∧ (∀ r, r ∈ rs ↔ t.Covers (.region t.root) (.region r)) ∧
          ∀ id, ∃ bodies, t.bodiesOf id = .ok bodies ∧ bodies.Sublist rs ∧
            ∀ r, r ∈ bodies ↔ r ∈ rs ∧ ∃ region, t.get? r = some region ∧ region.tryBlock = some id) ∧
      (t.validate = .ok () →
        ∃ rs, t.reachable = .ok rs ∧ rs = t.preOrder (.region t.root) ∧ rs.Perm (List.range t.size) ∧
          (∀ p q, t.Encloses (.region p) (.region q) → [p, q].Sublist rs) ∧
          (∀ p c d, [c, d].Sublist (t.childrenOf p) →
            ∀ q r, t.Covers c (.region q) → t.Covers d (.region r) → [q, r].Sublist rs) ∧
          ∀ id, ∃ bodies, t.bodiesOf id = .ok bodies ∧ bodies.Sublist rs ∧
            ∀ r, r ∈ bodies ↔ ∃ region, t.get? r = some region ∧ region.tryBlock = some id) := by
  refine ⟨fun extra => unstack_eq_reachable (by omega), fun hroot hlisted => ?_, fun hv => ?_⟩
  · obtain ⟨rs, hok, hnodup, hmem⟩ := exists_reachable fun r => lt_size_of_covers hroot hlisted
    exact ⟨rs, hok, hnodup, hmem, exists_bodiesOf hok⟩
  · have hw := validate_eq_ok_iff.1 hv
    have hperm : (t.preOrder (.region t.root)).Perm (List.range t.size) := by
      refine (List.perm_ext_iff_of_nodup (hw.nodup_preOrder hw.has_root) List.nodup_range).2 fun r => ?_
      rw [hw.mem_preOrder_root, List.mem_range]
    refine ⟨_, hw.reachable_eq, rfl, hperm, fun p q => hw.pair_sublist_preOrder, fun p c d hcd q r hc hd => ?_, fun id => ?_⟩
    · exact hw.siblings_sublist_preOrder hcd hc hd
    · obtain ⟨bodies, hok, hsub, hmem⟩ := exists_bodiesOf hw.reachable_eq id
      refine ⟨bodies, hok, hsub, fun r => (hmem r).trans (and_iff_right_of_imp ?_)⟩
      rintro ⟨region, hr, -⟩
      exact hw.mem_preOrder_root.2 (lt_size_of_get? hr)

/-- Three regions that list each other, with one of them listed twice by the root, and a fourth that only lists itself. -/
def tangled : RegionTree where
  regions := #[
    { kind := .sequence, parent := none, children := [.region 2, .block 0, .region 1, .region 2] },
    { kind := .loop, parent := some 0, children := [.region 0, .region 2], tryBlock := some 7 },
    { kind := .sequence, parent := some 0, children := [.region 1, .block 0, .region 2] },
    { kind := .sequence, parent := some 3, children := [.region 3], tryBlock := some 7 }]

def outOfOrder : RegionTree where
  regions := #[
    { kind := .sequence, parent := none, children := [.region 3, .block 0, .region 1] },
    { kind := .loop, parent := some 0, children := [.block 1, .region 2] },
    { kind := .sequence, parent := some 1, tryBlock := some 7 },
    { kind := .conditional, parent := some 0, children := [.block 2, .region 4] },
    { kind := .sequence, parent := some 3, children := [.block 3], tryBlock := some 7 }]

/-- The region that the root does not lead to is not found, nor is its tag. In the tree all regions are found, and the tagged one
below the branch comes before the one below the loop. -/
theorem walk_from_root_is_exact_tangled :
    (tangled.unstack 9 [] [0] = tangled.reachable ∧ tangled.reachable = .ok [0, 2, 1] ∧
      ¬ tangled.Covers (.region 0) (.region 3) ∧ ∃ bodies, tangled.bodiesOf 7 = .ok bodies ∧ 1 ∈ bodies ∧ 3 ∉ bodies) ∧
      ∃ rs, outOfOrder.reachable = .ok rs ∧ rs.Perm [0, 1, 2, 3, 4] ∧ [3, 4].Sublist rs ∧ [4, 2].Sublist rs ∧
        ∃ bodies, outOfOrder.bodiesOf 7 = .ok bodies ∧ 2 ∈ bodies ∧ 4 ∈ bodies := by
  constructor
  · obtain ⟨hloop, hwalk, -⟩ := walk_from_root_is_exact tangled
    have hlisted : ∀ p c, .region c ∈ tangled.childrenOf p → c < tangled.size := by
      have hall : ∀ c ∈ tangled.listed.filterMap Container.region?, c < tangled.size := by decide
      exact fun p c hc => hall c (List.mem_filterMap.2 ⟨_, mem_listed.2 ⟨p, hc⟩, rfl⟩)
    obtain ⟨rs, hok, -, hmem, hbodies⟩ := hwalk (by decide) hlisted
    have hrs : tangled.reachable = .ok [0, 2, 1] := by decide
    obtain rfl := Except.ok.inj (hok.symm.trans hrs)
    obtain ⟨bodies, hb, -, hbmem⟩ := hbodies 7
    refine ⟨hloop 0, hrs, fun hc => ?_, bodies, hb, (hbmem 1).2 ⟨by decide, _, rfl, rfl⟩, fun h3 => ?_⟩
    · exact absurd ((hmem 3).2 hc) (by decide)
    · exact absurd ((hbmem 3).1 h3).1 (by decide)
  · obtain ⟨-, -, htree⟩ := walk_from_root_is_exact outOfOrder
    obtain ⟨rs, hok, -, hperm, hbelow, hsiblings, hbodies⟩ := htree (by decide)
    obtain ⟨bodies, hb, -, hbmem⟩ := hbodies 7
    have h34 : outOfOrder.Child (.region 3) (.region 4) := child_region.2 (by decide)
    have h12 : outOfOrder.Child (.region 1) (.region 2) := child_region.2 (by decide)
    have hbranches : [.region 3, .region 1].Sublist (outOfOrder.childrenOf 0) := by decide
    exact ⟨rs, hok, hperm, hbelow 3 4 (.single h34), hsiblings 0 _ _ hbranches 4 2 (.single h34) (.single h12), bodies, hb,
      (hbmem 2).2 ⟨_, rfl, rfl⟩, (hbmem 4).2 ⟨_, rfl, rfl⟩⟩

end GuardedRegions.RegionTree
