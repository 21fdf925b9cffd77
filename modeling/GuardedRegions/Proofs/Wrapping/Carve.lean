import GuardedRegions.Proofs.Region.Query
import GuardedRegions.Wrapping.Carve
import Mathlib.Data.List.TakeWhile

/-!
# What carving out a body does

`RegionTree.bodyOf` is the body of a try-block in a region: its dominated children, up to the first on a handler path.
Carving it out either leaves the tree as it is or yields a tree that is `Regrouped`: there is one new region, which holds
the body, the region has it at the place of the body's first member, the regions of the body name it as their parent, and
all else is as it was. Which of the two happens depends on whether the region `Allows` the splice (`carve_ok`).
-/

namespace GuardedRegions.RegionTree

variable {t u : RegionTree} {g : Graph} {doms : Dominance} {tryBlock : TryBlock} {dominator r : Nat}

/-! ## The body -/

/-- The children of a region that a block dominates, up to the first of them on a handler path. -/
def bodyOf (t : RegionTree) (g : Graph) (doms : Dominance) (tryBlock : TryBlock) (dominator r : Nat) : List Container :=
  ((t.childrenOf r).filter (t.dominated doms dominator)).takeWhile fun c => !t.handled g doms tryBlock c

theorem bodyOf_sublist : (t.bodyOf g doms tryBlock dominator r).Sublist (t.childrenOf r) :=
  (List.takeWhile_sublist _).trans List.filter_sublist

theorem dominated_of_mem_bodyOf {c : Container} (hc : c ∈ t.bodyOf g doms tryBlock dominator r) :
    t.dominated doms dominator c = true :=
  (List.mem_filter.1 ((List.takeWhile_sublist _).subset hc)).2

theorem handled_of_mem_bodyOf {c : Container} (hc : c ∈ t.bodyOf g doms tryBlock dominator r) :
    t.handled g doms tryBlock c = false := by
  have := List.mem_takeWhile_imp hc
  simpa using this

theorem WellFormed.body_eq (h : t.WellFormed) (hh : tryBlock.HandlersIn g) {cs : List Container}
    (hcs : ∀ c ∈ cs, t.Has c) :
    t.body g doms tryBlock dominator cs =
      .ok ((cs.filter (t.dominated doms dominator)).takeWhile fun c => !t.handled g doms tryBlock c) := by
  induction cs with
  | nil => rfl
  | cons c cs ih =>
    have hc := hcs c (by simp)
    rw [body, h.isDominated_eq hc, ok_bind, h.onHandlerPath_eq hc hh, ih fun d hd => hcs d (by simp [hd])]
    cases hd : t.dominated doms dominator c with
    | false => simp [hd]
    | true =>
      cases hp : t.handled g doms tryBlock c with
      | false => simp [hd, hp, ok_bind]
      | true => simp [hd, hp, ok_bind]; rfl

/-! ## The children of the region -/

/-- Children with a new region at the place of the first of those that move into it, and without the other ones. -/
def regrouped (moved : List Container) (new : Nat) (cs : List Container) : List Container :=
  match moved with
  | [] => cs
  | first :: rest => (cs.replace first (.region new)).filter fun c => !rest.contains c

/-- What stands before the first child that moves stays, and the other ones come from behind it. -/
theorem exists_regrouped_eq {first : Container} {rest cs : List Container} (hcs : cs.Nodup)
    (hsub : (first :: rest).Sublist cs) {new : Nat} (hnew : .region new ∉ cs) :
    ∃ xs ys, cs = xs ++ first :: ys ∧ rest.Sublist ys ∧
      regrouped (first :: rest) new cs = xs ++ .region new :: ys.filter (!rest.contains ·) := by
  obtain ⟨xs, ys, rfl, hx⟩ := List.eq_append_cons_of_mem (hsub.subset List.mem_cons_self)
  have hrest : rest.Sublist ys := by
    obtain ⟨zs, ws, hz, hnil, hw⟩ := List.sublist_append_iff.1 hsub
    cases zs with
    | nil =>
      rw [List.nil_append] at hz
      exact List.cons_sublist_cons.1 (hz ▸ hw)
    | cons z zs =>
      rw [List.cons_append, List.cons.injEq] at hz
      exact absurd (hnil.subset (hz.1 ▸ List.mem_cons_self)) hx
  have hmem : ∀ c ∈ xs, c ∉ rest := fun c hc hr =>
    (List.nodup_append.1 hcs).2.2 c hc c (List.mem_cons_of_mem _ (hrest.subset hr)) rfl
  have hn : Container.region new ∉ rest := fun hn => hnew (hsub.subset (List.mem_cons_of_mem _ hn))
  refine ⟨xs, ys, rfl, hrest, ?_⟩
  rw [regrouped, List.replace_append_right hx, List.replace_cons_self, List.filter_append, List.filter_cons_of_pos,
    List.filter_eq_self.2]
  · simpa using hmem
  · simpa using hn

theorem mem_regrouped {moved cs : List Container} (hcs : cs.Nodup) (hsub : moved.Sublist cs) (hne : moved ≠ [])
    {new : Nat} (hnew : .region new ∉ cs) {c : Container} :
    c ∈ regrouped moved new cs ↔ c = .region new ∨ c ∈ cs ∧ c ∉ moved := by
  obtain ⟨first, rest, rfl⟩ := List.exists_cons_of_ne_nil hne
  obtain ⟨xs, ys, rfl, hrest, he⟩ := exists_regrouped_eq hcs hsub hnew
  rw [he]
  have hfirst : first ∉ xs ∧ first ∉ ys := by
    have := List.nodup_middle.1 hcs
    simpa using (List.nodup_cons.1 this).1
  have hx : c ∈ xs → c ∉ rest := fun hc hr =>
    (List.nodup_append.1 hcs).2.2 c hc c (List.mem_cons_of_mem _ (hrest.subset hr)) rfl
  by_cases hc : c = first
  · subst hc
    simp [hfirst]
  · simp [hc]
    tauto

theorem nodup_regrouped {moved cs : List Container} (hcs : cs.Nodup) (hsub : moved.Sublist cs) (hne : moved ≠ [])
    {new : Nat} (hnew : .region new ∉ cs) : (regrouped moved new cs).Nodup := by
  obtain ⟨first, rest, rfl⟩ := List.exists_cons_of_ne_nil hne
  obtain ⟨xs, ys, rfl, -, he⟩ := exists_regrouped_eq hcs hsub hnew
  have hxy := (List.nodup_cons.1 (List.nodup_middle.1 hcs)).2
  rw [he, List.nodup_middle, List.nodup_cons]
  refine ⟨fun hn => hnew ?_, hxy.sublist (List.Sublist.append_left List.filter_sublist xs)⟩
  have := (List.Sublist.append_left (List.filter_sublist (p := (!rest.contains ·))) xs).subset hn
  simp only [List.mem_append, List.mem_cons] at this ⊢
  tauto

theorem regrouped_perm {moved cs : List Container} (hcs : cs.Nodup) (hsub : moved.Sublist cs) (hne : moved ≠ [])
    {new : Nat} (hnew : .region new ∉ cs) : (regrouped moved new cs ++ moved).Perm (.region new :: cs) := by
  have hmem {c : Container} := mem_regrouped hcs hsub hne hnew (c := c)
  have hapart : ∀ c ∈ regrouped moved new cs, ∀ c' ∈ moved, c ≠ c' := by
    rintro c hc _ hmoved rfl
    rcases hmem.1 hc with rfl | ⟨-, hout⟩
    · exact hnew (hsub.subset hmoved)
    · exact hout hmoved
  have hnodup : (regrouped moved new cs ++ moved).Nodup :=
    List.nodup_append.2 ⟨nodup_regrouped hcs hsub hne hnew, hcs.sublist hsub, hapart⟩
  refine (List.perm_ext_iff_of_nodup hnodup (List.nodup_cons.2 ⟨hnew, hcs⟩)).2 fun c => ?_
  have hin : c ∈ moved → c ∈ cs := fun h => hsub.subset h
  rw [List.mem_append, List.mem_cons, hmem]
  tauto

/-! ## The splice -/

/-- A region allows that some of its children are replaced by one region: there are any, and a structured region gives up
nothing but a nested region. -/
def Allows (t : RegionTree) (r : Nat) (moved : List Container) : Prop :=
  moved ≠ [] ∧ ∀ region, t.get? r = some region → region.kind.isStructured = true → ∃ q, moved = [.region q]

theorem canSplice_ok (hr : r < t.size) {moved : List Container} (hsub : moved ⊆ t.childrenOf r) :
    ∃ answer, t.canSplice r moved = .ok answer ∧ (answer = true ↔ t.Allows r moved) := by
  obtain ⟨region, hg, hok⟩ := region_eq_ok hr
  rw [canSplice, hok, ok_bind]
  cases moved with
  | nil => exact ⟨false, rfl, by simp [Allows]⟩
  | cons first rest =>
    have hall : (first :: rest).all (region.children.contains ·) = true := by
      rw [childrenOf_eq hg] at hsub
      exact List.all_eq_true.2 fun c hc => List.contains_iff_mem.2 (hsub hc)
    simp only [hall, Bool.not_true, Bool.false_eq_true, if_false]
    cases hs : region.kind.isStructured with
    | false => exact ⟨true, rfl, by simp [Allows, hg, hs]⟩
    | true =>
      refine ⟨_, rfl, ?_⟩
      cases first <;> simp [Allows, hg, hs, Container.isRegion]

theorem modify_modify (t : RegionTree) (r : Nat) (f f' : Region → Region) :
    (t.modify r f).modify r f' = t.modify r fun region => f' (f region) := by
  obtain ⟨regions, root⟩ := t
  simp only [modify, mk.injEq, and_true]
  refine Array.ext_getElem? fun i => ?_
  simp only [Array.getElem?_modify]
  split <;> simp [Function.comp_def]

theorem splice_eq (hr : r < t.size) {moved : List Container} (hsub : moved ⊆ t.childrenOf r) (ha : t.Allows r moved)
    (new : Nat) : t.splice r moved new =
      .ok (some (t.modify r fun region => { region with children := regrouped moved new region.children })) := by
  obtain ⟨region, hg, hok⟩ := region_eq_ok hr
  obtain ⟨first, rest, rfl⟩ := List.exists_cons_of_ne_nil ha.1
  obtain ⟨answer, hcan, hiff⟩ := canSplice_ok hr hsub
  rw [hiff.2 ha] at hcan
  have hkind : (region.kind.isStructured && !(first.isRegion && (Container.region new).isRegion)) = false := by
    cases hs : region.kind.isStructured with
    | false => rfl
    | true =>
      obtain ⟨q, hq⟩ := ha.2 region hg hs
      rw [(List.cons.inj hq).1]
      rfl
  have hmem : region.children.contains first = true := by
    rw [childrenOf_eq hg] at hsub
    exact List.contains_iff_mem.2 (hsub (by simp))
  have hrep : t.replaceChild r first (.region new) = .ok (some (t.modify r fun region =>
      { region with children := region.children.replace first (.region new) })) := by
    rw [replaceChild, hok, ok_bind, hkind, hmem, update_eq_ok_iff.2 ⟨hr, rfl⟩]
    rfl
  simp only [splice, hcan, ok_bind, if_true, hrep, update_eq_ok_iff.2 ⟨(size_modify t r _).symm ▸ hr, rfl⟩, modify_modify]
  rfl

/-! ## Carving -/

theorem adopt_ok {p : Nat} {cs : List Container} (hcs : ∀ c ∈ cs, t.Has c) :
    ∃ u, t.adopt p cs = .ok u ∧ u.root = t.root ∧ u.size = t.size ∧ ∀ i, u.get? i =
      (t.get? i).map fun region => { region with parent := if .region i ∈ cs then some p else region.parent } := by
  -- the tree changes with each container, so the lookups are those of the tree that the rest starts on
  induction cs generalizing t with
  | nil => exact ⟨t, rfl, rfl, rfl, by simp⟩
  | cons c cs ih =>
    cases c with
    | block b =>
      obtain ⟨u, hu, hroot, hsize, hget⟩ := ih fun d hd => hcs d (by simp [hd])
      refine ⟨u, ?_, hroot, hsize, fun i => ?_⟩
      · rw [adopt, List.foldlM_cons, ok_bind]
        exact hu
      · rw [hget]
        simp
    | region q =>
      have hq : q < t.size := hcs (.region q) (by simp)
      obtain ⟨u, hu, hroot, hsize, hget⟩ := ih (t := t.modify q fun region => { region with parent := some p })
        fun d hd => has_modify.2 (hcs d (by simp [hd]))
      refine ⟨u, ?_, hroot, hsize.trans (size_modify t q _), fun i => ?_⟩
      · rw [adopt, List.foldlM_cons]
        show (t.setParent q (some p) >>= _) = _
        rw [setParent, update_eq_ok_iff.2 ⟨hq, rfl⟩, ok_bind]
        exact hu
      · rw [hget, get?_modify]
        by_cases hqi : q = i
        · subst hqi
          simp [Function.comp_def]
        · have hiq : i ≠ q := Ne.symm hqi
          simp [hqi, hiq]

/-- A tree after a body was carved out of one of its regions: one new region, and another list in the old one. -/
structure Regrouped (t : RegionTree) (r : Nat) (moved : List Container) (id : Nat) (u : RegionTree) : Prop where
  lt : r < t.size
  sub : moved.Sublist (t.childrenOf r)
  allowed : t.Allows r moved
  root : u.root = t.root
  size : u.size = t.size + 1
  get?_new : u.get? t.size = some { kind := .sequence, parent := some r, children := moved, tryBlock := some id }
  get?_old : ∀ i < t.size, u.get? i = (t.get? i).map fun region =>
    { region with
      parent := if .region i ∈ moved then some t.size else region.parent
      children := if i = r then regrouped moved t.size region.children else region.children }

theorem get?_create_of_lt {i : Nat} (hi : i < t.size) (region : Region) : (t.create region).get? i = t.get? i := by
  rw [get?_create, if_neg (Nat.ne_of_lt hi)]

/-- Where a region allows the splice, the steps of carving succeed and make up a regrouping. -/
theorem regroup_ok (hr : r < t.size) {moved : List Container} (hsub : moved.Sublist (t.childrenOf r))
    (hhas : ∀ c ∈ moved, t.Has c) (ha : t.Allows r moved) (id : Nat) :
    ∃ v w u, (t.create { kind := .sequence, parent := some r, children := moved }).splice r moved t.size = .ok (some v) ∧
      v.tag t.size id = .ok w ∧ w.adopt t.size moved = .ok u ∧ Regrouped t r moved id u := by
  let grown := t.create { kind := .sequence, parent := some r, children := moved }
  have hget : grown.get? r = t.get? r := get?_create_of_lt hr _
  have hsize : grown.size = t.size + 1 := size_create t _
  have hsub' : moved ⊆ grown.childrenOf r := by
    rw [childrenOf, hget]
    exact hsub.subset
  have ha' : grown.Allows r moved := ⟨ha.1, fun region hg => ha.2 region (hget ▸ hg)⟩
  let v := grown.modify r fun region => { region with children := regrouped moved t.size region.children }
  let w := v.modify t.size fun region => { region with tryBlock := some id }
  have hv : v.size = t.size + 1 := (size_modify ..).trans hsize
  have hw : w.size = t.size + 1 := (size_modify ..).trans hv
  have hhas' : ∀ c ∈ moved, w.Has c := by
    intro c hc
    have := hhas c hc
    cases c with
    | block b => trivial
    | region q =>
      rw [has_region] at this ⊢
      omega
  obtain ⟨u, hadopt, hroot, husize, hu⟩ := adopt_ok (p := t.size) hhas'
  have hnew : .region t.size ∉ moved := fun hn => Nat.lt_irrefl _ (hhas _ hn)
  refine ⟨v, w, u, splice_eq (by omega) hsub' ha' t.size, update_eq_ok_iff.2 ⟨by omega, rfl⟩, hadopt, ?_⟩
  refine ⟨hr, hsub, ha, hroot, husize.trans hw, ?_, fun i hi => ?_⟩
  · have hne : r ≠ t.size := Nat.ne_of_lt hr
    rw [hu, get?_modify, if_pos rfl, get?_modify, if_neg hne, get?_create, if_pos rfl, Option.map_some, Option.map_some,
      if_neg hnew]
  · have hne : t.size ≠ i := Nat.ne_of_gt hi
    rw [hu, get?_modify, if_neg hne, get?_modify, get?_create_of_lt hi]
    by_cases hri : r = i
    · subst hri
      rw [if_pos rfl, Option.map_map]
      simp [Function.comp_def]
    · have hir : i ≠ r := Ne.symm hri
      simp [hri, hir]

/-- **Carving out a body** leaves the tree as it is or regroups the region, and which of the two is decided by what the
region allows. -/
theorem WellFormed.carve_ok (h : t.WellFormed) (hr : r < t.size) (hh : tryBlock.HandlersIn g) (doms : Dominance)
    (dominator : Nat) :
    ∃ carving u, t.carve g doms r tryBlock dominator = .ok (carving, u) ∧
      (carving.succeeded = false ∧ ¬ t.Allows r (t.bodyOf g doms tryBlock dominator r) ∧ u = t ∨
        carving.succeeded = true ∧ Regrouped t r (t.bodyOf g doms tryBlock dominator r) tryBlock.id u) := by
  obtain ⟨region, hg, hok⟩ := region_eq_ok hr
  have hbody : t.body g doms tryBlock dominator region.children = .ok (t.bodyOf g doms tryBlock dominator r) := by
    rw [← childrenOf_eq hg]
    exact h.body_eq hh fun c hc => h.has_of_mem hc
  have hsub : (t.bodyOf g doms tryBlock dominator r).Sublist (t.childrenOf r) := bodyOf_sublist
  rw [carve, hok, ok_bind, hbody, ok_bind]
  generalize t.bodyOf g doms tryBlock dominator r = moved at hsub ⊢
  obtain ⟨answer, hcan, hiff⟩ := canSplice_ok hr hsub.subset
  by_cases ha : t.Allows r moved
  · obtain ⟨v, w, u, hsplice, htag, hadopt, hre⟩ := regroup_ok hr hsub (fun c hc => h.has_of_mem (hsub.subset hc)) ha
      tryBlock.id
    refine ⟨.carved moved.length t.size, u, ?_, Or.inr ⟨rfl, hre⟩⟩
    have hempty : moved.isEmpty = false := by simpa using ha.1
    simp only [hempty, Bool.false_eq_true, if_false, hcan, hiff.2 ha, ok_bind, Bool.not_true, hsplice, htag, hadopt]
    rfl
  · cases hempty : moved.isEmpty with
    | true => exact ⟨.nothing, t, rfl, Or.inl ⟨rfl, ha, rfl⟩⟩
    | false =>
      have hans : answer = false := by simpa using mt hiff.1 ha
      refine ⟨.refused region.kind moved.length, t, ?_, Or.inl ⟨rfl, ha, rfl⟩⟩
      simp only [Bool.false_eq_true, if_false, hcan, hans, ok_bind, Bool.not_false, if_true]
      rfl

end GuardedRegions.RegionTree
