import GuardedRegions.Proofs.Wrapping.Carve

/-!
# Splicing where the arena stands

`RegionTree.splice` gives back a new tree or none. `RegionTree.spliceInPlace` makes the same changes one after the other to the
arena at hand and answers whether it made them: it asks whether the region allows the splice, replaces one child, and takes the
others out. A refusal between these steps would leave an arena that is half changed; as it turns out, whatever the question
allows is replaced (`canSplice_eq_ok`), and where the answer is no the arena is as before (`run_spliceInPlace`).
-/

namespace GuardedRegions.RegionTree

variable {t : RegionTree} {region : Region} {r new : Nat} {moved : List Container}

/-- Replaces the first occurrence of a child, and answers whether the region allowed it and had the child. -/
def replaceInPlace (r : Nat) (old new : Container) : StateT RegionTree (Except Fault) Bool := do
  let region ← (← get).region r
  if region.kind.isStructured && !(old.isRegion && new.isRegion) then return false
  else if region.children.contains old then
    set (← (← get).update r fun region => { region with children := region.children.replace old new })
    return true
  else return false

/-- Puts a region where the first of the moved children is, then takes out the other ones, and answers whether it did. -/
def spliceInPlace (r : Nat) (moved : List Container) (new : Nat) : StateT RegionTree (Except Fault) Bool := do
  if ← (← get).canSplice r moved then
    match moved with
    | [] => return false
    | first :: rest =>
      if ← replaceInPlace r first (.region new) then
        set (← (← get).update r fun region => { region with children := region.children.filter fun c => !rest.contains c })
        return true
      else return false
  else return false

/-! ## The arena that is left -/

/-- The answer of an operation that gives back a tree or none, and the arena behind it: the new tree, or else the old one. -/
def settle (t : RegionTree) (result : Option RegionTree) : Bool × RegionTree := (result.isSome, result.getD t)

theorem run_get_bind {β : Type} (f : RegionTree → StateT RegionTree (Except Fault) β) (t : RegionTree) :
    (get >>= f).run t = (f t).run t := rfl

theorem run_lift_bind {α β : Type} (x : Except Fault α) (f : α → StateT RegionTree (Except Fault) β) (t : RegionTree) :
    ((liftM x : StateT RegionTree (Except Fault) α) >>= f).run t = x >>= fun a => (f a).run t := by
  cases x <;> rfl

theorem run_replaceInPlace (t : RegionTree) (r : Nat) (old new : Container) :
    (replaceInPlace r old new).run t = (t.replaceChild r old new).map t.settle := by
  unfold replaceInPlace replaceChild
  simp only [run_get_bind, run_lift_bind]
  cases t.region r with
  | error fault => rfl
  | ok region =>
    rw [ok_bind, ok_bind]
    split
    · rfl
    · split
      · rw [run_get_bind, run_lift_bind]
        cases t.update r _ <;> rfl
      · rfl

/-- **The arena is changed in one go**: it is the spliced one, or it is as before. -/
theorem run_spliceInPlace (t : RegionTree) (r : Nat) (moved : List Container) (new : Nat) :
    (spliceInPlace r moved new).run t = (t.splice r moved new).map t.settle := by
  unfold spliceInPlace splice
  simp only [run_get_bind, run_lift_bind]
  cases t.canSplice r moved with
  | error fault => rfl
  | ok answer =>
    rw [ok_bind, ok_bind]
    cases answer with
    | false => rfl
    | true =>
      cases moved with
      | nil => rfl
      | cons first rest =>
        simp only [if_true, StateT.run_bind, run_replaceInPlace]
        cases t.replaceChild r first (.region new) with
        | error fault => rfl
        | ok result =>
          cases result with
          | none => rfl
          | some replaced =>
            simp only [Except.map, ok_bind, settle, Option.isSome_some, Option.getD_some, if_true, run_get_bind, run_lift_bind]
            cases replaced.update r _ <;> rfl

/-! ## What is allowed, and what it leads to -/

theorem canSplice_of_not_subset (hr : t.get? r = some region) (hsub : ¬ moved ⊆ region.children) :
    t.canSplice r moved = .ok false := by
  rw [canSplice, region_eq_ok_iff.2 hr, ok_bind]
  cases moved with
  | nil => exact absurd (List.nil_subset _) hsub
  | cons first rest =>
    have hall : (first :: rest).all (region.children.contains ·) = false := by
      refine Bool.eq_false_iff.2 fun hall => hsub fun c hc => ?_
      exact List.contains_iff_mem.1 (List.all_eq_true.1 hall c hc)
    simp only [hall, Bool.not_false, if_true]
    rfl

/-- A splice is allowed if there is something to move, all of it is of the region, and a structured region gives up nothing but
one nested region; and it is made if and only if it is allowed. -/
theorem canSplice_eq_ok (hr : t.get? r = some region) (moved : List Container) (new : Nat) :
    ∃ answer, t.canSplice r moved = .ok answer ∧
      (answer = true ↔ moved ⊆ region.children ∧ moved ≠ [] ∧
        (region.kind.isStructured = true → ∃ q, moved = [.region q])) ∧
      t.splice r moved new = .ok (if answer then
        some (t.modify r fun region => { region with children := regrouped moved new region.children }) else none) := by
  have hlt := lt_size_of_get? hr
  by_cases hsub : moved ⊆ region.children
  · have hsub' : moved ⊆ t.childrenOf r := childrenOf_eq hr ▸ hsub
    obtain ⟨answer, hcan, hiff⟩ := canSplice_ok hlt hsub'
    refine ⟨answer, hcan, ?_, ?_⟩
    · simpa only [Allows, hr, Option.some.injEq, forall_eq', hsub, true_and] using hiff
    · cases answer with
      | true => exact splice_eq hlt hsub' (hiff.1 rfl) new
      | false =>
        unfold splice
        rw [hcan]
        rfl
  · have hcan := canSplice_of_not_subset hr hsub
    refine ⟨false, hcan, by simp [hsub], ?_⟩
    unfold splice
    rw [hcan]
    rfl

/-- Wherever the moved children stand and however often they are named, the new region stands where the first one named stood,
among the children that are left. -/
theorem exists_regrouped_eq_filter {cs : List Container} {first : Container} {rest : List Container} (hcs : cs.Nodup)
    (hfirst : first ∈ cs) (hnew : .region new ∉ rest) :
    ∃ before after, cs = before ++ first :: after ∧ regrouped (first :: rest) new cs =
      before.filter (!(first :: rest).contains ·) ++ .region new :: after.filter (!(first :: rest).contains ·) := by
  obtain ⟨before, after, rfl, hbefore⟩ := List.eq_append_cons_of_mem hfirst
  have hafter : first ∉ after := (List.nodup_cons.1 (List.nodup_append.1 hcs).2.1).1
  -- the first child itself is in neither part, so it does not matter that it is not among those that are taken out
  have hsame : ∀ cs : List Container, first ∉ cs → cs.filter (!rest.contains ·) = cs.filter (!(first :: rest).contains ·) := by
    intro cs hcs
    refine List.filter_congr fun c hc => ?_
    have hne : c ≠ first := fun hcf => hcs (hcf ▸ hc)
    rw [List.contains_cons, beq_false_of_ne hne, Bool.false_or]
  refine ⟨before, after, rfl, ?_⟩
  rw [regrouped, List.replace_append_right hbefore, List.replace_cons_self, List.filter_append, List.filter_cons_of_pos,
    hsame before hbefore, hsame after hafter]
  simpa using hnew

theorem erase_regrouped {cs : List Container} {first : Container} {rest : List Container} (hcs : cs.Nodup)
    (hsub : first :: rest ⊆ cs) (hnew : .region new ∉ cs) :
    (regrouped (first :: rest) new cs).Nodup ∧ (∀ c ∈ first :: rest, c ∉ regrouped (first :: rest) new cs) ∧
      (regrouped (first :: rest) new cs).erase (.region new) = cs.filter (!(first :: rest).contains ·) := by
  obtain ⟨before, after, hsplit, hregrouped⟩ := exists_regrouped_eq_filter hcs (hsub List.mem_cons_self)
    fun h => hnew (hsub (List.mem_cons_of_mem first h))
  have hleft : cs.filter (!(first :: rest).contains ·) =
      before.filter (!(first :: rest).contains ·) ++ after.filter (!(first :: rest).contains ·) := by
    rw [hsplit, List.filter_append, List.filter_cons_of_neg (by simp)]
  have hfresh : .region new ∉ cs.filter (!(first :: rest).contains ·) := fun h => hnew (List.mem_filter.1 h).1
  rw [hregrouped]
  refine ⟨?_, fun c hc => ?_, ?_⟩
  · rw [List.nodup_middle, ← hleft]
    exact List.nodup_cons.2 ⟨hfresh, hcs.filter _⟩
  · rw [List.perm_middle.mem_iff, ← hleft, List.mem_cons, List.mem_filter]
    rintro (rfl | ⟨-, hout⟩)
    · exact hnew (hsub hc)
    · rw [List.contains_iff_mem.2 hc] at hout
      cases hout
  · rw [hleft] at hfresh ⊢
    rw [List.erase_append_right _ fun h => hfresh (List.mem_append_left _ h), List.erase_cons_head]

/-- **A splice is made if and only if it is allowed, and it loses nothing but what is moved.** On any arena, if it is not made the
arena is as before. If it is made on a region that lists nothing twice and does not list the new region, then, in whatever order
and however often the moved children are named, the new region stands where the first one named stood, the other children are
left, once and in their order, no child that was moved is left, and no other region, and nothing else of the region, changes. -/
theorem splicing_conserves_children (hr : t.get? r = some region) (moved : List Container) (new : Nat) :
    ∃ answer u, t.canSplice r moved = .ok answer ∧ t.splice r moved new = .ok (if answer then some u else none) ∧
      (spliceInPlace r moved new).run t = .ok (answer, u) ∧
      (answer = true ↔ moved ⊆ region.children ∧ moved ≠ [] ∧
        (region.kind.isStructured = true → ∃ q, moved = [.region q])) ∧
      (answer = false → u = t) ∧
      (answer = true → region.children.Nodup → .region new ∉ region.children →
        u.root = t.root ∧
        (∀ i, u.get? i = (t.get? i).map fun old => if i = r then { old with children := u.childrenOf r } else old) ∧
        (u.childrenOf r).Nodup ∧ (∀ c ∈ moved, c ∉ u.childrenOf r) ∧
        (u.childrenOf r).erase (.region new) = region.children.filter (!moved.contains ·) ∧
        ∃ first before after, moved.head? = some first ∧ region.children = before ++ first :: after ∧
          u.childrenOf r = before.filter (!moved.contains ·) ++ .region new :: after.filter (!moved.contains ·)) := by
  obtain ⟨answer, hcan, hiff, hsplice⟩ := canSplice_eq_ok hr moved new
  let spliced := t.modify r fun region => { region with children := regrouped moved new region.children }
  cases answer with
  | false =>
    refine ⟨false, t, hcan, hsplice, ?_, hiff, fun _ => rfl, nofun⟩
    rw [run_spliceInPlace, hsplice]
    rfl
  | true =>
    refine ⟨true, spliced, hcan, hsplice, ?_, hiff, nofun, fun _ hnodup hnew => ?_⟩
    · rw [run_spliceInPlace, hsplice]
      rfl
    · obtain ⟨hsub, hne, -⟩ := hiff.1 rfl
      obtain ⟨first, rest, rfl⟩ := List.exists_cons_of_ne_nil hne
      have hchildren : spliced.childrenOf r = regrouped (first :: rest) new region.children := by
        simp [spliced, childrenOf, hr]
      obtain ⟨before, after, hsplit, hregrouped⟩ := exists_regrouped_eq_filter hnodup (hsub List.mem_cons_self)
        fun h => hnew (hsub (List.mem_cons_of_mem first h))
      obtain ⟨hnodup', hgone, hleft⟩ := erase_regrouped hnodup hsub hnew
      rw [← hchildren] at hregrouped hnodup' hgone hleft
      refine ⟨rfl, fun i => ?_, hnodup', hgone, hleft, first, before, after, rfl, hsplit, hregrouped⟩
      rw [get?_modify, hchildren]
      by_cases hri : r = i
      · subst hri
        simp [hr]
      · have hir : i ≠ r := Ne.symm hri
        simp [hri, hir]

/-- A branch between blocks, and a region that is not listed anywhere yet. -/
def looseRegion : RegionTree where
  regions := #[
    { kind := .sequence, parent := none, children := [.block 0, .region 1, .block 2, .block 3] },
    { kind := .conditional, parent := some 0, children := [.block 1] },
    { kind := .sequence, parent := some 0 }]

/-- Three names for two children, the last one first: the new region stands at the end of what is left. The branch gives up no
block. -/
theorem splicing_conserves_children_looseRegion :
    (∃ u, looseRegion.splice 0 [.block 3, .block 0, .block 3] 2 = .ok (some u) ∧
      u.childrenOf 0 = [.region 1, .block 2, .region 2] ∧ (u.childrenOf 0).erase (.region 2) = [.region 1, .block 2] ∧
      u.get? 1 = looseRegion.get? 1) ∧
    looseRegion.splice 1 [.block 1] 2 = .ok none ∧
      (spliceInPlace 1 [.block 1] 2).run looseRegion = .ok (false, looseRegion) := by
  have hroot : looseRegion.get? 0 = some ⟨.sequence, none, [.block 0, .region 1, .block 2, .block 3], none⟩ := rfl
  have hbranch : looseRegion.get? 1 = some ⟨.conditional, some 0, [.block 1], none⟩ := rfl
  constructor
  · obtain ⟨answer, u, -, hsplice, -, hiff, -, hdone⟩ :=
      splicing_conserves_children hroot [.block 3, .block 0, .block 3] 2
    obtain rfl : answer = true := hiff.2 ⟨by decide, by decide, nofun⟩
    obtain ⟨-, hget, -, -, hleft, -⟩ := hdone rfl (by decide) (by decide)
    refine ⟨u, hsplice, ?_, hleft, hget 1⟩
    have hchildren : (looseRegion.splice 0 [.block 3, .block 0, .block 3] 2).map (·.map (·.childrenOf 0)) =
        .ok (some [.region 1, .block 2, .region 2]) := by decide
    rw [hsplice] at hchildren
    exact Option.some.inj (Except.ok.inj hchildren)
  · obtain ⟨answer, u, -, hsplice, hrun, hiff, hsame, -⟩ := splicing_conserves_children hbranch [.block 1] 2
    have hno : answer = false := by
      refine Bool.eq_false_iff.2 fun hyes => ?_
      obtain ⟨q, hq⟩ := (hiff.1 hyes).2.2 rfl
      cases hq
    subst hno
    obtain rfl := hsame rfl
    exact ⟨hsplice, hrun⟩

end GuardedRegions.RegionTree
