import GuardedRegions.Proofs.Region.Valid
import GuardedRegions.Proofs.Wrapping.Run

/-!
# Carving is all or nothing

Carving out a body either leaves the tree as it is or changes exactly what it has to: there is one more region, which holds the
body; the region that was worked on has the new one at the place of the first child of the body and has lost the other ones; the
regions of the body name their new parent (`RegionTree.carving_is_all_or_nothing`). It is refused if there is no body, or if the
region is structured and the body is not one nested region.
-/

namespace GuardedRegions.RegionTree

variable {t u : RegionTree} {g : Graph} {doms : Dominance} {tryBlock : TryBlock} {dominator r id : Nat}
  {moved : List Container}

/-- The body is made of the dominated children in front of the first one that is also on a handler path. -/
theorem bodyOf_eq_filter_takeWhile :
    t.bodyOf g doms tryBlock dominator r =
      ((t.childrenOf r).takeWhile fun c => !(t.dominated doms dominator c && t.handled g doms tryBlock c)).filter
        (t.dominated doms dominator) := by
  rw [bodyOf, List.takeWhile_filter]
  simp only [Bool.not_and]

theorem not_allows_iff {region : Region} (hr : t.get? r = some region) :
    ¬ t.Allows r moved ↔ moved = [] ∨ region.kind.isStructured = true ∧ ∀ q, moved ≠ [.region q] := by
  simp only [Allows, hr, Option.some.injEq, forall_eq', not_and_or, not_not, Classical.not_imp, not_exists, ne_eq]

/-- What stands in front of the body stays, and what stands behind its first child stays if it is not of the body. -/
theorem Regrouped.exists_children_eq (hw : t.WellFormed) (h : Regrouped t r moved id u) :
    ∃ first before after, moved.head? = some first ∧ t.childrenOf r = before ++ first :: after ∧
      (∀ c ∈ before, c ∉ moved) ∧ u.childrenOf r = before ++ .region t.size :: after.filter (!moved.contains ·) := by
  obtain ⟨first, rest, rfl⟩ := List.exists_cons_of_ne_nil h.allowed.1
  obtain ⟨before, after, hchildren, hrest, hregrouped⟩ :=
    exists_regrouped_eq (hw.nodup r) h.sub (not_child_new hw (.region r))
  have hnodup := hw.nodup r
  rw [hchildren] at hnodup
  obtain ⟨-, hback, hapart⟩ := List.nodup_append.1 hnodup
  refine ⟨first, before, after, rfl, hchildren, fun c hc hmoved => ?_, ?_⟩
  · exact hapart c hc c ((List.Sublist.cons_cons first hrest).subset hmoved) rfl
  · rw [h.childrenOf_self, hregrouped]
    have hsame : after.filter (!rest.contains ·) = after.filter (!(first :: rest).contains ·) := by
      refine List.filter_congr fun c hc => ?_
      have hne : c ≠ first := fun hcf => (List.nodup_cons.1 hback).1 (hcf ▸ hc)
      rw [List.contains_cons, beq_false_of_ne hne, Bool.false_or]
    rw [hsame]

theorem Regrouped.length_children (hw : t.WellFormed) (h : Regrouped t r moved id u) :
    (u.childrenOf r).length + moved.length = (t.childrenOf r).length + 1 := by
  have hperm := regrouped_perm (hw.nodup r) h.sub h.allowed.1 (not_child_new hw (.region r))
  rw [h.childrenOf_self, ← List.length_append, hperm.length_eq, List.length_cons]

/-- **Carving is all or nothing.** The body is made of the dominated children in front of the first that is also on a handler
path. Carving it out fails if and only if there is no body, or the region is structured and the body is not one nested region,
and then the tree stays as it is. If it succeeds, there is one more region, a sequence tagged with the try-block that holds the
body and is a child of the region worked on. That one has the new region at the place of the body's first child and has lost the
other ones, the regions of the body name the new one as their parent, and all else of the old regions is as it was. -/
theorem carving_is_all_or_nothing {region : Region} (hv : t.validate = .ok ()) (hr : t.get? r = some region)
    (hh : tryBlock.HandlersIn g) (doms : Dominance) (dominator : Nat) :
    ∃ (dominated handled : Container → Bool) (body : List Container) (carving : Carving) (u : RegionTree),
      (∀ c ∈ region.children, t.isDominated doms dominator c = .ok (dominated c) ∧
        t.onHandlerPath g doms tryBlock c = .ok (handled c)) ∧
      body = (region.children.takeWhile fun c => !(dominated c && handled c)).filter dominated ∧
      t.carve g doms r tryBlock dominator = .ok (carving, u) ∧
      (carving.succeeded = false ↔ body = [] ∨ region.kind.isStructured = true ∧ ∀ q, body ≠ [.region q]) ∧
      (carving.succeeded = false → u = t) ∧
      (carving.succeeded = true →
        u.root = t.root ∧ u.size = t.size + 1 ∧
        u.get? t.size = some { kind := .sequence, parent := some r, children := body, tryBlock := some tryBlock.id } ∧
        ∃ first before after, body.head? = some first ∧ region.children = before ++ first :: after ∧
          (∀ c ∈ before, c ∉ body) ∧
          (u.childrenOf r).length + body.length = region.children.length + 1 ∧
          ∀ i old, t.get? i = some old → u.get? i = some { old with
            parent := if .region i ∈ body then some t.size else old.parent
            children := if i = r then before ++ .region t.size :: after.filter (!body.contains ·) else old.children }) := by
  have hw := validate_eq_ok_iff.1 hv
  have hchildren := childrenOf_eq hr
  obtain ⟨carving, u, hok, hend⟩ := hw.carve_ok (lt_size_of_get? hr) hh doms dominator
  refine ⟨t.dominated doms dominator, t.handled g doms tryBlock, t.bodyOf g doms tryBlock dominator r, carving, u,
    fun c hc => ?_, ?_, hok, ?_, ?_, ?_⟩
  · rw [← hchildren] at hc
    exact ⟨hw.isDominated_eq (hw.has_of_mem hc), hw.onHandlerPath_eq (hw.has_of_mem hc) hh⟩
  · rw [bodyOf_eq_filter_takeWhile, hchildren]
  · rw [← not_allows_iff hr]
    rcases hend with ⟨hfailed, hno, -⟩ | ⟨hsucceeded, hre⟩
    · exact iff_of_true hfailed hno
    · exact iff_of_false (by simp [hsucceeded]) (not_not.2 hre.allowed)
  · intro hfailed
    rcases hend with ⟨-, -, rfl⟩ | ⟨hsucceeded, -⟩
    · rfl
    · rw [hfailed] at hsucceeded
      cases hsucceeded
  · intro hsucceeded
    rcases hend with ⟨hfailed, -⟩ | ⟨-, hre⟩
    · rw [hfailed] at hsucceeded
      cases hsucceeded
    · obtain ⟨first, before, after, hhead, hold, hbefore, hnew⟩ := hre.exists_children_eq hw
      refine ⟨hre.root, hre.size, hre.get?_new, first, before, after, hhead, hchildren ▸ hold, hbefore, ?_, ?_⟩
      · rw [hre.length_children hw, hchildren]
      · intro i old hi
        rw [hre.get?_old i (lt_size_of_get? hi), hi, Option.map_some]
        by_cases hir : i = r
        · subst hir
          rw [if_pos rfl, if_pos rfl, ← hnew, hre.childrenOf_self, childrenOf_eq hi]
        · rw [if_neg hir, if_neg hir]

def branchAndBlock : RegionTree where
  regions := #[
    { kind := .sequence, parent := none, children := [.block 0, .region 1, .block 2, .block 3, .block 4] },
    { kind := .conditional, parent := some 0, children := [.block 1] }]

/-- The body that starts with the branch moves out of the sequence; the branch itself gives up no block. -/
theorem carving_is_all_or_nothing_branchAndBlock :
    (∃ carving u, branchAndBlock.carve Method.nestedTries.graph .nestedTries 0 ⟨7, [⟨none, 3⟩]⟩ 1 = .ok (carving, u) ∧
      carving.succeeded = true ∧ u.size = 3 ∧ (u.childrenOf 0).length = 4 ∧
      u.get? 1 = some { kind := .conditional, parent := some 2, children := [.block 1] } ∧
      u.get? 2 = some
        { kind := .sequence, parent := some 0, children := [.region 1, .block 2], tryBlock := some 7 }) ∧
    ∃ carving, branchAndBlock.carve Method.nestedTries.graph .nestedTries 1 ⟨7, [⟨none, 3⟩]⟩ 1 =
      .ok (carving, branchAndBlock) ∧ carving.succeeded = false := by
  have hvalid : branchAndBlock.validate = .ok () := by decide
  have hhandlers : TryBlock.HandlersIn ⟨7, [⟨none, 3⟩]⟩ Method.nestedTries.graph := by decide
  constructor
  · have hroot : branchAndBlock.get? 0 =
        some ⟨.sequence, none, [.block 0, .region 1, .block 2, .block 3, .block 4], none⟩ := rfl
    obtain ⟨dominated, handled, body, carving, u, hvalues, hbody, hok, hfails, -, hdone⟩ :=
      carving_is_all_or_nothing hvalid hroot hhandlers .nestedTries 1
    have h0 : false = dominated (.block 0) := Except.ok.inj (hvalues (.block 0) (by decide)).1
    have h1 : true = dominated (.region 1) := Except.ok.inj (hvalues (.region 1) (by decide)).1
    have h2 : true = dominated (.block 2) := Except.ok.inj (hvalues (.block 2) (by decide)).1
    have h3 : true = dominated (.block 3) := Except.ok.inj (hvalues (.block 3) (by decide)).1
    have h1' : false = handled (.region 1) := Except.ok.inj (hvalues (.region 1) (by decide)).2
    have h2' : false = handled (.block 2) := Except.ok.inj (hvalues (.block 2) (by decide)).2
    have h3' : true = handled (.block 3) := Except.ok.inj (hvalues (.block 3) (by decide)).2
    have hmoved : body = [.region 1, .block 2] := by
      simp [hbody, ← h0, ← h1, ← h2, ← h3, ← h1', ← h2', ← h3']
    have hsucceeded : carving.succeeded = true := by
      simpa [hmoved, RegionKind.isStructured] using hfails.not
    obtain ⟨-, hsize, hnew, _, _, _, -, -, -, hlength, hold⟩ := hdone hsucceeded
    rw [hmoved] at hnew hlength hold
    exact ⟨carving, u, hok, hsucceeded, hsize, Nat.add_right_cancel hlength, hold 1 _ rfl, hnew⟩
  · have hbranch : branchAndBlock.get? 1 = some ⟨.conditional, some 0, [.block 1], none⟩ := rfl
    obtain ⟨dominated, handled, body, carving, u, hvalues, hbody, hok, hfails, hsame, -⟩ :=
      carving_is_all_or_nothing hvalid hbranch hhandlers .nestedTries 1
    have h1 : true = dominated (.block 1) := Except.ok.inj (hvalues (.block 1) (by decide)).1
    have h1' : false = handled (.block 1) := Except.ok.inj (hvalues (.block 1) (by decide)).2
    have hmoved : body = [.block 1] := by simp [hbody, ← h1, ← h1']
    have hfailed : carving.succeeded = false := hfails.2 (.inr ⟨rfl, by simp [hmoved]⟩)
    obtain rfl := hsame hfailed
    exact ⟨carving, hok, hfailed⟩

end GuardedRegions.RegionTree
