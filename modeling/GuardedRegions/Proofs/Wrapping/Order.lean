import GuardedRegions.Proofs.Wrapping.Regroup

/-!
# Trees whose siblings are in the order of dominance

A block leads its region if no child in front of it is dominated by it (`RegionTree.Leads`). A body that is carved out under
such a block begins with it or is empty, so that the region and the handlers alone decide whether the carving succeeds
(`Leads.allows_iff`). Regrouping a region moves no child in front of another one but the new region, whose first member was in
front already; so a block that leads keeps leading, whatever else is carved out (`Regrouped.leads`).
-/

namespace GuardedRegions

namespace RegionTree

variable {t u : RegionTree} {g : Graph} {doms : Dominance} {tryBlock : TryBlock} {d r q id n : Nat} {c : Container}
  {moved : List Container}

/-! ## Blocks that lead -/

/-- A block is a child of a region, and none of the children in front of it is dominated by it. -/
structure Leads (t : RegionTree) (doms : Dominance) (d r : Nat) : Prop where
  mem : .block d ∈ t.childrenOf r
  front : ∀ c, [c, .block d].Sublist (t.childrenOf r) → t.dominated doms d c = false

def InSequence (t : RegionTree) (d : Nat) : Prop :=
  ∃ r region, t.get? r = some region ∧ region.kind = .sequence ∧ .block d ∈ region.children

theorem mem_of_pair_sublist {α : Type} {a b : α} {xs ys : List α} (hnd : (xs ++ b :: ys).Nodup)
    (h : [a, b].Sublist (xs ++ b :: ys)) : a ∈ xs := by
  obtain ⟨zs, ws, hz, hzs, hws⟩ := List.sublist_append_iff.1 h
  cases zs with
  | nil =>
    have hb : b ∈ ys := by
      rw [List.nil_append] at hz
      rw [← hz] at hws
      cases hws with
      | cons _ hws => exact hws.subset (by simp)
      | cons_cons _ hws => exact hws.subset (by simp)
    exact absurd hb (List.nodup_cons.1 (hnd.sublist (List.sublist_append_right _ _))).1
  | cons z zs =>
    rw [List.cons_append, List.cons.injEq] at hz
    exact hzs.subset (hz.1 ▸ List.mem_cons_self)

theorem pair_sublist {α : Type} {a b : α} {xs ys : List α} (ha : a ∈ xs) : [a, b].Sublist (xs ++ b :: ys) :=
  (List.singleton_sublist.2 ha).append (List.singleton_sublist.2 List.mem_cons_self)

theorem WellFormed.leads_of_eq_append (h : t.WellFormed) {xs ys : List Container}
    (hcs : t.childrenOf r = xs ++ .block d :: ys) (hx : ∀ c ∈ xs, t.dominated doms d c = false) : t.Leads doms d r where
  mem := by simp [hcs]
  front c hc := by
    have hnd := h.nodup r
    rw [hcs] at hc hnd
    exact hx c (mem_of_pair_sublist hnd hc)

theorem WellFormed.exists_front_of_not_leads (h : t.WellFormed) (hd : .block d ∈ t.childrenOf r)
    (hno : ¬ t.Leads doms d r) :
    ∃ front c behind, t.childrenOf r = front ++ .block d :: behind ∧ c ∈ front ∧ t.dominated doms d c = true := by
  obtain ⟨front, behind, hcs⟩ := List.append_of_mem hd
  by_contra hnone
  refine hno (h.leads_of_eq_append hcs fun c hc => ?_)
  rw [← Bool.not_eq_true]
  exact fun hdom => hnone ⟨front, c, behind, hcs, hc, hdom⟩

theorem dominated_block_self : t.dominated doms d (.block d) = true := by
  simp [dominated]

theorem handled_block :
    t.handled g doms tryBlock (.block d) = tryBlock.handlers.any fun h => doms.forward g h.entry d := by
  simp [handled]

theorem WellFormed.inSequence_iff (h : t.WellFormed) {region : Region} (hr : t.get? r = some region)
    (hd : .block d ∈ region.children) : t.InSequence d ↔ region.kind = .sequence := by
  constructor
  · rintro ⟨q, region', hq, hkind, hd'⟩
    rw [← childrenOf_eq hr] at hd
    rw [← childrenOf_eq hq] at hd'
    have hqr := h.parent_unique (.region q) (.region r) (.block d) hd' hd
    rw [Container.region.inj hqr, hr] at hq
    rwa [Option.some.inj hq]
  · intro hkind
    exact ⟨r, region, hr, hkind, hd⟩

namespace Leads

/-- The body of a block that leads is empty or begins with the block. -/
theorem exists_bodyOf_eq (h : t.Leads doms d r) (g : Graph) (tryBlock : TryBlock) :
    ∃ rest, t.bodyOf g doms tryBlock d r =
      if t.handled g doms tryBlock (.block d) = true then [] else .block d :: rest := by
  obtain ⟨xs, ys, hcs⟩ := List.append_of_mem h.mem
  have hxs : xs.filter (t.dominated doms d) = [] := by
    rw [List.filter_eq_nil_iff]
    intro c hc
    rw [h.front c (hcs ▸ pair_sublist hc)]
    exact Bool.false_ne_true
  refine ⟨(ys.filter (t.dominated doms d)).takeWhile fun c => !t.handled g doms tryBlock c, ?_⟩
  rw [bodyOf, hcs, List.filter_append, hxs, List.nil_append, List.filter_cons_of_pos dominated_block_self,
    List.takeWhile_cons]
  cases t.handled g doms tryBlock (.block d) <;> rfl

/-- **Where a block leads, its region and the handlers decide**: the body can be carved out of a sequence if no handler comes
to the block, and in no other case. -/
theorem allows_iff (h : t.Leads doms d r) (hw : t.WellFormed) :
    t.Allows r (t.bodyOf g doms tryBlock d r) ↔ t.InSequence d ∧ t.handled g doms tryBlock (.block d) = false := by
  obtain ⟨rest, hbody⟩ := h.exists_bodyOf_eq g tryBlock
  obtain ⟨region, hr⟩ := lt_size_iff.1 (lt_size_of_mem h.mem)
  have hmem := h.mem
  rw [childrenOf_eq hr] at hmem
  rw [hbody, hw.inSequence_iff hr hmem, Allows, hr]
  cases hd : t.handled g doms tryBlock (.block d) with
  | true => simp
  | false => cases hkind : region.kind <;> simp [hkind, RegionKind.isStructured]

theorem head?_bodyOf (h : t.Leads doms d r) (hallowed : t.Allows r (t.bodyOf g doms tryBlock d r)) :
    (t.bodyOf g doms tryBlock d r).head? = some (.block d) := by
  obtain ⟨rest, hbody⟩ := h.exists_bodyOf_eq g tryBlock
  have hne := hallowed.1
  rw [hbody] at hne ⊢
  split at hne
  · exact absurd rfl hne
  · rename_i hno
    rw [if_neg hno]
    rfl

end Leads

/-! ## Leading on -/

namespace Regrouped

theorem dominated_of_new (hw : t.WellFormed) (h : Regrouped t r moved id u)
    (hd : u.dominated doms d (.region t.size) = true) (hc : c ∈ moved) : t.dominated doms d c = true := by
  rw [dominated_iff] at hd ⊢
  exact fun b hb => hd b ((h.mem_blockList_new hw).2 ⟨c, hc, hb⟩)

/-- The children of the region that are still its own, in front of one that was there: those that were, and the new region
if its first member was. -/
theorem pair_sublist_self (hw : t.WellFormed) (h : Regrouped t r moved id u) {e : Container} (hen : e ≠ .region t.size)
    (hc : [c, e].Sublist (u.childrenOf r)) :
    c ≠ .region t.size ∧ [c, e].Sublist (t.childrenOf r) ∨
      c = .region t.size ∧ ∃ first ∈ moved, [first, e].Sublist (t.childrenOf r) := by
  obtain ⟨first, rest, rfl⟩ := List.exists_cons_of_ne_nil h.allowed.1
  have hnew := not_child_new hw (.region r)
  obtain ⟨xs, ys, hcs, -, he⟩ := exists_regrouped_eq (hw.nodup r) h.sub hnew
  rw [h.childrenOf_self, he] at hc
  rw [child_region, hcs] at hnew
  rw [hcs]
  by_cases hcn : c = .region t.size
  · subst hcn
    refine Or.inr ⟨rfl, first, List.mem_cons_self, ?_⟩
    have hy : e ∈ ys := by
      obtain ⟨zs, ws, hz, hzs, hws⟩ := List.sublist_append_iff.1 hc
      cases zs with
      | nil =>
        rw [List.nil_append] at hz
        exact List.mem_of_mem_filter (List.singleton_sublist.1 (List.cons_sublist_cons.1 (hz ▸ hws)))
      | cons z zs =>
        rw [List.cons_append, List.cons.injEq] at hz
        exact absurd (List.mem_append_left _ (hzs.subset (hz.1 ▸ List.mem_cons_self))) hnew
    exact (List.cons_sublist_cons.2 (List.singleton_sublist.2 hy)).trans (List.sublist_append_right _ _)
  · refine Or.inl ⟨hcn, ?_⟩
    have hfilter := hc.filter fun c => decide (c ≠ .region t.size)
    have hpair : [c, e].filter (fun c => decide (c ≠ .region t.size)) = [c, e] := by simp [hcn, hen]
    rw [hpair, List.filter_append, List.filter_cons_of_neg (by simp)] at hfilter
    refine hfilter.trans (List.filter_sublist.append ?_)
    exact (List.filter_sublist.trans List.filter_sublist).trans (List.sublist_cons_self _ _)

/-- What stands in front of the new region stood in front of all that moved. -/
theorem pair_sublist_new (hw : t.WellFormed) (h : Regrouped t r moved id u) {e : Container} (he : e ∈ moved)
    (hc : [c, .region t.size].Sublist (u.childrenOf r)) : [c, e].Sublist (t.childrenOf r) := by
  obtain ⟨first, rest, rfl⟩ := List.exists_cons_of_ne_nil h.allowed.1
  obtain ⟨xs, ys, hcs, hrest, hre⟩ := exists_regrouped_eq (hw.nodup r) h.sub (not_child_new hw (.region r))
  have hnd := h.nodup hw r
  rw [h.childrenOf_self, hre] at hc hnd
  have hmoved : e ∈ first :: ys := by
    rcases List.mem_cons.1 he with rfl | he
    · exact List.mem_cons_self
    · exact List.mem_cons_of_mem _ (hrest.subset he)
  rw [hcs]
  exact (List.singleton_sublist.2 (mem_of_pair_sublist hnd hc)).append (List.singleton_sublist.2 hmoved)

/-- **A block that leads keeps leading.** -/
theorem leads (hw : t.WellFormed) (h : Regrouped t r moved id u) (hd : t.Leads doms d q) :
    ∃ q', u.Leads doms d q' := by
  have hfalse : ∀ c ∈ t.childrenOf q, [c, .block d].Sublist (t.childrenOf q) → u.dominated doms d c = false := by
    intro c hc hpair
    rw [h.dominated_eq hw (hw.has_of_mem hc)]
    exact hd.front c hpair
  by_cases hqr : q = r
  · subst hqr
    by_cases hm : .block d ∈ moved
    · -- the block moves, and what is in front of it now was so before
      refine ⟨t.size, by rwa [h.childrenOf_new], fun c hc => ?_⟩
      rw [h.childrenOf_new] at hc
      have hpair := hc.trans h.sub
      exact hfalse c (hpair.subset (by simp)) hpair
    · refine ⟨q, (h.mem_childrenOf_self hw).2 (Or.inr ⟨hd.mem, hm⟩), fun c hc => ?_⟩
      rcases h.pair_sublist_self hw (by simp) hc with ⟨-, hpair⟩ | ⟨rfl, first, hfirst, hpair⟩
      · exact hfalse c (hpair.subset (by simp)) hpair
      · rw [← Bool.not_eq_true]
        intro hnew
        have := h.dominated_of_new hw hnew hfirst
        rw [hd.front first hpair] at this
        cases this
  · have hcs := h.childrenOf_of_ne hqr (Nat.ne_of_lt (lt_size_of_mem hd.mem))
    refine ⟨q, by rw [hcs]; exact hd.mem, fun c hc => ?_⟩
    rw [hcs] at hc
    exact hfalse c (hc.subset (by simp)) hc

/-- A block leaves a sequence for a sequence, and nothing but a sequence. -/
theorem inSequence_iff (hw : t.WellFormed) (h : Regrouped t r moved id u) : u.InSequence d ↔ t.InSequence d := by
  obtain ⟨self, hself⟩ := lt_size_iff.1 h.lt
  have hseq : .block d ∈ moved → self.kind = .sequence := by
    intro hm
    cases hkind : self.kind with
    | sequence => rfl
    | _ =>
      obtain ⟨q, hq⟩ := h.allowed.2 self hself (by rw [hkind]; rfl)
      rw [hq] at hm
      simp at hm
  constructor
  · rintro ⟨q, region, hq, hkind, hd⟩
    rw [← childrenOf_eq hq] at hd
    rcases (h.child_iff hw (p := .region q)).1 hd with ⟨-, hm⟩ | ⟨-, hn⟩ | ⟨hd, -⟩
    · refine ⟨r, self, hself, hseq hm, ?_⟩
      rw [← childrenOf_eq hself]
      exact h.child_of_mem hm
    · cases hn
    · obtain ⟨old, hold⟩ := lt_size_iff.1 (lt_size_of_mem hd)
      obtain ⟨region', hq', hkind', -⟩ := h.get?_kept hold
      rw [hq] at hq'
      rw [Option.some.inj hq', hkind'] at hkind
      exact ⟨q, old, hold, hkind, childrenOf_eq hold ▸ hd⟩
  · rintro ⟨q, region, hq, hkind, hd⟩
    rw [← childrenOf_eq hq] at hd
    by_cases hm : .block d ∈ moved
    · exact ⟨t.size, _, h.get?_new, rfl, hm⟩
    · obtain ⟨region', hq', hkind', -⟩ := h.get?_kept hq
      refine ⟨q, region', hq', hkind'.trans hkind, ?_⟩
      rw [← childrenOf_eq hq']
      exact (h.child_iff hw (p := .region q)).2 (Or.inr (Or.inr ⟨hd, hm⟩))

/-- A block stays the first child of its region unless the body of another one begins with it. -/
theorem head?_childrenOf (hw : t.WellFormed) (h : Regrouped t r moved id u) (hn : n < t.size)
    (hhead : (t.childrenOf n).head? = some c) (hne : moved.head? ≠ some c) : (u.childrenOf n).head? = some c := by
  by_cases hnr : n = r
  · subst hnr
    obtain ⟨first, rest, rfl⟩ := List.exists_cons_of_ne_nil h.allowed.1
    obtain ⟨xs, ys, hcs, -, he⟩ := exists_regrouped_eq (hw.nodup n) h.sub (not_child_new hw (.region n))
    rw [h.childrenOf_self, he]
    rw [hcs] at hhead
    cases xs with
    | nil => exact absurd hhead hne
    | cons x xs => exact hhead
  · rw [h.childrenOf_of_ne hnr (Nat.ne_of_lt hn)]
    exact hhead

end Regrouped

end RegionTree

end GuardedRegions
