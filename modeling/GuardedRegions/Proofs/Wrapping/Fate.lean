import GuardedRegions.Proofs.Region.Valid
import GuardedRegions.Proofs.Wrapping.Bodies
import GuardedRegions.Proofs.Wrapping.Ledger
import GuardedRegions.Proofs.Wrapping.Limit
import GuardedRegions.Proofs.Wrapping.Order

/-!
# The fate of an entry

If all pending dominators lead at the start of a run, what becomes of each entry is known before the run: it gets a region if
nothing stands against it in the tree at the start (`Method.Carvable`), and is given up if something does. No other carving
changes this, as every dominator keeps leading and stays in a sequence, or out of one (`Progress.Ordered.step`).
-/

namespace GuardedRegions

/-! ## What becomes of the entries -/

/-- Nothing stands against an entry: its dominator is a child of a sequence, and no handler of its try-block comes to the
dominator. -/
structure Method.Carvable (m : Method) (doms : Dominance) (e : Nat × Nat) : Prop where
  inSequence : m.tree.InSequence e.1
  unreached : ∃ tb, m.tryBlock? e.2 = some tb ∧
    ∀ h ∈ tb.handlers, doms.reachesForward m.graph h.entry e.1 = .ok false

namespace Progress

variable {m : Method} {doms : Dominance} {pending : Pending} {made : List (Nat × Nat)} {x y : Progress} {e : Nat × Nat}
  {r : Nat}

/-- How far a run has come, with the fates of the entries whose dominators have led at its start. -/
structure Ordered (m : Method) (doms : Dominance) (pending : Pending) (made : List (Nat × Nat)) (x : Progress) : Prop
    extends Ledger m.tree pending made x where
  leads : ∀ d, (∃ r, m.tree.Leads doms d r) → ∃ r, x.tree.Leads doms d r
  inSequence : ∀ d, x.tree.InSequence d ↔ m.tree.InSequence d
  made_carvable : ∀ e ∈ made, (∃ r, m.tree.Leads doms e.1 r) → m.Carvable doms e
  failures_not_carvable : ∀ e ∈ x.failures, (∃ r, m.tree.Leads doms e.1 r) → ¬ m.Carvable doms e
  heads : (∀ e ∈ pending.entries, ∃ r, m.tree.Leads doms e.1 r) → ∀ k e, made[k]? = some e →
    (x.tree.childrenOf (m.tree.size + k)).head? = some (.block e.1)

theorem handled_block_eq_false_iff {t : RegionTree} {tb : TryBlock} {d : Nat} (htb : tb.HandlersIn m.graph) :
    t.handled m.graph doms tb (.block d) = false ↔
      ∀ h ∈ tb.handlers, doms.reachesForward m.graph h.entry d = .ok false := by
  rw [RegionTree.handled_block, List.any_eq_false]
  refine forall₂_congr fun h hmem => ?_
  rw [Dominance.reachesForward_eq (htb h hmem), Except.ok.injEq, Bool.not_eq_true]

namespace Ordered

theorem start (hw : m.tree.WellFormed) : Ordered m doms pending [] { tree := m.tree, pending } where
  toLedger := Ledger.start hw
  leads _ hlead := hlead
  inSequence _ := Iff.rfl
  made_carvable _ he := absurd he List.not_mem_nil
  failures_not_carvable _ he := absurd he List.not_mem_nil
  heads _ k _ hk := by simp at hk

theorem leads_in (hx : Ordered m doms pending made x) (hfirst : x.pending.first? x.tree r = some e)
    (hlead : ∃ r, m.tree.Leads doms e.1 r) : x.tree.Leads doms e.1 r := by
  obtain ⟨q, hq⟩ := hx.leads e.1 hlead
  have hqr := hx.wellFormed.parent_unique (.region q) (.region r) _ hq.mem (Pending.child_of_first? hfirst)
  exact Container.region.inj hqr ▸ hq

/-- An entry that comes up can be carved out if nothing has stood against it at the start. -/
theorem allows_iff (hx : Ordered m doms pending made x) (hh : m.HandlersExist)
    (hfirst : x.pending.first? x.tree r = some e) (hlead : ∃ r, m.tree.Leads doms e.1 r) {tb : TryBlock}
    (htb : m.tryBlock? e.2 = some tb) :
    x.tree.Allows r (x.tree.bodyOf m.graph doms tb e.1 r) ↔ m.Carvable doms e := by
  rw [(hx.leads_in hfirst hlead).allows_iff hx.wellFormed, hx.inSequence,
    handled_block_eq_false_iff (hh tb (List.mem_of_find?_eq_some htb))]
  constructor
  · rintro ⟨hseq, hreach⟩
    exact ⟨hseq, tb, htb, hreach⟩
  · rintro ⟨hseq, tb', htb', hreach⟩
    rw [htb] at htb'
    exact ⟨hseq, Option.some.inj htb' ▸ hreach⟩

/-- The regions still begin with their dominators when one more is carved out, as this one begins with its own. -/
theorem heads_carved (hx : Ordered m doms pending made x) (he : e ∈ x.pending.entries) {u : RegionTree}
    {moved : List Container} {id : Nat} (hre : RegionTree.Regrouped x.tree r moved id u)
    (hhead : moved.head? = some (.block e.1)) (hlead : ∀ e ∈ pending.entries, ∃ r, m.tree.Leads doms e.1 r) (k : Nat)
    (e' : Nat × Nat) (hk : (made ++ [e])[k]? = some e') :
    (u.childrenOf (m.tree.size + k)).head? = some (.block e'.1) := by
  have hlt : k < (made ++ [e]).length := (List.getElem?_eq_some_iff.1 hk).1
  rw [List.length_append, List.length_singleton] at hlt
  by_cases hlast : k = made.length
  · subst hlast
    rw [List.getElem?_append_right (Nat.le_refl _), Nat.sub_self, List.getElem?_cons_zero, Option.some.injEq] at hk
    rw [← hx.size, hre.childrenOf_new, ← hk]
    exact hhead
  · have hold : k < made.length := by omega
    rw [List.getElem?_append_left hold] at hk
    refine hre.head?_childrenOf hx.wellFormed (by rw [hx.size]; omega) (hx.heads hlead k e' hk) ?_
    rw [hhead, ne_eq, Option.some.injEq, Container.block.injEq]
    exact hx.fst_ne_of_made he (List.mem_of_getElem? hk)

/-- **Each entry meets its fate.** -/
theorem step (hx : Ordered m doms pending made x) (hh : m.HandlersExist)
    (h : Step m.graph doms m.tryBlocks r x y) : ∃ made', Ordered m doms pending made' y := by
  cases h with
  | idle => exact ⟨made, hx⟩
  | @gaveUp e hfirst hrefused =>
    refine ⟨made, hx.gaveUp (Pending.mem_of_first? hfirst), hx.leads, hx.inSequence, hx.made_carvable, ?_, hx.heads⟩
    intro e' he'
    rcases List.mem_append.1 he' with he' | he'
    · exact hx.failures_not_carvable e' he'
    · rw [List.mem_singleton.1 he']
      intro hlead hc
      obtain ⟨tb, htb, -⟩ := hc.unreached
      exact hrefused tb htb ((hx.allows_iff hh hfirst hlead htb).2 hc)
  | @wrapped e tb u hfirst htb hre =>
    have hid : tb.id = e.2 := by simpa using List.find?_some htb
    have hpending := Pending.mem_of_first? hfirst
    refine ⟨made ++ [e], hx.carved hpending (hid ▸ hre), fun d hlead => ?_, fun d => ?_, fun e' he' => ?_,
      hx.failures_not_carvable, fun hleads => ?_⟩
    · obtain ⟨q, hlead⟩ := hx.leads d hlead
      exact hre.leads hx.wellFormed hlead
    · exact (hre.inSequence_iff hx.wellFormed).trans (hx.inSequence d)
    · rcases List.mem_append.1 he' with he' | he'
      · exact hx.made_carvable e' he'
      · rw [List.mem_singleton.1 he']
        exact fun hlead => (hx.allows_iff hh hfirst hlead htb).1 hre.allowed
    · have hlead := hx.leads_in hfirst (hleads e (hx.mem_of_pending hpending))
      exact hx.heads_carved hpending hre (hlead.head?_bodyOf hre.allowed) hleads

end Ordered

theorem Steps.ordered (h : Steps m.graph doms m.tryBlocks { tree := m.tree, pending } y) (hw : m.tree.WellFormed)
    (hh : m.HandlersExist) : ∃ made, Ordered m doms pending made y :=
  h.preserve (P := fun x => ∃ made, Ordered m doms pending made x) (fun _ _ _ ⟨_, hx⟩ hxy => hx.step hh hxy)
    ⟨[], Ordered.start hw⟩

/-! ## At the end of a run -/

namespace Ordered

theorem mem_made_iff (hx : Ordered m doms pending made x) (hend : (made ++ x.failures).Perm pending.entries)
    (he : e ∈ pending.entries) (hlead : ∃ r, m.tree.Leads doms e.1 r) : e ∈ made ↔ m.Carvable doms e := by
  refine ⟨fun hm => hx.made_carvable e hm hlead, fun hc => ?_⟩
  rcases List.mem_append.1 (hend.symm.subset he) with hm | hf
  · exact hm
  · exact absurd hc (hx.failures_not_carvable e hf hlead)

open Classical in
theorem length_failures (hx : Ordered m doms pending made x) (hend : (made ++ x.failures).Perm pending.entries)
    (hlead : ∀ e ∈ pending.entries, ∃ r, m.tree.Leads doms e.1 r) :
    x.failures.length = pending.entries.countP fun e => decide (¬ m.Carvable doms e) := by
  have hmade : made.countP (fun e => decide (¬ m.Carvable doms e)) = 0 := by
    rw [List.countP_eq_zero]
    intro e he
    simpa using hx.made_carvable e he (hlead e (hx.mem_of_made he))
  have hfailed : x.failures.countP (fun e => decide (¬ m.Carvable doms e)) = x.failures.length := by
    rw [List.countP_eq_length]
    intro e he
    simpa using hx.failures_not_carvable e he (hlead e (hx.mem_of_failed he))
  rw [← hend.countP_eq, List.countP_append, hmade, hfailed, Nat.zero_add]

theorem head?_of_gained (hx : Ordered m doms pending made x) (hids : (pending.entries.map (·.2)).Nodup)
    (hlead : ∀ e ∈ pending.entries, ∃ r, m.tree.Leads doms e.1 r) (he : e ∈ pending.entries) {n : Nat}
    (hn : m.tree.Gained x.tree e.2 n) : (x.tree.childrenOf n).head? = some (.block e.1) := by
  obtain ⟨hle, hk⟩ := (hx.gained_iff_of_nodup hids he).1 hn
  have := hx.heads hlead _ e hk
  rwa [Nat.add_sub_cancel' hle] at this

/-- **Nested regions have nested dominators.** -/
theorem strict_of_encloses (hx : Ordered m doms pending made x) (hbodies : Bodies m doms pending x)
    (hids : (pending.entries.map (·.2)).Nodup) (hlead : ∀ e ∈ pending.entries, ∃ r, m.tree.Leads doms e.1 r)
    {e₁ e₂ : Nat × Nat} (he₁ : e₁ ∈ pending.entries) (he₂ : e₂ ∈ pending.entries) {n₁ n₂ : Nat}
    (hn₁ : m.tree.Gained x.tree e₁.2 n₁) (hn₂ : m.tree.Gained x.tree e₂.2 n₂)
    (hin : x.tree.Encloses (.region n₁) (.region n₂)) : e₁.1 ∈ doms.strict e₂.1 := by
  obtain ⟨region, hr, htag⟩ := hn₁.2
  obtain ⟨e, he, tb, htb, hbody⟩ := hbodies.bodies n₁ hn₁.1 (RegionTree.lt_size_of_get? hr)
  have hee : e = e₁ := by
    obtain ⟨region', hr', -, htag'⟩ := hbody.region
    have hid : tb.id = e.2 := by simpa using List.find?_some htb
    rw [hr] at hr'
    rw [← Option.some.inj hr', htag, Option.some.injEq, hid] at htag'
    exact (List.inj_on_of_nodup_map hids he₁ he htag').symm
  subst hee
  have hmem : .block e₂.1 ∈ x.tree.childrenOf n₂ := List.mem_of_mem_head? (hx.head?_of_gained hids hlead he₂ hn₂)
  have hbelow : e₂.1 ∈ x.tree.blockList (.region n₁) :=
    (hx.wellFormed.mem_blockList (c := .region n₁) hbody.lt).2 (hin.tail hmem).to_reflTransGen
  have hne : e.1 ≠ e₂.1 := by
    intro heq
    obtain rfl := Pending.eq_of_fst_eq he he₂ heq
    rw [hx.eq_of_gained hids he hn₁ hn₂] at hin
    exact hx.wellFormed.not_encloses_self _ hin
  rcases RegionTree.dominated_iff.1 hbody.dominated e₂.1 hbelow with heq | hdom
  · exact absurd heq.symm hne
  · exact IdSet.mem_erase.2 ⟨of_decide_eq_true hdom, hne⟩

end Ordered

end Progress

namespace Method

variable {m : Method}

open Classical in
/-- **Where the pending dominators lead, the tree at the start decides about every entry.** It gets a region if its dominator
is a child of a sequence and no handler comes to the dominator, and all other entries are given up. The region of an entry
begins with the dominator; and if the region of one lies within that of another, its dominator is strictly dominated by
the dominator of that one. -/
theorem fate_is_foreseen (hv : m.tree.validate = .ok ()) (hh : m.HandlersExist) (doms : Dominance) (pending : Pending)
    (limit : Nat) (hids : (pending.entries.map (·.2)).Nodup)
    (hlead : ∀ e ∈ pending.entries, ∃ r front behind, m.tree.childrenOf r = front ++ .block e.1 :: behind ∧
      ∀ c ∈ front, m.tree.isDominated doms e.1 c = .ok false) :
    ∃ resolved result, m.resolve doms pending limit = .ok (resolved, result) ∧ ∀ tally, result = .ok tally →
      (∀ e ∈ pending.entries, (∃ n, m.tree.Gained resolved.method.tree e.2 n) ↔ m.Carvable doms e) ∧
      tally.failed = pending.entries.countP (fun e => decide (¬ m.Carvable doms e)) ∧
      (∀ e ∈ pending.entries, ∀ n, m.tree.Gained resolved.method.tree e.2 n →
        (resolved.method.tree.childrenOf n).head? = some (.block e.1) ∧
        ∀ n', m.tree.Gained resolved.method.tree e.2 n' → n' = n) ∧
      ∀ e₁ ∈ pending.entries, ∀ e₂ ∈ pending.entries, ∀ n₁ n₂, m.tree.Gained resolved.method.tree e₁.2 n₁ →
        m.tree.Gained resolved.method.tree e₂.2 n₂ → resolved.method.tree.Encloses (.region n₁) (.region n₂) →
        e₁.1 ∈ doms.strict e₂.1 := by
  have hw := RegionTree.validate_eq_ok_iff.1 hv
  have hlead' : ∀ e ∈ pending.entries, ∃ r, m.tree.Leads doms e.1 r := by
    intro e he
    obtain ⟨r, front, behind, hcs, hfront⟩ := hlead e he
    refine ⟨r, hw.leads_of_eq_append hcs fun c hc => ?_⟩
    have hmem : c ∈ m.tree.childrenOf r := hcs ▸ List.mem_append_left _ hc
    have := hfront c hc
    rwa [hw.isDominated_eq (hw.has_of_mem hmem), Except.ok.injEq] at this
  obtain ⟨resolved, result, y, hok, hsteps, hy⟩ := resolve_ok hw hh doms pending limit
  refine ⟨resolved, result, hok, ?_⟩
  rintro tally rfl
  obtain ⟨hempty, htally⟩ := Resolution.of_run_eq_ok hok
  obtain ⟨made, hord⟩ := hsteps.ordered hw hh
  have hbodies : Progress.Bodies m doms pending y :=
    hsteps.preserve (fun _ _ _ hx hxy => hx.step hxy) (Progress.Bodies.start hw)
  have hend := hord.perm_of_isEmpty (hy.pending ▸ hempty)
  rw [hy.tree]
  refine ⟨fun e he => ?_, ?_, fun e he n hn => ⟨hord.head?_of_gained hids hlead' he hn, ?_⟩, ?_⟩
  · rw [hord.exists_gained_iff hids he]
    exact hord.mem_made_iff hend he (hlead' e he)
  · rw [← htally, hy.failed]
    exact hord.length_failures hend hlead'
  · intro n' hn'
    exact hord.eq_of_gained hids he hn' hn
  · intro e₁ he₁ e₂ he₂ n₁ n₂ hn₁ hn₂ hin
    exact hord.strict_of_encloses hbodies hids hlead' he₁ he₂ hn₁ hn₂ hin

/-- The method of the nested try-blocks, with a third one whose handler comes to the block where it begins. -/
def threeTries : Method :=
  { Method.nestedTries with tryBlocks := Method.nestedTries.tryBlocks ++ [⟨9, [⟨none, 3⟩]⟩] }

/-- Two bodies, the second one within the first, and a try-block that is given up. -/
theorem fate_is_foreseen_threeTries :
    ∃ resolved tally, threeTries.resolve .nestedTries (Pending.nestedTries.insert 4 9) 100 = .ok (resolved, .ok tally) ∧
      tally.failed = 1 ∧ (¬ ∃ n, threeTries.tree.Gained resolved.method.tree 9 n) ∧
      (∃ n, threeTries.tree.Gained resolved.method.tree 8 n) ∧
      (resolved.method.tree.childrenOf 3).head? = some (.block 2) ∧ 1 ∈ Dominance.nestedTries.strict 2 := by
  have hlead : ∀ e ∈ (Pending.nestedTries.insert 4 9).entries, ∃ r front behind,
      threeTries.tree.childrenOf r = front ++ .block e.1 :: behind ∧
        ∀ c ∈ front, threeTries.tree.isDominated .nestedTries e.1 c = .ok false := by
    have hentries : (Pending.nestedTries.insert 4 9).entries = [(1, 7), (2, 8), (4, 9)] := rfl
    simp only [hentries, List.forall_mem_cons, List.not_mem_nil, false_implies, implies_true, and_true]
    exact ⟨⟨1, [], [.block 2], rfl, by decide⟩, ⟨1, [.block 1], [], rfl, by decide⟩,
      ⟨0, [.block 0, .region 1, .block 3], [], rfl, by decide⟩⟩
  obtain ⟨resolved, result, hok, hfate⟩ := fate_is_foreseen (m := threeTries) (by decide) (by decide) .nestedTries
    (Pending.nestedTries.insert 4 9) 100 (by decide) hlead
  have hrun : (threeTries.resolve .nestedTries (Pending.nestedTries.insert 4 9) 100).map (fun x =>
      (x.1.method.tree.tags, x.1.method.tree.childrenOf 2, x.2)) =
        .ok ([none, none, some 7, some 8], [.block 1, .region 3], .ok ⟨2, 1, 2⟩) := by decide +kernel
  rw [hok] at hrun
  obtain ⟨htags, hcs, hresult⟩ : resolved.method.tree.tags = _ ∧ resolved.method.tree.childrenOf 2 = _ ∧ result = _ := by
    simpa using Except.ok.inj hrun
  obtain ⟨hiff, -, hhead, hin⟩ := hfate _ hresult
  have hseven : threeTries.tree.Gained resolved.method.tree 7 2 :=
    ⟨by decide, RegionTree.getElem?_tags_eq_some_iff.1 (by rw [htags]; rfl)⟩
  have height : threeTries.tree.Gained resolved.method.tree 8 3 :=
    ⟨by decide, RegionTree.getElem?_tags_eq_some_iff.1 (by rw [htags]; rfl)⟩
  have hnine : ¬ threeTries.Carvable .nestedTries (4, 9) := by
    rintro ⟨-, tb, htb, hreach⟩
    obtain rfl := Option.some.inj htb
    exact absurd (hreach ⟨none, 3⟩ (by simp)) (by decide)
  refine ⟨resolved, _, hresult ▸ hok, rfl, mt (hiff (4, 9) (by decide)).1 hnine, ⟨3, height⟩,
    (hhead (2, 8) (by decide) 3 height).1, hin (1, 7) (by decide) (2, 8) (by decide) 2 3 hseven height ?_⟩
  refine Relation.TransGen.single ?_
  rw [RegionTree.child_region, hcs]
  simp

end Method

end GuardedRegions
