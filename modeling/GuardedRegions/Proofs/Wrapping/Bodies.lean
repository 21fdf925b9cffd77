import GuardedRegions.Proofs.Region.Valid
import GuardedRegions.Proofs.Wrapping.Run

/-!
# Every new region is the body of a try-block

`RegionTree.IsBody` says of a region what carving makes of it: its blocks are dominated, and no child of it is on a handler
path. Both are about all blocks below a container, and regrouping changes neither which blocks are below a region that is
there nor, for a child that is new, that a former child is below it. So a body stays one when other bodies are carved out
of it or around it (`Regrouped.isBody`), and at the end of a run all new regions are bodies.
-/

namespace GuardedRegions

namespace RegionTree

variable {t u : RegionTree} {g : Graph} {doms : Dominance} {tryBlock : TryBlock} {dominator r id n : Nat}
  {moved : List Container}

/-- The region is the body of a try-block that begins at a dominator. -/
structure IsBody (t : RegionTree) (g : Graph) (doms : Dominance) (tryBlock : TryBlock) (dominator n : Nat) : Prop where
  region : ∃ region, t.get? n = some region ∧ region.kind = .sequence ∧ region.tryBlock = some tryBlock.id
  nonempty : t.childrenOf n ≠ []
  dominated : t.dominated doms dominator (.region n) = true
  unhandled : ∀ c ∈ t.childrenOf n, t.handled g doms tryBlock c = false

theorem IsBody.lt (h : t.IsBody g doms tryBlock dominator n) : n < t.size := by
  obtain ⟨region, hr, -⟩ := h.region
  exact lt_size_of_get? hr

namespace Regrouped

theorem childrenOf_ne_nil (hw : t.WellFormed) (h : Regrouped t r moved id u) (hne : t.childrenOf n ≠ [])
    (hn : n < t.size) : u.childrenOf n ≠ [] := by
  by_cases hnr : n = r
  · subst hnr
    exact List.ne_nil_of_mem ((h.mem_childrenOf_self hw).2 (Or.inl rfl))
  · rwa [h.childrenOf_of_ne hnr (Nat.ne_of_lt hn)]

/-- **A body stays a body**, also when another one is carved out of it. -/
theorem isBody (hw : t.WellFormed) (h : Regrouped t r moved id u) (hb : t.IsBody g doms tryBlock dominator n) :
    u.IsBody g doms tryBlock dominator n := by
  have hhas : t.Has (.region n) := hb.lt
  constructor
  · obtain ⟨region, hr, hkind, htag⟩ := hb.region
    obtain ⟨region', hr', hkind', htag'⟩ := h.get?_kept hr
    exact ⟨region', hr', hkind'.trans hkind, htag'.trans htag⟩
  · exact h.childrenOf_ne_nil hw hb.nonempty hb.lt
  · exact dominated_of_subset (fun b hbu => (h.mem_blockList hw hhas).1 hbu) hb.dominated
  · intro c hc
    by_cases hnr : n = r
    · subst hnr
      rcases (h.mem_childrenOf_self hw).1 hc with rfl | ⟨hct, -⟩
      · obtain ⟨c, hc⟩ := List.exists_mem_of_ne_nil moved h.allowed.1
        exact h.unhandled_new hw hc (hb.unhandled c (h.child_of_mem hc))
      · exact (h.handled_eq hw (hw.has_of_mem hct)).trans (hb.unhandled c hct)
    · rw [h.childrenOf_of_ne hnr (Nat.ne_of_lt hb.lt)] at hc
      exact (h.handled_eq hw (hw.has_of_mem hc)).trans (hb.unhandled c hc)

/-- **What is carved out is a body.** -/
theorem isBody_new (hw : t.WellFormed)
    (h : Regrouped t r (t.bodyOf g doms tryBlock dominator r) tryBlock.id u) :
    u.IsBody g doms tryBlock dominator t.size := by
  constructor
  · exact ⟨_, h.get?_new, rfl, rfl⟩
  · rw [h.childrenOf_new]
    exact h.allowed.1
  · rw [dominated_iff]
    intro b hb
    obtain ⟨c, hc, hbc⟩ := (h.mem_blockList_new hw).1 hb
    exact dominated_iff.1 (dominated_of_mem_bodyOf hc) b hbc
  · intro c hc
    rw [h.childrenOf_new] at hc
    exact (h.handled_eq hw (hw.has_of_child (h.child_of_mem hc))).trans (handled_of_mem_bodyOf hc)

end Regrouped

end RegionTree

namespace Progress

variable {m : Method} {doms : Dominance} {pending : Pending} {x y : Progress} {r : Nat}

/-- What has been made since the start of a run are bodies of try-blocks that were pending. -/
structure Bodies (m : Method) (doms : Dominance) (pending : Pending) (x : Progress) : Prop where
  wellFormed : x.tree.WellFormed
  size : x.tree.size = m.tree.size + x.wrapped
  known : x.pending.entries ⊆ pending.entries
  bodies : ∀ n, m.tree.size ≤ n → n < x.tree.size → ∃ e ∈ pending.entries, ∃ tb, m.tryBlock? e.2 = some tb ∧
    x.tree.IsBody m.graph doms tb e.1 n

theorem Bodies.step (hx : Bodies m doms pending x) (h : Step m.graph doms m.tryBlocks r x y) : Bodies m doms pending y := by
  have hknown : y.pending.entries ⊆ pending.entries := fun e he => hx.known (h.pending_sublist.subset he)
  cases h with
  | idle => exact hx
  | gaveUp => exact ⟨hx.wellFormed, hx.size, hknown, hx.bodies⟩
  | @wrapped e tb u hfirst htb hre =>
    have hsize : u.size = m.tree.size + (x.wrapped + 1) := by
      rw [hre.size, hx.size, Nat.add_assoc]
    refine ⟨hre.wellFormed hx.wellFormed, hsize, hknown, fun n hn hlt => ?_⟩
    by_cases hnew : n = x.tree.size
    · subst hnew
      exact ⟨e, hx.known (Pending.mem_of_first? hfirst), tb, htb, hre.isBody_new hx.wellFormed⟩
    · have hold : n < x.tree.size := by
        have hlt : n < u.size := hlt
        rw [hre.size] at hlt
        omega
      obtain ⟨e, he, tb, htb, hbody⟩ := hx.bodies n hn hold
      exact ⟨e, he, tb, htb, hre.isBody hx.wellFormed hbody⟩

theorem Bodies.start (hw : m.tree.WellFormed) : Bodies m doms pending { tree := m.tree, pending } where
  wellFormed := hw
  size := rfl
  known := fun _ he => he
  bodies _ hn hlt := absurd hlt (Nat.not_lt.2 hn)

end Progress

namespace Method

variable {m : Method}

/-- **Every region that a run makes is the body of a try-block that was pending**: a sequence with at least one child,
tagged with the try-block, all of whose blocks the dominator dominates, and none of whose children is on a handler path.
This holds at the end of the run, whatever was carved out later; there are as many such regions as the tally says. -/
theorem new_regions_are_bodies (hv : m.tree.validate = .ok ()) (hh : m.HandlersExist) (doms : Dominance)
    (pending : Pending) (limit : Nat) :
    ∃ resolved result, m.resolve doms pending limit = .ok (resolved, result) ∧
      resolved.method.tree.size = m.tree.size + resolved.tally.wrapped ∧
      ∀ n, m.tree.size ≤ n → n < resolved.method.tree.size →
        ∃ region tryBlock dominator blocks, resolved.method.tree.get? n = some region ∧
          region.kind = .sequence ∧ region.children ≠ [] ∧ region.tryBlock = some tryBlock.id ∧
          m.tryBlock? tryBlock.id = some tryBlock ∧ pending.get? dominator = some tryBlock.id ∧
          resolved.method.tree.blocksOf (.region n) = .ok blocks ∧
          (∀ b ∈ blocks, b = dominator ∨ doms.dominates dominator b = true) ∧
          ∀ c ∈ region.children, resolved.method.tree.onHandlerPath m.graph doms tryBlock c = .ok false := by
  have hw := RegionTree.validate_eq_ok_iff.1 hv
  obtain ⟨resolved, result, y, hok, hsteps, hy⟩ := resolve_ok hw hh doms pending limit
  have hbodies : Progress.Bodies m doms pending y :=
    hsteps.preserve (fun _ _ _ hx hxy => hx.step hxy) (Progress.Bodies.start hw)
  refine ⟨resolved, result, hok, by rw [hy.tree, hy.wrapped, hbodies.size], fun n hn hlt => ?_⟩
  rw [hy.tree] at hlt ⊢
  obtain ⟨⟨dominator, i⟩, he, tb, htb, hbody⟩ := hbodies.bodies n hn hlt
  obtain ⟨region, hr, hkind, htag⟩ := hbody.region
  have hid : tb.id = i := by simpa using List.find?_some htb
  subst hid
  have hchildren := RegionTree.childrenOf_eq hr
  refine ⟨region, tb, dominator, _, hr, hkind, hchildren ▸ hbody.nonempty, htag, htb,
    Pending.get?_eq_some_iff.2 he, hbodies.wellFormed.blocksOf_eq hlt, RegionTree.dominated_iff.1 hbody.dominated, ?_⟩
  intro c hc
  rw [← hchildren] at hc
  rw [hbodies.wellFormed.onHandlerPath_eq (hbodies.wellFormed.has_of_mem hc) (hh tb (List.mem_of_find?_eq_some htb)),
    hbody.unhandled c hc]

theorem new_regions_are_bodies_nestedTries :
    ∃ resolved result, nestedTries.resolve .nestedTries .nestedTries 100 = .ok (resolved, result) ∧
      resolved.method.tree.size = 4 ∧
      ∃ region tryBlock dominator blocks, resolved.method.tree.get? 3 = some region ∧
        region.kind = .sequence ∧ region.children ≠ [] ∧ region.tryBlock = some tryBlock.id ∧
        nestedTries.tryBlock? tryBlock.id = some tryBlock ∧ Pending.nestedTries.get? dominator = some tryBlock.id ∧
        resolved.method.tree.blocksOf (.region 3) = .ok blocks ∧
        (∀ b ∈ blocks, b = dominator ∨ Dominance.nestedTries.dominates dominator b = true) ∧
        ∀ c ∈ region.children, resolved.method.tree.onHandlerPath nestedTries.graph .nestedTries tryBlock c = .ok false := by
  obtain ⟨resolved, result, hok, -, hall⟩ :=
    new_regions_are_bodies (m := nestedTries) (by decide) (by decide) .nestedTries .nestedTries 100
  have hsize : (nestedTries.resolve .nestedTries .nestedTries 100).map (·.1.method.tree.size) = .ok 4 := by decide +kernel
  have hfour : resolved.method.tree.size = 4 := by
    rw [hok] at hsize
    exact Except.ok.inj hsize
  exact ⟨resolved, result, hok, hfour, hall 3 (by decide) (by omega)⟩

end Method

end GuardedRegions
