import GuardedRegions.Proofs.Region.Valid
import GuardedRegions.Proofs.Wrapping.Regroup

/-!
# Questions are about blocks

Whether a container is dominated, and whether it is on a handler path, depends on the blocks below it and on nothing else: not on
how they are nested, nor on their order (`RegionTree.questions_are_about_blocks`). Carving out a body changes the blocks of no
container that was there, so it changes no answer about one.

A handler that starts at no block of the graph can leave the second question without an answer. Then what is said here holds of
the answers that there are.
-/

namespace GuardedRegions.RegionTree

variable {t u : RegionTree} {g : Graph} {doms : Dominance} {tryBlock : TryBlock} {dominator r : Nat} {c : Container}

/-! ## Answers -/

theorem WellFormed.onHandlerPath_eq_anyM (h : t.WellFormed) (hc : t.Has c) :
    t.onHandlerPath g doms tryBlock c =
      tryBlock.handlers.anyM fun handler => (t.blockList c).allM (doms.reachesForward g handler.entry) := by
  have hall (handler : Handler) :
      t.isReached g doms handler.entry c = (t.blockList c).allM (doms.reachesForward g handler.entry) :=
    h.everyBlock_eq_allM _ hc
  rw [onHandlerPath, funext hall]

/-- A container is on a handler path if one and the same handler reaches all its blocks. -/
theorem WellFormed.onHandlerPath_answer (h : t.WellFormed) (hc : t.Has c) {answer : Bool}
    (hok : t.onHandlerPath g doms tryBlock c = .ok answer) :
    answer = true ↔
      ∃ handler ∈ tryBlock.handlers, ∀ b ∈ t.blockList c, doms.reachesForward g handler.entry b = .ok true := by
  rw [h.onHandlerPath_eq_anyM hc] at hok
  simp only [anyM_answer hok, allM_eq_true_iff]

/-! ## Carving that succeeds -/

theorem body_sublist {cs moved : List Container} (hok : t.body g doms tryBlock dominator cs = .ok moved) :
    moved.Sublist cs := by
  induction cs generalizing moved with
  | nil => exact Except.ok.inj hok ▸ List.Sublist.refl _
  | cons c cs ih =>
    rw [body, bind_eq_ok_iff] at hok
    obtain ⟨_ | _, -, hok⟩ := hok
    · exact (ih hok).cons c
    · obtain ⟨handled, -, hok⟩ := bind_eq_ok_iff.1 hok
      cases handled with
      | true => exact Except.ok.inj hok ▸ List.nil_sublist _
      | false =>
        obtain ⟨rest, hrest, hok⟩ := bind_eq_ok_iff.1 hok
        exact Except.ok.inj hok ▸ (ih hrest).cons_cons c

/-- Where carving succeeds, also with handlers that start at no block, the tree was regrouped. -/
theorem WellFormed.regrouped_of_carve (h : t.WellFormed) {carving : Carving}
    (hok : t.carve g doms r tryBlock dominator = .ok (carving, u)) (hs : carving.succeeded = true) :
    ∃ moved, Regrouped t r moved tryBlock.id u := by
  rw [carve, bind_eq_ok_iff] at hok
  obtain ⟨region, hg, hok⟩ := hok
  rw [region_eq_ok_iff] at hg
  obtain ⟨moved, hbody, hok⟩ := bind_eq_ok_iff.1 hok
  have hr := lt_size_of_get? hg
  have hsub : moved.Sublist (t.childrenOf r) := childrenOf_eq hg ▸ body_sublist hbody
  obtain ⟨answer, hcan, hiff⟩ := canSplice_ok hr hsub.subset
  cases hempty : moved.isEmpty with
  | true =>
    simp only [hempty, if_true] at hok
    obtain ⟨rfl, -⟩ := Prod.mk.inj (Except.ok.inj hok)
    cases hs
  | false =>
    cases answer with
    | false =>
      simp only [hempty, hcan, ok_bind] at hok
      obtain ⟨rfl, -⟩ := Prod.mk.inj (Except.ok.inj hok)
      cases hs
    | true =>
      obtain ⟨v, w, u', hsplice, htag, hadopt, hre⟩ :=
        regroup_ok hr hsub (fun c hc => h.has_of_mem (hsub.subset hc)) (hiff.1 rfl) tryBlock.id
      simp only [hempty, hcan, ok_bind, hsplice, htag, hadopt] at hok
      obtain ⟨-, rfl⟩ := Prod.mk.inj (Except.ok.inj hok)
      exact ⟨moved, hre⟩

/-! ## Regroupings change no answer -/

namespace Regrouped

variable {id : Nat} {moved : List Container}

theorem isDominated_eq (hw : t.WellFormed) (h : Regrouped t r moved id u) (hc : t.Has c) (doms : Dominance) (dominator : Nat) :
    u.isDominated doms dominator c = t.isDominated doms dominator c := by
  rw [(h.wellFormed hw).isDominated_eq (h.has hc), hw.isDominated_eq hc, h.dominated_eq hw hc]

theorem onHandlerPath_answer_eq (hw : t.WellFormed) (h : Regrouped t r moved id u) (hc : t.Has c) {answer answer' : Bool}
    (hok : t.onHandlerPath g doms tryBlock c = .ok answer) (hok' : u.onHandlerPath g doms tryBlock c = .ok answer') :
    answer' = answer := by
  rw [Bool.eq_iff_iff, (h.wellFormed hw).onHandlerPath_answer (h.has hc) hok', hw.onHandlerPath_answer hc hok]
  simp only [h.mem_blockList hw hc]

theorem onHandlerPath_eq (hw : t.WellFormed) (h : Regrouped t r moved id u) (hc : t.Has c) (hh : tryBlock.HandlersIn g) :
    u.onHandlerPath g doms tryBlock c = t.onHandlerPath g doms tryBlock c := by
  rw [(h.wellFormed hw).onHandlerPath_eq (h.has hc) hh, hw.onHandlerPath_eq hc hh, h.handled_eq hw hc]

end Regrouped

/-- **Questions about a container are about the blocks below it.** It is dominated by a block if and only if each of its blocks is
this one or is dominated by it; it is on a handler path if and only if there is a handler that reaches all of them forward. The
second question has an answer if all handlers start at blocks of the graph. So a body may be carved out of any region, for any
try-block and by any analysis: where both questions had an answer about a container, they have no other one after that. -/
theorem questions_are_about_blocks (hv : t.validate = .ok ()) (hc : t.Has c) (g : Graph) (doms : Dominance) :
    ∃ blocks, t.blocksOf c = .ok blocks ∧
      (∀ dominator, ∃ answer, t.isDominated doms dominator c = .ok answer ∧
        (answer = true ↔ ∀ b ∈ blocks, b = dominator ∨ doms.dominates dominator b = true)) ∧
      (∀ tryBlock : TryBlock,
        (tryBlock.HandlersIn g → ∃ answer, t.onHandlerPath g doms tryBlock c = .ok answer) ∧
        ∀ answer, t.onHandlerPath g doms tryBlock c = .ok answer →
          (answer = true ↔ ∃ h ∈ tryBlock.handlers, ∀ b ∈ blocks, doms.reachesForward g h.entry b = .ok true)) ∧
      ∀ g' doms' r tryBlock' dominator' carving u,
        t.carve g' doms' r tryBlock' dominator' = .ok (carving, u) → carving.succeeded = true →
          (∀ dominator, u.isDominated doms dominator c = t.isDominated doms dominator c) ∧
          ∀ tryBlock : TryBlock,
            (tryBlock.HandlersIn g → u.onHandlerPath g doms tryBlock c = t.onHandlerPath g doms tryBlock c) ∧
            ∀ answer answer', t.onHandlerPath g doms tryBlock c = .ok answer →
              u.onHandlerPath g doms tryBlock c = .ok answer' → answer' = answer := by
  have hw := validate_eq_ok_iff.1 hv
  refine ⟨t.blockList c, hw.blocksOf_eq hc, fun dominator => ⟨_, hw.isDominated_eq hc, dominated_iff⟩, fun tryBlock => ⟨?_, ?_⟩, ?_⟩
  · exact fun hh => ⟨_, hw.onHandlerPath_eq hc hh⟩
  · exact fun answer hok => hw.onHandlerPath_answer hc hok
  · intro g' doms' r tryBlock' dominator' carving u hok hs
    obtain ⟨moved, hre⟩ := hw.regrouped_of_carve hok hs
    refine ⟨hre.isDominated_eq hw hc doms, fun tryBlock => ⟨hre.onHandlerPath_eq hw hc, fun answer answer' h h' => ?_⟩⟩
    exact hre.onHandlerPath_answer_eq hw hc h h'

/-- Two blocks that may fail, blocks 3 and 4 for what they throw, and block 5 where all of them come to. -/
def twoThrows : Graph where
  blocks := #[{}, { guard := some 7 }, { guard := some 7 }, {}, {}, {}]
  edges := #[⟨0, 1, .fall⟩, ⟨1, 2, .fall⟩, ⟨1, 3, .exception⟩, ⟨2, 4, .exception⟩, ⟨2, 5, .jump⟩, ⟨3, 5, .jump⟩, ⟨4, 5, .fall⟩]
  entry := some 0
  edges_inside := by decide

def twoThrowsDominance : Dominance :=
  .ofSets [(0, [0]), (1, [0, 1]), (2, [0, 1, 2]), (3, [0, 1, 3]), (4, [0, 1, 2, 4]), (5, [0, 1, 5])]

def twoThrowsTry : TryBlock := ⟨7, [⟨some "A", 3⟩, ⟨none, 4⟩]⟩

/-- Its regions: one has the blocks that may fail and an empty region between them, another one has the two handlers. -/
def twoThrowsTree : RegionTree where
  regions := #[
    { kind := .sequence, parent := none, children := [.block 0, .region 1, .region 3, .block 5] },
    { kind := .sequence, parent := some 0, children := [.block 1, .region 2, .block 2] },
    { kind := .sequence, parent := some 1 },
    { kind := .conditional, parent := some 0, children := [.block 3, .block 4] }]

/-- Each handler reaches its own block in the region of the handlers and not the other one, so the region is on no handler path;
nor is it after it moved into the body that is carved out of the root. -/
theorem questions_are_about_blocks_twoThrows :
    twoThrowsTree.validate = .ok () ∧ twoThrowsTree.Has (.region 3) ∧
      twoThrowsTree.blocksOf (.region 3) = .ok [3, 4] ∧
      twoThrowsTree.isDominated twoThrowsDominance 1 (.region 3) = .ok true ∧
      twoThrowsTree.onHandlerPath twoThrows twoThrowsDominance twoThrowsTry (.region 3) = .ok false ∧
      ∃ carving u, twoThrowsTree.carve twoThrows twoThrowsDominance 0 twoThrowsTry 1 = .ok (carving, u) ∧
        u.childrenOf 0 = [.block 0, .region 4, .block 5] ∧ u.childrenOf 4 = [.region 1, .region 3] ∧
        u.isDominated twoThrowsDominance 1 (.region 3) = .ok true ∧
        u.onHandlerPath twoThrows twoThrowsDominance twoThrowsTry (.region 3) = .ok false := by
  have hv : twoThrowsTree.validate = .ok () := by decide
  have hhas : twoThrowsTree.Has (.region 3) := show 3 < twoThrowsTree.size by decide
  have hhandlers : twoThrowsTry.HandlersIn twoThrows := by decide
  obtain ⟨blocks, hblocks, hdominated, hhandled, hcarved⟩ := questions_are_about_blocks hv hhas twoThrows twoThrowsDominance
  have hlist : twoThrowsTree.blocksOf (.region 3) = .ok [3, 4] := by decide
  obtain rfl := Except.ok.inj (hblocks.symm.trans hlist)
  obtain ⟨dominated, hd, hdiff⟩ := hdominated 1
  obtain rfl : dominated = true := hdiff.2 (by decide)
  obtain ⟨handled, hp⟩ := (hhandled _).1 hhandlers
  obtain rfl : handled = false := by
    rw [← Bool.not_eq_true, (hhandled _).2 handled hp]
    decide
  obtain ⟨carving, u, hok, hs, h0, h4⟩ : ∃ carving u,
      twoThrowsTree.carve twoThrows twoThrowsDominance 0 twoThrowsTry 1 = .ok (carving, u) ∧
        carving.succeeded = true ∧ u.childrenOf 0 = [.block 0, .region 4, .block 5] ∧
        u.childrenOf 4 = [.region 1, .region 3] := ⟨_, _, rfl, rfl, by decide, by decide⟩
  obtain ⟨hd', hp'⟩ := hcarved _ _ _ _ _ _ _ hok hs
  exact ⟨hv, hhas, hlist, hd, hp, carving, u, hok, h0, h4, (hd' 1).trans hd, ((hp' _).1 hhandlers).trans hp⟩

end GuardedRegions.RegionTree
