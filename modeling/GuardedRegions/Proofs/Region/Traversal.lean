import GuardedRegions.Proofs.Region.Valid
import GuardedRegions.Proofs.Region.Walk

/-!
# What a traversal visits

A traversal reads the children of a region when it comes to the region, from a tree that the visitor may have changed by then.
`RegionTree.Visitor.Stage` tells how far it can have come: which calls the visitor has had, and what is still to be done. As
long as the visitor leaves the children of the regions that are still to be left alone (`RegionTree.Visitor.Spares`), these are
as they were at the start, and what is done and what is to do are together the post-order of the tree that the traversal
started on (`Stage.follows`). So the traversal is the loop of the calls over this list (`traverse_eq_foldlM`), and what each
call keeps holds at its end (`traverse_invariant`).
-/

namespace GuardedRegions.RegionTree

variable {σ : Type} {t : RegionTree}

/-- What a traversal does next: it visits a container, or leaves a region after what is below it. -/
inductive Task where
  | visit (c : Container)
  | leave (r : Nat)

/-- The containers at which the visitor is called for a task, in a tree that stays as it is. -/
def Task.calls (t : RegionTree) : Task → List Container
  | visit c => t.postOrder c
  | leave r => [.region r]

/-- To visit a region is to visit its children and to leave it. -/
theorem WellFormed.calls_enter (h : t.WellFormed) {r : Nat} (hr : r < t.size) (todo : List Task) :
    ((t.childrenOf r).map Task.visit ++ Task.leave r :: todo).flatMap (Task.calls t) =
      (Task.visit (.region r) :: todo).flatMap (Task.calls t) := by
  simp [Task.calls, h.postOrder_region hr, List.flatMap_map]

namespace Visitor

/-- What a visitor does when it is called at a container: at a block, or at a region that is left. -/
def call (visitor : Visitor σ) (x : RegionTree × σ) : Container → Except Fault (RegionTree × σ)
  | .block b => .ok (x.1, visitor.block x.1 b x.2)
  | .region r => visitor.leave x.1 r x.2

/-- The stages of a traversal of a tree: where the visitor was called, in this order, what is still to be done, and what the
calls have made of the tree and of the state. -/
inductive Stage (visitor : Visitor σ) (t : RegionTree) (s : σ) : List Container → List Task → RegionTree × σ → Prop
  | start : Stage visitor t s [] [.visit (.region t.root)] (t, s)
  | block {done : List Container} {todo : List Task} {x : RegionTree × σ} {b : Nat}
      (h : Stage visitor t s done (.visit (.block b) :: todo) x) :
      Stage visitor t s (done ++ [.block b]) todo (x.1, visitor.block x.1 b x.2)
  | enter {done : List Container} {todo : List Task} {x : RegionTree × σ} {r : Nat} {cs : List Container}
      (h : Stage visitor t s done (.visit (.region r) :: todo) x) (hread : x.1.children r = .ok cs) :
      Stage visitor t s done (cs.map .visit ++ .leave r :: todo) x
  | leave {done : List Container} {todo : List Task} {x y : RegionTree × σ} {r : Nat}
      (h : Stage visitor t s done (.leave r :: todo) x) (hcall : visitor.leave x.1 r x.2 = .ok y) :
      Stage visitor t s (done ++ [.region r]) todo y

/-- In a traversal of the tree, the visitor changes the children of no region of this tree but those of the region that it
leaves and of regions that it has left. -/
def Spares (visitor : Visitor σ) (t : RegionTree) (s : σ) : Prop :=
  ∀ done r todo x y, visitor.Stage t s done (.leave r :: todo) x → visitor.leave x.1 r x.2 = .ok y →
    ∀ q < t.size, q ≠ r → .region q ∉ done → y.1.children q = x.1.children q

variable {visitor : Visitor σ} {s : σ} {done : List Container} {todo : List Task} {x y : RegionTree × σ} {r : Nat}

/-! ## Where a traversal is -/

/-- What a stage of a traversal has to do with the tree that it started on: the calls that were made and those that are to be
made are the post-order of this tree, and the regions that are still to be left have the children that they had in it. -/
structure Follows (t : RegionTree) (done : List Container) (todo : List Task) (x : RegionTree × σ) : Prop where
  order : done ++ todo.flatMap (Task.calls t) = t.postOrder (.region t.root)
  read : ∀ r, .region r ∈ todo.flatMap (Task.calls t) → x.1.children r = .ok (t.childrenOf r)

namespace Follows

theorem lt_size (h : Follows t done todo x) (hw : t.WellFormed) (hr : .region r ∈ todo.flatMap (Task.calls t)) :
    r < t.size := by
  apply hw.has_of_mem_postOrder (c := .region r)
  rw [← h.order]
  exact List.mem_append_right _ hr

theorem start (hw : t.WellFormed) (s : σ) : Follows t [] [.visit (.region t.root)] (t, s) where
  order := by simp [Task.calls]
  read r hr := by
    have hr : .region r ∈ t.postOrder (.region t.root) := by simpa [Task.calls] using hr
    exact children_eq_ok (t := t) (hw.has_of_mem_postOrder hr)

theorem block {b : Nat} (h : Follows t done (.visit (.block b) :: todo) x) :
    Follows t (done ++ [.block b]) todo (x.1, visitor.block x.1 b x.2) where
  order := by simpa [Task.calls] using h.order
  read r hr := h.read r (by simp [hr])

theorem entered {cs : List Container} (h : Follows t done (.visit (.region r) :: todo) x) (hw : t.WellFormed)
    (hcs : x.1.children r = .ok cs) : r < t.size ∧ cs = t.childrenOf r := by
  have hmem : .region r ∈ (.visit (.region r) :: todo : List Task).flatMap (Task.calls t) := by
    rw [List.flatMap_cons]
    exact List.mem_append_left _ (hw.self_mem_postOrder _)
  exact ⟨h.lt_size hw hmem, Except.ok.inj (hcs.symm.trans (h.read r hmem))⟩

theorem enter {cs : List Container} (h : Follows t done (.visit (.region r) :: todo) x) (hw : t.WellFormed)
    (hcs : x.1.children r = .ok cs) : Follows t done (cs.map .visit ++ .leave r :: todo) x := by
  obtain ⟨hr, rfl⟩ := h.entered hw hcs
  exact ⟨hw.calls_enter hr todo ▸ h.order, hw.calls_enter hr todo ▸ h.read⟩

theorem fresh (h : Follows t done (.leave r :: todo) x) (hw : t.WellFormed) {q : Nat}
    (hq : .region q ∈ todo.flatMap (Task.calls t)) : q ≠ r ∧ .region q ∉ done := by
  have hnodup := hw.nodup_postOrder hw.has_root
  rw [← h.order, List.flatMap_cons, ← List.append_assoc] at hnodup
  have hapart := (List.nodup_append.1 hnodup).2.2
  refine ⟨fun hqr => ?_, fun hdone => ?_⟩
  · exact hapart (.region q) (by simp [Task.calls, hqr]) _ hq rfl
  · exact hapart (.region q) (by simp [hdone]) _ hq rfl

theorem leave (h : Follows t done (.leave r :: todo) x)
    (hkept : ∀ q, .region q ∈ todo.flatMap (Task.calls t) → y.1.children q = x.1.children q) :
    Follows t (done ++ [.region r]) todo y where
  order := by simpa [Task.calls] using h.order
  read q hq := (hkept q hq).trans (h.read q (by simp [hq]))

end Follows

theorem Stage.follows (h : visitor.Stage t s done todo x) (hw : t.WellFormed) (hs : visitor.Spares t s) :
    Follows t done todo x := by
  induction h with
  | start => exact .start hw s
  | block _ ih => exact ih.block
  | enter _ hread ih => exact ih.enter hw hread
  | @leave done todo x y r h hcall ih =>
    refine ih.leave fun q hq => ?_
    obtain ⟨hqr, hnew⟩ := ih.fresh hw hq
    exact hs _ _ _ _ _ h hcall q (ih.lt_size hw (by simp [hq])) hqr hnew

/-- A visitor spares what is still to be left if it keeps an invariant by which that is as it was. -/
theorem spares_of_invariant (hw : t.WellFormed) (I : List Container → RegionTree → σ → Prop)
    (unread : ∀ rest u s, I rest u s → ∀ r, .region r ∈ rest → u.children r = .ok (t.childrenOf r))
    (block : ∀ b rest u s, I (.block b :: rest) u s → I rest u (visitor.block u b s))
    (leave : ∀ r rest u s u' s', I (.region r :: rest) u s → visitor.leave u r s = .ok (u', s') → I rest u' s')
    (hI : I (t.postOrder (.region t.root)) t s) : visitor.Spares t s := by
  have hstage : ∀ {done todo x}, visitor.Stage t s done todo x →
      Follows t done todo x ∧ I (todo.flatMap (Task.calls t)) x.1 x.2 := by
    intro done todo x h
    induction h with
    | start => exact ⟨.start hw s, by simpa [Task.calls] using hI⟩
    | block _ ih => exact ⟨ih.1.block, block _ _ _ _ (by simpa [Task.calls] using ih.2)⟩
    | @enter done todo x r cs _ hread ih =>
      refine ⟨ih.1.enter hw hread, ?_⟩
      obtain ⟨hr, rfl⟩ := ih.1.entered hw hread
      rw [hw.calls_enter hr]
      exact ih.2
    | @leave done todo x y r h hcall ih =>
      have hI' := leave r _ _ _ y.1 y.2 ih.2 hcall
      refine ⟨ih.1.leave fun q hq => ?_, hI'⟩
      rw [unread _ _ _ hI' q hq, ih.1.read q (by simp [hq])]
  intro done r todo x y h hcall q hq hqr hnew
  obtain ⟨hfollows, hI⟩ := hstage h
  have hrest : .region q ∈ todo.flatMap (Task.calls t) := by
    have hmem : .region q ∈ t.postOrder (.region t.root) := (hw.mem_postOrder hw.has_root).2 (hw.reached q hq)
    rw [← hfollows.order] at hmem
    simpa [hnew, hqr, Task.calls] using hmem
  rw [unread _ _ _ (leave r _ _ _ y.1 y.2 hI hcall) q hrest, hfollows.read q (by simp [hrest])]

end Visitor

/-! ## What a traversal does -/

def Visitor.enter (visitor : Visitor σ) (depth : Nat) (x : RegionTree × σ) :
    Container → Except Fault (RegionTree × σ)
  | .block b => .ok (x.1, visitor.block x.1 b x.2)
  | .region r => traverseWithin visitor depth r x

theorem traverseWithin_succ (visitor : Visitor σ) (depth r : Nat) (x : RegionTree × σ) :
    traverseWithin visitor (depth + 1) r x =
      x.1.children r >>= fun cs => cs.foldlM (visitor.enter depth) x >>= fun y => visitor.leave y.1 r y.2 := by
  rw [traverseWithin]
  refine congrArg (x.1.children r >>= ·) (funext fun cs => ?_)
  refine congrArg (fun f => cs.foldlM f x >>= fun y => visitor.leave y.1 r y.2) ?_
  funext y c
  cases c <;> rfl

namespace Visitor

variable {visitor : Visitor σ} {s : σ} {r : Nat} {tasks tasks' : List Task}
  {run run' : RegionTree × σ → Except Fault (RegionTree × σ)}

/-- The operation does the tasks, whatever is to be done after them: it is the loop of their calls, and where that ends the
traversal goes on from. -/
def Performs (visitor : Visitor σ) (t : RegionTree) (s : σ) (run : RegionTree × σ → Except Fault (RegionTree × σ))
    (tasks : List Task) : Prop :=
  ∀ done todo x, visitor.Stage t s done (tasks ++ todo) x →
    run x = (tasks.flatMap (Task.calls t)).foldlM visitor.call x ∧
      ∀ y, run x = .ok y → visitor.Stage t s (done ++ tasks.flatMap (Task.calls t)) todo y

theorem performs_nil : visitor.Performs t s .ok [] := by
  intro done todo x h
  refine ⟨rfl, fun y hy => ?_⟩
  obtain rfl := Except.ok.inj hy
  simpa using h

theorem Performs.append (h : visitor.Performs t s run tasks) (h' : visitor.Performs t s run' tasks') :
    visitor.Performs t s (fun x => run x >>= run') (tasks ++ tasks') := by
  intro done todo x hx
  rw [List.append_assoc] at hx
  obtain ⟨hrun, hthen⟩ := h done _ x hx
  rw [List.flatMap_append, List.foldlM_append, ← hrun]
  dsimp only
  cases hy : run x with
  | error e => exact ⟨rfl, fun z hz => nomatch hz⟩
  | ok y =>
    obtain ⟨hrun', hend⟩ := h' _ todo y (hthen y hy)
    rw [ok_bind, ok_bind, ← List.append_assoc]
    exact ⟨hrun', hend⟩

theorem performs_block (depth b : Nat) : visitor.Performs t s (visitor.enter depth · (.block b)) [.visit (.block b)] := by
  intro done todo x h
  refine ⟨by simp [Task.calls, enter, call], fun y hy => ?_⟩
  obtain rfl := Except.ok.inj hy
  simpa [Task.calls] using h.block

theorem performs_leave (r : Nat) : visitor.Performs t s (fun x => visitor.leave x.1 r x.2) [.leave r] := by
  intro done todo x h
  refine ⟨by simp [Task.calls, call], fun y hy => ?_⟩
  simpa [Task.calls] using h.leave hy

theorem performs_foldlM {f : RegionTree × σ → Container → Except Fault (RegionTree × σ)} {cs : List Container}
    (h : ∀ c ∈ cs, visitor.Performs t s (f · c) [.visit c]) : visitor.Performs t s (cs.foldlM f) (cs.map .visit) := by
  induction cs with
  | nil => exact performs_nil
  | cons c cs ih =>
    obtain ⟨hc, hcs⟩ := List.forall_mem_cons.1 h
    simp only [List.foldlM_cons]
    exact hc.append (ih hcs)

theorem performs_region (hw : t.WellFormed) (hs : visitor.Spares t s) {depth : Nat} (hr : r < t.size)
    (hd : t.level (.region r) ≤ depth) :
    visitor.Performs t s (traverseWithin visitor depth r) [.visit (.region r)] := by
  induction depth generalizing r with
  | zero => exact absurd hd (Nat.not_le.2 level_region_pos)
  | succ depth ih =>
    have hchildren : visitor.Performs t s (fun x => (t.childrenOf r).foldlM (visitor.enter depth) x)
        ((t.childrenOf r).map .visit) := by
      apply performs_foldlM
      intro c hc
      cases c with
      | block b => exact performs_block depth b
      | region q =>
        have := hw.level_lt (p := .region r) hc
        exact ih (hw.has_of_mem hc) (by omega)
    intro done todo x h
    have hread := (h.follows hw hs).read r (by simp [Task.calls, hw.self_mem_postOrder])
    have hinside := (hchildren.append (performs_leave r)) done todo x (by simpa using h.enter hread)
    rw [hw.calls_enter hr] at hinside
    rw [traverseWithin_succ, hread]
    exact hinside

end Visitor

/-- **A traversal is the loop of the calls over the post-order of the tree that it starts on.** -/
theorem WellFormed.traverse_eq_foldlM (h : t.WellFormed) {visitor : Visitor σ} {s : σ} (hs : visitor.Spares t s) :
    traverse visitor t s = (t.postOrder (.region t.root)).foldlM visitor.call (t, s) := by
  have hlevel : t.level (.region t.root) ≤ t.traversalDepth :=
    calc t.level (.region t.root) ≤ t.size := h.level_le h.root_lt
      _ ≤ t.size + (t.regions.toList.flatMap (·.children)).length := Nat.le_add_right _ _
      _ ≤ t.traversalDepth := Nat.le_of_lt Nat.lt_two_pow_self
  have hcalls := (Visitor.performs_region h hs h.root_lt hlevel [] [] (t, s) .start).1
  rw [traverse, hcalls]
  simp [Task.calls]

/-- What each call keeps holds at the end of a traversal, if by it what is still to be visited is as it was. -/
theorem WellFormed.traverse_invariant (h : t.WellFormed) {visitor : Visitor σ}
    (I : List Container → RegionTree → σ → Prop)
    (unread : ∀ rest u s, I rest u s → ∀ r, .region r ∈ rest → u.children r = .ok (t.childrenOf r))
    (block : ∀ b rest u s, I (.block b :: rest) u s → I rest u (visitor.block u b s))
    (leave : ∀ r rest u s, I (.region r :: rest) u s → ∃ u' s', visitor.leave u r s = .ok (u', s') ∧ I rest u' s')
    {s : σ} (hI : I (t.postOrder (.region t.root)) t s) :
    ∃ u' s', traverse visitor t s = .ok (u', s') ∧ I [] u' s' := by
  have hspares : visitor.Spares t s := by
    refine Visitor.spares_of_invariant h I unread block (fun r rest u s u' s' hI hcall => ?_) hI
    obtain ⟨v, s'', hok, hI'⟩ := leave r rest u s hI
    obtain ⟨rfl, rfl⟩ := Prod.mk.inj (Except.ok.inj (hok.symm.trans hcall))
    exact hI'
  rw [h.traverse_eq_foldlM hspares]
  have hstep : ∀ c rest x, I (c :: rest) x.1 x.2 → ∃ y, visitor.call x c = .ok y ∧ I rest y.1 y.2 := by
    rintro (b | r) rest x hI
    · exact ⟨_, rfl, block b rest x.1 x.2 hI⟩
    · obtain ⟨u', s', hok, hI'⟩ := leave r rest x.1 x.2 hI
      exact ⟨(u', s'), hok, hI'⟩
  obtain ⟨x, hok, hI'⟩ := foldlM_eq_ok (fun rest x => I rest x.1 x.2) hstep (b := (t, s)) hI
  exact ⟨x.1, x.2, hok, hI'⟩

end GuardedRegions.RegionTree
