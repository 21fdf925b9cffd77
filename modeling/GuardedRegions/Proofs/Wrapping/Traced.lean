import GuardedRegions.Proofs.Wrapping.Bodies
import GuardedRegions.Proofs.Wrapping.Settled

/-!
# The steps of a reconstruction

An `Outcome` is about reconstructions without error. A tree that is left with an error comes from steps as well, so what every
step keeps holds of the tree after any reconstruction (`Method.Traced`).
-/

namespace GuardedRegions.Method

variable {m : Method}

/-- A reconstruction with the steps that its tree comes from, on pending try-blocks that begin where they are pending. -/
structure Traced (m : Method) (options : Options) (done : Reconstruction) (doms : Dominance) (pending : Pending)
    (x : Progress) : Prop where
  run : m.reconstruct options = .ok done
  dominance : m.graph.dominance = .ok doms
  steps : Progress.Steps m.graph doms m.tryBlocks { tree := m.tree, pending } x
  tree : done.method.tree = x.tree
  begins : ∀ e ∈ pending.entries, m.beginning? doms e.2 = some e.1

namespace Traced

variable {options : Options} {done : Reconstruction} {doms : Dominance} {pending : Pending} {x : Progress} {n : Nat}

theorem exists_body (h : m.Traced options done doms pending x) (hw : m.tree.WellFormed) (hn : m.tree.size ≤ n)
    (hlt : n < x.tree.size) :
    ∃ d tb, (d, tb.id) ∈ pending.entries ∧ m.tryBlock? tb.id = some tb ∧ m.beginning? doms tb.id = some d ∧
      x.tree.IsBody m.graph doms tb d n := by
  have hbodies : Progress.Bodies m doms pending x :=
    h.steps.preserve (fun _ _ _ hx hxy => hx.step hxy) (Progress.Bodies.start hw)
  obtain ⟨⟨d, id⟩, he, tb, htb, hbody⟩ := hbodies.bodies n hn hlt
  obtain rfl : tb.id = id := by simpa using List.find?_some htb
  have hbegins := h.begins _ he
  exact ⟨d, tb, he, htb, hbegins, hbody⟩

/-- What has a region begins at a block of the tree: under any other block what is pending stays pending. -/
theorem holds_of_gained (h : m.Traced options done doms pending x) (hw : m.tree.WellFormed) {id d : Nat}
    (hgained : m.tree.Gained x.tree id n) (hd : m.beginning? doms id = some d) : m.tree.Holds d := by
  obtain ⟨made, hledger⟩ := h.steps.ledger hw
  obtain ⟨-, e, hmade, rfl⟩ := hledger.gained_iff.1 hgained
  have hmade := List.mem_of_getElem? hmade
  have hentry := hledger.mem_of_made hmade
  obtain rfl : e.1 = d := Option.some.inj ((h.begins e hentry).symm.trans hd)
  by_contra hno
  have hpending : x.pending.get? e.1 = some e.2 := (h.steps.get?_eq hw hno).trans (Pending.get?_eq_some_iff.2 hentry)
  exact hledger.fst_ne_of_made (Pending.get?_eq_some_iff.1 hpending) hmade rfl

theorem of_tree_eq
    (hok : m.reconstruct options = .ok done) (hdoms : m.graph.dominance = .ok doms) (htree : done.method.tree = m.tree) :
    m.Traced options done doms ∅ { tree := m.tree, pending := ∅ } :=
  ⟨hok, hdoms, .refl, htree, fun _ h => absurd h List.not_mem_nil⟩

end Traced

/-- **Whatever a reconstruction comes to, its tree comes from steps.** -/
theorem exists_traced (hw : m.tree.WellFormed) (hh : m.HandlersExist)
    (he : ∀ entry, m.graph.entry = some entry → entry < m.graph.blockCount) (options : Options) :
    ∃ done doms pending x, m.Traced options done doms pending x := by
  obtain ⟨doms, hdoms⟩ := Graph.dominance_ok he
  cases hidle : m.hasNoCode || !m.hasTryBlocks with
  | true => exact ⟨_, _, _, _, .of_tree_eq (reconstruct_of_idle hidle options) hdoms rfl⟩
  | false =>
    obtain ⟨searched, texts, hsearch, hmethod, ⟨-, found, hfound, hplaced⟩ | ⟨-, e, herror, -⟩⟩ := search_ok hw doms
    · have hmarked : Marked m searched.method := hmethod ▸ ⟨rfl, rfl, rfl, rfl⟩
      obtain ⟨resolved, result, x, hrun, hsteps, hx⟩ :=
        resolve_ok (hmarked.tree ▸ hw) (hmarked.handlersExist hh) doms found.pending options.passLimit
      obtain ⟨events, hok⟩ := reconstruct_of_found hw hh hidle hdoms hsearch hmethod hfound hrun
      rw [hmarked.tree, hmarked.graph, hmarked.tryBlocks] at hsteps
      refine ⟨_, doms, found.pending, x, hok, hdoms, hsteps, hx.tree, fun e hmem => ?_⟩
      have hget := Pending.get?_eq_some_iff.2 hmem
      rw [hplaced.pending] at hget
      simpa using List.find?_some hget
    · obtain ⟨events, hok⟩ := reconstruct_of_unlocatable hw hidle hdoms hsearch herror options
      exact ⟨_, _, _, _, .of_tree_eq hok hdoms (by rw [hmethod])⟩

end GuardedRegions.Method
