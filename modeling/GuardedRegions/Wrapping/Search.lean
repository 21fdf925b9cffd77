import GuardedRegions.Flow.Nearest
import GuardedRegions.Method
import GuardedRegions.Region.Walk
import GuardedRegions.Trace
import GuardedRegions.Wrapping.Pending

/-!
# Where each try-block begins

The search finds, for every try-block that guards a block and has no region yet, the nearest common
dominator of the blocks that it guards. Try-blocks are taken in ascending order. One whose dominator
belongs to a try-block with a region is left alone: an earlier run has dropped it. One whose
dominator belongs to a try-block before it is dropped with a warning. A try-block without nearest
common dominator ends the search.
-/

namespace GuardedRegions

structure Search where
  pending : Pending := ∅
  /-- The try-blocks whose dominator was taken, in the order in which they were dropped. -/
  dropped : List Nat := []

namespace Search

/-- The try-blocks in use, told apart by whether they have a region. -/
structure Triage where
  /-- The try-blocks without a region. -/
  opened : List Nat := []
  /-- The dominators of the try-blocks with one. -/
  claimed : Pending := ∅
  events : List Event := []

/-- Tells the try-blocks of a list apart; a try-block that the method does not have is an error. -/
def triage (m : Method) (doms : Dominance) :
    List Nat → Triage → Except Fault (Triage × Except Error Unit)
  | [], s => .ok (s, .ok ())
  | id :: rest, s =>
    if (m.tryBlock? id).isNone then .ok (s, .error (.unknownGuard id m.name))
    else do
      if (← m.tree.bodiesOf id).isEmpty then
        triage m doms rest { s with opened := s.opened ++ [id] }
      else
        let claimed := match doms.nearest (m.graph.guardedBy id).toList with
          | .ok dominator => s.claimed.insert dominator id
          | .error _ => s.claimed
        triage m doms rest
          { s with claimed, events := s.events ++ [.alreadyWrapped m.name id] }

/-- A search under way, or ended: the method with the warnings so far, and what was found. -/
structure Run (α : Type) where
  method : Method
  found : α
  events : List Event := []

/-- Finds the dominators of the try-blocks of a list, one after the other. -/
def place (doms : Dominance) (claimed : Pending) :
    List Nat → Run Search → Run (Except Error Search)
  | [], s => { s with found := .ok s.found }
  | id :: rest, s =>
    let m := s.method
    let guarded := (m.graph.guardedBy id).toList
    match doms.nearest guarded with
    | .error residual => { s with found := .error (.structuralInconsistency m.name residual.toList) }
    | .ok dominator =>
      let events := s.events ++ [.dominatorFound m.name id guarded.length dominator]
      match claimed.get? dominator with
      | some wrapped =>
        place doms claimed rest
          { s with events := events ++ [.sharesWrapped m.name id dominator wrapped] }
      | none =>
        match s.found.pending.get? dominator with
        | some kept =>
          place doms claimed rest {
            method := m.addWarning <| s!"{TryBlock.name id} dropped: shares dominator block "
              ++ s!"{dominator} with {TryBlock.name kept}"
            found := { s.found with dropped := s.found.dropped ++ [id] }
            events := events ++ [.dropped m.name id dominator kept] }
        | none =>
          let pending := s.found.pending.insert dominator id
          place doms claimed rest { s with found := { s.found with pending }, events }

end Search

/-- Finds the dominators of the try-blocks that still need a region. -/
def Method.search (m : Method) (doms : Dominance) :
    Except Fault (Search.Run (Except Error Search)) := do
  let (triage, verdict) ← Search.triage m doms m.graph.tryBlocksInUse.toList {}
  match verdict with
  | .error e => return { method := m, found := .error e, events := triage.events }
  | .ok () =>
    return Search.place doms triage.claimed triage.opened
      { method := m, found := {}, events := triage.events }

end GuardedRegions
