import GuardedRegions.Method
import GuardedRegions.Wrapping.Carve
import GuardedRegions.Wrapping.Pending

/-!
# Giving pending try-blocks their regions

A sweep walks the whole tree and leaves each region after what is below it. When it leaves a region
that has the dominator of a pending try-block among its children, it carves the body of the
try-block out of that region, of one try-block for each region. Whether this works or not, the
try-block is no longer pending; one that gets no region is given up with a warning. Sweeps are
repeated as long as try-blocks are pending, within a limit.
-/

namespace GuardedRegions

/-- What a sweep has done so far. -/
structure Sweep where
  pending : Pending
  wrapped : Nat := 0
  /-- The entries that got no region. -/
  failures : List (Nat × Nat) := []
  events : List Event := []

namespace Sweep

/-- Resolves the first pending entry whose dominator is a child of the region. -/
def leave (g : Graph) (doms : Dominance) (tryBlocks : List TryBlock) (t : RegionTree) (r : Nat)
    (s : Sweep) : Except Fault (RegionTree × Sweep) := do
  match ← s.pending.findIn t r with
  | none => return (t, s)
  | some (dominator, id) =>
    let pending := s.pending.remove dominator
    let failed : Sweep := { s with pending, failures := s.failures ++ [(dominator, id)] }
    match tryBlocks.find? (·.id == id) with
    | none => return (t, failed)
    | some tryBlock =>
      let (carving, t) ← t.carve g doms r tryBlock dominator
      let events := s.events ++ (carving.event r dominator id).toList
      if carving.succeeded then return (t, { s with pending, wrapped := s.wrapped + 1, events })
      else return (t, { failed with events })

def visitor (g : Graph) (doms : Dominance) (tryBlocks : List TryBlock) :
    RegionTree.Visitor Sweep where
  leave := leave g doms tryBlocks

end Sweep

structure Tally where
  wrapped : Nat := 0
  failed : Nat := 0
  passes : Nat := 0
deriving DecidableEq, Repr, Inhabited

/-- A method on which sweeps are made. -/
structure Resolution where
  method : Method
  pending : Pending
  tally : Tally := {}
  events : List Event := []

namespace Resolution

def giveUp (m : Method) (entry : Nat × Nat) : Method :=
  (m.addFlag .inconsistentCode).addWarning
    s!"can't wrap {TryBlock.name entry.2} at dominator block {entry.1}"

def sweep (doms : Dominance) (s : Resolution) : Except Fault Resolution := do
  let m := s.method
  let visitor := Sweep.visitor m.graph doms m.tryBlocks
  let (tree, swept) ← m.tree.traverse visitor { pending := s.pending }
  let tally : Tally := {
    wrapped := s.tally.wrapped + swept.wrapped
    failed := s.tally.failed + swept.failures.length
    passes := s.tally.passes + 1 }
  return {
    method := swept.failures.foldl giveUp { m with tree }
    pending := swept.pending
    tally
    events := s.events ++ swept.events ++ swept.failures.map (.gaveUp m.name ·.1)
      ++ [.passDone m.name tally.passes swept.wrapped swept.pending.size] }

/-- Makes sweeps until no try-block is pending, at most so many as a bound says. -/
def run (doms : Dominance) :
    Nat → Resolution → Except Fault (Resolution × Except Error Tally)
  | bound, s =>
    if s.pending.isEmpty then .ok (s, .ok s.tally)
    else match bound with
      | 0 => .ok (s, .error (.wrapLimitReached s.method.name s.tally.passes))
      | bound + 1 => do run doms bound (← s.sweep doms)

end Resolution

/-- Gives the pending try-blocks their regions. One sweep more is made than the limit says. -/
def Method.resolve (m : Method) (doms : Dominance) (pending : Pending) (limit : Nat) :
    Except Fault (Resolution × Except Error Tally) :=
  Resolution.run doms (limit + 1) { method := m, pending }

end GuardedRegions
