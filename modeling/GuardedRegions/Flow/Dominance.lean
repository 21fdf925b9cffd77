import GuardedRegions.Flow.Reach

/-!
# Dominance

A block dominates another one if control cannot come from the entry to the second without passing
through the first. `Graph.dominance` reads this off the definition: `a` dominates `b` if `b` is
reached from the entry, and is no longer reached when `a` is closed. A block that control never
reaches is dominated by nothing.

A `Dominance` may also be given as a table of sets that were found elsewhere (`Dominance.ofSets`);
what is built on dominance takes any table.
-/

namespace GuardedRegions

/-- What dominates each block. -/
structure Dominance where
  /-- The dominators of each block, itself included; a block that is not listed has none. -/
  sets : List (Nat × IdSet) := []
  /-- The nearest of the other dominators of each block that has one. -/
  parents : List (Nat × Nat) := []
deriving DecidableEq

namespace Dominance

instance : Inhabited Dominance := ⟨{}⟩

instance : EmptyCollection Dominance := ⟨{}⟩

/-- The dominators of a block, itself included. -/
def dominators (d : Dominance) (b : Nat) : IdSet := (d.sets.lookup b).getD ∅

/-- The dominators of a block other than itself. -/
def strict (d : Dominance) (b : Nat) : IdSet := (d.dominators b).erase b

def dominates (d : Dominance) (a b : Nat) : Bool := decide (a ∈ d.dominators b)

/-- The strict dominator of a block that is nearest to it. -/
def immediate (d : Dominance) (b : Nat) : Option Nat := d.parents.lookup b

/-- Dominance given by its sets; where a block is listed twice the later set counts. -/
def ofSets (sets : List (Nat × List Nat)) : Dominance where
  sets := sets.reverse.map fun (b, s) => (b, IdSet.ofList s)

end Dominance

namespace Graph

/-- For each block that the entry reaches, the blocks without which it does not; for a block that is
not reached at all, none. -/
def dominatorSets (g : Graph) (entry : Nat) : List (Nat × IdSet) :=
  let live := g.reached (fun _ => true) entry
  let liveWithout := ((List.range g.blockCount).map fun a => g.reached (· != a) entry).toArray
  (List.range g.blockCount).map fun b =>
    (b, if live.contains b then
        .below g.blockCount fun a => !(liveWithout.getD a []).contains b
      else ∅)

/-- What dominates each block of the graph; without an entry there is nothing to say. -/
def dominance (g : Graph) : Except Fault Dominance :=
  match g.entry with
  | none => .ok ∅
  | some entry =>
    if entry < g.blockCount then
      let d : Dominance := { sets := g.dominatorSets entry }
      let nearestOf (b : Nat) : Option (Nat × Nat) :=
        let others := (d.strict b).toList
        (others.find? fun a => others.all fun c => d.dominates c a).map (b, ·)
      .ok { d with parents := (List.range g.blockCount).filterMap nearestOf }
    else .error (.missingBlock entry)

end Graph

namespace Dominance

/-- Whether control can come from `start` to `target` without standing on a strict dominator of
`start`. Paths may leave the blocks that `start` dominates; what they may not do is go back to
before `start`, as an edge to the head of a surrounding loop does. -/
def reachesForward (d : Dominance) (g : Graph) (start target : Nat) : Except Fault Bool :=
  let before := d.strict start
  if start = target then .ok true
  else if target ∈ before then .ok false
  else if start < g.blockCount then
    .ok ((g.reached (fun b => decide (b ∉ before)) start).contains target)
  else .error (.missingBlock start)

end Dominance

end GuardedRegions
