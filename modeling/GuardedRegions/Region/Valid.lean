import GuardedRegions.Region.Basic
import GuardedRegions.Text.Lines

/-!
# Trees in order

A region tree is in order if its root exists and has no parent, every region but the root is a child
of exactly one region and names that region as its parent, every region can be reached from the
root, and no block occurs twice. `RegionTree.validate` reports the first flaw that it comes upon: it
looks at all children of a region before it goes on, next with the region that it found last.
-/

namespace GuardedRegions

/-- What is wrong with a region tree. -/
inductive TreeFlaw where
  | missingRoot
  | rootHasParent (parent : Nat)
  | repeatedBlock (block : Nat)
  | missingRegion (region : Nat)
  | sharedRegion (region : Nat)
  | wrongParent (region : Nat) (found : Option Nat) (expected : Nat)
  | detached (regions : List Nat)
deriving DecidableEq, Repr

namespace TreeFlaw

def message : TreeFlaw → String
  | missingRoot => "root region does not exist"
  | rootHasParent parent => s!"root region has parent {parent}"
  | repeatedBlock block => s!"block {block} appears more than once"
  | missingRegion region => s!"region {region} does not exist"
  | sharedRegion region => s!"region {region} is reachable twice"
  | wrongParent region found expected =>
    let parent := match found with
      | some parent => s!"Some({parent})"
      | none => "None"
    s!"region {region} has parent {parent}, expected {expected}"
  | detached regions =>
    s!"regions {Text.numbers regions} are detached from the root"

end TreeFlaw

namespace RegionTree

/-- How far the examination of a tree has come. -/
structure Survey where
  regions : List Nat
  blocks : List Nat
  /-- The regions whose children are still to be looked at, the one found last in front. -/
  waiting : List Nat

namespace Survey

def add (t : RegionTree) (parent : Nat) (s : Survey) : Container → Except TreeFlaw Survey
  | .block b =>
    if s.blocks.contains b then .error (.repeatedBlock b)
    else .ok { s with blocks := b :: s.blocks }
  | .region r =>
    match t.get? r with
    | none => .error (.missingRegion r)
    | some region =>
      if s.regions.contains r then .error (.sharedRegion r)
      else if region.parent ≠ some parent then .error (.wrongParent r region.parent parent)
      else .ok { s with regions := r :: s.regions, waiting := r :: s.waiting }

/-- Looks at the children of waiting regions, of at most so many as a bound says. -/
def complete (t : RegionTree) : Nat → Survey → Except TreeFlaw Survey
  | 0, s => .ok s
  | bound + 1, s =>
    match s.waiting with
    | [] => .ok s
    | r :: waiting => do
      complete t bound (← (t.childrenOf r).foldlM (add t r) { s with waiting })

end Survey

/-- Accepts the trees that are in order. No region waits twice, so as many steps as there are
regions leave none waiting. -/
def validate (t : RegionTree) : Except TreeFlaw Unit := do
  match t.get? t.root with
  | none => .error .missingRoot
  | some root =>
    match root.parent with
    | some parent => .error (.rootHasParent parent)
    | none =>
      let survey ← Survey.complete t t.size { regions := [t.root], blocks := [], waiting := [t.root] }
      match (List.range t.size).filter fun r => !survey.regions.contains r with
      | [] => .ok ()
      | detached => .error (.detached detached)

end RegionTree

end GuardedRegions
