import GuardedRegions.Region.Basic

/-!
# Walks over a region tree

Every walk here goes down from a region to its children, in their order. In a tree no way down is
longer than the tree has regions; a walk that goes deeper runs in a circle and is given up
(`Fault.endlessNesting`).

`RegionTree.traverse` allows the tree to change under way: a visitor may restructure a region when
the walk leaves it. The walk takes the children of a region as they are when it enters the region,
so that what a visitor makes is not visited before the next traversal.
-/

namespace GuardedRegions.RegionTree

/-! ## Blocks -/

def blocksWithin (t : RegionTree) : Nat → Container → Except Fault (List Nat)
  | _, .block b => .ok [b]
  | 0, .region _ => .error .endlessNesting
  | depth + 1, .region r => do
    let parts ← (← t.children r).mapM (t.blocksWithin depth)
    return parts.flatten

/-- The blocks below a container, in the order of the tree. -/
def blocksOf (t : RegionTree) (c : Container) : Except Fault (List Nat) := t.blocksWithin t.size c

def everyBlockWithin (t : RegionTree) (test : Nat → Except Fault Bool) :
    Nat → Container → Except Fault Bool
  | _, .block b => test b
  | 0, .region _ => .error .endlessNesting
  | depth + 1, .region r => do (← t.children r).allM (t.everyBlockWithin test depth)

/-- Whether every block below a container passes a test; the first one that does not ends the
question. -/
def everyBlock (t : RegionTree) (test : Nat → Except Fault Bool) (c : Container) :
    Except Fault Bool :=
  t.everyBlockWithin test t.size c

/-! ## Regions -/

/-- The regions seen so far and those below a region that were not, in the order of the walk. No
region is entered twice, so this walk ends on any regions, circles included. -/
def visitWithin (t : RegionTree) : Nat → List Nat → Nat → Except Fault (List Nat)
  | depth, seen, r =>
    if seen.contains r then .ok seen
    else match depth with
      | 0 => .error .endlessNesting
      | depth + 1 => do
        (← t.children r).foldlM (fun seen c =>
          match c with
          | .block _ => .ok seen
          | .region child => t.visitWithin depth seen child) (seen ++ [r])

/-- The regions that the root leads to, each before what is below it. -/
def reachable (t : RegionTree) : Except Fault (List Nat) := t.visitWithin (t.size + 1) [] t.root

/-- The regions that the root leads to and that are the body of a try-block. -/
def bodiesOf (t : RegionTree) (tryBlock : Nat) : Except Fault (List Nat) := do
  return (← t.reachable).filter fun r => (t.get? r).bind (·.tryBlock) == some tryBlock

/-! ## Traversal -/

/-- What to do at each block and after each region, on a state of the visitor's own. At a block the
visitor may look at the tree, after a region it may change it. -/
structure Visitor (σ : Type) where
  block : RegionTree → Nat → σ → σ := fun _ _ s => s
  leave : RegionTree → Nat → σ → Except Fault (RegionTree × σ)

/-- Visits what is below a region, then leaves the region. -/
def traverseWithin {σ : Type} (visitor : Visitor σ) :
    Nat → Nat → RegionTree × σ → Except Fault (RegionTree × σ)
  | 0, _, _ => .error .endlessNesting
  | depth + 1, r, (t, s) => do
    let (t, s) ← (← t.children r).foldlM (fun (t, s) c =>
      match c with
      | .block b => .ok (t, visitor.block t b s)
      | .region child => traverseWithin visitor depth child (t, s)) (t, s)
    visitor.leave t r s

/-- How deep a traversal may go. In a tree no way down is longer than there are regions. Where a region
is a child of several, it is left once for each way down to it, and each time a visitor may move what
is below it one level down; there are no more ways than choices of entries in the lists of children. -/
def traversalDepth (t : RegionTree) : Nat :=
  Nat.pow 2 (t.size + (t.regions.toList.flatMap (·.children)).length)

def traverse {σ : Type} (visitor : Visitor σ) (t : RegionTree) (s : σ) :
    Except Fault (RegionTree × σ) :=
  traverseWithin visitor t.traversalDepth t.root (t, s)

end GuardedRegions.RegionTree
