import GuardedRegions.Region.Query
import GuardedRegions.Region.Splice
import GuardedRegions.Trace

/-!
# Carving out the body of a try-block

The body of a try-block is made of the children of a region that its dominator dominates, up to the
first of them that lies on a handler path. `RegionTree.carve` puts them into a new sequence, tagged
with the try-block, at the place of the first of them. If there are none, or the region does not
allow the splice, the tree stays as it is. The region is asked before the sequence is made; if it were
to refuse the splice then, the sequence would be left where no region leads to it.
-/

namespace GuardedRegions

/-- What came of an attempt to carve out a body. -/
inductive Carving where
  /-- There was nothing to carve out. -/
  | nothing
  /-- The region did not allow it. -/
  | refused (kind : RegionKind) (count : Nat)
  /-- The region refused a splice that it had allowed. -/
  | unspliced
  /-- So many children are now in a new region. -/
  | carved (count created : Nat)
deriving DecidableEq, Repr

namespace Carving

def succeeded : Carving → Bool
  | carved .. => true
  | _ => false

def event (region dominator tryBlock : Nat) : Carving → Option Event
  | nothing => some (.nothingDominated dominator region)
  | refused kind count => some (.spliceRefused kind region count)
  | unspliced => none
  | carved count created => some (.carved count region created tryBlock)

end Carving

namespace RegionTree

/-- The dominated containers of a list, up to the first of them on a handler path. -/
def body (t : RegionTree) (g : Graph) (doms : Dominance) (tryBlock : TryBlock) (dominator : Nat) :
    List Container → Except Fault (List Container)
  | [] => .ok []
  | c :: rest => do
    if !(← t.isDominated doms dominator c) then t.body g doms tryBlock dominator rest
    else if ← t.onHandlerPath g doms tryBlock c then return []
    else return c :: (← t.body g doms tryBlock dominator rest)

/-- The tree in which the regions among some containers name another parent. -/
def adopt (t : RegionTree) (parent : Nat) (children : List Container) : Except Fault RegionTree :=
  children.foldlM (fun t c =>
    match c with
    | .block _ => .ok t
    | .region r => t.setParent r (some parent)) t

/-- Carves the body of a try-block out of a region. -/
def carve (t : RegionTree) (g : Graph) (doms : Dominance) (r : Nat) (tryBlock : TryBlock)
    (dominator : Nat) : Except Fault (Carving × RegionTree) := do
  let region ← t.region r
  let moved ← t.body g doms tryBlock dominator region.children
  if moved.isEmpty then return (.nothing, t)
  else if !(← t.canSplice r moved) then return (.refused region.kind moved.length, t)
  else
    let created := t.size
    let grown := t.create { kind := .sequence, parent := some r, children := moved }
    match ← grown.splice r moved created with
    | none => return (.unspliced, grown)
    | some spliced =>
      let tagged ← spliced.tag created tryBlock.id
      return (.carved moved.length created, ← tagged.adopt created moved)

end RegionTree

end GuardedRegions
