import GuardedRegions.Region.Basic

/-!
# Replacing children

Carving a region out of another one replaces a few of its children by a single one. A sequence allows
this wherever the children are its own. A structured region keeps its layout, so all it allows is
that one nested region takes the place of another.
-/

namespace GuardedRegions.RegionTree

/-- The tree in which the first occurrence of a child is replaced; nothing if there is no such child
or the region does not allow it. -/
def replaceChild (t : RegionTree) (r : Nat) (old new : Container) :
    Except Fault (Option RegionTree) := do
  let region ← t.region r
  if region.kind.isStructured && !(old.isRegion && new.isRegion) then return none
  else if region.children.contains old then
    some <$> t.update r fun region => { region with children := region.children.replace old new }
  else return none

/-- Whether a region allows that some of its children are replaced by one new region. -/
def canSplice (t : RegionTree) (r : Nat) (moved : List Container) : Except Fault Bool := do
  let region ← t.region r
  match moved with
  | [] => return false
  | first :: rest =>
    if !moved.all (region.children.contains ·) then return false
    else if region.kind.isStructured then return rest.isEmpty && first.isRegion
    else return true

/-- The tree in which a region stands where the first of the moved children was, and the other ones
are gone; nothing if the region does not allow it. -/
def splice (t : RegionTree) (r : Nat) (moved : List Container) (new : Nat) :
    Except Fault (Option RegionTree) := do
  if ← t.canSplice r moved then
    match moved with
    | [] => return none
    | first :: rest =>
      match ← t.replaceChild r first (.region new) with
      | none => return none
      | some replaced =>
        some <$> replaced.update r fun region =>
          { region with children := region.children.filter fun c => !rest.contains c }
  else return none

end GuardedRegions.RegionTree
