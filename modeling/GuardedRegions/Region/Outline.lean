import GuardedRegions.Region.Basic
import GuardedRegions.Text.Lines

/-!
# Outlines

An outline is a region tree in its nested form: a region with all that is below it, without numbers
for the regions. It is what is read from a description and written into a report, and what the
indented text of a tree shows.
-/

namespace GuardedRegions

/-- What a region holds, from the first child to the last. -/
inductive Contents where
  | nil
  /-- A block, and what follows it. -/
  | block (id : Nat) (rest : Contents)
  /-- A nested region, what it holds itself, and what follows it. -/
  | region (kind : RegionKind) (tryBlock : Option Nat) (inner rest : Contents)
deriving DecidableEq, Repr, Inhabited

/-- A region and all that is below it. -/
structure Outline where
  kind : RegionKind := .sequence
  tryBlock : Option Nat := none
  contents : Contents := .nil
deriving DecidableEq, Repr, Inhabited

namespace Outline

/-- A nested region in front of other contents. -/
def before (o : Outline) (rest : Contents) : Contents :=
  .region o.kind o.tryBlock o.contents rest

def heading (kind : RegionKind) (tryBlock : Option Nat) : String :=
  match tryBlock with
  | none => kind.name
  | some id => s!"{kind.name} [try #{id}]"

end Outline

def Contents.lines (steps : Nat) : Contents → List String
  | nil => []
  | block id rest => Text.indent steps s!"Block {id}" :: rest.lines steps
  | region kind tryBlock inner rest =>
    Text.indent steps (Outline.heading kind tryBlock) :: inner.lines (steps + 1) ++ rest.lines steps

/-- The lines of the indented text of an outline: a line for each region and each block, each child
one step further to the right than its region. -/
def Outline.lines (o : Outline) : List String := heading o.kind o.tryBlock :: o.contents.lines 1

namespace RegionTree

def outlineWithin (t : RegionTree) : Nat → Nat → Except Fault Outline
  | 0, _ => .error .endlessNesting
  | depth + 1, r => do
    let region ← t.region r
    let contents ← region.children.foldrM (fun c rest =>
      match c with
      | .block b => .ok (.block b rest)
      | .region child => do
        return (← t.outlineWithin depth child).before rest) .nil
    return { kind := region.kind, tryBlock := region.tryBlock, contents }

def outline (t : RegionTree) : Except Fault Outline := t.outlineWithin t.size t.root

def text (t : RegionTree) : Except Fault String := do return Text.ofLines (← t.outline).lines

end RegionTree

end GuardedRegions
