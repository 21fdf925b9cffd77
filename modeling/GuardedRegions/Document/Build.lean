import GuardedRegions.Document.Basic
import GuardedRegions.Error
import GuardedRegions.Method

/-!
# Building methods

A method is built from its description if the description is consistent: every block and every
try-block that it refers to is in its lists, and no block is in two regions. Regions are numbered in
the order in which the outline names them, each before what is below it.
-/

namespace GuardedRegions

/-- What a description refers to a block for. -/
inductive Role where
  | entry
  | edge
  | handler
  | region
deriving DecidableEq, Repr

def Role.name : Role → String
  | entry => "entry"
  | edge => "edge"
  | handler => "handler"
  | region => "region"

/-- Why a description is not consistent. -/
inductive Inconsistency where
  | missingBlock (role : Role) (index count : Nat)
  | unknownTryBlock (index count : Nat)
  | tree (flaw : TreeFlaw)
deriving DecidableEq, Repr

def Inconsistency.toError (method : String) : Inconsistency → Error
  | missingBlock role index count =>
    .invalidInput <| s!"{method}: {role.name} refers to block {index} "
      ++ s!"but only {count} blocks exist"
  | unknownTryBlock index count =>
    .invalidInput s!"{method}: unknown try block {index} ({count} defined)"
  | tree flaw => .ofFlaw flaw

namespace Description

def checkBlock (d : Description) (role : Role) (index : Nat) : Except Inconsistency Unit :=
  if index < d.blocks.length then .ok ()
  else .error (.missingBlock role index d.blocks.length)

/-- Checks that a try-block, if one is named, is in the list. -/
def checkTryBlock (d : Description) : Option Nat → Except Inconsistency Unit
  | none => .ok ()
  | some index =>
    if index < d.tryBlocks.length then .ok ()
    else .error (.unknownTryBlock index d.tryBlocks.length)

def addEdge (g : Graph) (e : Edge) : Except Inconsistency Graph :=
  if hs : e.source < g.blockCount then
    if ht : e.target < g.blockCount then .ok (g.insertEdge e hs ht)
    else .error (.missingBlock .edge e.target g.blockCount)
  else .error (.missingBlock .edge e.source g.blockCount)

def buildGraph (d : Description) : Except Inconsistency Graph := do
  d.blocks.forM fun b => d.checkTryBlock b.guard
  let g := d.blocks.foldl Graph.addBlock ∅
  let g ← match d.entry with
    | none => pure g
    | some entry => do
      d.checkBlock .entry entry
      pure (g.setEntry entry)
  d.edges.foldlM addEdge g

/-- The described try-blocks, numbered in order. -/
def buildTryBlocks (d : Description) : Except Inconsistency (List TryBlock) := do
  d.tryBlocks.forM fun handlers => handlers.forM fun h => d.checkBlock .handler h.entry
  return d.tryBlocks.mapIdx fun id handlers => { id, handlers }

/-- The tree in which a region holds what is described, after what it holds already. -/
def place (d : Description) (r : Nat) : Contents → RegionTree → Except Inconsistency RegionTree
  | .nil, t => .ok t
  | .block b rest, t => do
    d.checkBlock .region b
    d.place r rest (t.modify r (·.add (.block b)))
  | .region kind tryBlock inner rest, t => do
    d.checkTryBlock tryBlock
    let grown := (t.create { kind, parent := some r, tryBlock }).modify r (·.add (.region t.size))
    d.place r rest (← d.place t.size inner grown)

def buildTree (d : Description) : Except Inconsistency RegionTree := do
  let { kind, tryBlock, contents } := d.regions
  d.checkTryBlock tryBlock
  let t ← d.place 0 contents { regions := #[{ kind, parent := none, tryBlock }] }
  match t.validate with
  | .ok () => return t
  | .error flaw => throw (.tree flaw)

/-- The described method, if the description is consistent. -/
def build (d : Description) : Except Inconsistency Method := do
  let graph ← d.buildGraph
  let tryBlocks ← d.buildTryBlocks
  let tree ← d.buildTree
  return { name := d.name, graph, tryBlocks, tree }

/-- The described method, or what to tell the user. -/
def toMethod (d : Description) : Except Error Method := d.build.mapError (·.toError d.name)

end Description

end GuardedRegions
