import GuardedRegions.Flow.Graph
import GuardedRegions.Text.Lines

/-!
# Drawing a graph

A graph is written in the DOT language, one line for each block and one for each edge. The blocks
that a try-block guards are gathered in a cluster of their own, the clusters in the order of the
try-blocks; the other blocks follow, then the edges in their order. Handler entries have a double
border and the entry of the method a bold one.
-/

namespace GuardedRegions

/-- What a drawing shows. -/
structure DrawingOptions where
  labels : Bool := true
  colors : Bool := true
  clusters : Bool := true
deriving DecidableEq, Repr, Inhabited

def EdgeKind.label : EdgeKind → Option String
  | .whenTrue => some "T"
  | .whenFalse => some "F"
  | .switchCase index => some s!"Sw{index}"
  | .switchDefault => some "Def"
  | .fall => some "Fall"
  | .exception => some "Exc"
  | .jump => none

def EdgeKind.color : EdgeKind → String
  | .whenTrue => "green"
  | .whenFalse => "red"
  | .switchCase _ => "blue"
  | .switchDefault => "orange"
  | .fall => "gray"
  | .exception => "purple"
  | .jump => "black"

namespace Graph

def nodeLine (g : Graph) (handlers : List Nat) (b : Nat) (block : Block) : String :=
  let attributes :=
    [s!"label=\"Block {b} @{block.offset}\""]
      ++ (if handlers.contains b then ["peripheries=2"] else [])
      ++ (if g.entry == some b then ["style=bold"] else [])
  s!"{b} [" ++ ", ".intercalate attributes ++ "];"

def edgeLine (options : DrawingOptions) (e : Edge) : String :=
  let attributes :=
    (if options.labels then (e.kind.label.map fun label => s!"label=\"{label}\"").toList else [])
      ++ (if options.colors then ["color=\"" ++ e.kind.color ++ "\""] else [])
      ++ (if e.kind = .exception then ["style=dashed"] else [])
  let ends := s!"{e.source} -> {e.target}"
  if attributes.isEmpty then ends ++ ";" else ends ++ " [" ++ ", ".intercalate attributes ++ "];"

/-- The declarations of the blocks with a given guard. -/
def nodeLines (g : Graph) (handlers : List Nat) (guards : Option Nat → Bool) : List String :=
  (List.range g.blockCount).filterMap fun b =>
    g.blocks[b]?.bind fun block =>
      if guards block.guard then some (g.nodeLine handlers b block) else none

/-- The cluster of the blocks that a try-block guards. -/
def clusterLines (g : Graph) (handlers : List Nat) (tryBlock : Nat) : List String :=
  [Text.indent 1 s!"subgraph cluster_try_{tryBlock} \x7b",
    Text.indent 2 s!"label=\"try #{tryBlock}\";",
    Text.indent 2 "style=dashed;"]
    ++ (g.nodeLines handlers (· == some tryBlock)).map (Text.indent 2)
    ++ [Text.indent 1 "\x7d"]

def drawingLines (g : Graph) (handlers : List Nat) (options : DrawingOptions := {}) : List String :=
  ["digraph CFG \x7b", "  rankdir=TB;", "  node [shape=box];", ""]
    ++ (if options.clusters then g.tryBlocksInUse.toList.flatMap (g.clusterLines handlers) else [])
    ++ (g.nodeLines handlers fun guard => !options.clusters || guard.isNone).map (Text.indent 1)
    ++ [""]
    ++ g.edges.toList.map (fun e => Text.indent 1 (edgeLine options e))
    ++ ["\x7d"]

def draw (g : Graph) (handlers : List Nat) (options : DrawingOptions := {}) : String :=
  Text.ofLines (g.drawingLines handlers options)

end Graph

end GuardedRegions
