import GuardedRegions.Document.Basic
import GuardedRegions.Json.Value

/-!
# Writing documents

A document is written with all its fields; where something is not given, there is a `null`. The only
field that is left out is the try-block of a region that has none.
-/

namespace GuardedRegions

open Json (Value)

def Block.toJson (b : Block) : Value :=
  .record [("offset", .number b.offset), ("guard", .ofNat? b.guard)]

def EdgeKind.toJson : EdgeKind → Value
  | fall => .string "fall"
  | jump => .string "uncond"
  | whenTrue => .string "true"
  | whenFalse => .string "false"
  | switchCase index => .record [("switch", .number index)]
  | switchDefault => .string "default"
  | exception => .string "exception"

def Edge.toJson (e : Edge) : Value :=
  .record [("from", .number e.source), ("to", .number e.target), ("kind", e.kind.toJson)]

def Handler.toJson (h : Handler) : Value :=
  .record [("catch_type", h.catchType.elim .null .string), ("entry", .number h.entry)]

/-- A region as it is written, given its children. -/
def RegionKind.toJson (kind : RegionKind) (tryBlock : Option Nat) (children : List Value) : Value :=
  .record <| [("kind", .string kind.key)]
    ++ (tryBlock.map fun id => ("try_block", .number id)).toList
    ++ [("children", .list children)]

def Contents.toJson : Contents → List Value
  | nil => []
  | block id rest => .record [("block", .number id)] :: rest.toJson
  | region kind tryBlock inner rest =>
    .record [("region", kind.toJson tryBlock inner.toJson)] :: rest.toJson

def Outline.toJson (o : Outline) : Value := o.kind.toJson o.tryBlock o.contents.toJson

def Description.toJson (d : Description) : Value :=
  .record [
    ("name", .string d.name),
    ("entry", .ofNat? d.entry),
    ("blocks", .list (d.blocks.map Block.toJson)),
    ("edges", .list (d.edges.map Edge.toJson)),
    ("try_blocks", .list (d.tryBlocks.map fun handlers =>
      .record [("handlers", .list (handlers.map Handler.toJson))])),
    ("regions", d.regions.toJson)]

def Document.toJson (d : Document) : Value :=
  .record [("methods", .list (d.methods.map Description.toJson))]

def Document.text (d : Document) : String := d.toJson.compact

end GuardedRegions
