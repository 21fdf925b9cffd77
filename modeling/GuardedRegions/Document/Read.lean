import GuardedRegions.Document.Basic
import GuardedRegions.Json.Decode

/-!
# Reading documents

A document is read from JSON. Fields that may be left out are the entry of a method, its edges and
try-blocks, the offset and the guard of a block, the kind of an edge, the type that a handler
catches, and everything about a region.

Lists, records and choices may be nested 127 levels deep. A region within a region is three levels
further down: the list of children, the choice between a block and a region, and the region itself.
-/

namespace GuardedRegions

open Json Json.Reader

namespace Document.Reading

/-- Reads the number of a block or a try-block. -/
def index : Reader Nat := natural (Nat.pow 2 64) "usize"

/-! ## Graphs and try-blocks -/

def block : Nat → Reader Block :=
  record "BlockDescription"
    (fun _ => [
      .of "offset" false (natural (Nat.pow 2 32) "u32") fun offset b => { b with offset },
      .of "guard" false (optional index) fun guard b => { b with guard }])
    {}

def edgeKind : Nat → Reader EdgeKind :=
  choice fun _ => [
    ("fall", .bare .fall),
    ("uncond", .bare .jump),
    ("true", .bare .whenTrue),
    ("false", .bare .whenFalse),
    ("switch", .carrying (.switchCase <$> index)),
    ("default", .bare .switchDefault),
    ("exception", .bare .exception)]

def edge : Nat → Reader Edge :=
  record "EdgeDescription"
    (fun budget => [
      .of "from" true index fun source e => { e with source },
      .of "to" true index fun target e => { e with target },
      .of "kind" false (edgeKind budget) fun kind e => { e with kind }])
    { source := 0, target := 0 }

def handler : Nat → Reader Handler :=
  record "HandlerDescription"
    (fun _ => [
      .of "catch_type" false (optional string) fun catchType h => { h with catchType },
      .of "entry" true index fun entry h => { h with entry }])
    { catchType := none, entry := 0 }

def tryBlock : Nat → Reader (List Handler) :=
  record "TryBlockDescription"
    (fun budget => [.of "handlers" true (list handler budget) fun handlers _ => handlers]) []

/-! ## Regions -/

def regionKind : Nat → Reader RegionKind :=
  choice fun _ =>
    [RegionKind.sequence, .conditional, .loop, .switch].map fun kind => (kind.key, .bare kind)

/-- Reads a child of a region, given a reader of nested regions; what is read is put in front of the
children after it. -/
def child (nested : Reader Outline) : Nat → Reader (Contents → Contents) :=
  choice fun _ => [
    ("block", .carrying (Contents.block <$> index)),
    ("region", .carrying (Outline.before <$> nested))]

/-- Reads a region, given a reader of nested regions. -/
def regionOf (nested : Reader Outline) : Nat → Reader Outline :=
  record "RegionNode"
    (fun budget => [
      .of "kind" false (regionKind budget) fun kind o => { o with kind },
      .of "try_block" false (optional index) fun tryBlock o => { o with tryBlock },
      .of "children" false (list (child nested) budget) fun children o =>
        { o with contents := children.foldr (fun put rest => put rest) .nil }])
    {}

def region : Nat → Reader Outline
  | budget + 3 => regionOf (region budget) (budget + 3)
  | budget => regionOf (fail .nestingLimit) budget

/-! ## Methods -/

def description : Nat → Reader Description :=
  record "MethodDescription"
    (fun budget => [
      .of "name" true string fun name d => { d with name },
      .of "entry" false (optional index) fun entry d => { d with entry },
      .of "blocks" true (list block budget) fun blocks d => { d with blocks },
      .of "edges" false (list edge budget) fun edges d => { d with edges },
      .of "try_blocks" false (list tryBlock budget) fun tryBlocks d => { d with tryBlocks },
      .of "regions" true (region budget) fun regions d => { d with regions }])
    {}

def document : Nat → Reader Document :=
  record "MethodsFile"
    (fun budget => [
      .of "methods" true (list description budget) fun methods d => { d with methods }])
    {}

end Document.Reading

namespace Document

/-- How deep lists, records and choices may be nested. -/
def nestingLimit : Nat := 127

def read (text : String) : Except ReadError Document := readAll (Reading.document nestingLimit) text

end Document

end GuardedRegions
