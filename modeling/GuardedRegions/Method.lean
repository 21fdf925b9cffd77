import GuardedRegions.Flow.Graph
import GuardedRegions.Region.Basic
import GuardedRegions.TryBlock

/-!
# Methods

A method is what the reconstruction works on: the graph of its blocks, its try-blocks, and the tree
of its regions. The reconstruction changes the tree alone, and leaves flags and warnings for whoever
renders the method.
-/

namespace GuardedRegions

/-- What is to be known about the quality of a method. -/
inductive Flag where
  /-- Some try-block has no region, so that the structure is not the whole truth. -/
  | inconsistentCode
  /-- The reconstruction failed, and the code has to be rendered in another form. -/
  | tryCatchFallback
deriving DecidableEq, Repr

def Flag.name : Flag → String
  | inconsistentCode => "InconsistentCode"
  | tryCatchFallback => "TryCatchFallback"

/-- The body of a method. -/
structure Method where
  name : String
  graph : Graph := ∅
  tryBlocks : List TryBlock := []
  tree : RegionTree := .single .sequence
  inconsistentCode : Bool := false
  tryCatchFallback : Bool := false
  warnings : List String := []

namespace Method

def empty (name : String) : Method := { name }

def hasNoCode (m : Method) : Bool := m.graph.isEmpty

def hasTryBlocks (m : Method) : Bool := !m.tryBlocks.isEmpty

/-- The first try-block of a number. -/
def tryBlock? (m : Method) (id : Nat) : Option TryBlock := m.tryBlocks.find? (·.id == id)

def hasFlag (m : Method) : Flag → Bool
  | .inconsistentCode => m.inconsistentCode
  | .tryCatchFallback => m.tryCatchFallback

def addFlag (m : Method) : Flag → Method
  | .inconsistentCode => { m with inconsistentCode := true }
  | .tryCatchFallback => { m with tryCatchFallback := true }

def flags (m : Method) : List Flag := [.inconsistentCode, .tryCatchFallback].filter (m.hasFlag ·)

def addWarning (m : Method) (text : String) : Method := { m with warnings := m.warnings ++ [text] }

end Method

end GuardedRegions
