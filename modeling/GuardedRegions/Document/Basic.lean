import GuardedRegions.Flow.Graph
import GuardedRegions.Region.Outline
import GuardedRegions.TryBlock

/-!
# Descriptions of methods

A document describes methods. Blocks and try-blocks are referred to by their places in the lists of
their method, and the region tree is given by its outline. Nothing says yet that the places exist.
-/

namespace GuardedRegions

/-- A method as it is described. -/
structure Description where
  name : String := ""
  /-- The block where control enters, if it is not the first one. -/
  entry : Option Nat := none
  blocks : List Block := []
  edges : List Edge := []
  /-- The handlers of each try-block. -/
  tryBlocks : List (List Handler) := []
  regions : Outline := {}
deriving DecidableEq, Repr, Inhabited

structure Document where
  methods : List Description := []
deriving DecidableEq, Repr, Inhabited

/-- The name of a region kind in documents. -/
def RegionKind.key : RegionKind → String
  | sequence => "sequence"
  | conditional => "conditional"
  | loop => "loop"
  | switch => "switch"

end GuardedRegions
