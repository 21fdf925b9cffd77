import GuardedRegions.Region.Valid
import GuardedRegions.Text.Lines
import GuardedRegions.TryBlock

/-!
# Errors

What a user is told when a description cannot be read or a method cannot be worked on. Every error
has a text, a code, and for some a hint; an error is fatal for a method if it ends the
reconstruction of its regions.
-/

namespace GuardedRegions

/-- Why something could not be done. -/
inductive Error where
  | io (message : String)
  /-- A text is not a description. -/
  | json (message : String)
  /-- A description or a method contradicts itself. -/
  | invalidInput (message : String)
  /-- The blocks that a try-block guards have no nearest common dominator. -/
  | structuralInconsistency (method : String) (blocks : List Nat)
  /-- Try-blocks are left after as many passes as are allowed. -/
  | wrapLimitReached (method : String) (passes : Nat)
  | regionTree (message : String)
  | unknownMethod (name : String)
deriving DecidableEq, Repr

namespace Error

def message : Error → String
  | io message => s!"I/O error: {message}"
  | json message => s!"Invalid JSON input: {message}"
  | invalidInput message => s!"Invalid method description: {message}"
  | structuralInconsistency method blocks =>
    s!"Exception block dominator not found, method: {method}. blocks: " ++ Text.numbers blocks
  | wrapLimitReached method passes =>
    s!"Try/catch wrap count limit reached in {method} after {passes} passes"
  | regionTree message => s!"Region tree is inconsistent: {message}"
  | unknownMethod name => s!"Unknown method: {name}"

/-- Whether an error ends the reconstruction of a method. -/
def isFatal : Error → Bool
  | structuralInconsistency .. | wrapLimitReached .. | regionTree _ => true
  | io _ | json _ | invalidInput _ | unknownMethod _ => false

def code : Error → String
  | io _ => "trycatch_regions::io_error"
  | json _ => "trycatch_regions::json_error"
  | invalidInput _ => "trycatch_regions::invalid_input"
  | structuralInconsistency .. => "trycatch_regions::structural_inconsistency"
  | wrapLimitReached .. => "trycatch_regions::wrap_limit"
  | regionTree _ => "trycatch_regions::region_tree"
  | unknownMethod _ => "trycatch_regions::unknown_method"

/-- What a user may do about an error. -/
def help : Error → Option String
  | structuralInconsistency .. =>
    some <| "the protected blocks of a try-block must share exactly one nearest dominator; "
      ++ "unreachable or irregular exception ranges break this"
  | _ => none

/-- A block is guarded by a try-block that its method does not have. -/
def unknownGuard (tryBlock : Nat) (method : String) : Error :=
  .invalidInput s!"block guard references unknown {TryBlock.name tryBlock} in method {method}"

def ofFlaw (flaw : TreeFlaw) : Error := .regionTree flaw.message

end Error

end GuardedRegions
