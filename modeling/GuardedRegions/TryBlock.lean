/-!
# Try-blocks

The exception table of a method lists its try-blocks; each has handlers, and each handler the block
where its code starts. Try-blocks are told apart by their numbers and not by their handlers.
-/

namespace GuardedRegions

/-- A catch clause: the type that it catches, or every type, and the block where its code starts. -/
structure Handler where
  catchType : Option String
  entry : Nat
deriving DecidableEq, Repr, Inhabited

def Handler.catchesAll (h : Handler) : Bool := h.catchType.isNone

/-- A try-block and its handlers, in the order in which they are tried. -/
structure TryBlock where
  id : Nat
  handlers : List Handler
deriving DecidableEq, Repr, Inhabited

namespace TryBlock

def name (id : Nat) : String := s!"try #{id}"

def catchesAll (t : TryBlock) : Bool := t.handlers.any (·.catchesAll)

def entries (t : TryBlock) : List Nat := t.handlers.map (·.entry)

end TryBlock

end GuardedRegions
