/-!
# Faults

A region tree and a graph address their regions and blocks by number, and a number may point at
nothing. An operation that follows such a number stops with a `Fault`. A fault is no answer about
the method at hand: whoever keeps to the numbers that exist, and to trees that are no circles,
never meets one.
-/

namespace GuardedRegions

/-- Why an operation could not go on. -/
inductive Fault where
  | missingBlock (block : Nat)
  | missingRegion (region : Nat)
  /-- A walk that goes deeper than the tree has regions, so that it runs in a circle. -/
  | endlessNesting
deriving DecidableEq, Repr

end GuardedRegions
