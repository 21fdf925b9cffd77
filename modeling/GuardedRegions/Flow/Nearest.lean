import GuardedRegions.Flow.Dominance

/-!
# The nearest common dominator

Among the blocks that dominate every block of a list, the nearest one is dominated by all others.
Where dominance comes from a graph and every block is reached, exactly one block is left after every
block that strictly dominates another candidate is struck out; a table of sets that were found
elsewhere may leave several, and blocks without dominators leave none.
-/

namespace GuardedRegions.Dominance

/-- The blocks that dominate every block of a list; an empty list has no common dominators. -/
def common (d : Dominance) : List Nat → IdSet
  | [] => ∅
  | [b] => d.dominators b
  | b :: bs => d.dominators b ∩ d.common bs

/-- The common dominator that strictly dominates no other one, or what is left if that is not
exactly one block. -/
def nearest (d : Dominance) (blocks : List Nat) : Except IdSet Nat :=
  let candidates := d.common blocks
  let left := candidates.filter fun c => !candidates.toList.any fun o => decide (c ∈ d.strict o)
  match left.toList with
  | [b] => .ok b
  | _ => .error left

end GuardedRegions.Dominance
