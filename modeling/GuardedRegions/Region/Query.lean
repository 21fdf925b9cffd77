import GuardedRegions.Flow.Dominance
import GuardedRegions.Region.Walk
import GuardedRegions.TryBlock

/-!
# Questions about what is below a container

Whether a block dominates a container, and whether control can come to it, is asked of every block
below it. A container without blocks answers yes to both. Code on a handler path belongs to a handler
or comes after it, so it ends the body of the try-block.
-/

namespace GuardedRegions.RegionTree

/-- Whether a block is, or dominates, every block below a container. -/
def isDominated (t : RegionTree) (doms : Dominance) (dominator : Nat) (c : Container) :
    Except Fault Bool :=
  t.everyBlock (fun b => .ok (b == dominator || doms.dominates dominator b)) c

/-- Whether control can go forward from a block to every block below a container. -/
def isReached (t : RegionTree) (g : Graph) (doms : Dominance) (start : Nat) (c : Container) :
    Except Fault Bool :=
  t.everyBlock (doms.reachesForward g start) c

/-- Whether one of the handlers of a try-block reaches every block below a container. -/
def onHandlerPath (t : RegionTree) (g : Graph) (doms : Dominance) (tryBlock : TryBlock)
    (c : Container) : Except Fault Bool :=
  tryBlock.handlers.anyM fun h => t.isReached g doms h.entry c

end GuardedRegions.RegionTree
