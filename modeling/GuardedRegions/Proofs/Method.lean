import GuardedRegions.Method

/-!
# What marking a method keeps

The reconstruction leaves flags and warnings on a method. Two methods that differ in nothing else are the same code
(`Method.Marked`); the handlers of a method are those of its code.
-/

namespace GuardedRegions

/-- The handlers of a try-block start at blocks of a graph. -/
def TryBlock.HandlersIn (tryBlock : TryBlock) (g : Graph) : Prop :=
  ∀ h ∈ tryBlock.handlers, h.entry < g.blockCount

instance (tryBlock : TryBlock) (g : Graph) : Decidable (tryBlock.HandlersIn g) :=
  inferInstanceAs (Decidable (∀ h ∈ tryBlock.handlers, h.entry < g.blockCount))

namespace Method

def HandlersExist (m : Method) : Prop := ∀ tb ∈ m.tryBlocks, tb.HandlersIn m.graph

instance (m : Method) : Decidable m.HandlersExist :=
  inferInstanceAs (Decidable (∀ tb ∈ m.tryBlocks, tb.HandlersIn m.graph))

/-- The second method is the first one but for flags and warnings. -/
structure Marked (m m' : Method) : Prop where
  name : m'.name = m.name
  graph : m'.graph = m.graph
  tryBlocks : m'.tryBlocks = m.tryBlocks
  tree : m'.tree = m.tree

namespace Marked

variable {m m' : Method}

theorem handlersExist (h : Marked m m') (hh : m.HandlersExist) : m'.HandlersExist := by
  unfold HandlersExist
  rw [h.tryBlocks, h.graph]
  exact hh

end Marked

end Method

end GuardedRegions
