import GuardedRegions.Flow.Graph

/-!
# Which blocks control can reach

`Graph.reached g isOpen start` lists the blocks that control can reach from `start` when it may only
stand on open blocks. The search goes outwards in rounds: each round adds the open blocks that are
one edge away from what the round before it added. A path that visits no block twice has fewer edges
than the graph has blocks, so as many rounds as there are blocks find everything.
-/

namespace GuardedRegions.Graph

/-- The open blocks one edge away from the frontier that were not seen before. -/
def nextFrontier (g : Graph) (isOpen : Nat → Bool) (seen frontier : List Nat) : List Nat :=
  let targets := frontier.flatMap g.successors
  (List.range g.blockCount).filter fun b => targets.contains b && isOpen b && !seen.contains b

theorem mem_nextFrontier {g : Graph} {isOpen : Nat → Bool} {seen frontier : List Nat} {b : Nat} :
    b ∈ g.nextFrontier isOpen seen frontier ↔
      (∃ a ∈ frontier, b ∈ g.successors a) ∧ isOpen b = true ∧ b ∉ seen := by
  simp only [nextFrontier, List.mem_filter, List.mem_range, Bool.and_eq_true, List.contains_iff_mem,
    List.mem_flatMap, Bool.not_eq_true', and_assoc]
  constructor
  · rintro ⟨_, h, ho, hs⟩
    exact ⟨h, ho, by simpa using hs⟩
  · rintro ⟨⟨a, ha, hb⟩, ho, hs⟩
    exact ⟨(lt_of_mem_successors hb).2, ⟨a, ha, hb⟩, ho, by simpa using hs⟩

/-- What is seen after a number of further rounds. -/
def explore (g : Graph) (isOpen : Nat → Bool) : Nat → List Nat → List Nat → List Nat
  | 0, seen, _ => seen
  | rounds + 1, seen, frontier =>
    match g.nextFrontier isOpen seen frontier with
    | [] => seen
    | b :: bs => g.explore isOpen rounds (seen ++ b :: bs) (b :: bs)

/-- The blocks that control reaches from `start` over open blocks, `start` among them. -/
def reached (g : Graph) (isOpen : Nat → Bool) (start : Nat) : List Nat :=
  if start < g.blockCount && isOpen start then g.explore isOpen g.blockCount [start] [start] else []

end GuardedRegions.Graph
