import GuardedRegions.Fault
import GuardedRegions.IdSet

/-!
# The control-flow graph of a method

Blocks are numbered from zero in the order in which they are added, and edges keep their order too.
That both ends of every edge are blocks of the graph is part of the type, so that following edges
never leaves the graph. The entry is the first block unless it is set to another one.
-/

namespace GuardedRegions

/-- Why control passes along an edge. -/
inductive EdgeKind where
  /-- To the next block. -/
  | fall
  | jump
  | whenTrue
  | whenFalse
  | switchCase (index : Nat)
  | switchDefault
  /-- From a guarded block to the entry of a handler. -/
  | exception
deriving DecidableEq, Repr, Inhabited

/-- A basic block: where its code starts, and the try-block that guards it. -/
structure Block where
  offset : Nat := 0
  guard : Option Nat := none
deriving DecidableEq, Repr, Inhabited

structure Edge where
  source : Nat
  target : Nat
  kind : EdgeKind := .fall
deriving DecidableEq, Repr, Inhabited

/-- Blocks, the edges between them, and the block where control enters. -/
structure Graph where
  blocks : Array Block
  edges : Array Edge
  entry : Option Nat
  edges_inside : ∀ e ∈ edges, e.source < blocks.size ∧ e.target < blocks.size

namespace Graph

theorem ext {g g' : Graph} (hblocks : g.blocks = g'.blocks) (hedges : g.edges = g'.edges) (hentry : g.entry = g'.entry) :
    g = g' := by
  obtain ⟨blocks, edges, entry, inside⟩ := g
  obtain ⟨blocks', edges', entry', inside'⟩ := g'
  subst hblocks hedges hentry
  rfl

def empty : Graph where
  blocks := #[]
  edges := #[]
  entry := none
  edges_inside e he := absurd he (Array.not_mem_empty e)

instance : EmptyCollection Graph := ⟨empty⟩

instance : Inhabited Graph := ⟨∅⟩

/-- How many blocks there are; they are numbered below this. -/
def blockCount (g : Graph) : Nat := g.blocks.size

def isEmpty (g : Graph) : Bool := g.blocks.isEmpty

/-- The graph with one more block, which becomes the entry if there is none yet. -/
def addBlock (g : Graph) (b : Block) : Graph where
  blocks := g.blocks.push b
  edges := g.edges
  entry := g.entry.or (some g.blockCount)
  edges_inside e he := by
    have := g.edges_inside e he
    simp only [Array.size_push]
    omega

/-- The graph with one more edge between two of its blocks. -/
def insertEdge (g : Graph) (e : Edge) (hs : e.source < g.blockCount) (ht : e.target < g.blockCount) :
    Graph where
  blocks := g.blocks
  edges := g.edges.push e
  entry := g.entry
  edges_inside e' he' := by
    rcases Array.mem_push.1 he' with h | rfl
    · exact g.edges_inside e' h
    · exact ⟨hs, ht⟩

def addEdge (g : Graph) (e : Edge) : Except Fault Graph :=
  if hs : e.source < g.blockCount then
    if ht : e.target < g.blockCount then .ok (g.insertEdge e hs ht)
    else .error (.missingBlock e.target)
  else .error (.missingBlock e.source)

def setEntry (g : Graph) (b : Nat) : Graph := { g with entry := some b }

/-- The graph in which a block is guarded by another try-block, or by none. -/
def setGuard (g : Graph) (b : Nat) (guard : Option Nat) : Except Fault Graph :=
  if b < g.blockCount then
    .ok {
      blocks := g.blocks.modify b fun block => { block with guard }
      edges := g.edges
      entry := g.entry
      edges_inside := by simpa using g.edges_inside }
  else .error (.missingBlock b)

/-- The try-block that guards a block; a block that does not exist has no guard. -/
def guardOf (g : Graph) (b : Nat) : Option Nat := g.blocks[b]?.bind (·.guard)

def tryBlocksInUse (g : Graph) : IdSet := .ofList (g.blocks.toList.filterMap (·.guard))

def guardedBy (g : Graph) (tryBlock : Nat) : IdSet :=
  .below g.blockCount fun b => g.guardOf b == some tryBlock

theorem lt_of_guardOf {g : Graph} {b tryBlock : Nat} (h : g.guardOf b = some tryBlock) : b < g.blockCount := by
  obtain ⟨block, hblock, -⟩ := Option.bind_eq_some_iff.1 h
  exact (Array.getElem?_eq_some_iff.1 hblock).1

theorem mem_tryBlocksInUse {g : Graph} {tryBlock : Nat} :
    tryBlock ∈ g.tryBlocksInUse ↔ ∃ b, g.guardOf b = some tryBlock := by
  rw [tryBlocksInUse, IdSet.mem_ofList, List.mem_filterMap]
  constructor
  · rintro ⟨block, hblock, hguard⟩
    obtain ⟨b, hb⟩ := List.mem_iff_getElem?.1 hblock
    refine ⟨b, Option.bind_eq_some_iff.2 ⟨block, ?_, hguard⟩⟩
    rwa [← Array.getElem?_toList]
  · rintro ⟨b, hb⟩
    obtain ⟨block, hblock, hguard⟩ := Option.bind_eq_some_iff.1 hb
    rw [← Array.getElem?_toList] at hblock
    exact ⟨block, List.mem_of_getElem? hblock, hguard⟩

theorem mem_guardedBy {g : Graph} {b tryBlock : Nat} : b ∈ g.guardedBy tryBlock ↔ g.guardOf b = some tryBlock := by
  rw [guardedBy, IdSet.mem_below, beq_iff_eq]
  exact and_iff_right_of_imp lt_of_guardOf

/-- Where control may go from a block, once for each edge. -/
def successors (g : Graph) (b : Nat) : List Nat :=
  g.edges.toList.filterMap fun e => if e.source = b then some e.target else none

theorem mem_successors {g : Graph} {a b : Nat} :
    b ∈ g.successors a ↔ ∃ e ∈ g.edges, e.source = a ∧ e.target = b := by
  simp [successors]

theorem lt_of_mem_successors {g : Graph} {a b : Nat} (h : b ∈ g.successors a) :
    a < g.blockCount ∧ b < g.blockCount := by
  obtain ⟨e, he, rfl, rfl⟩ := mem_successors.1 h
  exact g.edges_inside e he

end Graph

end GuardedRegions
