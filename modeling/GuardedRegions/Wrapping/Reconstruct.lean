import GuardedRegions.Wrapping.Resolve
import GuardedRegions.Wrapping.Search

/-!
# Reconstructing the try regions of a method

The reconstruction computes dominance, finds where each try-block begins, and gives each its region.
A method without code or without try-blocks is left as it is. An error leaves the method as far as
it was worked on; `Method.process` records it on the method itself.
-/

namespace GuardedRegions

/-- How a reconstruction is to be made. -/
structure Options where
  /-- How many sweeps may be made before the last one. -/
  passLimit : Nat := 100
  /-- Whether to check the tree before and after. -/
  validate : Bool := false
deriving DecidableEq, Repr, Inhabited

structure Summary where
  wrapped : Nat := 0
  failed : Nat := 0
  /-- How many try-blocks were dropped because another one begins at the same block. -/
  dropped : Nat := 0
  passes : Nat := 0
deriving DecidableEq, Repr, Inhabited

/-- The method after a reconstruction, and what came of it. -/
structure Reconstruction where
  method : Method
  result : Except Error Summary
  events : List Event := []

namespace Graph

def dominanceEvents (g : Graph) : List Event :=
  g.entry.toList.map fun entry => .dominanceComputed g.blockCount entry

end Graph

namespace Method

def check (m : Method) (options : Options) : Except Error Unit :=
  if options.validate then m.tree.validate.mapError .ofFlaw else .ok ()

def reconstructFrom (m : Method) (options : Options) (doms : Dominance) (search : Search)
    (events : List Event) : Except Fault Reconstruction := do
  let (resolved, result) ← m.resolve doms search.pending options.passLimit
  let events := events ++ [.searched m.name search.pending.size search.dropped.length]
    ++ resolved.events
  let result := do
    let tally ← result
    resolved.method.check options
    return {
      wrapped := tally.wrapped
      failed := tally.failed
      dropped := search.dropped.length
      passes := tally.passes }
  return { method := resolved.method, result, events }

/-- Gives every try-block that guards a block its region, as far as possible. -/
def reconstruct (m : Method) (options : Options) : Except Fault Reconstruction := do
  if m.hasNoCode || !m.hasTryBlocks then return { method := m, result := .ok {} }
  else match m.check options with
    | .error e => return { method := m, result := .error e }
    | .ok () =>
      let doms ← m.graph.dominance
      let searched ← m.search doms
      let events := m.graph.dominanceEvents ++ searched.events
      match searched.found with
      | .error e => return { method := searched.method, result := .error e, events }
      | .ok search => searched.method.reconstructFrom options doms search events

/-- Reconstructs a method; if that fails, the method is marked for rendering in another form. -/
def process (m : Method) (options : Options) : Except Fault Reconstruction := do
  let done ← m.reconstruct options
  match done.result with
  | .ok _ => return done
  | .error e =>
    return { done with
      method := (done.method.addFlag .tryCatchFallback).addWarning
        s!"try/catch reconstruction failed: {e.message}"
      events := done.events ++ [.failed m.name e] }

end Method

end GuardedRegions
