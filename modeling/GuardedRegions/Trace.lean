import GuardedRegions.Error
import GuardedRegions.Region.Basic
import GuardedRegions.TryBlock

/-!
# The trace of a reconstruction

Every step worth telling is an `Event`. The parts of the reconstruction return the events of their
run in order, and a text is made of them only where they are shown.
-/

namespace GuardedRegions

/-- How much an event matters. -/
inductive Level where
  | debug
  | info
  | warn
deriving DecidableEq, Repr

def Level.name : Level → String
  | debug => "DEBUG"
  | info => "INFO"
  | warn => "WARN"

/-- A step of a reconstruction. -/
inductive Event where
  | dominanceComputed (blocks entry : Nat)
  | alreadyWrapped (method : String) (tryBlock : Nat)
  | dominatorFound (method : String) (tryBlock covered dominator : Nat)
  /-- The dominator of a try-block belongs to one that has its region already. -/
  | sharesWrapped (method : String) (tryBlock dominator wrapped : Nat)
  /-- The dominator of a try-block belongs to one that came before it. -/
  | dropped (method : String) (tryBlock dominator kept : Nat)
  | searched (method : String) (pending overlaps : Nat)
  /-- A region has no child that could go into the body of a try-block. -/
  | nothingDominated (dominator region : Nat)
  /-- A region does not allow that the body of a try-block is carved out of it. -/
  | spliceRefused (kind : RegionKind) (region count : Nat)
  | carved (count region created tryBlock : Nat)
  | gaveUp (method : String) (dominator : Nat)
  | passDone (method : String) (pass wrapped pending : Nat)
  | failed (method : String) (error : Error)
deriving DecidableEq, Repr

namespace Event

def level : Event → Level
  | dropped .. => .info
  | gaveUp .. | failed .. => .warn
  | _ => .debug

def message : Event → String
  | dominanceComputed blocks entry => s!"Computed dominators for {blocks} blocks from entry {entry}"
  | alreadyWrapped method tryBlock => s!"{TryBlock.name tryBlock} already wrapped in {method}"
  | dominatorFound method tryBlock covered dominator =>
    s!"{TryBlock.name tryBlock} in {method} covers {covered} blocks, dominator: block {dominator}"
  | sharesWrapped method tryBlock dominator wrapped =>
    s!"{TryBlock.name tryBlock} in {method} shares dominator block {dominator} with wrapped "
      ++ s!"{TryBlock.name wrapped}, skipping"
  | dropped method tryBlock dominator kept =>
    s!"Unmerged try blocks in {method}: {TryBlock.name kept} and {TryBlock.name tryBlock} "
      ++ s!"share dominator block {dominator}, dropping {TryBlock.name tryBlock}"
  | searched method pending overlaps =>
    s!"{method}: {pending} try blocks pending, {overlaps} dropped"
  | nothingDominated dominator region =>
    s!"Nothing dominated by block {dominator} in region {region}"
  | spliceRefused kind region count =>
    s!"{kind.name} region {region} refuses to splice {count} containers"
  | carved count region created tryBlock =>
    s!"Wrapped {count} containers of region {region} into region {created} for "
      ++ TryBlock.name tryBlock
  | gaveUp method dominator => s!"Can't wrap try/catch for block {dominator}, method: {method}"
  | passDone method pass wrapped pending =>
    s!"Wrap pass {pass} in {method}: {wrapped} wrapped, {pending} pending"
  | failed method error => s!"Try/catch reconstruction failed for {method}: {error.message}"

end Event

end GuardedRegions
