import GuardedRegions.Fault

/-!
# Region trees

A region groups blocks and nested regions into one construct of the source text: a sequence, a
branch, a loop or a switch. The regions of a tree are numbered in the order in which they were made.
A region lists its children and names its parent; nothing in the type makes the two agree, or the
regions form a tree at all, so that trees can be taken apart and put together step by step.
`RegionTree.validate` tells the trees that are in order from those that are not.

Every change is described by what `RegionTree.get?` finds after it.
-/

namespace GuardedRegions

/-- The construct that a region stands for. -/
inductive RegionKind where
  | sequence
  | conditional
  | loop
  | switch
deriving DecidableEq, Repr, Inhabited

namespace RegionKind

/-- Structured kinds have a fixed layout: every child has its place and its role. -/
def isStructured : RegionKind → Bool
  | sequence => false
  | _ => true

def name : RegionKind → String
  | sequence => "Sequence"
  | conditional => "Conditional"
  | loop => "Loop"
  | switch => "Switch"

end RegionKind

/-- What a region may hold. -/
inductive Container where
  | block (id : Nat)
  | region (id : Nat)
deriving DecidableEq, Repr, Inhabited

namespace Container

def name : Container → String
  | block id => s!"Block {id}"
  | region id => s!"Region {id}"

def isRegion : Container → Bool
  | block _ => false
  | region _ => true

end Container

/-- A node of a region tree. -/
structure Region where
  kind : RegionKind
  parent : Option Nat
  children : List Container := []
  /-- The try-block whose body the region is. -/
  tryBlock : Option Nat := none
deriving DecidableEq, Repr, Inhabited

def Region.add (region : Region) (c : Container) : Region :=
  { region with children := region.children ++ [c] }

/-- Regions by number, one of which is the root. -/
structure RegionTree where
  regions : Array Region
  root : Nat := 0
deriving DecidableEq, Repr, Inhabited

namespace RegionTree

def single (kind : RegionKind) : RegionTree where
  regions := #[{ kind, parent := none }]

/-- How many regions there are; they are numbered below this. -/
def size (t : RegionTree) : Nat := t.regions.size

def get? (t : RegionTree) (r : Nat) : Option Region := t.regions[r]?

theorem get?_eq_none_iff {t : RegionTree} {r : Nat} : t.get? r = none ↔ t.size ≤ r := by
  simp [get?, size]

/-- The children of a region; a region that does not exist has none. -/
def childrenOf (t : RegionTree) (r : Nat) : List Container := (t.get? r).elim [] (·.children)

/-- The region of a number, which has to exist. -/
def region (t : RegionTree) (r : Nat) : Except Fault Region :=
  match t.get? r with
  | some region => .ok region
  | none => .error (.missingRegion r)

theorem region_eq_ok_iff {t : RegionTree} {r : Nat} {region : Region} :
    t.region r = .ok region ↔ t.get? r = some region := by
  unfold RegionTree.region
  split <;> simp_all

/-! ## Changing one region -/

/-- The tree in which one region is changed; if there is no such region, the tree as it is. -/
def modify (t : RegionTree) (r : Nat) (f : Region → Region) : RegionTree :=
  { t with regions := t.regions.modify r f }

@[simp] theorem get?_modify (t : RegionTree) (r : Nat) (f : Region → Region) (i : Nat) :
    (t.modify r f).get? i = if r = i then (t.get? i).map f else t.get? i := by
  simp [get?, modify, Array.getElem?_modify]

@[simp] theorem size_modify (t : RegionTree) (r : Nat) (f : Region → Region) :
    (t.modify r f).size = t.size := by
  simp [size, modify]

@[simp] theorem root_modify (t : RegionTree) (r : Nat) (f : Region → Region) :
    (t.modify r f).root = t.root := rfl

/-- The tree in which one region, which has to exist, is changed. -/
def update (t : RegionTree) (r : Nat) (f : Region → Region) : Except Fault RegionTree :=
  if r < t.size then .ok (t.modify r f) else .error (.missingRegion r)

theorem update_eq_ok_iff {t u : RegionTree} {r : Nat} {f : Region → Region} :
    t.update r f = .ok u ↔ r < t.size ∧ t.modify r f = u := by
  unfold update
  split <;> rename_i h <;> simp [h]

def pushBlock (t : RegionTree) (r b : Nat) : Except Fault RegionTree :=
  t.update r (·.add (.block b))

def setParent (t : RegionTree) (r : Nat) (parent : Option Nat) : Except Fault RegionTree :=
  t.update r fun region => { region with parent }

def tag (t : RegionTree) (r tryBlock : Nat) : Except Fault RegionTree :=
  t.update r fun region => { region with tryBlock := some tryBlock }

/-! ## Adding a region -/

/-- The tree with one more region, which no other region lists among its children yet. Its number
is the old size of the tree. -/
def create (t : RegionTree) (region : Region) : RegionTree :=
  { t with regions := t.regions.push region }

@[simp] theorem root_create (t : RegionTree) (region : Region) :
    (t.create region).root = t.root := rfl

@[simp] theorem size_create (t : RegionTree) (region : Region) :
    (t.create region).size = t.size + 1 := by simp [create, size]

@[simp] theorem get?_create (t : RegionTree) (region : Region) (i : Nat) :
    (t.create region).get? i = if i = t.size then some region else t.get? i := by
  exact Array.getElem?_push

def pushRegion (t : RegionTree) (r : Nat) (kind : RegionKind) : Except Fault RegionTree :=
  if r < t.size then
    .ok <| (t.create { kind, parent := some r }).modify r (·.add (.region t.size))
  else .error (.missingRegion r)

/-! ## Looking at one region -/

def children (t : RegionTree) (r : Nat) : Except Fault (List Container) :=
  (t.region r).map (·.children)

def contains (t : RegionTree) (r : Nat) (c : Container) : Except Fault Bool :=
  (t.children r).map (·.contains c)

end RegionTree

end GuardedRegions
