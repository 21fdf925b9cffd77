import GuardedRegions.Json.Skip

/-!
# Reading values of a known shape

A value is read as what it is expected to be: a number within a range, a string, a list, a record,
or one of several choices. A record is an object with known fields, or a list of their values in
order. A choice is a bare name, or an object whose one key is the name.

Lists, records and choices with a key may be nested in each other only so deep: the budget of a
reader is the number of levels that may still be entered.
-/

namespace GuardedRegions.Json.Reader

/-- Fails because of the value that comes next, which is not what is expected. -/
def mismatch {α : Type} (expected : String) : Reader α := do
  match ← peek with
  | some 'n' =>
    word ['n', 'u', 'l', 'l']
    fail (.invalidType .null expected)
  | some 't' =>
    word ['t', 'r', 'u', 'e']
    fail (.invalidType (.boolean true) expected)
  | some 'f' =>
    word ['f', 'a', 'l', 's', 'e']
    fail (.invalidType (.boolean false) expected)
  | some '"' =>
    let s ← quoted
    fail (.invalidType (.string s) expected)
  | some '[' => fail (.invalidType .list expected)
  | some '\x7b' => fail (.invalidType .object expected)
  | some c =>
    if beginsNumber c then
      let n ← number
      fail (.invalidType n.found expected)
    else fail .expectedValue
  | none => fail .endInValue

/-- Reads a natural number below a limit; its type has a name in messages. -/
def natural (limit : Nat) (name : String) : Reader Nat := do
  match ← look with
  | none => fail .endInValue
  | some c =>
    if beginsNumber c then
      match ← number with
      | .float bits => fail (.invalidType (.float bits) name)
      | .integer i =>
        if 0 ≤ i && i < limit then return i.toNat else fail (.invalidValue (.integer i) name)
    else mismatch name

/-- Reads a string; its role has a name in messages. -/
def string (name : String := "a string") : Reader String := do
  match ← look with
  | none => fail .endInValue
  | some c => if c = '"' then quoted else mismatch name

def optional {α : Type} (reader : Reader α) : Reader (Option α) := do
  match ← look with
  | some 'n' =>
    word ['n', 'u', 'l', 'l']
    return none
  | _ => return some (← reader)

def unit : Reader Unit := do
  match ← look with
  | none => fail .endInValue
  | some c => if c = 'n' then word ['n', 'u', 'l', 'l'] else mismatch "unit"

/-- Enters a level of nesting. -/
def enter {α : Type} (inside : Nat → Reader α) : Nat → Reader α
  | 0 => fail .nestingLimit
  | budget + 1 => inside budget

/-! ## Lists -/

/-- Whether another element follows. A comma is expected in front of all but the first. -/
def hasElement (first : Bool) : Reader Bool := do
  match ← look with
  | none => fail .endInList
  | some c =>
    if c = ']' then return false
    else if first then return true
    else if c = ',' then
      skip
      match ← look with
      | some ']' => fail .trailingComma
      | some _ => return true
      | none => fail .endInValue
    else fail .expectedListEnd

def listEnd : Reader Unit := do
  match ← look with
  | some ']' => skip
  | some ',' =>
    skip
    match ← look with
    | some ']' => fail .trailingComma
    | _ => fail .trailingCharacters
  | some _ => fail .trailingCharacters
  | none => fail .endInList

/-- Reads elements, at most so many as a bound says. -/
def elements {α : Type} (item : Reader α) : Nat → Bool → Reader (List α)
  | 0, _ => fail .endInList
  | bound + 1, first => do
    if ← hasElement first then
      let x ← item
      let xs ← elements item bound false
      return x :: xs
    else return []

/-- Reads a list. Every element has a character of its own, so that there are no more of them than
there are characters left. -/
def list {α : Type} (item : Nat → Reader α) (budget : Nat) : Reader (List α) := do
  match ← look with
  | none => fail .endInValue
  | some '[' =>
    enter (fun budget => do
      skip
      let xs ← fun s => elements (item budget) (s.length + 1) true s
      listEnd
      return xs) budget
  | some _ => mismatch "a sequence"

/-! ## Records -/

/-- A field of a record: how its value is read and put into the record. -/
structure Field (α : Type) where
  name : String
  required : Bool
  read : Reader (α → α)

/-- A field that is given by the reader of its value. -/
def Field.of {α β : Type} (name : String) (required : Bool) (reader : Reader β) (put : β → α → α) :
    Field α where
  name
  required
  read := put <$> reader

/-- Whether another field follows. A comma is expected in front of all but the first. -/
def hasMember (first : Bool) : Reader Bool := do
  match ← look with
  | none => fail .endInObject
  | some c =>
    if c = '\x7d' then return false
    else if first then
      if c = '"' then return true else fail .keyMustBeString
    else if c = ',' then
      skip
      match ← look with
      | some '"' => return true
      | some '\x7d' => fail .trailingComma
      | some _ => fail .keyMustBeString
      | none => fail .endInValue
    else fail .expectedObjectEnd

def objectEnd : Reader Unit := do
  match ← look with
  | some '\x7d' => skip
  | some ',' => fail .trailingComma
  | some _ => fail .trailingCharacters
  | none => fail .endInObject

/-- Reads the fields of an object into a record, at most so many as a bound says; returns the names
of the fields that were there as well. -/
def members {α : Type} (fields : List (Field α)) :
    Nat → Bool → List String → α → Reader (List String × α)
  | 0, _, _, _ => fail .endInObject
  | bound + 1, first, seen, record => do
    if ← hasMember first then
      let key ← quoted
      match fields.find? (·.name == key) with
      | none =>
        colon
        skipValue
        members fields bound false seen record
      | some field =>
        if seen.contains key then fail (.duplicateField key)
        else
          colon
          let put ← field.read
          members fields bound false (key :: seen) (put record)
    else return (seen, record)

/-- Reads a record that is written as an object. -/
def byName {α : Type} (fields : List (Field α)) (record : α) : Reader α := do
  let (seen, record) ← fun s => members fields (s.length + 1) true [] record s
  match fields.find? fun f => f.required && !seen.contains f.name with
  | some field => fail (.missingField field.name)
  | none => return record

/-- Reads the values of fields into a record, the first of them at a given position; the ones at the
end may be missing unless they are required. -/
def positions {α : Type} (expected : String) : List (Field α) → Nat → α → Reader α
  | [], _, record => return record
  | field :: fields, position, record => do
    if ← hasElement (position == 0) then
      let put ← field.read
      positions expected fields (position + 1) (put record)
    else if field.required then fail (.invalidLength position expected)
    else positions expected fields (position + 1) record

/-- How a record and its length are named in messages. -/
def lengthText (name : String) (count : Nat) : String :=
  s!"struct {name} with {count} " ++ if count = 1 then "element" else "elements"

/-- Reads a record, the fields of which are put into a given one. -/
def record {α : Type} (name : String) (fields : Nat → List (Field α)) (start : α) (budget : Nat) :
    Reader α := do
  match ← look with
  | none => fail .endInValue
  | some '[' =>
    enter (fun budget => do
      skip
      let fields := fields budget
      let r ← positions (lengthText name fields.length) fields 0 start
      listEnd
      return r) budget
  | some '\x7b' =>
    enter (fun budget => do
      skip
      let r ← byName (fields budget) start
      objectEnd
      return r) budget
  | some _ => mismatch s!"struct {name}"

/-! ## Choices -/

/-- What a name in a choice stands for. -/
inductive Choice (α : Type) where
  /-- A value by itself. -/
  | bare (value : α)
  /-- Another value that has to be read. -/
  | carrying (reader : Reader α)

/-- Reads the value of a choice that is written with one; a value by itself has a `null`. -/
def Choice.read {α : Type} : Choice α → Reader α
  | .bare value => do
    unit
    return value
  | .carrying reader => reader

def choiceName {α : Type} (choices : List (String × Choice α)) : Reader (Choice α) := do
  let name ← string "variant identifier"
  match choices.lookup name with
  | some choice => return choice
  | none => fail (.unknownChoice name (choices.map (·.1)))

def choice {α : Type} (choices : Nat → List (String × Choice α)) (budget : Nat) : Reader α := do
  match ← look with
  | none => fail .endInValue
  | some '"' =>
    match ← choiceName (choices budget) with
    | .bare value => return value
    | .carrying _ => fail (.invalidType .bareName "newtype variant")
  | some '\x7b' =>
    enter (fun budget => do
      skip
      let chosen ← choiceName (choices budget)
      colon
      let value ← chosen.read
      match ← look with
      | some '\x7d' =>
        skip
        return value
      | some _ => fail .expectedValue
      | none => fail .endInObject) budget
  | some _ => fail .expectedValue

end GuardedRegions.Json.Reader
