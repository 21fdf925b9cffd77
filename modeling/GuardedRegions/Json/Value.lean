import GuardedRegions.Json.Characters
import GuardedRegions.Text.Lines

/-!
# Values and how they are written

A value that is to be written as JSON knows no other numbers than natural ones. It is written either
on one line without blanks (`Value.compact`), or spread over lines with two blanks for each level
(`Value.pretty`). Either way the fields of a record keep their order.
-/

namespace GuardedRegions.Json

/-- A value to be written. -/
inductive Value where
  | null
  | number (n : Nat)
  | string (s : String)
  | list (items : List Value)
  | record (fields : List (String × Value))

namespace Value

def quoted (s : String) : String := "\"" ++ String.ofList (Characters.escape s.toList) ++ "\""

def ofNat? : Option Nat → Value
  | none => null
  | some n => number n

/-! ## On one line -/

mutual

/-- The text of a value on one line. -/
def compact : Value → String
  | null => "null"
  | number n => toString n
  | string s => quoted s
  | list items => "[" ++ compactItems items ++ "]"
  | record fields => "\x7b" ++ compactFields fields ++ "\x7d"

def compactItems : List Value → String
  | [] => ""
  | v :: vs => compact v ++ compactMoreItems vs

/-- The texts of values with a comma in front of each. -/
def compactMoreItems : List Value → String
  | [] => ""
  | v :: vs => "," ++ compact v ++ compactMoreItems vs

def compactFields : List (String × Value) → String
  | [] => ""
  | (name, v) :: fs => quoted name ++ ":" ++ compact v ++ compactMoreFields fs

/-- The texts of fields with a comma in front of each. -/
def compactMoreFields : List (String × Value) → String
  | [] => ""
  | (name, v) :: fs => "," ++ quoted name ++ ":" ++ compact v ++ compactMoreFields fs

end

/-! ## On several lines -/

def newLine (steps : Nat) : String := "\n" ++ Text.indent steps ""

mutual

/-- The text of a value on several lines, all but the first moved to the right. -/
def pretty (steps : Nat) : Value → String
  | null => "null"
  | number n => toString n
  | string s => quoted s
  | list [] => "[]"
  | list (v :: vs) =>
    "[" ++ newLine (steps + 1) ++ pretty (steps + 1) v ++ prettyMoreItems (steps + 1) vs
      ++ newLine steps ++ "]"
  | record [] => "\x7b\x7d"
  | record ((name, v) :: fs) =>
    "\x7b" ++ newLine (steps + 1) ++ quoted name ++ ": " ++ pretty (steps + 1) v
      ++ prettyMoreFields (steps + 1) fs ++ newLine steps ++ "\x7d"

def prettyMoreItems (steps : Nat) : List Value → String
  | [] => ""
  | v :: vs => "," ++ newLine steps ++ pretty steps v ++ prettyMoreItems steps vs

def prettyMoreFields (steps : Nat) : List (String × Value) → String
  | [] => ""
  | (name, v) :: fs =>
    "," ++ newLine steps ++ quoted name ++ ": " ++ pretty steps v ++ prettyMoreFields steps fs

end

end Value

end GuardedRegions.Json
