import GuardedRegions.Json.Characters
import GuardedRegions.Json.Number

/-!
# Values that nobody asks for

An object may have fields that its reader does not know. Their values have to be well formed, but
they may be nested as deep as they like, and their numbers may be as large as they like. Lists and
objects that are still open are kept on a stack.
-/

namespace GuardedRegions.Json

/-- A list or an object that is still open. -/
inductive Bracket where
  | list
  | object
deriving DecidableEq, Repr

namespace Bracket

def close : Bracket → Char
  | list => ']'
  | object => '\x7d'

/-- What is wrong if the text ends in it. -/
def atEnd : Bracket → ReadError
  | list => .endInList
  | object => .endInObject

/-- What is wrong if neither a comma nor its end follows a value. -/
def unclosed : Bracket → ReadError
  | list => .expectedListEnd
  | object => .expectedObjectEnd

end Bracket

namespace Reader

def colon : Reader Unit := do
  match ← look with
  | some ':' => skip
  | some _ => fail .expectedColon
  | none => fail .endInObject

def skipKey : Reader Unit := do
  match ← look with
  | some '"' =>
    skipQuoted
    colon
  | some _ => fail .keyMustBeString
  | none => fail .endInObject

/-- Steps over the key in front of the next value if there has to be one. -/
def skipKeyIn : Bracket → Reader Unit
  | .list => pure ()
  | .object => skipKey

/-- Steps over what follows a value: the ends of open brackets, or a comma. Returns the brackets
that are still open if another value follows. -/
def skipEnds : List Bracket → Reader (Option (List Bracket))
  | [] => return none
  | b :: bs => do
    match ← look with
    | none => fail b.atEnd
    | some c =>
      if c = ',' then
        skip
        skipKeyIn b
        return some (b :: bs)
      else if c = b.close then
        skip
        skipEnds bs
      else fail b.unclosed

/-- Steps over a value without parts. -/
def skipAtom (c : Char) : Reader Unit := do
  if c = 'n' then word ['n', 'u', 'l', 'l']
  else if c = 't' then word ['t', 'r', 'u', 'e']
  else if c = 'f' then word ['f', 'a', 'l', 's', 'e']
  else if c = '"' then skipQuoted
  else if beginsNumber c then let _ ← numeral .invalidNumber
  else fail .expectedValue

/-- Steps over the beginning of a list or an object, and over all of it if it is empty. Returns the
brackets that are open if another value follows. -/
def skipOpening (b : Bracket) (bs : List Bracket) : Reader (Option (List Bracket)) := do
  skip
  match ← look with
  | none => fail b.atEnd
  | some c =>
    if c = b.close then
      skip
      skipEnds bs
    else
      skipKeyIn b
      return some (b :: bs)

/-- Steps over values, at most so many as a bound says, until no bracket is open. -/
def skipValues : Nat → List Bracket → Reader Unit
  | 0, _ => fail .endInValue
  | bound + 1, bs => do
    match ← look with
    | none => fail .endInValue
    | some c =>
      let still ←
        if c = '[' then skipOpening .list bs
        else if c = '\x7b' then skipOpening .object bs
        else
          skipAtom c
          skipEnds bs
      match still with
      | none => return ()
      | some bs => skipValues bound bs

/-- Steps over a value. Every value has a character of its own, so that there are no more of them
than there are characters left. -/
def skipValue : Reader Unit := fun s => skipValues (s.length + 1) [] s

end Reader

end GuardedRegions.Json
