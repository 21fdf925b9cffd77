import GuardedRegions.Json.Error

/-!
# Readers

A reader takes characters from the front of a text and returns a value, or tells why it cannot. The
readers here are the smallest ones: they look at the next character, step over it, or take a word.
-/

namespace GuardedRegions.Json

abbrev Reader := StateT (List Char) (Except ReadError)

/-- Blanks may stand between any two tokens. -/
def isBlank (c : Char) : Bool := c = ' ' || c = '\n' || c = '\t' || c = '\r'

namespace Reader

def fail {α : Type} (e : ReadError) : Reader α := fun _ => .error e

/-- The next character, which stays where it is. -/
def peek : Reader (Option Char) := fun s => .ok (s.head?, s)

/-- The next character that is no blank; it stays where it is, and blanks before it are gone. -/
def look : Reader (Option Char) := fun s =>
  let s := s.dropWhile isBlank
  .ok (s.head?, s)

def skip : Reader Unit := fun s => .ok ((), s.tail)

def digits : Reader (List Char) := fun s =>
  .ok (s.takeWhile Char.isDigit, s.dropWhile Char.isDigit)

/-- Steps over a word, letter by letter. -/
def word : List Char → Reader Unit
  | [] => pure ()
  | c :: cs => fun s =>
    match s with
    | [] => .error .endInValue
    | d :: rest => if d = c then word cs rest else .error .expectedWord

/-- Reads a value and nothing else from a text. -/
def readAll {α : Type} (reader : Reader α) (text : String) : Except ReadError α := do
  let (value, rest) ← reader text.toList
  if (rest.dropWhile isBlank).isEmpty then return value else throw .trailingCharacters

end Reader

end GuardedRegions.Json
