import GuardedRegions.Decimal.Shortest
import GuardedRegions.Text.Quoted

/-!
# Why a text cannot be read

A text may not be JSON at all, or it may hold another value than the reader expects. Either way the
first problem in the order of the text is the one that is told.
-/

namespace GuardedRegions.Json

/-- A value that was found where another one is expected. -/
inductive Found where
  | null
  | boolean (b : Bool)
  | integer (i : Int)
  /-- A number that is no integer, by its bits. -/
  | float (bits : Nat)
  | string (s : String)
  | list
  | object
  /-- The bare name of a choice that needs a value. -/
  | bareName
deriving DecidableEq, Repr

/-- Floats are written without exponent from `10⁻⁵` up to below `10¹⁶`, always with a fraction, and
otherwise with an exponent that has a sign. -/
def floatLayout : Decimal.Layout := { least := -5, greatest := 15, whole := ".0", plus := "+" }

/-- The text of a float that is given by its bits. -/
def floatText (bits : Nat) : String :=
  let sign := if bits / Nat.pow 2 63 = 1 then "-" else ""
  let size := bits % Nat.pow 2 63
  sign ++ if size = 0 then "0.0" else floatLayout.write (Decimal.shortest size)

def Found.text : Found → String
  | null => "null"
  | boolean b => s!"boolean `{b}`"
  | integer i => s!"integer `{i}`"
  | float bits => s!"floating point `{floatText bits}`"
  | string s => s!"string {Text.quote s}"
  | list => "sequence"
  | object => "map"
  | bareName => "unit variant"

/-- Why a text cannot be read. -/
inductive ReadError where
  /- The text ends too soon. -/
  | endInValue
  | endInList
  | endInObject
  | endInString
  /- A character is out of place. -/
  | expectedColon
  | expectedListEnd
  | expectedObjectEnd
  | expectedWord
  | expectedValue
  | keyMustBeString
  | trailingComma
  | trailingCharacters
  /- A number or a string is broken. -/
  | invalidNumber
  | numberOutOfRange
  | invalidEscape
  | controlCharacter
  | loneSurrogate
  | cutSurrogate
  /- The nesting is too deep. -/
  | nestingLimit
  /- A value is not the expected one. -/
  | invalidType (found : Found) (expected : String)
  | invalidValue (found : Found) (expected : String)
  | invalidLength (length : Nat) (expected : String)
  | unknownChoice (name : String) (choices : List String)
  | missingField (name : String)
  | duplicateField (name : String)
deriving DecidableEq, Repr

namespace ReadError

def choiceText : List String → String
  | [a, b] => s!"expected `{a}` or `{b}`"
  | names => "expected one of " ++ ", ".intercalate (names.map fun name => s!"`{name}`")

/-- The text of an error. The place where it was found, such as ` at line 1 column 5` at the end of the
text, is left out: a reader does not count lines and columns. -/
def message : ReadError → String
  | endInValue => "EOF while parsing a value"
  | endInList => "EOF while parsing a list"
  | endInObject => "EOF while parsing an object"
  | endInString => "EOF while parsing a string"
  | expectedColon => "expected `:`"
  | expectedListEnd => "expected `,` or `]`"
  | expectedObjectEnd => "expected `,` or `\x7d`"
  | expectedWord => "expected ident"
  | expectedValue => "expected value"
  | keyMustBeString => "key must be a string"
  | trailingComma => "trailing comma"
  | trailingCharacters => "trailing characters"
  | invalidNumber => "invalid number"
  | numberOutOfRange => "number out of range"
  | invalidEscape => "invalid escape"
  | controlCharacter => "control character (\\u0000-\\u001F) found while parsing a string"
  | loneSurrogate => "lone leading surrogate in hex escape"
  | cutSurrogate => "unexpected end of hex escape"
  | nestingLimit => "recursion limit exceeded"
  | invalidType found expected => s!"invalid type: {found.text}, expected {expected}"
  | invalidValue found expected => s!"invalid value: {found.text}, expected {expected}"
  | invalidLength length expected => s!"invalid length {length}, expected {expected}"
  | unknownChoice name choices => s!"unknown variant `{name}`, {choiceText choices}"
  | missingField name => s!"missing field `{name}`"
  | duplicateField name => s!"duplicate field `{name}`"

end ReadError

end GuardedRegions.Json
