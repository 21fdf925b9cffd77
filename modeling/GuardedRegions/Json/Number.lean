import GuardedRegions.Json.Reader

/-!
# Numbers in JSON

A number is read in two steps: first its digits, then its value. Integers of 64 bits, with a sign or
without, are exact. Everything else is a float: a number with a fraction or an exponent, an integer
that is too large, and minus zero. The value of a float is only ever told, never used, so it need
not be the nearest one: it is made of as many digits as fit 64 bits, one conversion, and one
multiplication or division by a power of ten.
-/

namespace GuardedRegions.Json

/-- The digits of a number. -/
structure Numeral where
  negative : Bool
  whole : List Char
  /-- The digits after the point, if there is one. -/
  fraction : Option (List Char)
  /-- Whether the exponent is negative, and its digits, if there is one. -/
  exponent : Option (Bool × List Char)
deriving DecidableEq, Repr

inductive Number where
  | integer (i : Int)
  /-- A float by its bits. -/
  | float (bits : Nat)
deriving DecidableEq, Repr

namespace Reader

/-- Takes digits, at least one; what a text that ends here is to be told is up to the caller. -/
def someDigits (atEnd : ReadError) : Reader (List Char) := do
  match ← digits with
  | [] => if (← peek).isNone then fail atEnd else fail .invalidNumber
  | ds => return ds

/-- Takes the digits in front of the point; a zero stands alone. -/
def wholeDigits (atEnd : ReadError) : Reader (List Char) := do
  match ← someDigits atEnd with
  | '0' :: _ :: _ => fail .invalidNumber
  | ds => return ds

def fractionDigits (atEnd : ReadError) : Reader (Option (List Char)) := do
  if (← peek) = some '.' then
    skip
    return some (← someDigits atEnd)
  else return none

def exponentDigits (atEnd : ReadError) : Reader (Option (Bool × List Char)) := do
  match ← peek with
  | some 'e' | some 'E' =>
    skip
    match ← peek with
    | some '+' =>
      skip
      return some (false, ← someDigits atEnd)
    | some '-' =>
      skip
      return some (true, ← someDigits atEnd)
    | _ => return some (false, ← someDigits atEnd)
  | _ => return none

def numeral (atEnd : ReadError) : Reader Numeral := do
  let negative := (← peek) = some '-'
  if negative then skip
  let whole ← wholeDigits atEnd
  let fraction ← fractionDigits atEnd
  let exponent ← exponentDigits atEnd
  return { negative, whole, fraction, exponent }

end Reader

namespace Numeral

def digitValue (c : Char) : Nat := c.toNat - '0'.toNat

/-- Appends digits to a number as long as it stays within 64 bits, and returns what does not fit. -/
def absorb (n : Nat) : List Char → Nat × List Char
  | [] => (n, [])
  | d :: ds =>
    let m := n * 10 + digitValue d
    if m < Nat.pow 2 64 then absorb m ds else (n, d :: ds)

def natValue (ds : List Char) : Nat := ds.foldl (fun n d => n * 10 + digitValue d) 0

/-- A power of ten that is within the range of floats. -/
def tenTo (n : Nat) : Float := Float.ofScientific 1 false n

/-- A number of at most 64 bits times a power of ten. -/
def scale (n : Nat) (exponent : Int) : Except ReadError Float :=
  let f := (UInt64.ofNat n).toFloat
  let size := exponent.natAbs
  if n = 0 then .ok f
  else if 0 ≤ exponent then
    if size ≤ 308 then
      let scaled := f * tenTo size
      if scaled.isInf then .error .numberOutOfRange else .ok scaled
    else .error .numberOutOfRange
  else if size ≤ 308 then .ok (f / tenTo size)
  else if size ≤ 616 then .ok (f / tenTo 308 / tenTo (size - 308))
  else .ok 0

def value (n : Numeral) : Except ReadError Number :=
  let (whole, dropped) := absorb 0 n.whole
  if dropped.isEmpty && n.fraction.isNone && n.exponent.isNone
      && (!n.negative || (0 < whole && whole ≤ Nat.pow 2 63)) then
    .ok (.integer (if n.negative then -whole else whole))
  else do
    let fraction := n.fraction.getD []
    let (significand, ignored) := absorb whole fraction
    let shift : Int := match n.exponent with
      | some (true, ds) => -natValue ds
      | some (false, ds) => natValue ds
      | none => 0
    let exponent := shift + dropped.length + ignored.length - fraction.length
    let f ← scale significand exponent
    return .float (if n.negative then -f else f).toBits.toNat

end Numeral

namespace Number

def found : Number → Found
  | integer i => .integer i
  | float bits => .float bits

end Number

namespace Reader

def beginsNumber (c : Char) : Bool := c = '-' || c.isDigit

def number : Reader Number := do
  let n ← numeral .endInValue
  match n.value with
  | .ok value => return value
  | .error e => fail e

end Reader

end GuardedRegions.Json
