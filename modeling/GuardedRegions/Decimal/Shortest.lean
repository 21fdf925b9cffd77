/-!
# The shortest decimal of a float

A float stands for every real number that rounds to it. Its shortest decimal is the one with the
fewest digits among these numbers, and of those the nearest to the float. `Decimal.shortest` looks
for it with one digit, then two, and so on: with each number of digits it tries the two decimals next
to the float, in exact arithmetic. Seventeen digits are enough for every float.

How the digits are laid out is a matter of the format (`Decimal.Layout`).
-/

namespace GuardedRegions

/-- The number `0.d₁d₂… · 10 ^ point`, where the `dᵢ` are the digits of `digits`. -/
structure Decimal where
  digits : List Char
  point : Int
deriving DecidableEq, Repr

namespace Decimal

/-- The positive numbers `low / unit`, `value / unit` and `high / unit`: a float and the ends of the
interval of the numbers that round to it, which belong to it or not. -/
structure Interval where
  low : Nat
  value : Nat
  high : Nat
  unit : Nat
  closed : Bool

namespace Interval

/-- The numbers that round to `mantissa · 2 ^ exponent`. A mantissa that is the least of its
exponent has its lower neighbour at half the distance. -/
def ofParts (mantissa : Nat) (exponent : Int) (least : Bool) : Interval :=
  let up := Nat.pow 2 exponent.toNat
  { low := (4 * mantissa - if least then 1 else 2) * up
    value := 4 * mantissa * up
    high := (4 * mantissa + 2) * up
    unit := 4 * Nat.pow 2 (-exponent).toNat
    closed := mantissa % 2 == 0 }

/-- Whether `n · 10 ^ exponent` rounds to the float. -/
def contains (i : Interval) (n : Nat) (exponent : Int) : Bool :=
  let x := n * Nat.pow 10 exponent.toNat * i.unit
  let scale := Nat.pow 10 (-exponent).toNat
  if i.closed then i.low * scale ≤ x && x ≤ i.high * scale
  else i.low * scale < x && x < i.high * scale

/-- How far `n · 10 ^ exponent` is from the float, in a unit that depends on the exponent alone. -/
def distance (i : Interval) (n : Nat) (exponent : Int) : Nat :=
  let x := n * Nat.pow 10 exponent.toNat * i.unit
  let v := i.value * Nat.pow 10 (-exponent).toNat
  (x - v) + (v - x)

/-- The greatest `n` such that `n · 10 ^ exponent` is not above the float. -/
def floor (i : Interval) (exponent : Int) : Nat :=
  i.value * Nat.pow 10 (-exponent).toNat / (i.unit * Nat.pow 10 exponent.toNat)

/-- The number of digits in front of the point; below one, as many zeros behind it, negative. -/
def magnitude (i : Interval) : Int :=
  let whole := i.value / i.unit
  if whole = 0 then
    match (List.range 400).find? fun k => i.unit ≤ i.value * Nat.pow 10 (k + 1) with
    | some k => -k
    | none => 0
  else (Nat.toDigits 10 whole).length

end Interval

/-- The decimal `n · 10 ^ exponent`, without zeros at its end. -/
def ofNat (n : Nat) (exponent : Int) : Decimal :=
  let digits := Nat.toDigits 10 n
  { digits := (digits.reverse.dropWhile (· == '0')).reverse, point := digits.length + exponent }

/-- The shortest decimal that rounds to the float of an interval, with at least so many digits. -/
def search (i : Interval) (magnitude : Int) : Nat → Nat → Decimal
  | 0, count => ofNat (i.floor (magnitude - count)) (magnitude - count)
  | more + 1, count =>
    let exponent := magnitude - count
    let below := i.floor exponent
    match i.contains below exponent, i.contains (below + 1) exponent with
    | true, true =>
      let down := i.distance below exponent
      let up := i.distance (below + 1) exponent
      let n := if down < up || (down == up && below % 2 == 0) then below else below + 1
      ofNat n exponent
    | true, false => ofNat below exponent
    | false, true => ofNat (below + 1) exponent
    | false, false => search i magnitude more (count + 1)

/-- The shortest decimal of a positive number that is given by the bits of a float. -/
def shortest (bits : Nat) : Decimal :=
  let fraction := bits % Nat.pow 2 52
  let exponent : Nat := bits / Nat.pow 2 52 % Nat.pow 2 11
  let i :=
    if exponent = 0 then Interval.ofParts fraction (-1074) false
    else Interval.ofParts (Nat.pow 2 52 + fraction) ((exponent : Int) - 1075)
      (fraction == 0 && exponent > 1)
  search i i.magnitude 17 1

/-! ## Layout -/

/-- How a decimal is written. -/
structure Layout where
  /-- The least exponent of a number that is written without one. -/
  least : Int
  /-- The greatest exponent of a number that is written without one. -/
  greatest : Int
  /-- What is put behind a number without fraction. -/
  whole : String
  /-- What stands in front of an exponent that is not negative. -/
  plus : String
deriving DecidableEq, Repr

namespace Layout

/-- Writes a decimal; its exponent is the power of ten of its first digit. -/
def write (layout : Layout) (d : Decimal) : String :=
  let exponent := d.point - 1
  let count := d.digits.length
  if layout.least ≤ exponent && exponent ≤ layout.greatest then
    if d.point ≤ 0 then
      "0." ++ "".pushn '0' (-d.point).toNat ++ String.ofList d.digits
    else
      let point := d.point.toNat
      if count ≤ point then
        String.ofList d.digits ++ "".pushn '0' (point - count) ++ layout.whole
      else String.ofList (d.digits.take point) ++ "." ++ String.ofList (d.digits.drop point)
  else
    let mark := if 0 ≤ exponent then "e" ++ layout.plus else "e-"
    let fraction := match d.digits.drop 1 with
      | [] => ""
      | rest => "." ++ String.ofList rest
    String.ofList (d.digits.take 1) ++ fraction ++ mark ++ toString exponent.natAbs

end Layout

end Decimal

end GuardedRegions
