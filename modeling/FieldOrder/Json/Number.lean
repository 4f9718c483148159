/-
# Numbers in JSON

The grammar of numbers, and which of them are too large for a double.

A number is taken in as a significand of 64 bits and a power of ten; digits for
which the significand has no room are only counted. Its double is that of the
significand times that of the power, rounded once more, so a number just below
the largest double may already be too large.

Key definitions: `Json.readNumber`, `Json.Decimal`, `Json.Decimal.isFinite`.
-/
import FieldOrder.Json.Value

namespace FieldOrder
namespace Json

/-! ### Digits -/

/-- The value of a decimal digit. -/
def digitValue (c : Char) : Nat := c.toNat - '0'.toNat

/-- The digits at the front of a text, and the rest. -/
def takeDigits (cs : List Char) : List Char × List Char :=
  (cs.takeWhile Char.isDigit, cs.dropWhile Char.isDigit)

/-- The number that decimal digits write. -/
def digitsToNat (digits : List Char) : Nat :=
  digits.foldl (fun n c => n * 10 + digitValue c) 0

/-! ### Size -/

/-- A number without its sign, as a significand times a power of ten. -/
structure Decimal where
  significand : Nat
  power : Int
  deriving DecidableEq, Repr

/-- Digits put behind a significand of 64 bits while there is room, and how many
of them are left over. -/
def extend (significand : Nat) : List Char → Nat × Nat
  | [] => (significand, 0)
  | c :: rest =>
    let longer := significand * 10 + digitValue c
    if longer < Nat.pow 2 64 then extend longer rest else (significand, rest.length + 1)

/-- A number from its digits before and behind the point and a power of ten. -/
def Decimal.ofDigits (whole fraction : List Char) (power : Int) : Decimal :=
  let (significand, left) := extend 0 whole
  let (significand, unused) := extend significand fraction
  ⟨significand, power + left - (fraction.length - unused : Nat)⟩

/-- The double nearest to a number, the one with an even significand of two, as if
there were no largest double. -/
def nearestDouble (n : Nat) : Nat :=
  let unit := Nat.pow 2 (n.log2 - 52)
  let quotient := n / unit
  let twice := 2 * (n % unit)
  if unit < twice || (unit = twice && quotient % 2 = 1) then (quotient + 1) * unit
  else quotient * unit

/-- Whether a number is not too large for a double. -/
def Decimal.isFinite (d : Decimal) : Bool :=
  d.significand = 0 || d.power < 0 ||
    (d.power ≤ 308 &&
      nearestDouble (nearestDouble d.significand * nearestDouble (Nat.pow 10 d.power.toNat)) < Nat.pow 2 1024)

/-! ### Reading -/

/-- The integral part of a number: a zero alone, or digits that begin with none. -/
def readIntegral (cs : List Char) : Option (List Char × List Char) :=
  match takeDigits cs with
  | ([], _) => none
  | ('0' :: more, rest) => some (['0'], more ++ rest)
  | (digits, rest) => some (digits, rest)

/-- The digits after the point, none if there is no point. -/
def readFraction : List Char → Option (List Char × List Char)
  | '.' :: cs =>
    match takeDigits cs with
    | ([], _) => none
    | (digits, rest) => some (digits, rest)
  | cs => some ([], cs)

/-- The power of ten after an `e`. -/
def readExponent : List Char → Option (Option Int × List Char)
  | [] => some (none, [])
  | c :: cs =>
    if c = 'e' || c = 'E' then
      let (sign, cs) : Int × List Char := match cs with
        | '-' :: rest => (-1, rest)
        | '+' :: rest => (1, rest)
        | _ => (1, cs)
      match takeDigits cs with
      | ([], _) => none
      | (digits, rest) => some (some (sign * digitsToNat digits), rest)
    else some (none, c :: cs)

/-- A number from its first character on. -/
def readNumber (cs : List Char) : Option (Json × List Char) := do
  let (negative, body) := match cs with
    | '-' :: rest => (true, rest)
    | _ => (false, cs)
  let (whole, rest) ← readIntegral body
  let (fraction, rest) ← readFraction rest
  let (power, rest) ← readExponent rest
  let value :=
    if !(Decimal.ofDigits whole fraction (power.getD 0)).isFinite then unreadable
    else if !negative && fraction.isEmpty && power.isNone then nat (digitsToNat whole)
    else number (String.ofList (cs.take (cs.length - rest.length)))
  return (value, rest)

end Json
end FieldOrder
