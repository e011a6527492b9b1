import WhereClause.Binary64.Decimal
import WhereClause.Binary64.Shortest
import WhereClause.Json.Basic

/-!
# Numbers in a JSON text

A numeral without point or exponent that fits sixty-four bits is an integer, and
so is a negative one that fits the signed range; `-0` and every other numeral are
doubles. The digits of a double are gathered into a significand of sixty-four
bits: whole digits that no longer fit only raise the exponent, and from the first
fraction digit that does not fit the fraction is dropped.

Doubles are written with the fewest digits that read back, positionally from
`0.00001` up to below `10000000000000000` with at least one fraction digit, and
otherwise with a signed exponent.
-/
namespace WhereClause.Json

/-- A numeral taken apart, with its digits as values below ten. -/
structure Numeral where
  negative : Bool
  whole : List Nat
  fraction : Option (List Nat)
  /-- The sign (negative or not) and the digits of the exponent. -/
  power : Option (Bool × List Nat)
  deriving DecidableEq, Repr

/-- What a numeral stands for. -/
inductive Number where
  | int (value : Int)
  | float (value : Binary64)
  /-- The magnitude is beyond every double. -/
  | tooLarge
  deriving DecidableEq, Repr

/-- The run of digits at the front, and what follows it. -/
def takeDigits (cs : List Char) : List Nat × List Char :=
  ((cs.takeWhile Char.isDigit).map (·.toNat - 48), cs.dropWhile Char.isDigit)

/-- The value of a run of digits. -/
def ofDigits (digits : List Nat) : Nat :=
  digits.foldl (fun n d => n * 10 + d) 0

namespace Numeral

/-- The exponent part, if `cs` is one or is empty. -/
def power? : List Char → Option (Option (Bool × List Nat))
  | [] => some none
  | e :: cs =>
    if e = 'e' ∨ e = 'E' then
      let (negative, cs) := match cs with
        | '-' :: rest => (true, rest)
        | '+' :: rest => (false, rest)
        | rest => (false, rest)
      match takeDigits cs with
      | ([], _) => none
      | (digits, []) => some (some (negative, digits))
      | (_, _ :: _) => none
    else none

/-- The numeral that `cs` spells. A leading zero stands alone, and a point has
digits on both sides. -/
def ofChars? (cs : List Char) : Option Numeral :=
  let (negative, cs) := match cs with
    | '-' :: rest => (true, rest)
    | rest => (false, rest)
  match takeDigits cs with
  | ([], _) => none
  | (0 :: _ :: _, _) => none
  | (whole, '.' :: cs) =>
    match takeDigits cs with
    | ([], _) => none
    | (fraction, cs) => (power? cs).map fun power => ⟨negative, whole, some fraction, power⟩
  | (whole, cs) => (power? cs).map fun power => ⟨negative, whole, none, power⟩

/-- Appends digits while the significand fits a word; the second part is
the digits that found no room. -/
def gather (significand : Nat) : List Nat → Nat × List Nat
  | [] => (significand, [])
  | d :: ds =>
    if significand * 10 + d < wordLimit then gather (significand * 10 + d) ds
    else (significand, d :: ds)

/-- The significand of a double, and the exponent that its digits alone give it. -/
def significand (n : Numeral) : Nat × Int :=
  let (m, left) := gather 0 n.whole
  let fraction := n.fraction.getD []
  let (m, dropped) := gather m fraction
  (m, (left.length : Int) - ((fraction.length - dropped.length : Nat) : Int))

/-- The greatest exponent that may be written. -/
def greatestExponent : Nat := 0x7FFFFFFF

/-- The double that the numeral stands for. An exponent beyond the greatest gives
zero if it is negative or the significand is zero. -/
def toFloat (n : Numeral) : Number :=
  let (m, e) := n.significand
  let value : Option Binary64 := match n.power with
    | none => Binary64.ofDecimal n.negative m e
    | some (negative, digits) =>
      let p := ofDigits digits
      if greatestExponent < p then
        if negative || m == 0 then some (Binary64.zero n.negative) else none
      else Binary64.ofDecimal n.negative m (if negative then e - p else e + p)
  match value with
  | some x => .float x
  | none => .tooLarge

/-- What the numeral stands for. -/
def value (n : Numeral) : Number :=
  match n.fraction, n.power with
  | none, none =>
    let m := ofDigits n.whole
    if n.negative then
      if m = 0 ∨ signedLimit < m then n.toFloat else .int (-(m : Int))
    else if m < wordLimit then .int m else n.toFloat
  | _, _ => n.toFloat

end Numeral

/-- The digits of a natural number. -/
def digitsOf (n : Nat) : List Char := Nat.toDigits 10 n

/-- An integer as written. -/
def intChars (n : Int) : List Char :=
  if n < 0 then '-' :: digitsOf n.natAbs else digitsOf n.natAbs

/-- Where positional notation begins and ends: the exponents of the leading digit
that are written without an exponent part. -/
def positionalFrom : Int := -5
def positionalBelow : Int := 16

/-- A decimal laid out as digits, point and exponent. -/
def decimalChars (d : Binary64.Decimal) : List Char :=
  let digits := digitsOf d.digits
  let leading : Int := (digits.length : Int) - 1 + d.exponent
  if positionalFrom ≤ leading ∧ leading < positionalBelow then
    if 0 ≤ d.exponent then digits ++ List.replicate d.exponent.toNat '0' ++ ['.', '0']
    else if 0 ≤ leading then
      digits.take (leading.toNat + 1) ++ '.' :: digits.drop (leading.toNat + 1)
    else '0' :: '.' :: List.replicate (-leading - 1).toNat '0' ++ digits
  else
    let mantissa := match digits with
      | [] => []
      | [digit] => [digit]
      | digit :: rest => digit :: '.' :: rest
    let sign := if leading < 0 then '-' else '+'
    mantissa ++ 'e' :: sign :: digitsOf leading.natAbs

/-- A double as written. -/
def floatChars (x : Binary64) : List Char :=
  let magnitude := if x.isZero then ['0', '.', '0'] else decimalChars x.shortest
  if x.negative then '-' :: magnitude else magnitude

end WhereClause.Json
