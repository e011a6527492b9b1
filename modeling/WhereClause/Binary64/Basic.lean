/-!
# Finite doubles

A finite double is kept as its exact value: a sign, a natural significand and a
power of two. Rounding is to nearest with ties to the even significand, done on
naturals by one quotient and its remainder, so no machine arithmetic is involved.
Infinities and not-a-number are no values here; a result out of range is `none`.
-/
namespace WhereClause

/-- The value `± significand · 2 ^ exponent`. -/
structure Binary64 where
  negative : Bool
  significand : Nat
  exponent : Int
  deriving DecidableEq, Repr, Inhabited

namespace Binary64

/-- The exponent of the least double, and of every double below `2 ^ -1022`. -/
def leastExponent : Int := -1074

/-- The exponent of the greatest doubles. -/
def greatestExponent : Int := 971

/-- The least significand of fifty-three bits, `2 ^ 52`. -/
def leastNormal : Nat := 0x10000000000000

def zero (negative : Bool) : Binary64 := ⟨negative, 0, leastExponent⟩

def isZero (x : Binary64) : Bool := x.significand == 0

def negate (x : Binary64) : Binary64 := { x with negative := !x.negative }

/-- The quotient rounded to nearest, a half going to the even neighbour. -/
def roundDiv (num den : Nat) : Nat :=
  let below := num / den
  let twice := 2 * (num % den)
  if twice < den then below
  else if den < twice then below + 1
  else if below % 2 = 0 then below else below + 1

/-- The fraction `num / den · 2 ^ shift` as one fraction. -/
def scaled (num den : Nat) (shift : Int) : Nat × Nat :=
  (num * Nat.pow 2 shift.toNat, den * Nat.pow 2 (-shift).toNat)

/-- The exponent at which a positive fraction has a significand of fifty-three
bits, or the least exponent if that is greater. -/
def exponentOf (num den : Nat) : Int :=
  let guess : Int := (num.log2 : Int) - (den.log2 : Int)
  let (n, d) := scaled num den (-guess)
  let top := if n < d then guess - 1 else guess
  max (top - 52) leastExponent

/-- The double nearest to `± num / den`, unless it is out of range. -/
def ofFraction (negative : Bool) (num den : Nat) : Option Binary64 :=
  if num = 0 then some (zero negative)
  else
    let e := exponentOf num den
    let (n, d) := scaled num den (-e)
    let m := roundDiv n d
    let (m, e) := if m = 2 * leastNormal then (leastNormal, e + 1) else (m, e)
    if greatestExponent < e then none else some ⟨negative, m, e⟩

def ofNat (n : Nat) : Option Binary64 := ofFraction false n 1

/-- The product, rounded once. -/
def mul (x y : Binary64) : Option Binary64 :=
  let (n, d) := scaled (x.significand * y.significand) 1 (x.exponent + y.exponent)
  ofFraction (x.negative != y.negative) n d

/-- The quotient, rounded once; a zero divisor gives no double. -/
def div (x y : Binary64) : Option Binary64 :=
  if y.isZero then none
  else
    let (n, d) := scaled x.significand y.significand (x.exponent - y.exponent)
    ofFraction (x.negative != y.negative) n d

/-- The double nearest to `10 ^ k`. -/
def powerOfTen (k : Nat) : Option Binary64 := ofNat (Nat.pow 10 k)

end Binary64
end WhereClause
