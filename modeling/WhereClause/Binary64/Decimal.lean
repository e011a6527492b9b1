import WhereClause.Binary64.Basic

/-!
# Doubles from decimals

A decimal `significand · 10 ^ exponent` is turned into a double in two roundings:
the significand becomes a double, and is then multiplied or divided by the double
nearest to one power of ten. Exponents below `-308` take a second division. The
outcome can be one unit off the nearest double.
-/
namespace WhereClause.Binary64

/-- The greatest power of ten that a double can hold. -/
def greatestPower : Nat := 308

/-- Divides by `10 ^ k`, where `k` is at most twice the greatest power; beyond
that nothing is left of a significand of sixty-four bits. -/
def shrink (x : Binary64) (k : Nat) : Option Binary64 :=
  if k ≤ greatestPower then do x.div (← powerOfTen k)
  else if k ≤ 2 * greatestPower then do
    let once ← x.div (← powerOfTen greatestPower)
    once.div (← powerOfTen (k - greatestPower))
  else some (zero x.negative)

/-- Multiplies by `10 ^ k`, unless the outcome is out of range. -/
def grow (x : Binary64) (k : Nat) : Option Binary64 :=
  if x.isZero then some x
  else if k ≤ greatestPower then do x.mul (← powerOfTen k)
  else none

/-- The double for `± significand · 10 ^ exponent`, unless it is out of range. -/
def ofDecimal (negative : Bool) (significand : Nat) (exponent : Int) : Option Binary64 := do
  let magnitude ← ofNat significand
  let value ← if 0 ≤ exponent then grow magnitude exponent.toNat
    else shrink magnitude (-exponent).toNat
  some { value with negative := negative }

end WhereClause.Binary64
