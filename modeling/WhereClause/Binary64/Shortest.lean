import WhereClause.Binary64.Basic

/-!
# Shortest decimals

The decimal with the fewest digits that still reads back to a given double, and
among those the nearest to it, a tie going to the even last digit. The reals that
round to a double form an interval that holds its ends exactly when the
significand is even; a decimal is compared with the ends by multiplying naturals
across, never by dividing.
-/
namespace WhereClause.Binary64

/-- The value `digits · 10 ^ exponent`. -/
structure Decimal where
  digits : Nat
  exponent : Int
  deriving DecidableEq, Repr

/-- Compares `a · 10 ^ i` with `n · 2 ^ j`. -/
def compareScaled (a : Nat) (i : Int) (n : Nat) (j : Int) : Ordering :=
  compare (a * Nat.pow 10 i.toNat * Nat.pow 2 (-j).toNat) (n * Nat.pow 2 j.toNat * Nat.pow 10 (-i).toNat)

/-- The double below is half as far away as the one above: the significand is the
least of its exponent, and there is a smaller exponent. -/
def narrowBelow (x : Binary64) : Bool :=
  x.significand == leastNormal && x.exponent != leastExponent

/-- The decimal lies among the reals that round to the magnitude of `x`. -/
def readsBack (x : Binary64) (d : Decimal) : Bool :=
  let low := if x.narrowBelow then 4 * x.significand - 1 else 4 * x.significand - 2
  let high := 4 * x.significand + 2
  let closed := x.significand % 2 == 0
  let fromLow := compareScaled d.digits d.exponent low (x.exponent - 2)
  let fromHigh := compareScaled d.digits d.exponent high (x.exponent - 2)
  (fromLow == .gt || (closed && fromLow == .eq)) && (fromHigh == .lt || (closed && fromHigh == .eq))

/-- The least `k` with `x < 10 ^ k`, for a nonzero magnitude: estimated from the
binary logarithm and put right by comparisons. -/
def magnitudeOf (x : Binary64) : Int :=
  let estimate := ((x.significand.log2 : Int) + x.exponent) * 30103 / 100000
  let fits := fun (k : Int) => compareScaled 1 k x.significand x.exponent == .gt
  ([estimate - 1, estimate, estimate + 1].find? fits).getD (estimate + 2)

/-- The magnitude of `x` in units of `10 ^ e`, rounded down. -/
def floorAt (x : Binary64) (e : Int) : Nat :=
  (x.significand * Nat.pow 2 x.exponent.toNat * Nat.pow 10 (-e).toNat)
    / (Nat.pow 2 (-x.exponent).toNat * Nat.pow 10 e.toNat)

/-- The nearer of two neighbouring decimals on one grid, a tie going to the even one. -/
def nearer (x : Binary64) (below : Decimal) : Decimal :=
  let above : Decimal := ⟨below.digits + 1, below.exponent⟩
  match compareScaled (2 * below.digits + 1) below.exponent x.significand (x.exponent + 1) with
  | .gt => below
  | .lt => above
  | .eq => if below.digits % 2 = 0 then below else above

/-- A decimal with `n` digits that reads back to `x`, if there is one. -/
def withDigits (x : Binary64) (top : Int) (n : Nat) : Option Decimal :=
  let e := top - (n : Int)
  let below : Decimal := ⟨x.floorAt e, e⟩
  let above : Decimal := ⟨below.digits + 1, e⟩
  match x.readsBack below, x.readsBack above with
  | true, true => some (x.nearer below)
  | true, false => some below
  | false, true => some above
  | false, false => none

/-- The same value without trailing zeros, of which at most `n` are dropped. -/
def Decimal.strip : Nat → Decimal → Decimal
  | 0, d => d
  | n + 1, d => if d.digits % 10 = 0 then Decimal.strip n ⟨d.digits / 10, d.exponent + 1⟩ else d

/-- The exact decimal value of the magnitude of `x`. -/
def exactDecimal (x : Binary64) : Decimal :=
  if 0 ≤ x.exponent then ⟨x.significand * Nat.pow 2 x.exponent.toNat, 0⟩
  else ⟨x.significand * Nat.pow 5 (-x.exponent).toNat, x.exponent⟩

/-- The shortest decimal that reads back to a nonzero magnitude. Seventeen digits
are always enough; the exact value stands behind them so that nothing is guessed. -/
def shortest (x : Binary64) : Decimal :=
  let top := x.magnitudeOf
  let found := (List.range 17).findSome? fun n => x.withDigits top (n + 1)
  Decimal.strip 17 (found.getD x.exactDecimal)

end WhereClause.Binary64
