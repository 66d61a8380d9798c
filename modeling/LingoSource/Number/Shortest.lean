import LingoSource.Number.Double

/-!
The shortest decimal that reads back as a given binary64 number. A finite number `m * 2 ^ q` owns
the interval of reals that round to it, ends included iff `m` is even. Grids of one, two, three, …
leading digits are tried in turn; on each, only the two neighbours of the number itself can lie in
the interval if any point of the grid does. All comparisons are between whole numbers.
-/
set_option autoImplicit false

namespace LingoSource

structure Decimal where
  digits : Nat
  exponent : Int
  deriving DecidableEq, Repr

def compareScaled (c : Nat) (t : Int) (x : Nat) (p : Int) : Ordering :=
  compare (c * Nat.pow 10 t.toNat * Nat.pow 2 (-p).toNat)
    (x * Nat.pow 2 p.toNat * Nat.pow 10 (-t).toNat)

def decimalDigits (n : Nat) : Nat :=
  (Nat.toDigits 10 n).length

/-- The exponent `e` with `10 ^ e ≤ num / den < 10 ^ (e + 1)`. -/
def leadingExponent (num den : Nat) : Int :=
  if den ≤ num then (decimalDigits (num / den) : Int) - 1
  else -(decimalDigits ((den - 1) / num) : Int)

namespace Double

def narrowBelow (d : Double) : Bool :=
  d.fraction = 0 ∧ 1 < d.exponentField

/-- Whether a decimal rounds to the finite positive number `d`. The bounds of the interval are
counted in quarters of the last place. -/
def owns (d : Double) (x : Decimal) : Bool :=
  let low := 4 * d.significand - (if d.narrowBelow then 1 else 2)
  let high := 4 * d.significand + 2
  let below := compareScaled x.digits x.exponent low (d.scale - 2)
  let above := compareScaled x.digits x.exponent high (d.scale - 2)
  if d.significand % 2 = 0 then below != .lt && above != .gt
  else below == .gt && above == .lt

def leadingDigit (d : Double) : Int :=
  leadingExponent (d.significand * Nat.pow 2 d.scale.toNat) (Nat.pow 2 (-d.scale).toNat)

/-- The decimal of `count` digits closest to `d` among those that read back as `d`. Two equally
close ones give the larger. -/
def shortestWith (d : Double) (count : Nat) : Option Decimal :=
  let t : Int := d.leadingDigit - count + 1
  let c : Nat :=
    d.significand * Nat.pow 2 d.scale.toNat * Nat.pow 10 (-t).toNat /
      (Nat.pow 2 (-d.scale).toNat * Nat.pow 10 t.toNat)
  let lower : Decimal := ⟨c, t⟩
  let upper : Decimal := ⟨c + 1, t⟩
  if d.owns lower then
    if d.owns upper && compareScaled (2 * c + 1) t (2 * d.significand) d.scale != .gt then
      some upper
    else some lower
  else if d.owns upper then some upper
  else none

def shortest (d : Double) : Decimal :=
  ((List.range' 1 17).findSome? d.shortestWith).getD ⟨0, 0⟩

end Double

end LingoSource
