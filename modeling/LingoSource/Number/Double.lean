/-!
Binary floating point numbers of 64 bits as words, without floating point arithmetic: a finite
word stands for `significand * 2 ^ scale`, and `Double.nearest` rounds a number of that form, with
any significand, to the closest word.
-/
set_option autoImplicit false

namespace LingoSource

/-- A binary64 word: a sign bit, eleven bits of exponent and fifty-two of fraction. -/
structure Double where
  word : UInt64
  deriving DecidableEq, Repr

def roundDiv (n d : Nat) : Nat :=
  let q := n / d
  let r := n % d
  if d < 2 * r ∨ (2 * r = d ∧ q % 2 = 1) then q + 1 else q

def binaryDigits (n : Nat) : Nat :=
  if n = 0 then 0 else n.log2 + 1

namespace Double

def negative (d : Double) : Bool :=
  d.word.toNat / Nat.pow 2 63 = 1

def exponentField (d : Double) : Nat :=
  d.word.toNat / Nat.pow 2 52 % Nat.pow 2 11

def fraction (d : Double) : Nat :=
  d.word.toNat % Nat.pow 2 52

def isFinite (d : Double) : Bool :=
  d.exponentField ≠ 2047

def isInfinite (d : Double) : Bool :=
  d.exponentField = 2047 ∧ d.fraction = 0

def isNaN (d : Double) : Bool :=
  d.exponentField = 2047 ∧ d.fraction ≠ 0

def significand (d : Double) : Nat :=
  if d.exponentField = 0 then d.fraction else Nat.pow 2 52 + d.fraction

def scale (d : Double) : Int :=
  (max d.exponentField 1 : Nat) - 1075

def ofMagnitude (negative : Bool) (bits : Nat) : Double :=
  ⟨UInt64.ofNat ((if negative then Nat.pow 2 63 else 0) + bits % Nat.pow 2 63)⟩

def infinity (negative : Bool) : Double :=
  ofMagnitude negative (2047 * Nat.pow 2 52)

def zero (negative : Bool) : Double :=
  ofMagnitude negative 0

def nan : Double :=
  ofMagnitude false (2047 * Nat.pow 2 52 + Nat.pow 2 51)

/-- The word closest to `m * 2 ^ e`, a tie to the even significand, with the given sign. The scale
is the least that leaves at most fifty-three digits and is no less than the scale of the smallest
numbers; a significand that rounds up to the next power of two carries into the exponent field. -/
def nearest (negative : Bool) (m : Nat) (e : Int) : Double :=
  let q : Int := max (e + binaryDigits m - 53) (-1074)
  let s : Nat :=
    if q ≤ e then m * Nat.pow 2 (e - q).toNat else roundDiv m (Nat.pow 2 (q - e).toNat)
  let bits : Nat := (q + 1074).toNat * Nat.pow 2 52 + s
  if s = 0 then zero negative
  else if 2047 * Nat.pow 2 52 ≤ bits then infinity negative
  else ofMagnitude negative bits

end Double

end LingoSource
