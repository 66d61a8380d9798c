import LingoSource.Bytes.Basic
import LingoSource.Number.Double

/-!
Extended floating point numbers of 80 bits: a sign, fifteen bits of exponent with bias 16383 and a
significand of 64 bits whose integer bit is explicit. Decoding keeps fifty-three digits of the
significand first and scales it afterwards, so only results below the normal range round twice.
-/
set_option autoImplicit false

namespace LingoSource

/-- The number of an extended word, as a binary64 word. The power of two is itself a binary64
number: past the largest it is infinite, whose product with zero is not a number, and below
`2 ^ -1023` it is zero. -/
def Double.ofExtended (negative : Bool) (exponent significand : Nat) : Double :=
  let n : Int := (exponent : Int) - 16383
  let excess : Nat := binaryDigits significand - 53
  let s : Nat := roundDiv significand (Nat.pow 2 excess)
  if 1024 ≤ n then
    if significand = 0 then .nan else .infinity negative
  else if n ≤ -1024 then
    .zero negative
  else
    .nearest negative s (n + excess - 63)

def Double.ofExtendedBytes (bytes : List UInt8) : Double :=
  let head : Nat := bigEndian (bytes.take 2)
  .ofExtended (Nat.pow 2 15 ≤ head) (head % Nat.pow 2 15) (bigEndian (bytes.drop 2))

end LingoSource
