import LingoSource.Number.Shortest

set_option autoImplicit false

namespace LingoSource

/-- A layout is positional iff the exponent of the leading digit is at least `positionalFrom` and
less than `positionalBelow`; otherwise the exponent is signed and has at least `exponentWidth`
digits. A positional text always has a point. -/
structure NumberLayout where
  positionalFrom : Int
  positionalBelow : Int
  exponentWidth : Nat
  nanText : String
  infinityText : String

namespace NumberLayout

def significantDigits (n : Nat) : List Char :=
  ((Nat.toDigits 10 n).reverse.dropWhile (· = '0')).reverse

def positional (digits : List Char) (leading : Int) : List Char :=
  if leading < 0 then
    '0' :: '.' :: (List.replicate (-leading - 1).toNat '0' ++ digits)
  else
    let whole := digits.take (leading.toNat + 1)
    let rest := digits.drop (leading.toNat + 1)
    whole ++ List.replicate (leading.toNat + 1 - digits.length) '0' ++
      '.' :: (if rest.isEmpty then ['0'] else rest)

def scientific (exponentWidth : Nat) (digits : List Char) (leading : Int) : List Char :=
  let exponent := Nat.toDigits 10 leading.natAbs
  let mantissa := match digits with
    | [] => []
    | [d] => [d]
    | d :: rest => d :: '.' :: rest
  mantissa ++ 'e' :: (if leading < 0 then '-' else '+') ::
    (List.replicate (exponentWidth - exponent.length) '0' ++ exponent)

def decimal (layout : NumberLayout) (x : Decimal) : List Char :=
  let digits := significantDigits x.digits
  let leading : Int := x.exponent + decimalDigits x.digits - 1
  if layout.positionalFrom ≤ leading ∧ leading < layout.positionalBelow then
    positional digits leading
  else
    scientific layout.exponentWidth digits leading

def text (layout : NumberLayout) (d : Double) : String :=
  if d.isNaN then layout.nanText
  else
    let sign := if d.negative then "-" else ""
    if d.isInfinite then sign ++ layout.infinityText
    else if d.significand = 0 then sign ++ "0.0"
    else sign ++ String.ofList (layout.decimal d.shortest)

end NumberLayout

end LingoSource
