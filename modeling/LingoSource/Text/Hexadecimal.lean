set_option autoImplicit false

namespace LingoSource

def hexDigit (n : Nat) : Char :=
  Char.ofNat (if n < 10 then 48 + n else 87 + n)

def hexPair (n : Nat) : List Char :=
  [hexDigit (n / 16), hexDigit (n % 16)]

def hexAddress (n : Nat) : String :=
  "0x" ++ String.ofList (Nat.toDigits 16 n)

def hexByte (b : UInt8) : String :=
  "0x" ++ String.ofList (hexPair b.toNat)

def digitValue (c : Char) : Nat :=
  if c.isDigit then c.toNat - 48 else c.toLower.toNat - 87

def isHexDigit (c : Char) : Bool :=
  c.isDigit || ('a' ≤ c.toLower && c.toLower ≤ 'f')

def numberOf (radix : Nat) (digits : List Char) : Nat :=
  digits.foldl (fun n c => n * radix + digitValue c) 0

end LingoSource
