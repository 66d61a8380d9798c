import LingoSource.Toml.Text

set_option autoImplicit false

namespace LingoSource.Toml

/-- Further digits, each with at most one underscore before it; only the digits are kept. -/
def moreDigits (isDigit : Char → Bool) : List Char → List Char × List Char
  | '_' :: d :: rest =>
    if isDigit d then
      let (ds, rest) := moreDigits isDigit rest
      (d :: ds, rest)
    else ([], '_' :: d :: rest)
  | d :: rest =>
    if isDigit d then
      let (ds, rest) := moreDigits isDigit rest
      (d :: ds, rest)
    else ([], d :: rest)
  | [] => ([], [])

def digits (isDigit : Char → Bool) : Reader (List Char)
  | d :: rest =>
    if isDigit d then
      let (ds, rest) := moreDigits isDigit rest
      some (d :: ds, rest)
    else none
  | [] => none

def wholeDigits : Reader (List Char)
  | '0' :: rest => some (['0'], rest)
  | s => digits Char.isDigit s

def sign : List Char → Bool × List Char
  | '-' :: rest => (true, rest)
  | '+' :: rest => (false, rest)
  | s => (false, s)

def integerOf (negative : Bool) (magnitude : Nat) : Option Toml :=
  let n : Int := if negative then -magnitude else magnitude
  if -(Nat.pow 2 63 : Int) ≤ n ∧ n < Nat.pow 2 63 then some (.integer n) else none

/-- Whether digits times `10 ^ e` round to infinity: they do from halfway between the largest
binary64 number and the power of two after it. -/
def roundsToInfinity (ds : List Char) (e : Int) : Bool :=
  let limit := Nat.pow 2 1024 - Nat.pow 2 970
  let m := numberOf 10 ds
  if m = 0 ∨ e < -(ds.length : Int) then false
  else if 400 < e then true
  else limit * Nat.pow 10 (-e).toNat ≤ m * Nat.pow 10 e.toNat

/-- A float; only a negative one may round to infinity. -/
def floatOf (negative : Bool) (ds : List Char) (e : Int) : Option Toml :=
  if !negative && roundsToInfinity ds e then none else some .float

def exponent? : List Char → Option (Option (Int × List Char))
  | c :: rest =>
    if c = 'e' || c = 'E' then do
      let (negative, rest) := sign rest
      let (ds, rest) ← digits Char.isDigit rest
      let n := numberOf 10 ds
      return some (if negative then -n else n, rest)
    else some none
  | [] => some none

def decimal (negative : Bool) (s : List Char) : Option (Toml × List Char) := do
  let (whole, s) ← wholeDigits s
  let (part, s, point) ← match s with
    | '.' :: s => do
      let (part, s) ← digits Char.isDigit s
      pure (part, s, true)
    | s => pure ([], s, false)
  match ← exponent? s with
  | some (e, s) => return (← floatOf negative (whole ++ part) (e - part.length), s)
  | none =>
    if point then return (← floatOf negative (whole ++ part) (-part.length), s)
    else return (← integerOf negative (numberOf 10 whole), s)

def radixNumber (radix : Nat) (s : List Char) : Option (Toml × List Char) := do
  let (ds, s) ← digits (fun c => isHexDigit c && digitValue c < radix) s
  return (← integerOf false (numberOf radix ds), s)

def number : Reader Toml
  | '0' :: 'x' :: s => radixNumber 16 s
  | '0' :: 'o' :: s => radixNumber 8 s
  | '0' :: 'b' :: s => radixNumber 2 s
  | s =>
    match sign s with
    | (_, 'i' :: 'n' :: 'f' :: s) | (_, 'n' :: 'a' :: 'n' :: s) => some (.float, s)
    | (negative, s) => decimal negative s

def fixedDigits (count low high : Nat) : Reader Nat := fun s =>
  let ds := s.take count
  let n := numberOf 10 ds
  if ds.length = count ∧ ds.all Char.isDigit ∧ low ≤ n ∧ n ≤ high then some (n, s.drop count)
  else none

def sameChar (c : Char) : List Char → Option (List Char)
  | d :: rest => if d = c then some rest else none
  | [] => none

def daysOfMonth (year month : Nat) : Nat :=
  if month = 2 then
    if (year % 4 = 0 ∧ year % 100 ≠ 0) ∨ year % 400 = 0 then 29 else 28
  else if month = 4 ∨ month = 6 ∨ month = 9 ∨ month = 11 then 30
  else 31

def date? (s : List Char) : Option (List Char) := do
  let (year, s) ← fixedDigits 4 0 9999 s
  let (month, s) ← fixedDigits 2 1 12 (← sameChar '-' s)
  let (_, s) ← fixedDigits 2 1 (daysOfMonth year month) (← sameChar '-' s)
  return s

def clock? (s : List Char) : Option (List Char) := do
  let (_, s) ← fixedDigits 2 0 23 s
  let (_, s) ← fixedDigits 2 0 59 (← sameChar ':' s)
  return s

def time? (s : List Char) : Option (List Char) := do
  let (_, s) ← fixedDigits 2 0 60 (← sameChar ':' (← clock? s))
  match s with
  | '.' :: d :: rest => return if d.isDigit then rest.dropWhile Char.isDigit else s
  | s => return s

def skipOffset : List Char → List Char
  | c :: rest =>
    if c = 'Z' || c = 'z' then rest
    else if c = '+' || c = '-' then (clock? rest).getD (c :: rest)
    else c :: rest
  | [] => []

def skipTimeOfDay : List Char → List Char
  | c :: rest =>
    if c = 'T' || c = 't' || c = ' ' then ((time? rest).map skipOffset).getD (c :: rest)
    else c :: rest
  | [] => []

def moment? (s : List Char) : Option (List Char) :=
  match date? s with
  | some rest => some (skipTimeOfDay rest)
  | none => time? s

/-- A value that starts like a number. A date or a time wins over the number it starts with. -/
def numberOrMoment (s : List Char) : Option (Toml × List Char) :=
  match moment? s with
  | some rest => some (.moment, rest)
  | none => number s

end LingoSource.Toml
