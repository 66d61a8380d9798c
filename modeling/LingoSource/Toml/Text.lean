import LingoSource.Text.Hexadecimal
import LingoSource.Toml.Line
import LingoSource.Toml.Value

set_option autoImplicit false

namespace LingoSource.Toml

def codePoint (count : Nat) : Reader Char := fun s =>
  let digits := s.take count
  let n := numberOf 16 digits
  if digits.length = count ∧ digits.all isHexDigit ∧ n.isValidChar then
    some (Char.ofNat n, s.drop count)
  else none

def escapedChar : Reader Char
  | 'b' :: rest => some ('\x08', rest)
  | 't' :: rest => some ('\t', rest)
  | 'n' :: rest => some ('\n', rest)
  | 'f' :: rest => some ('\x0c', rest)
  | 'r' :: rest => some ('\r', rest)
  | '"' :: rest => some ('"', rest)
  | '\\' :: rest => some ('\\', rest)
  | 'u' :: rest => codePoint 4 rest
  | 'U' :: rest => codePoint 8 rest
  | _ => none

def quotedRest : (fuel : Nat) → Reader (List Char)
  | 0, _ => none
  | fuel + 1, s =>
    match s with
    | '"' :: rest => some ([], rest)
    | '\\' :: rest => do
      let (c, rest) ← escapedChar rest
      let (cs, rest) ← quotedRest fuel rest
      return (c :: cs, rest)
    | c :: rest =>
      if isPlain c then do
        let (cs, rest) ← quotedRest fuel rest
        return (c :: cs, rest)
      else none
    | [] => none

/-- The end of a string in three quotes `q`, which may have up to two quotes of its own before them.
-/
def closingQuotes (q : Char) (s : List Char) : Option (List Char × List Char) :=
  let n := (s.takeWhile (· = q)).length
  if n < 3 then none else
    let own := min (n - 3) 2
    some (List.replicate own q, s.drop (own + 3))

/-- The rest after the line end that a backslash hides, together with all blank lines and the
indentation of the next one. -/
def hiddenLineEnd? (s : List Char) : Option (List Char) :=
  (lineEnd? (skipSpaces s)).map skipLineEnds

def longQuotedRest : (fuel : Nat) → Reader (List Char)
  | 0, _ => none
  | fuel + 1, s =>
    match closingQuotes '"' s with
    | some (own, rest) => some (own, rest)
    | none =>
      match s with
      | '\\' :: rest =>
        match hiddenLineEnd? rest with
        | some rest => longQuotedRest fuel rest
        | none => do
          let (c, rest) ← escapedChar rest
          let (cs, rest) ← longQuotedRest fuel rest
          return (c :: cs, rest)
      | c :: rest =>
        match lineEnd? s with
        | some rest => do
          let (cs, rest) ← longQuotedRest fuel rest
          return ('\n' :: cs, rest)
        | none =>
          if isPlain c then do
            let (cs, rest) ← longQuotedRest fuel rest
            return (c :: cs, rest)
          else none
      | [] => none

def literalRest (s : List Char) : Option (List Char × List Char) :=
  let cs := s.takeWhile (· ≠ '\'')
  match s.dropWhile (· ≠ '\'') with
  | _ :: rest => if cs.all isPlain then some (cs, rest) else none
  | [] => none

def longLiteralRest : (fuel : Nat) → Reader (List Char)
  | 0, _ => none
  | fuel + 1, s =>
    match closingQuotes '\'' s with
    | some (own, rest) => some (own, rest)
    | none =>
      match lineEnd? s, s with
      | some rest, _ => do
        let (cs, rest) ← longLiteralRest fuel rest
        return ('\n' :: cs, rest)
      | none, c :: rest =>
        if isPlain c then do
          let (cs, rest) ← longLiteralRest fuel rest
          return (c :: cs, rest)
        else none
      | none, [] => none

def shortText : Reader String
  | '"' :: rest =>
    (quotedRest (rest.length + 1) rest).map fun (cs, rest) => (String.ofList cs, rest)
  | '\'' :: rest => (literalRest rest).map fun (cs, rest) => (String.ofList cs, rest)
  | _ => none

/-- A string. A line end directly after three opening quotes does not count. -/
def text? : Reader String
  | '"' :: '"' :: '"' :: rest =>
    (longQuotedRest (rest.length + 1) ((lineEnd? rest).getD rest)).map
      fun (cs, rest) => (String.ofList cs, rest)
  | '\'' :: '\'' :: '\'' :: rest =>
    (longLiteralRest (rest.length + 1) ((lineEnd? rest).getD rest)).map
      fun (cs, rest) => (String.ofList cs, rest)
  | s => shortText s

def isBareKeyChar (c : Char) : Bool :=
  c.isAlphanum || c = '_' || c = '-'

def keyPart (s : List Char) : Option (String × List Char) :=
  match shortText s, s.takeWhile isBareKeyChar with
  | some r, _ => some r
  | none, [] => none
  | none, word => some (String.ofList word, s.dropWhile isBareKeyChar)

def keyParts : (limit : Nat) → Reader DottedKey
  | 0, _ => none
  | limit + 1, s => do
    let (part, s) ← keyPart (skipSpaces s)
    match skipSpaces s with
    | '.' :: s =>
      let (key, s) ← keyParts limit s
      return ({ key with way := part :: key.way }, s)
    | s => return (⟨[], part⟩, s)

def dottedKey : Reader DottedKey :=
  keyParts 79

end LingoSource.Toml
