set_option autoImplicit false

namespace LingoSource.Toml

abbrev Reader (α : Type) := List Char → Option (α × List Char)

def isPlain (c : Char) : Bool :=
  c = '\t' || (0x20 ≤ c.toNat && c.toNat ≠ 0x7f)

def isSpace (c : Char) : Bool :=
  c = ' ' || c = '\t'

def skipSpaces (s : List Char) : List Char :=
  s.dropWhile isSpace

def lineEnd? : List Char → Option (List Char)
  | '\n' :: rest => some rest
  | '\r' :: '\n' :: rest => some rest
  | _ => none

/-- The rest after the line end that closes a line, with spaces and a comment before it. The last
line may end with the text. -/
def closeLine (s : List Char) : Option (List Char) :=
  let s := skipSpaces s
  let s := if s.head? = some '#' then s.dropWhile isPlain else s
  if s.isEmpty then some [] else lineEnd? s

def skipLineEnds : List Char → List Char
  | '\r' :: '\n' :: rest => skipLineEnds rest
  | c :: rest => if isSpace c || c = '\n' then skipLineEnds rest else c :: rest
  | [] => []

/-- Skips spaces, line ends and comments; `comment` tells whether the text starts inside one. -/
def skipLines (comment : Bool) : List Char → List Char
  | '\r' :: '\n' :: rest => skipLines false rest
  | c :: rest =>
    if c = '\n' then skipLines false rest
    else if comment && isPlain c then skipLines true rest
    else if !comment && isSpace c then skipLines false rest
    else if !comment && c = '#' then skipLines true rest
    else c :: rest
  | [] => []

end LingoSource.Toml
