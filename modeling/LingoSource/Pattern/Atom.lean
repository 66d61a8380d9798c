import LingoSource.Pattern.Mode
import LingoSource.Text.Hexadecimal

/-!
What a backslash starts in a pattern: a character, a set or an edge. There are no tables here for
the digits, blanks and words of other scripts than Latin, so a wide pattern that asks for them is
refused, as is one of ASCII that asks for the complement of a set.
-/
set_option autoImplicit false

namespace LingoSource.Pattern

inductive Atom
  | char (c : Char)
  | set (s : CharSet)
  | edge (e : Edge)
  deriving DecidableEq, Repr

namespace Atom

def ofDigits (digits : List Char) : Option Char :=
  let n := numberOf 16 digits
  if n.isValidChar then some (Char.ofNat n) else none

/-- A character by its code point: in braces, or in just `count` digits. Two digits spell a byte,
which is a character only if it is one of ASCII or the pattern is wide. -/
def readHex (m : Mode) (count : Nat) (s : List Char) : Option (Atom × List Char) :=
  match m.skip s with
  | '\x7b' :: rest =>
    match m.gatherAll isHexDigit rest with
    | (d :: digits, '\x7d' :: rest) =>
      (ofDigits (d :: digits)).map fun c => (.char c, m.skip rest)
    | _ => none
  | s => do
    let (digits, rest) := m.gather isHexDigit count false s
    if digits.length ≠ count then none
    let c ← ofDigits digits
    if count = 2 ∧ !m.wide ∧ 0x7f < c.toNat then none else some (.char c, rest)

def namedEdges : List (String × Edge) := [
  ("start", .wordStart), ("end", .wordEnd),
  ("start-half", .wordStartHalf), ("end-half", .wordEndHalf)]

/-- An edge of a word, which may be named in braces; braces that hold no name belong to what
follows. -/
def readWordEdge (m : Mode) (s : List Char) : Option (Atom × List Char) :=
  let isOne (c : Char) : Bool := c.isAlpha || c = '-'
  match s with
  | '\x7b' :: rest =>
    match m.skip rest with
    | [] => none
    | c :: _ =>
      if isOne c then
        match m.gatherAll isOne rest with
        | (name, '\x7d' :: rest) =>
          (namedEdges.lookup (String.ofList name)).map fun e => (.edge e, rest)
        | _ => none
      else some (.edge .word, s)
  | _ => some (.edge .word, s)

def readEscape (m : Mode) : List Char → Option (Atom × List Char)
  | [] => none
  | c :: rest =>
    let narrow (a : Atom) := if m.wide then none else some (a, rest)
    match c with
    | 'x' => readHex m 2 rest
    | 'u' => readHex m 4 rest
    | 'U' => readHex m 8 rest
    | 'd' => narrow (.set .digits)
    | 's' => narrow (.set .spaces)
    | 'w' => narrow (.set .wordCharacters)
    | 'b' => if m.wide then none else readWordEdge m rest
    | 'B' => narrow (.edge .notWord)
    | '<' => narrow (.edge .wordStart)
    | '>' => narrow (.edge .wordEnd)
    | 'A' => some (.edge .textStart, rest)
    | 'z' => some (.edge .textEnd, rest)
    | 'a' => some (.char '\x07', rest)
    | 'f' => some (.char '\x0c', rest)
    | 't' => some (.char '\t', rest)
    | 'n' => some (.char '\n', rest)
    | 'r' => some (.char '\r', rest)
    | 'v' => some (.char '\x0b', rest)
    | c => if c.toNat < 0x80 && !c.isAlphanum then some (.char c, rest) else none

end Atom

end LingoSource.Pattern
