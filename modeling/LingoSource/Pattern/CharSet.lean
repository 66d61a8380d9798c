set_option autoImplicit false

namespace LingoSource

inductive CharSet
  | empty
  /-- The characters from `first` to `last`, both in the set. -/
  | range (first last : Char)
  | complement (a : CharSet)
  | union (a b : CharSet)
  | inter (a b : CharSet)
  /-- A set with the other case of each of its ASCII letters. -/
  | folded (a : CharSet)
  deriving DecidableEq, Repr

namespace CharSet

def has : CharSet → Char → Bool
  | .empty, _ => false
  | .range first last, c => first ≤ c && c ≤ last
  | .complement a, c => !a.has c
  | .union a b, c => a.has c || b.has c
  | .inter a b, c => a.has c && b.has c
  | .folded a, c => a.has c || a.has c.toLower || a.has c.toUpper

def single (c : Char) : CharSet :=
  .range c c

def diff (a b : CharSet) : CharSet :=
  .inter a (.complement b)

def symmDiff (a b : CharSet) : CharSet :=
  .union (diff a b) (diff b a)

def ofRanges (ranges : List (Char × Char)) : CharSet :=
  ranges.foldr (fun r s => .union (.range r.1 r.2) s) .empty

def digits : CharSet := .range '0' '9'

def letters : CharSet := ofRanges [('A', 'Z'), ('a', 'z')]

def wordCharacters : CharSet := .union letters (.union digits (single '_'))

def spaces : CharSet := ofRanges [('\t', '\r'), (' ', ' ')]

def named : List (String × CharSet) := [
  ("alnum", .union letters digits),
  ("alpha", letters),
  ("ascii", .range '\x00' '\x7f'),
  ("blank", ofRanges [('\t', '\t'), (' ', ' ')]),
  ("cntrl", ofRanges [('\x00', '\x1f'), ('\x7f', '\x7f')]),
  ("digit", digits),
  ("graph", .range '!' '~'),
  ("lower", .range 'a' 'z'),
  ("print", .range ' ' '~'),
  ("punct", ofRanges [('!', '/'), (':', '@'), ('[', '\x60'), ('\x7b', '~')]),
  ("space", spaces),
  ("upper", .range 'A' 'Z'),
  ("word", wordCharacters),
  ("xdigit", ofRanges [('0', '9'), ('A', 'F'), ('a', 'f')])]

end CharSet

end LingoSource
