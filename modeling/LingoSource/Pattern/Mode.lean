import LingoSource.Text.Blank
import LingoSource.Pattern.Basic

set_option autoImplicit false

namespace LingoSource.Pattern

structure Mode where
  foldsCase : Bool := false
  /-- Text edges are those of each line. -/
  eachLine : Bool := false
  /-- A point stands for line ends, too. -/
  pointIsAny : Bool := false
  /-- Lines also end with a carriage return. -/
  anyLineEnd : Bool := false
  spaced : Bool := false
  /-- Sets are sets of all characters; else they are sets of ASCII. -/
  wide : Bool := true
  deriving DecidableEq, Repr

namespace Mode

/-- The mode with the switch of a letter on or off. One more letter chooses between short and long
matches, which makes no difference to where a match starts. -/
def switch (m : Mode) (on : Bool) : Char → Option Mode
  | 'i' => some { m with foldsCase := on }
  | 'm' => some { m with eachLine := on }
  | 's' => some { m with pointIsAny := on }
  | 'R' => some { m with anyLineEnd := on }
  | 'x' => some { m with spaced := on }
  | 'u' => some { m with wide := on }
  | 'U' => some m
  | _ => none

def readSwitches (m : Mode) (seen : List Char) : List Char → Option (Mode × List Char)
  | [] => none
  | c :: rest =>
    if c = ':' ∨ c = ')' then
      if seen.head? = some '-' ∨ (seen = [] ∧ c = ')') then none else some (m, c :: rest)
    else if c ∈ seen then none
    else if c = '-' then readSwitches m (c :: seen) rest
    else
      match m.switch (!seen.contains '-') c with
      | some m => readSwitches m (c :: seen) rest
      | none => none

/-- Takes up to `limit` characters of a class from the front. In a spaced pattern the blanks and
comments before, between and after them are passed over; `comment` tells whether the text starts in
one. -/
def gather (m : Mode) (isOne : Char → Bool) (limit : Nat) (comment : Bool) :
    List Char → List Char × List Char
  | [] => ([], [])
  | c :: rest =>
    if comment then m.gather isOne limit (c ≠ '\n') rest
    else if isOne c && 0 < limit then
      let (taken, rest) := m.gather isOne (limit - 1) false rest
      (c :: taken, rest)
    else if m.spaced && isBlank c then m.gather isOne limit false rest
    else if m.spaced && c = '#' then m.gather isOne limit true rest
    else ([], c :: rest)

def gatherAll (m : Mode) (isOne : Char → Bool) (s : List Char) : List Char × List Char :=
  m.gather isOne s.length false s

def skip (m : Mode) (s : List Char) : List Char :=
  (m.gather (fun _ => false) 0 false s).2

end Mode

end LingoSource.Pattern
