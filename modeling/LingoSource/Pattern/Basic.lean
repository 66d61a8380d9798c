import LingoSource.Pattern.CharSet

/-!
Patterns of text and where they occur. A match is followed as a set of places in the text: a pattern
takes the places where it may start to those where it may end, so the order of choices does not
matter and the work is bounded by the text.
-/
set_option autoImplicit false

namespace LingoSource

inductive Edge
  | textStart
  | textEnd
  | lineStart
  | lineEnd
  /-- At lines that also end with a carriage return, with or without a line feed behind it. -/
  | anyLineStart
  | anyLineEnd
  | word
  | notWord
  | wordStart
  | wordEnd
  /-- No word before the place. -/
  | wordStartHalf
  /-- No word after the place. -/
  | wordEndHalf
  deriving DecidableEq, Repr

namespace Edge

def isWord (side : Option Char) : Bool :=
  side.any CharSet.wordCharacters.has

def holds (e : Edge) (before after : Option Char) : Bool :=
  match e with
  | .textStart => before.isNone
  | .textEnd => after.isNone
  | .lineStart => before.isNone || before = some '\n'
  | .lineEnd => after.isNone || after = some '\n'
  | .anyLineStart =>
    before.isNone || before = some '\n' || (before = some '\r' && after ≠ some '\n')
  | .anyLineEnd =>
    after.isNone || after = some '\r' || (after = some '\n' && before ≠ some '\r')
  | .word => isWord before != isWord after
  | .notWord => isWord before == isWord after
  | .wordStart => !isWord before && isWord after
  | .wordEnd => isWord before && !isWord after
  | .wordStartHalf => !isWord before
  | .wordEndHalf => !isWord after

end Edge

inductive Pattern
  | nothing
  | one (s : CharSet)
  | edge (e : Edge)
  | andThen (a b : Pattern)
  | either (a b : Pattern)
  /-- At least `least` times and, if there is a bound, at most `most` times. -/
  | times (a : Pattern) (least : Nat) (most : Option Nat)
  deriving DecidableEq, Repr

/-- Which places of a text are marked, from the one before its first character to the one after its
last. -/
abbrev Marks := List Bool

namespace Marks

def join (a b : Marks) : Marks :=
  List.zipWith (· || ·) a b

def advance (s : CharSet) (text : List Char) (m : Marks) : Marks :=
  false :: List.zipWith (fun marked c => marked && s.has c) m text

def neighbours (text : List Char) : List (Option Char × Option Char) :=
  (none :: text.map some).zip (text.map some ++ [none])

def keep (e : Edge) (text : List Char) (m : Marks) : Marks :=
  List.zipWith (fun marked n => marked && e.holds n.1 n.2) m (neighbours text)

/-- What up to `n` rounds of a step reach, the start included. A round without gain is the last. -/
def upTo (step : Marks → Marks) : Nat → Marks → Marks
  | 0, m => m
  | n + 1, m =>
    let next := m.join (step m)
    if next = m then m else upTo step n next

end Marks

namespace Pattern

/-- The places where a match may end that starts at a marked place. A match of a text takes no more
steps forward than the text has characters, so more rounds than that reach nothing new. -/
def ends (text : List Char) : Pattern → Marks → Marks
  | .nothing, m => m
  | .one s, m => m.advance s text
  | .edge e, m => m.keep e text
  | .andThen a b, m => b.ends text (a.ends text m)
  | .either a b, m => (a.ends text m).join (b.ends text m)
  | .times a least most, m =>
    let rounds := text.length + 1
    let reached := Nat.repeat (fun m => a.ends text m) (min least rounds) m
    let more := match most with
      | some k => min (k - least) rounds
      | none => rounds
    Marks.upTo (fun m => a.ends text m) more reached

def occursIn (p : Pattern) (text : List Char) : Bool :=
  (p.ends text (List.replicate (text.length + 1) true)).any id

def size : Pattern → Nat
  | .nothing | .one _ | .edge _ => 1
  | .andThen a b => a.size + b.size
  | .either a b => a.size + b.size + 2
  | .times a least most =>
    match most with
    | none => max least 1 * a.size + 1
    | some k => k * a.size + (k - least) + 1

end Pattern

end LingoSource
