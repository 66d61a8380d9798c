import LingoSource.Text.Letter
import LingoSource.Pattern.Bracket

set_option autoImplicit false

namespace LingoSource.Pattern

structure Group where
  /-- The choices before the last bar. -/
  choices : Option Pattern := none
  /-- The current choice without its last part. -/
  front : Pattern := .nothing
  /-- The last part, which may be repeated; there is none behind a bar or switches. -/
  last : Option Pattern := none
  deriving DecidableEq, Repr

namespace Group

def choice (g : Group) : Pattern :=
  match g.last with
  | some p => .andThen g.front p
  | none => g.front

def pattern (g : Group) : Pattern :=
  match g.choices with
  | some p => .either p g.choice
  | none => g.choice

def add (g : Group) (p : Pattern) : Group :=
  { g with front := g.choice, last := some p }

def switched (g : Group) : Group :=
  { g with front := g.choice, last := none }

def nextChoice (g : Group) : Group :=
  { choices := some g.pattern }

end Group

inductive Opening
  /-- Another mode for the rest of the group around, and no group. -/
  | switches (m : Mode)
  | group (m : Mode) (name : Option (List Char))
  deriving DecidableEq, Repr

def isNamePart (c : Char) : Bool :=
  isAlphanumeric c || c ∈ ['_', '.', '[', ']']

def readName (s : List Char) : Option (List Char × List Char) :=
  match s.span isNamePart with
  | (c :: name, '>' :: rest) =>
    if c = '_' || isAlphabetic c then some (c :: name, rest) else none
  | _ => none

def readOpening (m : Mode) (s : List Char) : Option (Opening × List Char) :=
  let named (rest : List Char) : Option (Opening × List Char) :=
    (readName rest).map fun (name, rest) => (.group m (some name), rest)
  match m.skip s with
  | '?' :: 'P' :: '<' :: rest => named rest
  | '?' :: '<' :: rest => named rest
  | '?' :: rest =>
    match m.readSwitches [] rest with
    | some (m, ')' :: rest) => some (.switches m, rest)
    | some (m, _ :: rest) => some (.group m none, rest)
    | _ => none
  | s => some (.group m none, s)

def readNumber (m : Mode) (s : List Char) : Option (Nat × List Char) :=
  let (digits, rest) := m.gatherAll Char.isDigit (s.dropWhile isBlank)
  if digits.isEmpty then none
  else
    let n := numberOf 10 digits
    if n ≤ 0xffffffff then some (n, m.skip (rest.dropWhile isBlank)) else none

def readCount (m : Mode) (mark : Char) (s : List Char) :
    Option ((Nat × Option Nat) × List Char) :=
  if mark = '?' then some ((0, some 1), s)
  else if mark = '*' then some ((0, none), s)
  else if mark = '+' then some ((1, none), s)
  else do
    let (least, rest) ← readNumber m (m.skip s)
    let (most, rest) ← match rest with
      | ',' :: rest =>
        match m.skip rest with
        | '\x7d' :: rest => pure (none, '\x7d' :: rest)
        | rest => do
          let (most, rest) ← readNumber m rest
          pure (some most, rest)
      | rest => pure (some least, rest)
    match rest with
    | '\x7d' :: rest =>
      if most.all (least ≤ ·) then some ((least, most), m.skip rest) else none
    | _ => none

def skipShort : List Char → List Char
  | '?' :: rest => rest
  | s => s

def literal (m : Mode) (c : Char) : Option Pattern :=
  if !m.foldsCase then some (.one (.single c))
  else if m.wide then none
  else some (.one (if c.isAlpha then .folded (.single c) else .single c))

/-- The pattern of a point. One of ASCII would stand for parts of characters. -/
def point (m : Mode) : Option Pattern :=
  if !m.wide then none
  else if m.pointIsAny then some (.one (.complement .empty))
  else if m.anyLineEnd then some (.one (.complement (.ofRanges [('\n', '\n'), ('\r', '\r')])))
  else some (.one (.complement (.single '\n')))

def startEdge (m : Mode) : Edge :=
  if !m.eachLine then .textStart else if m.anyLineEnd then .anyLineStart else .lineStart

def endEdge (m : Mode) : Edge :=
  if !m.eachLine then .textEnd else if m.anyLineEnd then .anyLineEnd else .lineEnd

def readPart (m : Mode) (c : Char) (rest : List Char) : Option (Pattern × List Char) :=
  if c = '[' then (readSet m rest).map fun (s, rest) => (.one s, rest)
  else if c = '.' then (point m).map (·, rest)
  else if c = '^' then some (.edge (startEdge m), rest)
  else if c = '$' then some (.edge (endEdge m), rest)
  else if c = '\\' then do
    let (a, rest) ← Atom.readEscape m rest
    match a with
    | .char c => return (← literal m c, rest)
    | .set s => return (.one s, rest)
    | .edge e => return (.edge e, rest)
  else (literal m c).map (·, rest)

/-- Reads the rest of a group up to its closing parenthesis, which is left, or to the end. `names`
are those of the groups so far; no two groups share one. -/
def readGroup (fuel : Nat) (m : Mode) (names : List (List Char)) (g : Group) (s : List Char) :
    Option (Pattern × List (List Char) × List Char) :=
  match fuel with
  | 0 => none
  | fuel + 1 =>
    match m.skip s with
    | [] => some (g.pattern, names, [])
    | c :: rest =>
      if c = ')' then some (g.pattern, names, c :: rest)
      else if c = '|' then readGroup fuel m names g.nextChoice rest
      else if c = '(' then do
        match ← readOpening m rest with
        | (.switches m, rest) => readGroup fuel m names g.switched rest
        | (.group inner name, rest) =>
          if name.any (· ∈ names) then none
          else
            match ← readGroup fuel inner (name.toList ++ names) {} rest with
            | (p, names, ')' :: rest) => readGroup fuel m names (g.add p) rest
            | _ => none
      else if c ∈ ['?', '*', '+', '\x7b'] then do
        let p ← g.last
        let ((least, most), rest) ← readCount m c rest
        readGroup fuel m names { g with last := some (.times p least most) } (skipShort rest)
      else do
        let (p, rest) ← readPart m c rest
        readGroup fuel m names (g.add p) rest

def sizeLimit : Nat := 327680

def read (text : List Char) : Option Pattern :=
  match readGroup (text.length + 1) {} [] {} text with
  | some (p, _, []) => if p.size ≤ sizeLimit then some p else none
  | _ => none

end LingoSource.Pattern
