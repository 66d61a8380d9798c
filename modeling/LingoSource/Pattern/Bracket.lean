import LingoSource.Pattern.Atom

/-!
Sets in brackets. Members stand side by side; two of the marks `&`, `-` and `~` between them make an
intersection, a difference or a symmetric difference with all that stands before.
-/
set_option autoImplicit false

namespace LingoSource.Pattern

/-- A set as the mode makes it. A wide pattern has no table of cases, and a set of ASCII has no
characters beyond. -/
def closeSet (m : Mode) (negated : Bool) (s : CharSet) : Option CharSet :=
  let s := if m.foldsCase then .folded s else s
  let s := if negated then .complement s else s
  if (m.wide ∧ m.foldsCase) ∨ (!m.wide ∧ s.has '\x80') then none else some s

def memberChar (m : Mode) : Atom → Option Char
  | .char c => if m.wide ∨ c.toNat < 0x80 then some c else none
  | _ => none

def memberSet (m : Mode) : Atom → Option CharSet
  | .set s => some s
  | a => (memberChar m a).map .single

def readMember (m : Mode) : List Char → Option (Atom × List Char)
  | [] => none
  | '\\' :: rest => Atom.readEscape m rest
  | c :: rest => some (.char c, rest)

def readRange (m : Mode) (s : List Char) : Option (CharSet × List Char) := do
  let (first, rest) ← readMember m s
  match m.skip rest with
  | [] => none
  | '-' :: rest =>
    match m.skip rest with
    | [] => none
    | c :: after =>
      if c = ']' ∨ c = '-' then return (← memberSet m first, '-' :: rest)
      else do
        let (last, rest) ← readMember m (c :: after)
        let a ← memberChar m first
        let b ← memberChar m last
        if a ≤ b then return (.range a b, rest) else none
  | rest => return (← memberSet m first, rest)

def namedSet? : List Char → Option (Bool × CharSet × List Char)
  | ':' :: rest =>
    let (negated, rest) := match rest with
      | '^' :: rest => (true, rest)
      | rest => (false, rest)
    match rest.span (· ≠ ':') with
    | (name, ':' :: ']' :: rest) =>
      (CharSet.named.lookup (String.ofList name)).map fun s => (negated, s, rest)
    | _ => none
  | _ => none

structure OpenSet where
  negated : Bool
  /-- What the members since the last mark make with all that stands before. -/
  finish : CharSet → Option CharSet := some
  members : CharSet := .empty

namespace OpenSet

def add (o : OpenSet) (s : CharSet) : OpenSet :=
  { o with members := .union o.members s }

def operate (m : Mode) (op : CharSet → CharSet → CharSet) (o : OpenSet) : Option OpenSet := do
  let left ← closeSet m false (← o.finish o.members)
  return { o with
    finish := fun right => (closeSet m false right).map (op left)
    members := .empty }

def close (m : Mode) (o : OpenSet) : Option CharSet := do
  closeSet m o.negated (← o.finish o.members)

def read (m : Mode) (s : List Char) : OpenSet × List Char :=
  let (negated, s) := match m.skip s with
    | '^' :: rest => (true, m.skip rest)
    | s => (false, s)
  match m.gatherAll (· = '-') s with
  | ([], ']' :: rest) => (⟨negated, some, .single ']'⟩, rest)
  | ([], rest) => (⟨negated, some, .empty⟩, rest)
  | (_, rest) => (⟨negated, some, .single '-'⟩, rest)

end OpenSet

def readMembers (m : Mode) (fuel : Nat) (outer : List OpenSet) (current : OpenSet)
    (s : List Char) : Option (CharSet × List Char) :=
  match fuel with
  | 0 => none
  | fuel + 1 =>
    match m.skip s with
    | [] => none
    | ']' :: rest => do
      let set ← current.close m
      match outer with
      | [] => some (set, rest)
      | current :: outer => readMembers m fuel outer (current.add set) rest
    | '[' :: rest =>
      match namedSet? rest with
      | some (negated, set, rest) => do
        readMembers m fuel outer (current.add (← closeSet m negated set)) rest
      | none =>
        let (inner, rest) := OpenSet.read m rest
        readMembers m fuel (current :: outer) inner rest
    | '&' :: '&' :: rest => do readMembers m fuel outer (← current.operate m .inter) rest
    | '-' :: '-' :: rest => do readMembers m fuel outer (← current.operate m .diff) rest
    | '~' :: '~' :: rest => do readMembers m fuel outer (← current.operate m .symmDiff) rest
    | s => do
      let (set, rest) ← readRange m s
      readMembers m fuel outer (current.add set) rest

def readSet (m : Mode) (s : List Char) : Option (CharSet × List Char) :=
  let (current, rest) := OpenSet.read m s
  readMembers m (s.length + 1) [] current rest

end LingoSource.Pattern
