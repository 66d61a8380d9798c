import LingoSource.Toml.Number

set_option autoImplicit false

namespace LingoSource.Toml

def scalar : Reader Toml
  | 't' :: 'r' :: 'u' :: 'e' :: rest => some (.boolean, rest)
  | 'f' :: 'a' :: 'l' :: 's' :: 'e' :: rest => some (.boolean, rest)
  | s =>
    match text? s with
    | some (t, rest) => some (.text t, rest)
    | none => numberOrMoment s

/-- The rest of an array: values with commas between them, on any number of lines. A comma may
follow the last. -/
def arrayRest (value : Reader Toml) : (fuel : Nat) → Reader (List Toml)
  | 0, _ => none
  | fuel + 1, s =>
    match skipLines false s with
    | ']' :: s => some ([], s)
    | s => do
      let (v, s) ← value s
      match skipLines false s with
      | ']' :: s => return ([v], s)
      | ',' :: s =>
        let (vs, s) ← arrayRest value fuel s
        return (v :: vs, s)
      | _ => none

def keyValue (value : Reader Toml) (s : List Char) : Option ((DottedKey × Toml) × List Char) := do
  let (key, s) ← dottedKey s
  let (v, s) ← value (skipSpaces (← sameChar '=' s))
  return ((key, v), s)

def inlineRest (value : Reader Toml) : (fuel : Nat) → Entries → Reader Entries
  | 0, _, _ => none
  | fuel + 1, entries, s => do
    let ((key, v), s) ← keyValue value s
    let entries ← entries.add key v .inline
    match skipSpaces s with
    | '}' :: s => return (entries, s)
    | ',' :: s => inlineRest value fuel entries s
    | _ => none

def value : (depth : Nat) → Reader Toml
  | 0, s => scalar s
  | depth + 1, s =>
    match s with
    | '[' :: s => do
      let (items, s) ← arrayRest (value depth) (s.length + 1) s
      return (.array items, s)
    | '\x7b' :: s =>
      match skipSpaces s with
      | '\x7d' :: s => some (.table .inline [], s)
      | s => do
        let (entries, s) ← inlineRest (value depth) (s.length + 1) [] s
        return (.table .inline entries, s)
    | s => scalar s

def nestedValue : Reader Toml :=
  value 79

inductive Line
  | entry (key : DottedKey) (v : Toml)
  | tableHeader (key : DottedKey)
  | elementHeader (key : DottedKey)

def line (s : List Char) : Option (Line × List Char) := do
  let (l, s) ← match s with
    | '[' :: '[' :: s => do
      let (key, s) ← dottedKey s
      pure (.elementHeader key, ← sameChar ']' (← sameChar ']' s))
    | '[' :: s => do
      let (key, s) ← dottedKey s
      pure (.tableHeader key, ← sameChar ']' s)
    | s => do
      let ((key, v), s) ← keyValue nestedValue s
      pure (.entry key v, s)
  return (l, ← closeLine s)

def linesFrom : (fuel : Nat) → List Char → Option (List Line)
  | 0, _ => none
  | fuel + 1, s =>
    match skipLines false s with
    | [] => some []
    | s => do
      let (l, s) ← line s
      return l :: (← linesFrom fuel s)

def lines (s : List Char) : Option (List Line) :=
  let s := if s.head? = some '\ufeff' then s.tail else s
  linesFrom (s.length + 1) s

/-- A document as far as it is read: its table, and the way to the table of the last header. -/
structure Draft where
  root : Entries
  way : List String

def Draft.add (d : Draft) : Line → Option Draft
  | .entry key v => do
    let root ← d.root.changeAt false (fun kind entries => entries.add key v kind) d.way .header
    return { d with root }
  | .tableHeader key => do return ⟨← d.root.openTable key, key.way ++ [key.name]⟩
  | .elementHeader key => do return ⟨← d.root.openElement key, key.way ++ [key.name]⟩

def read (s : String) : Option Entries := do
  let d ← (← lines s.toList).foldlM Draft.add ⟨[], []⟩
  return d.root

end LingoSource.Toml
