import LingoSource.Text.Blank
import LingoSource.Text.Letter
import LingoSource.Bytes.Basic

/-!
The variables of the environment, and the file that adds to them. Each line of the file sets a
variable; a value may be quoted, single quotes taking everything as it is, and a quoted value may
span lines. Reading stops at the first line that is not understood, and the lines before it stay in
force. No variable can have a value with a null character: who sets one to it is ended by the host.
-/
set_option autoImplicit false

namespace LingoSource

structure Environment where
  values : List (String × String) := []

namespace Environment

def get? (env : Environment) (name : String) : Option String :=
  env.values.lookup name

inductive LineError
  | notUnderstood
  | nullCharacter
  deriving DecidableEq, Repr

def supply (env : Environment) (name value : String) : Except LineError Environment :=
  match env.get? name with
  | some _ => .ok env
  | none =>
    if '\x00' ∈ value.toList then .error .nullCharacter
    else .ok ⟨env.values ++ [(name, value)]⟩

inductive Quoting
  | plain
  /-- After a blank, where a comment may start. -/
  | blank
  | escaped
  | single
  | singleEscaped
  | double
  | doubleEscaped
  deriving DecidableEq, Repr

def Quoting.after (q : Quoting) (c : Char) : Option Quoting :=
  let outside : Quoting :=
    if c = '\\' then .escaped else if c = '"' then .double else if c = '\'' then .single else .plain
  match q with
  | .plain => if isBlank c ∧ c ≠ '\n' ∧ c ≠ '\r' then some .blank else some outside
  | .blank => if c = '#' then none else some outside
  | .escaped => some .plain
  | .single => some (if c = '\\' then .singleEscaped else if c = '\'' then .plain else .single)
  | .singleEscaped => some .single
  | .double => some (if c = '\\' then .doubleEscaped else if c = '"' then .plain else .double)
  | .doubleEscaped => some .double

def beforeComment (q : Quoting) : List Char → List Char × Option Quoting
  | [] => ([], some q)
  | c :: rest =>
    match q.after c with
    | none => ([], none)
    | some q =>
      let (kept, final) := beforeComment q rest
      (c :: kept, final)

/-- Joins lines that belong to one quoted value. `joined` holds what is read of the current one.
Ends early at a line that is not text and at a value that does not end. -/
def joinLines (joined : List Char) (q : Quoting) : List (Option (List Char)) → List (List Char)
  | some line :: rest =>
    let whole := joined ++ line
    if (trimStart whole).head? = some '#' then joinLines [] .plain rest
    else
      match beforeComment q line with
      | (kept, none) => (joined ++ kept) :: joinLines [] .plain rest
      | (_, some .plain) => whole :: joinLines [] .plain rest
      | (_, some q) => joinLines whole q rest
  | _ => []

inductive Reading
  | text (double : Bool)
  | escaped (double : Bool)
  | single
  /-- In the name of a variable, spelled backwards. -/
  | name (double : Bool) (spelled : List Char)
  | bracedName (double : Bool) (spelled : List Char)
  /-- After a blank outside quotes: only a comment may follow. -/
  | ended

def expansion (env : Environment) (spelled : List Char) : List Char :=
  ((env.get? (String.ofList spelled.reverse)).getD "").toList

def escapedValueChar (c : Char) : Option Char :=
  if c ∈ ['\\', '\'', '"', '$', ' '] then some c
  else if c = 'n' then some '\n'
  else none

/-- The value from a place in it on. A dollar sign outside single quotes starts the name of a
variable, which ends before the first character that no name has; that character then stands for
itself. -/
def valueFrom (env : Environment) : Reading → List Char → Option (List Char)
  | .text double, [] | .escaped double, [] => if double then none else some []
  | .name double spelled, [] => if double then none else some (env.expansion spelled)
  | .ended, [] => some []
  | .single, [] | .bracedName .., [] => none
  | .text double, c :: rest =>
    if c = '$' then valueFrom env (.name double []) rest
    else if c = '"' then valueFrom env (.text (!double)) rest
    else if c = '\\' then valueFrom env (.escaped double) rest
    else if !double ∧ c = '\'' then valueFrom env .single rest
    else if !double ∧ (c = ' ' ∨ c = '\t') then valueFrom env .ended rest
    else (valueFrom env (.text double) rest).map (c :: ·)
  | .escaped double, c :: rest => do
    let d ← escapedValueChar c
    return d :: (← valueFrom env (.text double) rest)
  | .single, c :: rest =>
    if c = '\'' then valueFrom env (.text false) rest
    else (valueFrom env .single rest).map (c :: ·)
  | .name double spelled, c :: rest =>
    if isAlphanumeric c then valueFrom env (.name double (c :: spelled)) rest
    else if c = '\x7b' ∧ spelled = [] then valueFrom env (.bracedName double []) rest
    else if c = '$' then (valueFrom env (.name double []) rest).map (env.expansion spelled ++ ·)
    else (valueFrom env (.text double) rest).map (env.expansion spelled ++ c :: ·)
  | .bracedName double spelled, c :: rest =>
    if c = '\x7d' then (valueFrom env (.text double) rest).map (env.expansion spelled ++ ·)
    else valueFrom env (.bracedName double (c :: spelled)) rest
  | .ended, c :: rest =>
    if c = ' ' ∨ c = '\t' then valueFrom env .ended rest
    else if c = '#' then some []
    else none

def leadingName (s : List Char) : Option (List Char × List Char) :=
  match s with
  | c :: _ =>
    if c.isAlpha || c = '_' then
      some (s.span fun c => c.isAlphanum || c = '_' || c = '.')
    else none
  | [] => none

def afterEquals (s : List Char) : Option (List Char) :=
  match trimStart s with
  | '=' :: rest => some (trimStart rest)
  | _ => none

def assignment (s : List Char) : Option (List Char × List Char) := do
  let (name, rest) ← leadingName s
  match afterEquals rest with
  | some value => return (name, value)
  | none =>
    if name = "export".toList then
      let (name, rest) ← leadingName (trimStart rest)
      return (name, ← afterEquals rest)
    else none

def setting? (env : Environment) (s : List Char) : Option (String × String) := do
  let (name, rest) ← assignment s
  let value ← if rest.isEmpty ∨ rest.head? = some '#' then some []
    else valueFrom env (.text false) rest
  return (String.ofList name, String.ofList value)

def addLine (env : Environment) (line : List Char) : Except LineError Environment :=
  match trimStart (trimEnd line) with
  | [] => .ok env
  | '#' :: _ => .ok env
  | s =>
    match env.setting? s with
    | some (name, value) => env.supply name value
    | none => .error .notUnderstood

def addLines (env : Environment) : List (List Char) → Option Environment
  | [] => some env
  | line :: rest =>
    match env.addLine line with
    | .ok env => addLines env rest
    | .error .notUnderstood => some env
    | .error .nullCharacter => none

def byteLines : List UInt8 → List (List UInt8)
  | [] => []
  | b :: rest =>
    if b = 10 then [b] :: byteLines rest
    else
      match byteLines rest with
      | [] => [[b]]
      | line :: lines => (b :: line) :: lines

def lines (file : Bytes) : List (List Char) :=
  let file := if file.toList.take 3 = [0xef, 0xbb, 0xbf] then file.toList.drop 3 else file.toList
  joinLines [] .plain ((byteLines file).map fun line =>
    (String.fromUTF8? ⟨line.toArray⟩).map String.toList)

def load (env : Environment) (file : Bytes) : Option Environment :=
  env.addLines (lines file)

def wholeLines (file : Bytes) : Bytes :=
  (file.toList.reverse.dropWhile (· ≠ 10)).reverse.toArray

end Environment

end LingoSource
