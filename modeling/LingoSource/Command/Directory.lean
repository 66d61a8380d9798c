import LingoSource.Bytes.Basic
import LingoSource.Text.Search

/-!
A directory of files as a value, with paths as a file system reads them, and the host around it,
which may refuse what it is asked for. Nothing is known to be outside of the directory but the
directories above it and what is written there. No path is a link to another one.
-/
set_option autoImplicit false

namespace LingoSource

inductive FileError
  | missing
  | isDirectory
  | notDirectory
  | nameTooLong
  | notText
  /-- Reading broke off after these bytes. -/
  | interrupted (start : Bytes) (text : String)
  | other (text : String)
  deriving DecidableEq, Repr

def FileError.message : FileError → String
  | .missing => "No such file or directory (os error 2)"
  | .isDirectory => "Is a directory (os error 21)"
  | .notDirectory => "Not a directory (os error 20)"
  | .nameTooLong => "File name too long (os error 36)"
  | .notText => "stream did not contain valid UTF-8"
  | .interrupted _ text => text
  | .other text => text

/-- The name of a file: the directories on the way to it and its own name. Outside of the directory
it starts with a slash, for the root. -/
abbrev FileName := List String

namespace FileName

/-- The one name of what has a name, with the way from the root to the directory. -/
def settled (location : List String) (name : FileName) : FileName :=
  if name = "/" :: location then [] else name

def above (location : List String) (name : FileName) : FileName :=
  match name with
  | [] => ("/" :: location).dropLast
  | ["/"] => ["/"]
  | _ => name.dropLast

end FileName

structure Path where
  /-- Where it starts: in the directory, or in the root. -/
  start : FileName
  /-- The parts that lead to the directory of the last one. -/
  way : List String
  last : String
  /-- Whether slashes follow, so that it is one of a directory. -/
  closed : Bool
  deriving DecidableEq, Repr

namespace Path

def lengthLimit : Nat := 4095
def partLimit : Nat := 255

def ofText (text : String) : Except FileError Path :=
  if text.isEmpty then .error .missing
  else if lengthLimit < text.utf8ByteSize then .error .nameTooLong
  else
    let parts := (Text.pieces '/' text.toList).map String.ofList
    let backwards := parts.reverse.dropWhile (· = "")
    .ok {
      start := if Text.startsWith text "/" then ["/"] else []
      way := backwards.tail.reverse
      last := backwards.headD "."
      closed := Text.endsWith text '/' }

def upwards (name : String) (location : List String) : List String :=
  (List.range (location.length + 1)).reverse.map fun depth =>
    "/" ++ "/".intercalate (location.take depth ++ [name])

end Path

inductive Place
  | file (name : FileName) (content : Bytes)
  | directory (name : FileName)
  /-- No file, in a directory that could hold one of this name. -/
  | vacant (name : FileName)
  deriving DecidableEq

structure Directory where
  files : List (FileName × Bytes)

namespace Directory

def content? (d : Directory) (name : FileName) : Option Bytes :=
  d.files.lookup name

/-- Whether a name is one of a directory: of one on the way from the root, or of one that a file lies
below. -/
def holds (d : Directory) (location : List String) (name : FileName) : Bool :=
  name.isPrefixOf ("/" :: location) ||
    d.files.any fun file => name.isPrefixOf file.1 && name.length < file.1.length

/-- What a part of a path leads to from a directory. An empty part and a point stay there, and two
points lead to the directory above. -/
def step (d : Directory) (location : List String) (place : FileName) (part : String) :
    Except FileError Place :=
  if part = "" ∨ part = "." then .ok (.directory place)
  else if part = ".." then .ok (.directory (place.above location))
  else if Path.partLimit < part.utf8ByteSize then .error .nameTooLong
  else
    let name := FileName.settled location (place ++ [part])
    match d.content? name with
    | some content => .ok (.file name content)
    | none => .ok (if d.holds location name then .directory name else .vacant name)

def enter (d : Directory) (location : List String) (place : FileName) :
    List String → Except FileError FileName
  | [] => .ok place
  | part :: rest =>
    match d.step location place part with
    | .ok (.directory name) => d.enter location name rest
    | .ok (.file ..) => .error .notDirectory
    | .ok (.vacant _) => .error .missing
    | .error e => .error e

def enterPath (d : Directory) (location : List String) (p : Path) : Except FileError FileName :=
  d.enter location (FileName.settled location p.start) p.way

def find (d : Directory) (location : List String) (path : String) :
    Except FileError (Option Bytes) := do
  let p ← Path.ofText path
  match ← d.step location (← d.enterPath location p) p.last with
  | .file _ content => if p.closed then .error .notDirectory else .ok (some content)
  | .directory _ => .ok none
  | .vacant _ => .error .missing

def readAt (d : Directory) (location : List String) (path : String) : Except FileError Bytes := do
  match ← d.find location path with
  | some content => .ok content
  | none => .error .isDirectory

/-- Where a directory is taken to be if nothing is said about it. -/
def somewhere : List String := ["tmp", "work"]

def read (d : Directory) (path : String) : Except FileError Bytes :=
  d.readAt somewhere path

def put (d : Directory) (name : FileName) (content : Bytes) : Directory :=
  ⟨(name, content) :: d.files.filter (·.1 ≠ name)⟩

def write (d : Directory) (location : List String) (path : String) (content : Bytes) :
    Except FileError Directory := do
  let p ← Path.ofText path
  let place ← d.enterPath location p
  if p.closed then .error .isDirectory
  else
    match ← d.step location place p.last with
    | .file name _ | .vacant name => .ok (d.put name content)
    | .directory _ => .error .isDirectory

theorem content?_put (d : Directory) (name other : FileName) (content : Bytes) :
    (d.put name content).content? other =
      if other = name then some content else d.content? other := by
  unfold put content?
  by_cases h : other = name
  · simp [h]
  · rw [if_neg h, List.lookup_cons, beq_eq_false_iff_ne.2 h]
    induction d.files with
    | nil => rfl
    | cons f rest ih =>
      obtain ⟨n, c⟩ := f
      by_cases hn : n = name
      · subst hn
        simpa [List.lookup_cons, beq_eq_false_iff_ne.2 h] using ih
      · simp only [ne_eq, hn, not_false_eq_true, decide_true, List.filter_cons_of_pos,
          List.lookup_cons]
        simp only [ne_eq] at ih
        rw [ih]

end Directory

/-- What a host is asked for beside taking what is printed, which it always does. -/
inductive Access
  /-- Where the directory is. -/
  | locate
  /-- Whether there is a file. -/
  | inspect
  | read
  | write
  deriving DecidableEq, Repr

/-- What is around a directory. A host may refuse anything, whatever the files are: for want of a
permission, or since a device fails. -/
structure Host where
  /-- The way from the root to the directory. -/
  location : List String := Directory.somewhere
  refuses : Access → String → Option FileError := fun _ _ => none

namespace Host

def answer {α : Type} (host : Host) (access : Access) (path : String) (result : Except FileError α) :
    Except FileError α :=
  match host.refuses access path with
  | some e => .error e
  | none => result

def locate (host : Host) : Except FileError (List String) :=
  host.answer .locate "." (.ok host.location)

def inspect (host : Host) (d : Directory) (path : String) : Except FileError Bool :=
  host.answer .inspect path ((d.find host.location path).map (·.isSome))

def read (host : Host) (d : Directory) (path : String) : Except FileError Bytes :=
  host.answer .read path (d.readAt host.location path)

def write (host : Host) (d : Directory) (path : String) (content : Bytes) :
    Except FileError Directory :=
  host.answer .write path (d.write host.location path content)

end Host

end LingoSource
