import LingoSource.Command.Directory
import LingoSource.Command.Log

/-!
What a command does to the world, one request after another. A run on a directory and the run in a
real file system are two readings of the same action.
-/
set_option autoImplicit false

namespace LingoSource

inductive Action (α : Type)
  | done (a : α)
  | findDirectory (next : Except FileError (List String) → Action α)
  | inspectFile (path : String) (next : Except FileError Bool → Action α)
  | readFile (path : String) (next : Except FileError Bytes → Action α)
  | writeFile (path text : String) (next : Except FileError Unit → Action α)
  | print (text : String) (next : Action α)
  | log (entry : LogEntry) (next : Action α)

namespace Action

def andThen {α β : Type} (a : Action α) (f : α → Action β) : Action β :=
  match a with
  | .done x => f x
  | .findDirectory next => .findDirectory fun answer => (next answer).andThen f
  | .inspectFile path next => .inspectFile path fun answer => (next answer).andThen f
  | .readFile path next => .readFile path fun answer => (next answer).andThen f
  | .writeFile path text next => .writeFile path text fun answer => (next answer).andThen f
  | .print text next => .print text (next.andThen f)
  | .log entry next => .log entry (next.andThen f)

instance : Monad Action where
  pure := .done
  bind := andThen

def locate : Action (Except FileError (List String)) :=
  .findDirectory .done

def inspect (path : String) : Action (Except FileError Bool) :=
  .inspectFile path .done

def read (path : String) : Action (Except FileError Bytes) :=
  .readFile path .done

def write (path text : String) : Action (Except FileError Unit) :=
  .writeFile path text .done

def say (text : String) : Action Unit :=
  .print text (.done ())

def report (f : LogFilter) : List LogEntry → Action Unit
  | [] => .done ()
  | entry :: rest => if f.shows entry then .log entry (report f rest) else report f rest

end Action

structure Session where
  directory : Directory
  host : Host := {}
  printed : String := ""
  logged : List LogEntry := []

def Action.run {α : Type} : Action α → Session → α × Session
  | .done a, s => (a, s)
  | .findDirectory next, s => (next s.host.locate).run s
  | .inspectFile path next, s => (next (s.host.inspect s.directory path)).run s
  | .readFile path next, s => (next (s.host.read s.directory path)).run s
  | .writeFile path text next, s =>
    match s.host.write s.directory path text.toUTF8.data with
    | .ok directory => (next (.ok ())).run { s with directory }
    | .error e => (next (.error e)).run s
  | .print text next, s => next.run { s with printed := s.printed ++ text }
  | .log entry next, s => next.run { s with logged := s.logged ++ [entry] }

theorem Action.run_andThen {α β : Type} (a : Action α) (f : α → Action β) (s : Session) :
    (a.andThen f).run s = (f (a.run s).1).run (a.run s).2 := by
  induction a generalizing s with
  | done x => rfl
  | findDirectory next ih => simp [andThen, Action.run, ih]
  | inspectFile path next ih => simp [andThen, Action.run, ih]
  | readFile path next ih => simp [andThen, Action.run, ih]
  | writeFile path text next ih =>
    simp only [andThen, Action.run]
    split <;> simp [ih]
  | print text next ih => simp [andThen, Action.run, ih]
  | log entry next ih => simp [andThen, Action.run, ih]

end LingoSource
