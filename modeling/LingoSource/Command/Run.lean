import LingoSource.Command.Action
import LingoSource.Command.Arguments
import LingoSource.Command.Environment
import LingoSource.Settings.Read

set_option autoImplicit false

namespace LingoSource

inductive CommandError
  | unreadableSettings (path : String) (cause : FileError)
  | invalidSettings
  /-- The settings that the environment names cannot be used. -/
  | namedSettings (cause : CommandError)
  | unreadable (path : String) (cause : FileError)
  | unrecovered (path : String) (cause : RecoveryError)
  | unwritable (path : String) (cause : FileError)
  deriving DecidableEq, Repr

namespace Command

def settingsVariable : String := "LSCR2SRC_CONFIG"

def logVariable : String := "RUST_LOG"

def environmentFile : String := ".env"

def placeOf (e : RecoveryError) : String :=
  match e.offset?, e.opcode? with
  | some offset, some opcode => "offset " ++ hexAddress offset ++ ", opcode " ++ hexByte opcode
  | some offset, none => "offset " ++ hexAddress offset
  | none, _ => "while reading chunk headers"

end Command

/-- A failure from the outside in; the cause of unreadable settings is told twice. -/
def CommandError.message : CommandError → String
  | .unreadableSettings path cause =>
    "cannot read config " ++ path ++ ": " ++ cause.message ++ ": " ++ cause.message
  | .invalidSettings => "invalid config"
  | .namedSettings cause =>
    "loading config named by " ++ Command.settingsVariable ++ ": " ++ cause.message
  | .unreadable path cause => "reading " ++ path ++ ": " ++ cause.message
  | .unrecovered path cause =>
    "decompiling " ++ path ++ " (" ++ Command.placeOf cause ++ "): " ++ cause.message
  | .unwritable path cause => "writing " ++ path ++ ": " ++ cause.message

def CommandError.aborts : CommandError → Bool
  | .unrecovered _ (.malformedChunk (.overflow _)) => true
  | _ => false

inductive ExitStatus
  | success
  | failure
  | misuse
  | aborted
  deriving DecidableEq, Repr

def ExitStatus.code : ExitStatus → Nat
  | .success => 0
  | .failure => 1
  | .misuse => 2
  | .aborted => 101

namespace Command

def readSettings (path : String) : Action (Except CommandError Settings) := do
  match ← Action.read path with
  | .error e => return .error (.unreadableSettings path e)
  | .ok content =>
    match String.fromUTF8? ⟨content⟩ with
    | none => return .error (.unreadableSettings path .notText)
    | some document =>
      match Settings.ofToml document with
      | none => return .error .invalidSettings
      | some settings => return .ok settings

def override (a : Arguments) (s : Settings) : Settings :=
  { s with
    target := a.target.getD s.target
    factory := a.factory.or s.factory }

/-- The settings in force: of the file in the arguments, else of the file in the environment, else
the defaults, and arguments over them. -/
def loadSettings (env : Environment) (a : Arguments) : Action (Except CommandError Settings) := do
  let loaded ← match a.settings, env.get? settingsVariable with
    | some path, _ => readSettings path
    | none, some path => do pure ((← readSettings path).mapError .namedSettings)
    | none, none => pure (.ok {})
  return loaded.map (override a)

def detailsOf (e : ChunkError) : List LogEntry :=
  let source : LogSource := match e with
    | .unknownConstantType _ => .constants
    | _ => .script
  e.detail?.toList.map (LogEntry.mk .error source ·)

def remarks (names script : Bytes) : List LogEntry :=
  match NameTable.read names with
  | .error e => detailsOf e
  | .ok table =>
    match ScriptChunk.read script with
    | .error e => detailsOf e
    | .ok chunk => (chunk.missingNames table).map fun id =>
      ⟨.warn, .names, "name index " ++ toString id ++ " outside the name table"⟩

def deliver (a : Arguments) (source : String) : Action (Except CommandError Unit) := do
  match a.output with
  | none =>
    Action.say source
    return .ok ()
  | some path => return (← Action.write path source).mapError (.unwritable path)

def decompile (f : LogFilter) (s : Settings) (a : Arguments) :
    Action (Except CommandError Unit) := do
  match ← Action.read a.names with
  | .error e => return .error (.unreadable a.names e)
  | .ok names =>
    match ← Action.read a.script with
    | .error e => return .error (.unreadable a.script e)
    | .ok script =>
      Action.report f (remarks names script)
      match s.recover names script with
      | .error e => return .error (.unrecovered a.script e)
      | .ok tree =>
        Action.report f [⟨.info, .command, "decompiled " ++
          toString tree.functions.length ++ " handlers from " ++ a.script⟩]
        deliver a (s.render tree)

def logFilter (env : Environment) (s : Settings) : LogFilter :=
  LogFilter.choose (env.get? logVariable) s.logLevel

def fail (f : LogFilter) (e : CommandError) : Action ExitStatus := do
  if e.aborts then return .aborted
  Action.report f [⟨.error, .command, e.message⟩]
  return .failure

def run (env : Environment) (a : Arguments) : Action ExitStatus := do
  match ← loadSettings env a with
  | .error e => fail (logFilter env {}) e
  | .ok s =>
    match ← decompile (logFilter env s) s a with
    | .error e => fail (logFilter env s) e
    | .ok () => return .success

/-- The first of some paths that leads to a file. A path that cannot be looked at ends the search. -/
def findFile : List String → Action (Option String)
  | [] => return none
  | path :: rest => do
    match ← Action.inspect path with
    | .ok true => return some path
    | .ok false | .error .missing => findFile rest
    | .error _ => return none

def usable? : Except FileError Bytes → Option Bytes
  | .ok file => some file
  | .error (.interrupted start _) => some (Environment.wholeLines start)
  | .error _ => none

def loadEnvironment (env : Environment) : Action (Option Environment) := do
  match ← Action.locate with
  | .error _ => return some env
  | .ok location =>
    match ← findFile (Path.upwards environmentFile location) with
    | none => return some env
    | some path =>
      match usable? (← Action.read path) with
      | none => return some env
      | some file => return env.load file

/-- The command with its words. The environment comes first, even where the words ask for help. -/
def start (env : Environment) (words : List String) : Action ExitStatus := do
  match ← loadEnvironment env with
  | none => return .aborted
  | some env =>
    match Arguments.read words with
    | none => return .misuse
    | some .help =>
      Action.say Arguments.usage
      return .success
    | some (.decompile a) => run env a

end Command

end LingoSource
