import LingoSource.Command.Run

set_option autoImplicit false

namespace LingoSource

/-- The failure behind an error of the system, whose code may come with its sign turned. -/
def FileError.ofSystem (e : IO.Error) : FileError :=
  let isCode (n code : UInt32) : Bool := n = code || n = 0 - code
  match e with
  | .noFileOrDirectory .. => .missing
  | .inappropriateType _ n _ => if isCode n 21 then .isDirectory else .notDirectory
  | .invalidArgument _ n _ => if isCode n 36 then .nameTooLong else .other (toString e)
  | e => .other (toString e)

def answerOf {α : Type} (request : IO α) : IO (Except FileError α) := do
  match ← request.toBaseIO with
  | .ok a => return .ok a
  | .error e => return .error (FileError.ofSystem e)

def Action.perform {α : Type} : Action α → IO α
  | .done a => return a
  | .findDirectory next => do
    let directory ← answerOf IO.currentDir
    (next (directory.map fun d => d.components.filter (· ≠ ""))).perform
  | .inspectFile path next => do
    let metadata ← answerOf (do ((← IO.currentDir) / path).metadata)
    (next (metadata.map (·.type == .file))).perform
  | .readFile path next => do
    let content ← answerOf (IO.FS.readBinFile path)
    (next (content.map ByteArray.data)).perform
  | .writeFile path text next => do
    let answer ← answerOf (IO.FS.writeFile path text)
    (next answer).perform
  | .print text next => do
    (← IO.getStdout).putStr text
    next.perform
  | .log entry next => do
    (← IO.getStderr).putStrLn (entry.level.name ++ " " ++ entry.message)
    next.perform

def systemVariables : List String :=
  [Command.settingsVariable, Command.logVariable, "HOME", "PWD", "USER"]

def systemEnvironment : IO Environment := do
  let found ← systemVariables.filterMapM fun name => do
    return (← IO.getEnv name).map fun value => (name, value)
  return ⟨found⟩

end LingoSource

def main (words : List String) : IO UInt32 := do
  let env ← LingoSource.systemEnvironment
  let status ← (LingoSource.Command.start env words).perform
  if status = .misuse then
    (← IO.getStderr).putStr LingoSource.Arguments.usage
  return UInt32.ofNat status.code
