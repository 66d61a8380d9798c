import LingoSource.JavaScript.Script
import LingoSource.Lingo.Script
import LingoSource.Recovery.Script
import LingoSource.Text.Case

set_option autoImplicit false

namespace LingoSource

inductive Target
  | lingo
  | javaScript
  deriving DecidableEq, Repr

structure UnknownTarget where
  word : String
  deriving DecidableEq, Repr

def UnknownTarget.message (e : UnknownTarget) : String :=
  "unknown target '" ++ e.word ++ "' (expected lingo or js)"

def Target.ofWord (word : String) : Except UnknownTarget Target :=
  match asciiLower word with
  | "lingo" | "ls" => .ok .lingo
  | "js" | "javascript" => .ok .javaScript
  | other => .error ⟨other⟩

structure Settings where
  indentWidth : Nat := Frame.defaultUnit.length
  target : Target := .lingo
  factory : Option String := none
  /-- The word that names the level of the log; it need not name one. -/
  logLevel : Option String := none
  deriving DecidableEq, Repr

namespace Settings

def indentUnit (s : Settings) : String :=
  String.ofList (List.replicate s.indentWidth ' ')

def recover (s : Settings) (names script : Bytes) : Except RecoveryError Script := do
  let tree ← Script.ofBytes names script
  return match s.factory with
    | some name => tree.setFactory name
    | none => tree

def render (s : Settings) (script : Script) : String :=
  match s.target with
  | .lingo => script.lingo s.indentUnit
  | .javaScript => script.javaScript s.indentUnit

end Settings

end LingoSource
