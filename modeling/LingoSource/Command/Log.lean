import LingoSource.Pattern.Read
import LingoSource.Settings.Basic
import LingoSource.Text.Search

set_option autoImplicit false

namespace LingoSource

inductive LogLevel
  | error
  | warn
  | info
  | debug
  | trace
  deriving DecidableEq, Repr

namespace LogLevel

def all : List LogLevel := [.error, .warn, .info, .debug, .trace]

def name : LogLevel → String
  | .error => "ERROR"
  | .warn => "WARN"
  | .info => "INFO"
  | .debug => "DEBUG"
  | .trace => "TRACE"

def ofWord? (word : String) : Option LogLevel :=
  all.find? fun level => asciiLower level.name = asciiLower word

def rank : LogLevel → Nat
  | .error => 1
  | .warn => 2
  | .info => 3
  | .debug => 4
  | .trace => 5

end LogLevel

inductive LogSource
  | command
  | names
  | script
  | constants
  deriving DecidableEq, Repr

def LogSource.path : LogSource → String
  | .command => "lscr2src"
  | .names => "lingo_decompiler::director::lingo::decompiler::context"
  | .script => "lingo_decompiler::director::chunks::script"
  | .constants => "lingo_decompiler::director::chunks::literal"

structure LogEntry where
  level : LogLevel
  source : LogSource
  message : String
  deriving DecidableEq, Repr

/-- The last level that shows; without one, none does. -/
structure Threshold where
  last : Option LogLevel
  deriving DecidableEq, Repr

namespace Threshold

def everything : Threshold := ⟨some .trace⟩

def shows (t : Threshold) (level : LogLevel) : Bool :=
  match t.last with
  | some last => level.rank ≤ last.rank
  | none => false

def ofWord? (word : String) : Option Threshold :=
  if asciiLower word = "off" then some ⟨none⟩
  else (LogLevel.ofWord? word).map fun level => ⟨some level⟩

end Threshold

/-- The threshold of the parts whose path starts with a name; without a name, of all parts. -/
structure LogRule where
  name : Option String
  threshold : Threshold
  deriving DecidableEq, Repr

namespace LogRule

/-- The rule of a text: a level, a name, or a name, an equals sign and a level, which may be left
out. There is none with another word for the level or a second equals sign. -/
def ofText? (text : List Char) : Option LogRule :=
  match (Text.pieces '=' text).map String.ofList with
  | [word] =>
    match Threshold.ofWord? word with
    | some t => some ⟨none, t⟩
    | none => some ⟨some word, .everything⟩
  | [name, word] =>
    match trimEnd (trimStart word.toList) with
    | [] => some ⟨some name, .everything⟩
    | word => (Threshold.ofWord? (String.ofList word)).map fun t => ⟨some name, t⟩
  | _ => none

def appliesTo (r : LogRule) (source : LogSource) : Bool :=
  r.name.all (Text.startsWith source.path ·)

def reach (r : LogRule) : Nat :=
  r.name.elim 0 String.length

end LogRule

structure LogFilter where
  rules : List LogRule
  /-- A pattern that occurs in every message that shows. -/
  pattern : Option Pattern := none
  deriving DecidableEq, Repr

namespace LogFilter

def putRule (r : LogRule) : List LogRule → List LogRule
  | [] => [r]
  | q :: rules => if q.name = r.name then r :: rules else q :: putRule r rules

def listedRules (text : List Char) : List LogRule :=
  (Text.pieces ',' text).filterMap fun piece =>
    match trimEnd (trimStart piece) with
    | [] => none
    | piece => LogRule.ofText? piece

/-- The rules and the pattern of a text, with a slash between them. With a second slash it counts
for nothing, and so does a pattern that is not understood. -/
def listed (text : String) : LogFilter :=
  match Text.pieces '/' text.toList with
  | [rules] => { rules := listedRules rules }
  | [rules, pattern] => { rules := listedRules rules, pattern := Pattern.read pattern }
  | _ => { rules := [] }

/-- The filter of what a variable of the environment lists and of the level in the settings, which
is a rule for all parts. Without any rule only errors show. -/
def choose (text setting : Option String) : LogFilter :=
  let first : List LogRule := match setting.bind LogLevel.ofWord? with
    | some level => [⟨none, ⟨some level⟩⟩]
    | none => []
  let more := listed (text.getD "")
  match more.rules.foldl (fun rules r => putRule r rules) first with
  | [] => { more with rules := [⟨none, ⟨some .error⟩⟩] }
  | rules => { more with rules }

/-- The rule that decides on a part: the one that reaches farthest, the last of those that reach as
far. -/
def deciding (f : LogFilter) (source : LogSource) : Option LogRule :=
  (f.rules.filter (·.appliesTo source)).foldl
    (fun best r => if best.all (·.reach ≤ r.reach) then some r else best) none

def shows (f : LogFilter) (e : LogEntry) : Bool :=
  (f.deciding e.source).any (·.threshold.shows e.level) &&
    f.pattern.all (·.occursIn e.message.toList)

end LogFilter

end LingoSource
