import LingoSource.Settings.Basic

/-!
The arguments of the command: options with a value, each at most once. The value stands in the same
word after an equals sign, or is the next word, which then does not start with a hyphen.
-/
set_option autoImplicit false

namespace LingoSource

structure Arguments where
  names : String
  script : String
  target : Option Target := none
  factory : Option String := none
  settings : Option String := none
  output : Option String := none
  deriving DecidableEq, Repr

inductive Request
  | help
  | decompile (arguments : Arguments)
  deriving DecidableEq, Repr

namespace Arguments

inductive Opt
  | names
  | script
  | target
  | factory
  | settings
  | output
  deriving DecidableEq, Repr

def Opt.all : List Opt := [.names, .script, .target, .factory, .settings, .output]

def Opt.word : Opt → String
  | .names => "--lnam"
  | .script => "--lscr"
  | .target => "--target"
  | .factory => "--factory"
  | .settings => "--config"
  | .output => "--out"

def Opt.ofWord? (word : String) : Option Opt :=
  Opt.all.find? (·.word = word)

def Opt.accepts (o : Opt) (value : String) : Bool :=
  match o with
  | .factory => true
  | .target => (Target.ofWord value).isOk
  | _ => value ≠ ""

abbrev Given := List (Opt × String)

def give (given : Given) (o : Opt) (value : String) : Option Given :=
  if o.accepts value ∧ (given.lookup o).isNone then some (given ++ [(o, value)]) else none

def ofGiven (given : Given) : Option Arguments := do
  return {
    names := ← given.lookup .names
    script := ← given.lookup .script
    target := (given.lookup .target).bind fun word => (Target.ofWord word).toOption
    factory := given.lookup .factory
    settings := given.lookup .settings
    output := given.lookup .output }

def isValue (word : String) : Bool :=
  word = "-" || word.toList.head? ≠ some '-'

def option? (word : String) : Option (Opt × Option String) :=
  match word.toList.span (· ≠ '=') with
  | (name, []) => (Opt.ofWord? (String.ofList name)).map fun o => (o, none)
  | (name, _ :: value) =>
    (Opt.ofWord? (String.ofList name)).map fun o => (o, some (String.ofList value))

/-- Whether a word asks for help: by its name, or as the first of several letters. -/
def asksForHelp (word : String) : Bool :=
  word = "--help" || ['-', 'h'].isPrefixOf word.toList

/-- Reads the words after the options that are given already. Nothing is left of a faulty command,
but a question for help is answered unless a fault comes before it. -/
def readFrom (given : Given) : List String → Option Request
  | [] | ["--"] => (ofGiven given).map .decompile
  | word :: rest =>
    if asksForHelp word then some .help
    else
      match option? word, rest with
      | some (o, some value), rest => do readFrom (← give given o value) rest
      | some (o, none), value :: rest =>
        if isValue value then do readFrom (← give given o value) rest else none
      | _, _ => none

def read (words : List String) : Option Request :=
  readFrom [] words

def usage : String :=
  "Usage: lscr2src [OPTIONS] --lnam <PATH> --lscr <PATH>\n\n" ++
  "Options:\n" ++
  "      --lnam <PATH>      Name table chunk (LNAM) the script refers to\n" ++
  "      --lscr <PATH>      Compiled script chunk (LSCR)\n" ++
  "      --target <TARGET>  Output language: lingo or js\n" ++
  "      --factory <NAME>   Render the script as a factory with this name\n" ++
  "      --config <PATH>    TOML config file (defaults to $LSCR2SRC_CONFIG when set)\n" ++
  "      --out <PATH>       Write the source here instead of stdout\n" ++
  "  -h, --help             Print help\n"

end Arguments

end LingoSource
