import LingoSource.Layout.Arguments
import LingoSource.Layout.Frame
import LingoSource.Text.Hexadecimal
import LingoSource.Text.Search
import LingoSource.Tree.Script

/-!
The JavaScript text of a node. A statement gets its text first, with all lines of the blocks it
opens, and is finished as a whole: a reference to a part of a text becomes a reading of it unless
the statement writes to it, and a statement that closes no block ends in a semicolon.
-/
set_option autoImplicit false

namespace LingoSource.JavaScript

structure Scope where
  factory : Option String
  handlers : List String

namespace Scope

def ofScript (s : Script) : Scope :=
  ⟨s.factory, s.functions.map (·.name)⟩

def inFactory (scope : Scope) : Bool :=
  scope.factory.isSome

def isMethod (scope : Scope) (name : String) : Bool :=
  scope.inFactory && name ∈ scope.handlers

def self (scope : Scope) : String :=
  if scope.inFactory then "this" else "me"

end Scope

/-- The last reference to a part of a text becomes a reading, unless a statement deletes the part or
an equals sign follows. -/
def readParts (text : String) : String :=
  match Text.splitLast "getPropRef".toList text.toList with
  | some (before, after) =>
    if Text.startsWith text "delete(" || '=' ∈ after then text
    else String.ofList (before ++ "getProp".toList ++ after)
  | none => text

def finish (text : String) : String :=
  let text := readParts text
  if Text.endsWith text '}' then text else text ++ ";"

def parenthesized (text : String) : String :=
  if Text.startsWith text "(" then text else "(" ++ text ++ ")"

/-- Inserts `.text` behind every `field(` group. With `some n`, the group still has `n` characters;
a group ends at its first closing parenthesis and has something inside. -/
def fieldTextFrom : Option Nat → List Char → List Char
  | _, [] => []
  | some n, c :: s =>
    if n = 1 then c :: (".text".toList ++ fieldTextFrom none s)
    else c :: fieldTextFrom (some (n - 1)) s
  | none, c :: s =>
    if "field(".toList.isPrefixOf (c :: s) then
      match (s.drop 5).idxOf? ')' with
      | some (n + 1) => c :: fieldTextFrom (some (n + 7)) s
      | _ => c :: fieldTextFrom none s
    else c :: fieldTextFrom none s

def fieldText (text : String) : String :=
  String.ofList (fieldTextFrom none text.toList)

def word (scope : Scope) (kind : LeafKind) (name : String) : String :=
  match kind with
  | .constant => if Text.startsWith name "\"" then "new LingoString(" ++ name ++ ")" else name
  | .symbol => "symbol('" ++ name ++ "')"
  | .localVariable | .parameterName => name
  | .raw => if name = "me" then scope.self else name
  | .globalVariable => "_global." ++ name
  | .propertyName | .definedPropertyName =>
    let owner := (Vocabulary.propertyOwners.lookup name).getD "me"
    (if owner = "me" then scope.self else owner) ++ "." ++ name
  | .dateTimeFunction => "_system.date('" ++ name ++ "')"
  | .menu => "_menuBar.menu[" ++ name ++ "]"
  | .menuItem => "item[" ++ name ++ "]"
  | .soundChannel => "sound(" ++ name ++ ")"
  | .sprite => "sprite(" ++ name ++ ")"
  | .cast => "member(" ++ name ++ ")"

def dropBytes : (count : Nat) → List Char → Option (List Char)
  | 0, s => some s
  | _ + 1, [] => none
  | count + 1, c :: s =>
    if c.utf8Size ≤ count + 1 then dropBytes (count + 1 - c.utf8Size) s else none

/-- The target that is folded into the name of a `go` call: what lies between `symbol('` and the
last two bytes of the text of the arguments. -/
def goTarget? (params : String) : Option String :=
  if Text.startsWith params "symbol('" then
    (dropBytes 2 (params.toList.drop 8).reverse).map fun s => String.ofList s.reverse
  else none

def callText (scope : Scope) (name params : String) (inTell : Bool) : String :=
  let called (callee : String) := callee ++ "(" ++ params ++ ")"
  match name with
  | "birth" => called "_movie.newScript"
  | "new" =>
    called (if Text.startsWith params "symbol(" then "_movie.newMember" else "_movie.newScript")
  | "go" =>
    let owner := if inTell then "" else "_movie."
    match goTarget? params with
    | some target => owner ++ "go" ++ capitalized target ++ "()"
    | none => called (owner ++ "go")
  | "cast" => called "member"
  | "continue" => called "resume"
  | "return" => if params.isEmpty then "return" else "return " ++ params
  | name => called (if scope.isMethod name then "this." ++ name else name)

mutual

def text (scope : Scope) (frame : Frame) : Node → String
  | .leaf kind name _ => word scope kind name
  | .unary _ op operand => op.javaScript ++ "(" ++ text scope .plain operand ++ ")"
  | .binary _ op left right =>
    let a := text scope .plain left
    let b := text scope .plain right
    if op.isMethod then "sprite(" ++ a ++ ")" ++ op.javaScript ++ "(sprite(" ++ b ++ "))"
    else "(" ++ a ++ " " ++ op.javaScript ++ " " ++ b ++ ")"
  | .assign _ left right => text scope .plain left ++ " = " ++ text scope .plain right
  | .put _ mode left right =>
    let target := text scope .plain left
    let target :=
      if Text.startsWith target "field(" && Text.endsWith target ')' then fieldText target
      else target
    let value := text scope .plain right
    match mode with
    | .into => target ++ " = " ++ value
    | .after => target ++ " = " ++ target ++ " + " ++ value
    | .before => target ++ " = " ++ value ++ " + " ++ target
  | .chunk _ kind first of =>
    text scope .plain of ++ ".getPropRef(\"" ++ kind.name ++ "\", " ++ text scope .plain first ++
      ")"
  | .chunkRange _ kind first last of =>
    text scope .plain of ++ ".getPropRef(\"" ++ kind.name ++ "\", " ++ text scope .plain first ++
      ", " ++ text scope .plain last ++ ")"
  | .aspect _ op part of =>
    match part with
    | some part =>
      if op = .last then text scope .plain of ++ ".getProp(\"" ++ part ++ "\", \"last\")"
      else text scope .plain of ++ "." ++ part ++ "." ++ op.javaScript
    | none =>
      (if of.word? = some "menus" then "_menuBar.menu" else text scope .plain of) ++ "." ++
        op.javaScript
  | .property _ object name =>
    let owner := text scope .plain object
    if owner = "tell_obj" then name else owner ++ "." ++ name
  | .builtinProperty _ name =>
    if name = "date" || name = "time" then "_system.date('" ++ name ++ "')" else "_key." ++ name
  | .menuItemOf _ menu item => text scope .plain menu ++ "." ++ text scope .plain item
  | .menuItemsOf _ menu => text scope .plain menu ++ ".item"
  | .arguments _ _ args => commas (texts scope args)
  | .list _ values => "list(" ++ text scope .plain values ++ ")"
  | .propertyList _ values => "propList(" ++ text scope .plain values ++ ")"
  | .call _ name _ args inTell =>
    callText scope name (commas (argumentTexts name args (texts scope args))) inTell
  | .methodCall _ name object _ args =>
    text scope .plain object ++ "." ++ name ++ "(" ++ commas (texts scope args) ++ ")"
  | .loop _ _ _ kind condition body =>
    let condition := parenthesized (text scope .plain condition)
    let header :=
      match kind with
      | .whileTrue => "while " ++ condition ++ " \x7b"
      | .counted variableName first _ up =>
        "for(" ++ variableName ++ " = " ++ text scope .plain first ++ "; " ++
          String.ofList (condition.toList.drop 1).dropLast ++ "; " ++ variableName ++
          (if up then "++" else "--") ++ ") \x7b"
      | .each variableName list =>
        "for(" ++ variableName ++ " of " ++ text scope .plain list ++ ") \x7b"
    header ++ "\n" ++ block scope frame.deeper body ++ frame.indentation ++ "\x7d"
  | .branch _ condition thenBody elseBody =>
    "if " ++ parenthesized (text scope .plain condition) ++ " \x7b\n" ++
      block scope frame.deeper thenBody ++
      (if elseBody.isEmpty then ""
        else frame.indentation ++ "\x7d else \x7b\n" ++ block scope frame.deeper elseBody) ++
      frame.indentation ++ "\x7d"
  | .tell _ target body =>
    "with " ++ parenthesized (text scope .plain target) ++ " \x7b\n" ++
      block scope frame.deeper body ++ frame.indentation ++ "\x7d"
  | .exitLoop _ => "break"
  | .jump _ address => "/* jump " ++ hexAddress address ++ " */"
  | .jumpUnless _ condition address =>
    "/* jz " ++ hexAddress address ++ " " ++ text scope .plain condition ++ " */"

def texts (scope : Scope) : List Node → List String
  | [] => []
  | node :: rest => text scope .plain node :: texts scope rest

def block (scope : Scope) (frame : Frame) : List Statement → String
  | [] => ""
  | ⟨_, node⟩ :: rest => frame.line (finish (text scope frame node)) ++ block scope frame rest

end

end LingoSource.JavaScript
