import LingoSource.Layout.Arguments
import LingoSource.Layout.Frame
import LingoSource.Text.Hexadecimal
import LingoSource.Text.Search

/-!
The Lingo text of a node. A call is a command where it stands as a statement and a function
elsewhere; a block is written with its lines, the first of which has no indentation and the last no
line end.
-/
set_option autoImplicit false

namespace LingoSource.Lingo

inductive Place
  | expression
  | statement (frame : Frame)

namespace Place

/-- Blocks inside an expression are laid out on their own. -/
def frame : Place → Frame
  | .expression => .plain
  | .statement frame => frame

def isStatement : Place → Bool
  | .expression => false
  | .statement _ => true

end Place

def word (kind : LeafKind) (name : String) : String :=
  match kind with
  | .constant => (Vocabulary.namedLiterals.lookup name).getD name
  | .symbol => if name ∈ Vocabulary.plainSymbols then name else "#" ++ name
  | .propertyName => if name = "ancestor" then name else "the " ++ name
  | .dateTimeFunction => "the " ++ name
  | .menu => "menu " ++ name
  | .menuItem => "menuItem " ++ name
  | .soundChannel => "sound " ++ name
  | .sprite => "sprite " ++ name
  | .cast => "cast " ++ name
  | .definedPropertyName | .localVariable | .globalVariable | .parameterName | .raw => name

def stripParentheses (text : String) : String :=
  match text.toList with
  | '(' :: inner => String.ofList inner.dropLast
  | _ => text

def callText (statement : Bool) (name : String) (args : List Node) (texts : List String) : String :=
  match args, texts with
  | arg :: _, text :: rest =>
    if name = "sound" then
      "sound " ++ arg.word?.getD text ++ " " ++ commas rest
    else
      let params := commas (argumentTexts name args texts)
      if statement then name ++ " " ++ params else name ++ "(" ++ params ++ ")"
  | _, _ => name

/-- The entries of a property list; a last key without a value is left out. -/
def pairTexts : List String → List String
  | key :: value :: rest => (key ++ ": " ++ value) :: pairTexts rest
  | _ => []

mutual

def text (place : Place) : Node → String
  | .leaf kind name _ => word kind name
  | .unary _ op operand =>
    match op with
    | .minus => "-" ++ text .expression operand
    | op => op.lingo ++ " " ++ text .expression operand
  | .binary _ op left right =>
    let inner := text .expression left ++ " " ++ op.lingo ++ " " ++ text .expression right
    if op.isSpritePredicate then "sprite " ++ inner else "(" ++ inner ++ ")"
  | .assign _ left right =>
    let target := text .expression left
    let value := text .expression right
    if Text.startsWith target "field(" && Text.endsWith target ')' then
      "put " ++ value ++ " into " ++ target
    else "set " ++ target ++ " = " ++ value
  | .put _ mode left right =>
    "put " ++ text .expression right ++ " " ++ mode.name ++ " " ++ text .expression left
  | .chunk _ kind first of =>
    kind.name ++ " " ++ text .expression first ++ " of " ++ text .expression of
  | .chunkRange _ kind first last of =>
    kind.name ++ " " ++ text .expression first ++ " to " ++ text .expression last ++ " of " ++
      text .expression of
  | .aspect _ op part of =>
    let subject := text .expression of
    match part with
    | some part =>
      if op = .last then "the last " ++ part ++ " of " ++ subject
      else "the " ++ op.lingo ++ " of " ++ part ++ "s of " ++ subject
    | none => "the " ++ op.lingo ++ " of " ++ subject
  | .property _ object name =>
    let owner := text .expression object
    if owner = "me" then name
    else if Text.startsWith owner "_" || owner = "tell_obj" then "the " ++ name
    else "the " ++ name ++ " of " ++ owner
  | .builtinProperty _ name => "the " ++ name
  | .menuItemOf _ menu item => text .expression item ++ " of " ++ text .expression menu
  | .menuItemsOf _ menu => "menuItems of " ++ text .expression menu
  | .arguments _ _ args => commas (texts args)
  | .list _ values => "[" ++ text .expression values ++ "]"
  | .propertyList _ (.arguments _ _ []) => "[:]"
  | .propertyList _ (.arguments _ _ args) => "[" ++ commas (pairTexts (texts args)) ++ "]"
  | .propertyList _ values => "[" ++ text .expression values ++ "]"
  | .call _ name _ args _ => callText place.isStatement name args (texts args)
  | .methodCall _ name object _ args =>
    "tell " ++ text .expression object ++ " to " ++ name ++ "(" ++ commas (texts args) ++ ")"
  | .loop _ _ _ kind condition body =>
    let frame := place.frame
    let header :=
      match kind with
      | .whileTrue => "repeat while " ++ stripParentheses (text .expression condition)
      | .counted variableName first last up =>
        "repeat with " ++ variableName ++ " = " ++ text .expression first ++
          (if up then " to " else " down to ") ++ text .expression last
      | .each variableName list =>
        "repeat with " ++ variableName ++ " in " ++ text .expression list
    header ++ "\n" ++ block frame.deeper body ++ frame.indentation ++ "end repeat"
  | .branch _ condition thenBody elseBody =>
    let frame := place.frame
    "if " ++ text .expression condition ++ " then\n" ++ block frame.deeper thenBody ++
      (if elseBody.isEmpty then ""
        else frame.indentation ++ "else\n" ++ block frame.deeper elseBody) ++
      frame.indentation ++ "end if"
  | .tell _ target body =>
    let frame := place.frame
    "tell " ++ text .expression target ++ "\n" ++ block frame.deeper body ++
      frame.indentation ++ "end tell"
  | .exitLoop _ => "exit repeat"
  | .jump _ address => "-- jump " ++ hexAddress address
  | .jumpUnless _ condition address =>
    "-- jz " ++ hexAddress address ++ " " ++ text .expression condition

def texts : List Node → List String
  | [] => []
  | node :: rest => text .expression node :: texts rest

def block (frame : Frame) : List Statement → String
  | [] => ""
  | ⟨_, node⟩ :: rest => frame.line (text (.statement frame) node) ++ block frame rest

end

def expression (node : Node) : String :=
  text .expression node

end LingoSource.Lingo
