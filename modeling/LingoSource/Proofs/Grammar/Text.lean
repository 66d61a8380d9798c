import LingoSource.JavaScript.Expression
import LingoSource.Lingo.Expression
import LingoSource.Proofs.Grammar.Basic

/-!
What the texts of a tree are made of. Both texts have something for trees that no program has: a
comment for a jump, lines for a block inside an expression, and the Lingo text leaves out the last key
of a property list that has no value for it. Where a tree keeps to the grammar none of this is
written: the texts are the same with anything else in its place.
-/
set_option autoImplicit false

namespace LingoSource

namespace Lingo

variable (stray : Node → String)

mutual

/-- The text of a node with `stray` in the place of jumps, of blocks inside expressions and of property
lists that are not made of keys with values. -/
def textOr (place : Place) : Node → String
  | .leaf kind name _ => word kind name
  | .unary _ op operand =>
    match op with
    | .minus => "-" ++ textOr .expression operand
    | op => op.lingo ++ " " ++ textOr .expression operand
  | .binary _ op left right =>
    let inner := textOr .expression left ++ " " ++ op.lingo ++ " " ++ textOr .expression right
    if op.isSpritePredicate then "sprite " ++ inner else "(" ++ inner ++ ")"
  | .assign _ left right =>
    let target := textOr .expression left
    let value := textOr .expression right
    if Text.startsWith target "field(" && Text.endsWith target ')' then
      "put " ++ value ++ " into " ++ target
    else "set " ++ target ++ " = " ++ value
  | .put _ mode left right =>
    "put " ++ textOr .expression right ++ " " ++ mode.name ++ " " ++ textOr .expression left
  | .chunk _ kind first of =>
    kind.name ++ " " ++ textOr .expression first ++ " of " ++ textOr .expression of
  | .chunkRange _ kind first last of =>
    kind.name ++ " " ++ textOr .expression first ++ " to " ++ textOr .expression last ++ " of " ++
      textOr .expression of
  | .aspect _ op part of =>
    let subject := textOr .expression of
    match part with
    | some part =>
      if op = .last then "the last " ++ part ++ " of " ++ subject
      else "the " ++ op.lingo ++ " of " ++ part ++ "s of " ++ subject
    | none => "the " ++ op.lingo ++ " of " ++ subject
  | .property _ object name =>
    let owner := textOr .expression object
    if owner = "me" then name
    else if Text.startsWith owner "_" || owner = "tell_obj" then "the " ++ name
    else "the " ++ name ++ " of " ++ owner
  | .builtinProperty _ name => "the " ++ name
  | .menuItemOf _ menu item => textOr .expression item ++ " of " ++ textOr .expression menu
  | .menuItemsOf _ menu => "menuItems of " ++ textOr .expression menu
  | .arguments _ _ args => commas (textsOr args)
  | .list _ values => "[" ++ textOr .expression values ++ "]"
  | .propertyList origin (.arguments inner kind args) =>
    if args.length % 2 = 0 then
      if args.isEmpty then "[:]" else "[" ++ commas (pairTexts (textsOr args)) ++ "]"
    else stray (.propertyList origin (.arguments inner kind args))
  | .propertyList origin values => stray (.propertyList origin values)
  | .call _ name _ args _ => callText place.isStatement name args (textsOr args)
  | .methodCall _ name object _ args =>
    "tell " ++ textOr .expression object ++ " to " ++ name ++ "(" ++ commas (textsOr args) ++ ")"
  | .loop origin start stop kind condition body =>
    match place with
    | .expression => stray (.loop origin start stop kind condition body)
    | .statement frame =>
      let header :=
        match kind with
        | .whileTrue => "repeat while " ++ stripParentheses (textOr .expression condition)
        | .counted variableName first last up =>
          "repeat with " ++ variableName ++ " = " ++ textOr .expression first ++
            (if up then " to " else " down to ") ++ textOr .expression last
        | .each variableName list =>
          "repeat with " ++ variableName ++ " in " ++ textOr .expression list
      header ++ "\n" ++ blockOr frame.deeper body ++ frame.indentation ++ "end repeat"
  | .branch origin condition thenBody elseBody =>
    match place with
    | .expression => stray (.branch origin condition thenBody elseBody)
    | .statement frame =>
      "if " ++ textOr .expression condition ++ " then\n" ++ blockOr frame.deeper thenBody ++
        (if elseBody.isEmpty then ""
          else frame.indentation ++ "else\n" ++ blockOr frame.deeper elseBody) ++
        frame.indentation ++ "end if"
  | .tell origin target body =>
    match place with
    | .expression => stray (.tell origin target body)
    | .statement frame =>
      "tell " ++ textOr .expression target ++ "\n" ++ blockOr frame.deeper body ++
        frame.indentation ++ "end tell"
  | .exitLoop _ => "exit repeat"
  | .jump origin address => stray (.jump origin address)
  | .jumpUnless origin condition address => stray (.jumpUnless origin condition address)

def textsOr : List Node → List String
  | [] => []
  | node :: rest => textOr .expression node :: textsOr rest

def blockOr (frame : Frame) : List Statement → String
  | [] => ""
  | ⟨_, node⟩ :: rest => frame.line (textOr (.statement frame) node) ++ blockOr frame rest

end

variable {stray : Node → String}

theorem textsOr_eq {args : List Node}
    (h : ∀ a ∈ args, textOr stray .expression a = text .expression a) :
    textsOr stray args = texts args := by
  induction args with
  | nil => rfl
  | cons a args ih =>
    rw [textsOr, texts, h a (by simp), ih fun b hb => h b (by simp [hb])]

theorem blockOr_eq {frame : Frame} {statements : List Statement}
    (h : ∀ s ∈ statements,
      textOr stray (.statement frame) s.node = text (.statement frame) s.node) :
    blockOr stray frame statements = block frame statements := by
  induction statements with
  | nil => rfl
  | cons s rest ih =>
    obtain ⟨position, node⟩ := s
    rw [blockOr, block, h ⟨position, node⟩ (by simp), ih fun t ht => h t (by simp [ht])]

theorem textOr_arguments {args : List Node}
    (h : ∀ a ∈ args, textOr stray .expression a = text .expression a) (place : Place)
    (origin : Nat) (kind : ListKind) :
    textOr stray place (.arguments origin kind args) =
      text place (.arguments origin kind args) := by
  unfold textOr text
  rw [textsOr_eq h]

theorem textOr_of_isExpression {node : Node} (h : node.IsExpression) (place : Place) :
    textOr stray place node = text place node := by
  induction h generalizing place with
  | leaf | builtinProperty => rfl
  | unary _ ih | aspect _ ih =>
    unfold textOr text
    rewrite [ih]
    rfl
  | property _ ih | menuItemsOf _ ih =>
    unfold textOr text
    rw [ih]
  | binary _ _ ihl ihr | chunk _ _ ihl ihr | menuItemOf _ _ ihl ihr =>
    unfold textOr text
    rw [ihl, ihr]
  | chunkRange _ _ _ ihfirst ihlast ihof =>
    unfold textOr text
    rw [ihfirst, ihlast, ihof]
  | arguments _ ih => exact textOr_arguments (fun a ha => ih a ha .expression) _ _ _
  | call _ ih =>
    unfold textOr text
    rw [textsOr_eq fun a ha => ih a ha .expression]
  | list _ ih =>
    unfold textOr text
    rw [textOr_arguments fun a ha => ih a ha .expression]
  | @propertyList _ _ _ args heven _ ih =>
    unfold textOr text
    rw [if_pos heven, textsOr_eq fun a ha => ih a ha .expression]
    cases args <;> rfl
  | methodCall _ _ ihobject ih =>
    unfold textOr text
    rw [ihobject, textsOr_eq fun a ha => ih a ha .expression]

theorem textOr_of_isStatement {inLoop : Bool} {node : Node} (h : node.IsStatement false inLoop)
    (frame : Frame) : textOr stray (.statement frame) node = text (.statement frame) node := by
  induction h generalizing frame with
  | expression h => exact textOr_of_isExpression h _
  | assign hl hr | put hl hr =>
    unfold textOr text
    rw [textOr_of_isExpression hl, textOr_of_isExpression hr]
  | loop hkind hcondition _ ih =>
    have hbody := blockOr_eq fun s hs => ih s hs frame.deeper
    unfold textOr text
    cases hkind with
    | whileTrue =>
      simp only [Place.frame, hbody, textOr_of_isExpression hcondition]
    | counted hfirst hlast =>
      simp only [Place.frame, hbody, textOr_of_isExpression hfirst,
        textOr_of_isExpression hlast]
    | each hlist => simp only [Place.frame, hbody, textOr_of_isExpression hlist]
  | branch hcondition _ _ ihthen ihelse =>
    unfold textOr text
    simp only [Place.frame, textOr_of_isExpression hcondition,
      blockOr_eq fun s hs => ihthen s hs frame.deeper,
      blockOr_eq fun s hs => ihelse s hs frame.deeper]
  | tell htarget _ ih =>
    unfold textOr text
    simp only [Place.frame, textOr_of_isExpression htarget,
      blockOr_eq fun s hs => ih s hs frame.deeper]
  | exitLoop => rfl
  | jump h | jumpUnless h => cases h

end Lingo

namespace JavaScript

variable (stray : Node → String) (scope : Scope)

mutual

def textOr (frame? : Option Frame) : Node → String
  | .leaf kind name _ => word scope kind name
  | .unary _ op operand => op.javaScript ++ "(" ++ textOr none operand ++ ")"
  | .binary _ op left right =>
    let a := textOr none left
    let b := textOr none right
    if op.isMethod then "sprite(" ++ a ++ ")" ++ op.javaScript ++ "(sprite(" ++ b ++ "))"
    else "(" ++ a ++ " " ++ op.javaScript ++ " " ++ b ++ ")"
  | .assign _ left right => textOr none left ++ " = " ++ textOr none right
  | .put _ mode left right =>
    let target := textOr none left
    let target :=
      if Text.startsWith target "field(" && Text.endsWith target ')' then fieldText target
      else target
    let value := textOr none right
    match mode with
    | .into => target ++ " = " ++ value
    | .after => target ++ " = " ++ target ++ " + " ++ value
    | .before => target ++ " = " ++ value ++ " + " ++ target
  | .chunk _ kind first of =>
    textOr none of ++ ".getPropRef(\"" ++ kind.name ++ "\", " ++ textOr none first ++
      ")"
  | .chunkRange _ kind first last of =>
    textOr none of ++ ".getPropRef(\"" ++ kind.name ++ "\", " ++ textOr none first ++
      ", " ++ textOr none last ++ ")"
  | .aspect _ op part of =>
    match part with
    | some part =>
      if op = .last then textOr none of ++ ".getProp(\"" ++ part ++ "\", \"last\")"
      else textOr none of ++ "." ++ part ++ "." ++ op.javaScript
    | none =>
      (if of.word? = some "menus" then "_menuBar.menu" else textOr none of) ++ "." ++
        op.javaScript
  | .property _ object name =>
    let owner := textOr none object
    if owner = "tell_obj" then name else owner ++ "." ++ name
  | .builtinProperty _ name =>
    if name = "date" || name = "time" then "_system.date('" ++ name ++ "')" else "_key." ++ name
  | .menuItemOf _ menu item => textOr none menu ++ "." ++ textOr none item
  | .menuItemsOf _ menu => textOr none menu ++ ".item"
  | .arguments _ _ args => commas (textsOr args)
  | .list _ values => "list(" ++ textOr none values ++ ")"
  | .propertyList _ values => "propList(" ++ textOr none values ++ ")"
  | .call _ name _ args inTell =>
    callText scope name (commas (argumentTexts name args (textsOr args))) inTell
  | .methodCall _ name object _ args =>
    textOr none object ++ "." ++ name ++ "(" ++ commas (textsOr args) ++ ")"
  | .loop origin start stop kind condition body =>
    match frame? with
    | none => stray (.loop origin start stop kind condition body)
    | some frame =>
      let condition := parenthesized (textOr none condition)
      let header :=
        match kind with
        | .whileTrue => "while " ++ condition ++ " \x7b"
        | .counted variableName first _ up =>
          "for(" ++ variableName ++ " = " ++ textOr none first ++ "; " ++
            String.ofList (condition.toList.drop 1).dropLast ++ "; " ++ variableName ++
            (if up then "++" else "--") ++ ") \x7b"
        | .each variableName list =>
          "for(" ++ variableName ++ " of " ++ textOr none list ++ ") \x7b"
      header ++ "\n" ++ blockOr frame.deeper body ++ frame.indentation ++ "\x7d"
  | .branch origin condition thenBody elseBody =>
    match frame? with
    | none => stray (.branch origin condition thenBody elseBody)
    | some frame =>
      "if " ++ parenthesized (textOr none condition) ++ " \x7b\n" ++
        blockOr frame.deeper thenBody ++
        (if elseBody.isEmpty then ""
          else frame.indentation ++ "\x7d else \x7b\n" ++ blockOr frame.deeper elseBody) ++
        frame.indentation ++ "\x7d"
  | .tell origin target body =>
    match frame? with
    | none => stray (.tell origin target body)
    | some frame =>
      "with " ++ parenthesized (textOr none target) ++ " \x7b\n" ++
        blockOr frame.deeper body ++ frame.indentation ++ "\x7d"
  | .exitLoop _ => "break"
  | .jump origin address => stray (.jump origin address)
  | .jumpUnless origin condition address => stray (.jumpUnless origin condition address)

def textsOr : List Node → List String
  | [] => []
  | node :: rest => textOr none node :: textsOr rest

def blockOr (frame : Frame) : List Statement → String
  | [] => ""
  | ⟨_, node⟩ :: rest => frame.line (finish (textOr (some frame) node)) ++ blockOr frame rest

end

variable {stray : Node → String} {scope : Scope}

theorem textsOr_eq {args : List Node}
    (h : ∀ a ∈ args, textOr stray scope none a = text scope .plain a) :
    textsOr stray scope args = texts scope args := by
  induction args with
  | nil => rfl
  | cons a args ih =>
    rw [textsOr, texts, h a (by simp), ih fun b hb => h b (by simp [hb])]

theorem blockOr_eq {frame : Frame} {statements : List Statement}
    (h : ∀ s ∈ statements,
      textOr stray scope (some frame) s.node = text scope frame s.node) :
    blockOr stray scope frame statements = block scope frame statements := by
  induction statements with
  | nil => rfl
  | cons s rest ih =>
    obtain ⟨position, node⟩ := s
    rw [blockOr, block, h ⟨position, node⟩ (by simp), ih fun t ht => h t (by simp [ht])]

theorem textOr_arguments {args : List Node}
    (h : ∀ a ∈ args, textOr stray scope none a = text scope .plain a) (frame? : Option Frame)
    (frame : Frame) (origin : Nat) (kind : ListKind) :
    textOr stray scope frame? (.arguments origin kind args) =
      text scope frame (.arguments origin kind args) := by
  unfold textOr text
  rw [textsOr_eq h]

theorem textOr_of_isExpression {node : Node} (h : node.IsExpression) (frame? : Option Frame)
    (frame : Frame) : textOr stray scope frame? node = text scope frame node := by
  induction h generalizing frame? frame with
  | leaf | builtinProperty => rfl
  | aspect _ ih =>
    unfold textOr text
    rewrite [ih none .plain]
    rfl
  | unary _ ih | property _ ih | menuItemsOf _ ih =>
    unfold textOr text
    rw [ih none .plain]
  | binary _ _ ihl ihr | chunk _ _ ihl ihr | menuItemOf _ _ ihl ihr =>
    unfold textOr text
    rw [ihl none .plain, ihr none .plain]
  | chunkRange _ _ _ ihfirst ihlast ihof =>
    unfold textOr text
    rw [ihfirst none .plain, ihlast none .plain, ihof none .plain]
  | arguments _ ih => exact textOr_arguments (fun a ha => ih a ha none .plain) _ _ _ _
  | list _ ih | propertyList _ _ ih =>
    unfold textOr text
    rw [textOr_arguments (fun a ha => ih a ha none .plain) none .plain]
  | call _ ih =>
    unfold textOr text
    rw [textsOr_eq fun a ha => ih a ha none .plain]
  | methodCall _ _ ihobject ih =>
    unfold textOr text
    rw [ihobject none .plain, textsOr_eq fun a ha => ih a ha none .plain]

theorem textOr_of_isStatement {inLoop : Bool} {node : Node} (h : node.IsStatement false inLoop)
    (frame : Frame) : textOr stray scope (some frame) node = text scope frame node := by
  have hexpression {node : Node} (h : node.IsExpression) :
      textOr stray scope none node = text scope .plain node :=
    textOr_of_isExpression h none .plain
  induction h generalizing frame with
  | expression h => exact textOr_of_isExpression h _ _
  | assign hl hr =>
    unfold textOr text
    rw [hexpression hl, hexpression hr]
  | put hl hr =>
    unfold textOr text
    rewrite [hexpression hl, hexpression hr]
    rfl
  | loop hkind hcondition _ ih =>
    have hbody := blockOr_eq fun s hs => ih s hs frame.deeper
    unfold textOr text
    cases hkind with
    | whileTrue => simp only [hbody, hexpression hcondition]
    | counted hfirst _ => simp only [hbody, hexpression hcondition, hexpression hfirst]
    | each hlist => simp only [hbody, hexpression hlist]
  | branch hcondition _ _ ihthen ihelse =>
    unfold textOr text
    simp only [hexpression hcondition, blockOr_eq fun s hs => ihthen s hs frame.deeper,
      blockOr_eq fun s hs => ihelse s hs frame.deeper]
  | tell htarget _ ih =>
    unfold textOr text
    simp only [hexpression htarget, blockOr_eq fun s hs => ih s hs frame.deeper]
  | exitLoop => rfl
  | jump h | jumpUnless h => cases h

end JavaScript

end LingoSource
