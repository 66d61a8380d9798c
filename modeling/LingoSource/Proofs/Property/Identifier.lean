import LingoSource.Proofs.Property.Object
import LingoSource.Proofs.JavaScript.Header

/-!
The texts of objects and menus. What identifies one is turned into text by the instruction, before it is
known which language is written, so the same text stands in both: the name of a word as it is, and the
Lingo text of any other expression.
-/
set_option autoImplicit false

namespace LingoSource

open Text

theorem Text.ne_surrounded {before : String} (h : before ≠ "") (name after : String) :
    name ≠ before ++ name ++ after := by
  intro heq
  have hlength := congrArg (·.toList.length) heq
  have hbefore : before.toList.length ≠ 0 := by simpa using h
  simp only [String.toList_append, List.length_append] at hlength
  omega

theorem Text.ne_preceded {before : String} (h : before ≠ "") (name : String) : name ≠ before ++ name := by
  simpa using ne_surrounded h name ""

theorem Text.eq_marked_iff {before : String} (h : before ≠ "") (name : String) (p : Prop)
    [Decidable p] : name = (if p then name else before ++ name) ↔ p := by
  split
  · rename_i hp
    exact iff_of_true rfl hp
  · rename_i hp
    exact iff_of_false (ne_preceded h name) hp

namespace Lingo

theorem expression_property {offset : Nat} {object : Node} {name : String}
    (h : ∀ c ∈ (expression object).toList.head?, c ≠ '_' ∧ c ≠ 't')
    (hme : expression object ≠ "me") :
    expression (.property offset object name) =
      "the " ++ name ++ " of " ++ expression object := by
  have hplain : (startsWith (expression object) "_" ||
      decide (expression object = "tell_obj")) = false := by
    rw [Bool.or_eq_false_iff, decide_eq_false_iff_not, ← String.toList_inj]
    unfold startsWith
    cases hchars : (expression object).toList with
    | nil => simp
    | cons c s =>
      obtain ⟨hunderscore, ht⟩ := h c (by simp [hchars])
      simp [List.isPrefixOf, Ne.symm hunderscore, ht]
  change (if expression object = "me" then name
    else if startsWith (expression object) "_" || expression object = "tell_obj" then
      "the " ++ name
    else "the " ++ name ++ " of " ++ expression object) = _
  rw [if_neg hme, hplain]
  rfl

theorem texts_eq_map (args : List Node) : texts args = args.map expression := by
  induction args with
  | nil => rfl
  | cons arg args ih => rw [texts, ih, List.map_cons, expression]

theorem lookup_namedLiterals {name : String} (h : startsWith name "\"" = false) :
    Vocabulary.namedLiterals.lookup name = none := by
  cases hliteral : Vocabulary.namedLiterals.lookup name with
  | none => rfl
  | some word =>
    have hall : ∀ entry ∈ Vocabulary.namedLiterals, startsWith entry.1 "\"" = true := by
      decide +kernel
    have hquoted : startsWith name "\"" = true := hall (name, word) (mem_of_lookup hliteral)
    rw [h] at hquoted
    cases hquoted

end Lingo

namespace JavaScript

/-- The calls that are written under another name, or without the parentheses of a call. -/
def renamedCalls : List String :=
  ["birth", "new", "go", "cast", "continue", "return", "sound"]

theorem callText_of_plain {scope : Scope} {name : String} (h : name ∉ renamedCalls)
    (hmethod : scope.isMethod name = false) (params : String) (inTell : Bool) :
    callText scope name params inTell = name ++ "(" ++ params ++ ")" := by
  unfold callText
  dsimp only
  split
  · exact absurd h (by decide)
  · exact absurd h (by decide)
  · exact absurd h (by decide)
  · exact absurd h (by decide)
  · exact absurd h (by decide)
  · exact absurd h (by decide)
  · simp [hmethod]

end JavaScript

inductive Accessor
  | property (object : Object) (name : String)
  | menuName (menu : Node)
  | menuItemCount (menu : Node)

def Object.lingo (spell : Node → String) : Object → String
  | .menuItem menu item => "menuItem " ++ spell item ++ " of menu " ++ spell menu
  | .sound id => "sound " ++ spell id
  | .sprite id => "sprite " ++ spell id
  | .cast id | .video id => "cast " ++ spell id

def Object.javaScript (spell : Node → String) : Object → String
  | .menuItem menu item => "_menuBar.menu[" ++ spell menu ++ "].item[" ++ spell item ++ "]"
  | .sound id => "sound(" ++ spell id ++ ")"
  | .sprite id => "sprite(" ++ spell id ++ ")"
  | .cast id | .video id => "member(" ++ spell id ++ ")"

namespace Accessor

def ids : Accessor → List Node
  | .property object _ => object.ids
  | .menuName menu | .menuItemCount menu => [menu]

def node (offset : Nat) : Accessor → Node
  | .property object name => object.property offset name
  | .menuName menu => .aspect offset .name none (.leaf .menu menu.identifier offset)
  | .menuItemCount menu =>
    .aspect offset .number none (.menuItemsOf offset (.leaf .menu menu.identifier offset))

def reading (offset : Nat) : Accessor → Instruction
  | .property object _ => object.family.reading offset
  | .menuName _ | .menuItemCount _ => ⟨offset, .get, 0x02⟩

def Numbered (number : Node) : Accessor → Prop
  | .property object name => number.index?.bind (object.family.properties[·]?) = some name
  | .menuName _ => number.index? = some 1
  | .menuItemCount _ => number.index? = some 2

def lingo (spell : Node → String) : Accessor → String
  | .property object name => "the " ++ name ++ " of " ++ object.lingo spell
  | .menuName menu => "the name of menu " ++ spell menu
  | .menuItemCount menu => "the number of menuItems of menu " ++ spell menu

def javaScript (spell : Node → String) : Accessor → String
  | .property object name => object.javaScript spell ++ "." ++ name
  | .menuName menu => "_menuBar.menu[" ++ spell menu ++ "].name"
  | .menuItemCount menu => "_menuBar.menu[" ++ spell menu ++ "].item.length"

/-- The name of a menu that is itself identified as `menus` is read of all menus. -/
def ofAllMenus : Accessor → Bool
  | .menuName menu => menu.identifier = "menus"
  | _ => false

variable {a : Accessor} {number : Node} {rest : List Node} {m : Machine}

open Instruction

theorem run_reading (h : a.Numbered number) (hm : m.stack = number :: (a.ids ++ rest)) (offset : Nat) :
    (a.reading offset).step.run m = .ok () { m with stack := a.node offset :: rest } := by
  cases a with
  | property object name =>
    exact Family.reading_eq_ok_iff.2 ⟨object, number, rest, name, rfl, hm, h, rfl⟩
  | menuName menu | menuItemCount menu =>
    have hindex := popIndex_eq_ok_iff (i := ⟨offset, .get, 0x02⟩).2 ⟨number, _, hm, h, rfl⟩
    have hmenu := popIdentifier_eq_ok_iff (i := ⟨offset, .get, 0x02⟩)
      (m := { m with stack := menu :: rest }).2 ⟨menu, rest, rfl, rfl, rfl⟩
    refine (run_bind_eq_ok_iff (x := Instruction.popIndex _)).2 ⟨_, _, hindex, ?_⟩
    exact run_bind_eq_ok_iff.2 ⟨_, _, hmenu, rfl⟩

theorem expression_object (object : Object) (offset : Nat) :
    Lingo.expression (object.node offset) = object.lingo Node.identifier := by
  cases object with
  | menuItem menu item =>
    change "menuItem " ++ item.identifier ++ " of " ++ ("menu " ++ menu.identifier) =
      "menuItem " ++ item.identifier ++ " of menu " ++ menu.identifier
    simp [← String.toList_inj]
  | sound id | sprite id | cast id | video id => rfl

theorem text_object (object : Object) (offset : Nat) (scope : JavaScript.Scope) :
    JavaScript.text scope .plain (object.node offset) = object.javaScript Node.identifier := by
  cases object with
  | menuItem menu item =>
    change "_menuBar.menu[" ++ menu.identifier ++ "]" ++ "." ++ ("item[" ++ item.identifier ++ "]") =
      "_menuBar.menu[" ++ menu.identifier ++ "].item[" ++ item.identifier ++ "]"
    simp [← String.toList_inj]
  | sound id | sprite id | cast id | video id => rfl

theorem expression_node (a : Accessor) (offset : Nat) :
    Lingo.expression (a.node offset) = a.lingo Node.identifier := by
  cases a with
  | property object name =>
    have hobject := expression_object object offset
    unfold node Object.property lingo
    rw [Lingo.expression_property, hobject]
    · rw [hobject]
      cases object <;> simp [Object.lingo]
    · rw [hobject, ne_eq, ← String.toList_inj]
      cases object <;> simp [Object.lingo]
  | menuName menu =>
    change "the name of " ++ ("menu " ++ menu.identifier) = "the name of menu " ++ menu.identifier
    simp [← String.toList_inj]
  | menuItemCount menu =>
    change "the number of " ++ ("menuItems of " ++ ("menu " ++ menu.identifier)) =
      "the number of menuItems of menu " ++ menu.identifier
    simp [← String.toList_inj]

theorem text_node (a : Accessor) (offset : Nat) (scope : JavaScript.Scope) :
    JavaScript.text scope .plain (a.node offset) =
      if a.ofAllMenus then "_menuBar.menu.name" else a.javaScript Node.identifier := by
  cases a with
  | property object name =>
    have hobject := text_object object offset scope
    unfold node Object.property javaScript
    rw [JavaScript.text_property, hobject, if_neg]
    · rfl
    · rw [← String.toList_inj]
      unfold Object.javaScript
      cases object <;> simp
  | menuName menu =>
    change (if some menu.identifier = some "menus" then "_menuBar.menu"
      else "_menuBar.menu[" ++ menu.identifier ++ "]") ++ "." ++ "name" =
        if decide (menu.identifier = "menus") then "_menuBar.menu.name"
        else "_menuBar.menu[" ++ menu.identifier ++ "].name"
    by_cases hmenus : menu.identifier = "menus"
    · rw [if_pos (congrArg some hmenus), if_pos (decide_eq_true hmenus)]
      rfl
    · rw [if_neg (fun h => hmenus (Option.some.inj h)), if_neg (by simpa using hmenus)]
      simp [← String.toList_inj]
  | menuItemCount menu =>
    change "_menuBar.menu[" ++ menu.identifier ++ "]" ++ ".item" ++ "." ++ "length" =
      "_menuBar.menu[" ++ menu.identifier ++ "].item.length"
    simp [← String.toList_inj]

end Accessor

namespace Node

/-- A word that Lingo writes as its name, or any expression that is not a word. -/
def WrittenInLingo : Node → Prop
  | .leaf .constant name _ => Vocabulary.namedLiterals.lookup name = none
  | .leaf .symbol name _ => name ∈ Vocabulary.plainSymbols
  | .leaf .propertyName name _ => name = "ancestor"
  | .leaf .dateTimeFunction _ _ | .leaf .menu _ _ | .leaf .menuItem _ _ | .leaf .soundChannel _ _
  | .leaf .sprite _ _ | .leaf .cast _ _ => False
  | _ => True

def WrittenInJavaScript (scope : JavaScript.Scope) : Node → Prop
  | .leaf .constant name _ => startsWith name "\"" = false
  | .leaf .localVariable _ _ | .leaf .parameterName _ _ => True
  | .leaf .raw name _ => name = "me" → scope.inFactory = false
  | .leaf _ _ _ => False
  | node => JavaScript.text scope .plain node = Lingo.expression node

theorem identifier_eq_expression_iff (id : Node) :
    id.identifier = Lingo.expression id ↔ id.WrittenInLingo := by
  cases id with
  | leaf kind name position =>
    change name = Lingo.word kind name ↔ _
    cases kind with
    | constant =>
      change name = (Vocabulary.namedLiterals.lookup name).getD name ↔
        Vocabulary.namedLiterals.lookup name = none
      cases hliteral : Vocabulary.namedLiterals.lookup name with
      | none => simp
      | some word =>
        have hall : ∀ entry ∈ Vocabulary.namedLiterals, entry.1 ≠ entry.2 := by decide
        have hword : name ≠ word := hall (name, word) (mem_of_lookup hliteral)
        simpa using hword
    | symbol => exact eq_marked_iff (by decide) name (name ∈ Vocabulary.plainSymbols)
    | propertyName => exact eq_marked_iff (by decide) name (name = "ancestor")
    | dateTimeFunction | menu | menuItem | soundChannel | sprite | cast =>
      exact iff_of_false (ne_preceded (by decide) name) id
    | definedPropertyName | localVariable | globalVariable | parameterName | raw =>
      exact iff_of_true rfl trivial
  | _ => exact iff_of_true rfl trivial

theorem identifier_eq_text_iff (id : Node) (scope : JavaScript.Scope) :
    id.identifier = JavaScript.text scope .plain id ↔ id.WrittenInJavaScript scope := by
  cases id with
  | leaf kind name position =>
    change name = JavaScript.word scope kind name ↔ _
    cases kind with
    | constant =>
      change name = (if startsWith name "\"" then "new LingoString(" ++ name ++ ")" else name) ↔
        startsWith name "\"" = false
      split
      · rename_i h
        exact iff_of_false (ne_surrounded (by decide) name ")") (by simp [h])
      · rename_i h
        exact iff_of_true rfl (by simpa using h)
    | localVariable | parameterName => exact iff_of_true rfl trivial
    | raw =>
      change name = (if name = "me" then scope.self else name) ↔
        (name = "me" → scope.inFactory = false)
      unfold JavaScript.Scope.self
      split
      · rename_i h
        subst h
        cases scope.inFactory <;> simp
      · rename_i h
        exact iff_of_true rfl fun hme => absurd hme h
    | propertyName | definedPropertyName =>
      have howner : JavaScript.word scope .propertyName name ≠ name := by
        unfold JavaScript.word
        dsimp only
        refine (ne_preceded ?_ name).symm
        simp
      exact iff_of_false howner.symm id
    | symbol | dateTimeFunction =>
      exact iff_of_false (ne_surrounded (by decide) name "')") id
    | menu | menuItem => exact iff_of_false (ne_surrounded (by decide) name "]") id
    | soundChannel | sprite | cast => exact iff_of_false (ne_surrounded (by decide) name ")") id
    | globalVariable => exact iff_of_false (ne_preceded (by decide) name) id
  | _ => exact eq_comm

inductive SpelledAlike (scope : JavaScript.Scope) : Node → Prop
  | constant {name : String} {position : Nat} (h : startsWith name "\"" = false) :
    SpelledAlike scope (.leaf .constant name position)
  | localVariable {name : String} {position : Nat} :
    SpelledAlike scope (.leaf .localVariable name position)
  | parameterName {name : String} {position : Nat} :
    SpelledAlike scope (.leaf .parameterName name position)
  | binary {origin : Nat} {op : BinaryOp} {left right : Node} (hop : op.javaScript = op.lingo)
    (hleft : SpelledAlike scope left) (hright : SpelledAlike scope right) :
    SpelledAlike scope (.binary origin op left right)
  | call {origin : Nat} {name : String} {kind : ListKind} {args : List Node} {inTell : Bool}
    (hname : name ∉ JavaScript.renamedCalls) (hmethod : scope.isMethod name = false) (hne : args ≠ [])
    (hargs : ∀ arg ∈ args, SpelledAlike scope arg) :
    SpelledAlike scope (.call origin name kind args inTell)

theorem text_eq_expression {scope : JavaScript.Scope} {node : Node} (h : node.SpelledAlike scope) :
    JavaScript.text scope .plain node = Lingo.expression node := by
  induction h with
  | @constant name position h =>
    have hliteral := Lingo.lookup_namedLiterals h
    change (if startsWith name "\"" then "new LingoString(" ++ name ++ ")" else name) =
      (Vocabulary.namedLiterals.lookup name).getD name
    rw [h, hliteral]
    rfl
  | localVariable | parameterName => rfl
  | @binary origin op left right hop _ _ ihleft ihright =>
    have hmethod : op.isMethod = false := by
      revert hop
      cases op <;> decide
    have hpredicate : op.isSpritePredicate = false := by
      revert hop
      cases op <;> decide
    rw [JavaScript.text_binary, hmethod, ihleft, ihright, hop]
    change _ = (if op.isSpritePredicate then _ else _)
    rw [hpredicate]
    simp [Lingo.expression, String.append_assoc]
  | @call origin name kind args inTell hname hmethod hne _ ih =>
    have htexts : JavaScript.texts scope args = Lingo.texts args := by
      rw [JavaScript.texts_eq_map, Lingo.texts_eq_map]
      exact List.map_congr_left ih
    have hsound : name ≠ "sound" := by
      rintro rfl
      exact hname (by decide)
    change JavaScript.callText scope name
      (commas (argumentTexts name args (JavaScript.texts scope args))) inTell =
        Lingo.callText false name args (Lingo.texts args)
    rw [JavaScript.callText_of_plain hname hmethod, htexts]
    cases args with
    | nil => exact absurd rfl hne
    | cons arg args => simp [Lingo.callText, Lingo.texts, hsound]

theorem SpelledAlike.writtenInLingo {scope : JavaScript.Scope} {node : Node}
    (h : node.SpelledAlike scope) : node.WrittenInLingo := by
  cases h with
  | constant h => exact Lingo.lookup_namedLiterals h
  | localVariable | parameterName | binary | call => trivial

theorem SpelledAlike.writtenInJavaScript {scope : JavaScript.Scope} {node : Node}
    (h : node.SpelledAlike scope) : node.WrittenInJavaScript scope := by
  rw [← identifier_eq_text_iff, text_eq_expression h, identifier_eq_expression_iff]
  exact h.writtenInLingo

end Node

namespace Accessor

variable {a : Accessor} {number : Node} {rest : List Node} {m : Machine}

/-- What is read of an object or a menu, and the left side of what is written to an object, has in both
languages the same text in the place of each expression that identifies one. In Lingo that is the text of
the expression unless it is a word that Lingo marks. In JavaScript it is that of words without a mark, and
of operations and calls that are spelled as in Lingo. -/
theorem identified_texts (h : a.Numbered number) (hm : m.stack = number :: (a.ids ++ rest))
    (offset : Nat) (scope : JavaScript.Scope) :
    (a.reading offset).step.run m = .ok () { m with stack := a.node offset :: rest } ∧
      (∀ object name value, a = .property object name →
        (object.family.writing offset).step.run
            { m with stack := number :: value :: (a.ids ++ rest) } =
          .ok () { m with
            stack := rest
            function.statements := m.function.statements ++
              [⟨offset, .assign offset (a.node offset) value⟩] }) ∧
      Lingo.expression (a.node offset) = a.lingo Node.identifier ∧
      JavaScript.text scope .plain (a.node offset) =
        (if a.ofAllMenus then "_menuBar.menu.name" else a.javaScript Node.identifier) ∧
      ∀ id ∈ a.ids,
        (id.identifier = Lingo.expression id ↔ id.WrittenInLingo) ∧
          (id.identifier = JavaScript.text scope .plain id ↔ id.WrittenInJavaScript scope) ∧
          (id.SpelledAlike scope → id.WrittenInLingo ∧ id.WrittenInJavaScript scope) := by
  refine ⟨run_reading h hm offset, ?_, a.expression_node offset, a.text_node offset scope,
    fun id _ => ⟨id.identifier_eq_expression_iff, id.identifier_eq_text_iff scope, fun halike =>
      ⟨halike.writtenInLingo, halike.writtenInJavaScript⟩⟩⟩
  rintro object name value rfl
  exact Family.writing_eq_ok_iff.2 ⟨object, number, value, rest, name, rfl, rfl, h, rfl⟩

/-- The horizontal place of a sprite that a global variable numbers: JavaScript has the bare name. -/
theorem identified_texts_global :
    let id := Node.leaf .globalVariable "gSpr" 92
    let a := Accessor.property (.sprite id) "locH"
    let m : Machine :=
      ⟨.create ["gSpr"] [] 1, { name := "h", position := 0 }, [.leaf .constant "13" 94, id]⟩
    let scope : JavaScript.Scope := ⟨none, []⟩
    (a.reading 96).step.run m = .ok () { m with stack := [a.node 96] } ∧
      Lingo.expression (a.node 96) = "the locH of sprite gSpr" ∧
      JavaScript.text scope .plain (a.node 96) = "sprite(gSpr).locH" ∧
      JavaScript.text scope .plain id = "_global.gSpr" ∧ ¬ id.WrittenInJavaScript scope := by
  intro id a m scope
  have hnumber : a.Numbered (.leaf .constant "13" 94) := rfl
  have hstack : m.stack = .leaf .constant "13" 94 :: (a.ids ++ []) := rfl
  obtain ⟨hread, -, hlingo, hjavaScript, hids⟩ := identified_texts hnumber hstack 96 scope
  have hwritten := (hids id (by simp [a, ids, Object.ids])).2.1
  refine ⟨hread, hlingo.trans (by decide +kernel), hjavaScript.trans (by decide +kernel),
    by decide +kernel, fun h => ?_⟩
  exact absurd (hwritten.2 h) (by decide +kernel)

end Accessor

end LingoSource
