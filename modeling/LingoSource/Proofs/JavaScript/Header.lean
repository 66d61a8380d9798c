import LingoSource.Proofs.JavaScript.Operand
import LingoSource.Proofs.Text.Parentheses

/-!
The headers of blocks. What stands between the keyword and the brace starts with a parenthesis. It is one
group unless the condition is read of a parenthesised operation: parentheses around the operation are
then taken for parentheses around all of it.
-/
set_option autoImplicit false

namespace LingoSource

theorem mem_of_lookup {table : List (String × String)} {name value : String}
    (h : table.lookup name = some value) : (name, value) ∈ table := by
  obtain ⟨before, after, rfl, -⟩ := List.lookup_eq_some_iff.1 h
  simp

namespace JavaScript

open Text

/-- Words, operators, and what is read of a value: parts, counts, properties and results of methods. No
name has a parenthesis. -/
inductive Term : Node → Prop
  | word {kind : LeafKind} {name : String} {position : Nat} (h : unbracketed name = true) :
    Term (.leaf kind name position)
  | unary {origin : Nat} {op : UnaryOp} {operand : Node} (h : Term operand) :
    Term (.unary origin op operand)
  | binary {origin : Nat} {op : BinaryOp} {left right : Node} (hleft : Term left)
    (hright : Term right) : Term (.binary origin op left right)
  | chunk {origin : Nat} {kind : ChunkKind} {first of : Node} (hfirst : Term first) (hof : Term of) :
    Term (.chunk origin kind first of)
  | chunkRange {origin : Nat} {kind : ChunkKind} {first last of : Node} (hfirst : Term first)
    (hlast : Term last) (hof : Term of) : Term (.chunkRange origin kind first last of)
  | aspect {origin : Nat} {op : UnaryOp} {part : Option String} {of : Node}
    (hpart : ∀ name ∈ part, unbracketed name = true) (hof : Term of) : Term (.aspect origin op part of)
  | property {origin : Nat} {object : Node} {name : String} (h : unbracketed name = true)
    (hobject : Term object) : Term (.property origin object name)
  | methodCall {origin : Nat} {name : String} {object : Node} {kind : ListKind} {args : List Node}
    (h : unbracketed name = true) (hobject : Term object) (hargs : ∀ arg ∈ args, Term arg) :
    Term (.methodCall origin name object kind args)

def isInfix : Node → Bool
  | .binary _ op _ _ => !op.isMethod
  | _ => false

/-- Whether a node is an operation in parentheses or read of one. -/
def startsInfix : Node → Bool
  | .binary _ op _ _ => !op.isMethod
  | .chunk _ _ _ of | .chunkRange _ _ _ _ of | .aspect _ _ _ of => startsInfix of
  | .property _ object _ | .methodCall _ _ object _ _ => startsInfix object
  | _ => false

section Equations

variable (scope : Scope) (origin : Nat)

theorem text_unary (op : UnaryOp) (operand : Node) :
    text scope .plain (.unary origin op operand) =
      op.javaScript ++ "(" ++ text scope .plain operand ++ ")" := rfl

theorem text_chunk (kind : ChunkKind) (first of : Node) :
    text scope .plain (.chunk origin kind first of) =
      text scope .plain of ++ ".getPropRef(\"" ++ kind.name ++ "\", " ++ text scope .plain first ++
        ")" := rfl

theorem text_chunkRange (kind : ChunkKind) (first last of : Node) :
    text scope .plain (.chunkRange origin kind first last of) =
      text scope .plain of ++ ".getPropRef(\"" ++ kind.name ++ "\", " ++ text scope .plain first ++
        ", " ++ text scope .plain last ++ ")" := rfl

theorem text_methodCall (name : String) (object : Node) (kind : ListKind) (args : List Node) :
    text scope .plain (.methodCall origin name object kind args) =
      text scope .plain object ++ "." ++ name ++ "(" ++ commas (texts scope args) ++ ")" := rfl

end Equations

variable {scope : Scope} {c : Node} {name : String}

theorem texts_eq_map (scope : Scope) (args : List Node) :
    texts scope args = args.map (text scope .plain) := by
  induction args with
  | nil => rfl
  | cons arg args ih => rw [texts, ih, List.map_cons]

theorem balanced_commas {texts : List String} (h : ∀ t ∈ texts, Balanced t.toList) :
    Balanced (commas texts).toList := by
  unfold commas
  induction texts with
  | nil => exact .nil
  | cons first rest ih =>
    obtain ⟨hfirst, hrest⟩ := List.forall_mem_cons.1 h
    cases rest with
    | nil => simpa using hfirst
    | cons next rest =>
      rw [String.intercalate_cons_cons, String.toList_append, String.toList_append]
      exact (hfirst.append (.of_unbracketed (by decide))).append (ih hrest)

theorem owner_mem (name : String) :
    (Vocabulary.propertyOwners.lookup name).getD "me" ∈ ["me", "_movie", "_system", "_player"] := by
  cases howner : Vocabulary.propertyOwners.lookup name with
  | none => simp
  | some owner =>
    have hall : ∀ entry ∈ Vocabulary.propertyOwners,
        entry.2 ∈ ["me", "_movie", "_system", "_player"] := by decide
    exact hall (name, owner) (mem_of_lookup howner)

theorem unbracketed_self (scope : Scope) : unbracketed scope.self = true := by
  unfold Scope.self
  split <;> decide

theorem unbracketed_property (scope : Scope) (h : unbracketed name = true) :
    unbracketed (word scope .propertyName name) = true := by
  have howners : ∀ owner ∈ ["me", "_movie", "_system", "_player"], unbracketed owner = true := by
    decide
  have howner := howners _ (owner_mem name)
  have hself := unbracketed_self scope
  unfold word
  dsimp only
  unfold unbracketed at *
  split <;> simp_all [isParenthesis]

theorem balanced_word (scope : Scope) (kind : LeafKind) (h : unbracketed name = true) :
    Balanced (word scope kind name).toList := by
  have hname := Balanced.of_unbracketed h
  cases kind with
  | localVariable | parameterName => exact hname
  | constant =>
    unfold word
    dsimp only
    split
    · intro depth rest
      simp [behindClosing, hname _ _]
    · exact hname
  | raw =>
    unfold word
    dsimp only
    split
    · exact .of_unbracketed (unbracketed_self scope)
    · exact hname
  | propertyName | definedPropertyName => exact .of_unbracketed (unbracketed_property scope h)
  | symbol | globalVariable | dateTimeFunction | menu | menuItem | soundChannel | sprite | cast =>
    intro depth rest
    unfold word
    simp [behindClosing, hname _ _]

theorem balanced_text (scope : Scope) (h : Term c) : Balanced (text scope .plain c).toList := by
  induction h with
  | word h => exact balanced_word scope _ h
  | @unary _ op _ _ ih =>
    have hop : Balanced op.javaScript.toList := .of_unbracketed (by cases op <;> decide)
    rw [text_unary]
    intro depth rest
    simp [behindClosing, hop _ _, ih _ _]
  | @binary _ op _ _ _ _ ihleft ihright =>
    have hop : Balanced op.javaScript.toList := .of_unbracketed (by cases op <;> decide)
    rw [text_binary]
    intro depth rest
    split <;> simp [behindClosing, hop _ _, ihleft _ _, ihright _ _]
  | @chunk _ kind _ _ _ _ ihfirst ihof =>
    have hkind : Balanced kind.name.toList := .of_unbracketed (by cases kind <;> decide)
    rw [text_chunk]
    intro depth rest
    simp [behindClosing, hkind _ _, ihfirst _ _, ihof _ _]
  | @chunkRange _ kind _ _ _ _ _ _ ihfirst ihlast ihof =>
    have hkind : Balanced kind.name.toList := .of_unbracketed (by cases kind <;> decide)
    rw [text_chunkRange]
    intro depth rest
    simp [behindClosing, hkind _ _, ihfirst _ _, ihlast _ _, ihof _ _]
  | @aspect _ op part _ hpart _ ih =>
    have hop : Balanced op.javaScript.toList := .of_unbracketed (by cases op <;> decide)
    cases part with
    | some part =>
      have hname := Balanced.of_unbracketed (hpart part rfl)
      rw [text_aspect_some]
      intro depth rest
      split <;> simp [behindClosing, hop _ _, hname _ _, ih _ _]
    | none =>
      rw [text_aspect_none]
      intro depth rest
      split <;> simp [behindClosing, hop _ _, ih _ _]
  | property h _ ih =>
    have hname := Balanced.of_unbracketed h
    rw [text_property]
    split
    · exact hname
    · intro depth rest
      simp [behindClosing, hname _ _, ih _ _]
  | @methodCall _ _ _ _ args h _ _ ihobject ihargs =>
    have hname := Balanced.of_unbracketed h
    have hargs : ∀ t ∈ texts scope args, Balanced t.toList := by
      rw [texts_eq_map]
      exact List.forall_mem_map.2 ihargs
    have hparams := balanced_commas hargs
    rw [text_methodCall]
    intro depth rest
    simp [behindClosing, hname _ _, hparams _ _, ihobject _ _]

/-- The text of a node starts with a group if that of an operation comes first in it, and with no
parenthesis else. -/
def Opens (scope : Scope) (node : Node) : Prop :=
  startsInfix node = false ∧ startsWith (text scope .plain node) "(" = false ∨
    startsInfix node = true ∧ ∃ inner tail,
      text scope .plain node = "(" ++ inner ++ ")" ++ tail ∧ Balanced inner.toList ∧
        (tail = "" ↔ isInfix node = true)

theorem Opens.read {value node : Node} (h : Opens scope value)
    (hstart : startsInfix node = startsInfix value) (hsimple : isInfix node = false)
    (htext : (text scope .plain value).toList ++ ['.'] <+: (text scope .plain node).toList) :
    Opens scope node := by
  obtain ⟨rest, hrest⟩ := htext
  rcases h with ⟨hvalue, hplain⟩ | ⟨hvalue, inner, tail, hgroup, hinner, -⟩
  · refine .inl ⟨hstart.trans hvalue, ?_⟩
    unfold startsWith at hplain ⊢
    rw [← hrest]
    cases hchars : (text scope .plain value).toList with
    | nil => simp [List.isPrefixOf]
    | cons d s => simpa [hchars, List.isPrefixOf] using hplain
  · refine .inr ⟨hstart.trans hvalue, inner, String.ofList (tail.toList ++ '.' :: rest), ?_, hinner, ?_⟩
    · rw [← String.toList_inj, ← hrest, hgroup]
      simp
    · rw [hsimple, ← String.toList_inj]
      simp

theorem not_startsWith_word (scope : Scope) (kind : LeafKind) (h : unbracketed name = true) :
    startsWith (word scope kind name) "(" = false := by
  have hname := not_startsWith_of_unbracketed h
  cases kind with
  | localVariable | parameterName => exact hname
  | constant =>
    unfold word
    dsimp only
    split
    · simp [startsWith, List.isPrefixOf]
    · exact hname
  | raw =>
    unfold word
    dsimp only
    split
    · exact not_startsWith_of_unbracketed (unbracketed_self scope)
    · exact hname
  | propertyName | definedPropertyName =>
    exact not_startsWith_of_unbracketed (unbracketed_property scope h)
  | symbol | globalVariable | dateTimeFunction | menu | menuItem | soundChannel | sprite | cast =>
    unfold word
    simp [startsWith, List.isPrefixOf]

theorem opens (scope : Scope) (h : Term c) : Opens scope c := by
  induction h with
  | word h => exact .inl ⟨rfl, not_startsWith_word scope _ h⟩
  | @unary _ op _ _ _ =>
    obtain ⟨first, rest, hop, hfirst⟩ : ∃ first rest, op.javaScript.toList = first :: rest ∧
        '(' ≠ first := by
      cases op <;> exact ⟨_, _, rfl, by decide⟩
    refine .inl ⟨rfl, ?_⟩
    rw [text_unary]
    simp [startsWith, List.isPrefixOf, hop, hfirst]
  | @binary origin op left right hleft hright =>
    have ha := balanced_text scope hleft
    have hb := balanced_text scope hright
    have hop : Balanced op.javaScript.toList := .of_unbracketed (by cases op <;> decide)
    cases hmethod : op.isMethod with
    | true =>
      refine .inl ⟨by simp [startsInfix, hmethod], ?_⟩
      rw [text_binary, if_pos hmethod]
      simp [startsWith, List.isPrefixOf]
    | false =>
      refine .inr ⟨by simp [startsInfix, hmethod],
        text scope .plain left ++ " " ++ op.javaScript ++ " " ++ text scope .plain right, "", ?_, ?_,
        by simp [isInfix, hmethod]⟩
      · rw [text_binary, hmethod]
        simp [String.append_assoc]
      · intro depth rest
        simp [behindClosing, hop _ _, ha _ _, hb _ _]
  | chunk _ _ _ ih =>
    refine ih.read rfl rfl ?_
    simp [text_chunk]
  | chunkRange _ _ _ _ _ ih =>
    refine ih.read rfl rfl ?_
    simp [text_chunkRange]
  | @aspect origin op part of _ hof ih =>
    cases part with
    | some part =>
      refine ih.read rfl rfl ?_
      rw [text_aspect_some]
      split <;> simp
    | none =>
      by_cases hmenus : of.word? = some "menus"
      · obtain ⟨kind, name, position, rfl⟩ : ∃ kind name position, of = .leaf kind name position := by
          cases of <;> simp [Node.word?] at hmenus ⊢
        refine .inl ⟨rfl, ?_⟩
        rw [text_aspect_none, if_pos hmenus]
        simp [startsWith, List.isPrefixOf]
      · refine ih.read rfl rfl ?_
        rw [text_aspect_none, if_neg hmenus]
        simp
  | @property origin object name h _ ih =>
    by_cases howner : text scope .plain object = "tell_obj"
    · rcases ih with ⟨hobject, -⟩ | ⟨-, inner, tail, hgroup, -⟩
      · refine .inl ⟨hobject, ?_⟩
        rw [text_property, if_pos howner]
        exact not_startsWith_of_unbracketed h
      · rw [howner, ← String.toList_inj] at hgroup
        simp at hgroup
    · refine ih.read rfl rfl ?_
      rw [text_property, if_neg howner]
      simp
  | methodCall _ _ _ ih _ =>
    refine ih.read rfl rfl ?_
    simp [text_methodCall]

theorem isGroup_parenthesized_iff (scope : Scope) (h : Term c) :
    isGroup (parenthesized (text scope .plain c)) = true ↔
      (startsInfix c = true → isInfix c = true) := by
  rcases opens scope h with ⟨hstart, hplain⟩ | ⟨hstart, inner, tail, hgroup, hinner, htail⟩
  · have htext : parenthesized (text scope .plain c) = "(" ++ text scope .plain c ++ ")" ++ "" := by
      simp [parenthesized, hplain]
    simp [Balanced.isGroup_iff (balanced_text scope h) htext, hstart]
  · have hopen : startsWith (text scope .plain c) "(" = true := by
      rw [hgroup]
      simp [startsWith, List.isPrefixOf]
    rw [parenthesized, if_pos hopen, Balanced.isGroup_iff hinner hgroup, htail]
    simp [hstart]

/-- The texts of branches, loops and `tell` blocks start with a keyword, what stands for the condition or
the target, and a brace. What stands there is one parenthesised group if and only if the expression is
not read of an operation in parentheses. -/
theorem isGroup_header_iff (scope : Scope) (frame : Frame) (h : Term c) :
    let group := parenthesized (text scope .plain c)
    (∀ origin thenBody elseBody, ∃ below,
      text scope frame (.branch origin c thenBody elseBody) =
        "if " ++ group ++ " \x7b" ++ "\n" ++ below) ∧
      (∀ origin start stop body, ∃ below,
        text scope frame (.loop origin start stop .whileTrue c body) =
          "while " ++ group ++ " \x7b" ++ "\n" ++ below) ∧
      (∀ origin body, ∃ below,
        text scope frame (.tell origin c body) =
          "with " ++ group ++ " \x7b" ++ "\n" ++ below) ∧
      (isGroup group = true ↔ (startsInfix c = true → isInfix c = true)) := by
  intro group
  have hblock {header : String} {body : List Statement} {rest : List (String × List Statement)}
      {node : Node} (hnode : node.isBlock = true)
      (hsections : sections scope node = (header, body) :: rest) :
      ∃ below, text scope frame node = header ++ "\n" ++ below := by
    rw [text_eq hnode, assembled, hsections, sectionsText]
    exact ⟨_, String.append_assoc.trans String.append_assoc⟩
  exact ⟨fun _ _ _ => hblock rfl rfl, fun _ _ _ _ => hblock rfl rfl, fun _ _ => hblock rfl rfl,
    isGroup_parenthesized_iff scope h⟩

/-- In a branch on a property of a sum, only the sum is in parentheses. -/
theorem isGroup_header_property :
    let sum := Node.binary 2 .add (.leaf .constant "1" 0) (.leaf .localVariable "x" 1)
    let c := Node.property 3 sum "p"
    let scope : Scope := ⟨none, []⟩
    Term c ∧ (∃ below, text scope .plain (.branch 4 c [] []) = "if (1 + x).p \x7b" ++ "\n" ++ below) ∧
      isGroup "(1 + x).p" = false := by
  intro sum c scope
  have h : Term c := .property (by decide) (.binary (.word (by decide)) (.word (by decide)))
  have htext : parenthesized (text scope .plain c) = "(1 + x).p" := by decide +kernel
  obtain ⟨hbranch, -, -, hgroup⟩ := isGroup_header_iff scope .plain h
  rw [htext] at hbranch hgroup
  refine ⟨h, hbranch 4 [] [], ?_⟩
  rw [Bool.eq_false_iff, ne_eq, hgroup]
  decide

end JavaScript

end LingoSource
