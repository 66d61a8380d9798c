import LingoSource.Lingo.Expression
import LingoSource.Proofs.Text.Words

/-!
Phrases: variables and movie properties, and what is made of them with operators, properties and chunks.
Only operations on two operands have parentheses; all else nests through the words `the`, `of` and `to`.
-/
set_option autoImplicit false

namespace LingoSource.Lingo

open Text

def keywords : List String :=
  ["the", "of", "to", "not", "field", "char", "word", "item", "line"]

def isName (name : String) : Bool :=
  isWord name && !keywords.contains name

inductive Phrase : Node → Prop
  | localVariable {name : String} {position : Nat} (h : isName name = true) (hme : name ≠ "me")
    (howner : startsWith name "_" = false) : Phrase (.leaf .localVariable name position)
  | propertyName {name : String} {position : Nat} (h : isName name = true)
    (hancestor : name ≠ "ancestor") : Phrase (.leaf .propertyName name position)
  | unary {origin : Nat} {op : UnaryOp} {operand : Node} (hop : op = .not ∨ op = .field)
    (h : Phrase operand) : Phrase (.unary origin op operand)
  | binary {origin : Nat} {op : BinaryOp} {left right : Node} (hop : op.isSpritePredicate = false)
    (hleft : Phrase left) (hright : Phrase right) : Phrase (.binary origin op left right)
  | property {origin : Nat} {object : Node} {name : String} (h : isName name = true)
    (hobject : Phrase object) : Phrase (.property origin object name)
  | chunk {origin : Nat} {kind : ChunkKind} {first of : Node} (hfirst : Phrase first)
    (hof : Phrase of) : Phrase (.chunk origin kind first of)
  | chunkRange {origin : Nat} {kind : ChunkKind} {first last of : Node} (hfirst : Phrase first)
    (hlast : Phrase last) (hof : Phrase of) : Phrase (.chunkRange origin kind first last of)

/-- The variable that stands for the target of a `tell`. It is left out before its properties. -/
def isTellTarget : Node → Bool
  | .leaf .localVariable name _ => name = "tell_obj"
  | _ => false

def spelling : Node → List String
  | .leaf .propertyName name _ => ["the", name]
  | .leaf _ name _ => [name]
  | .unary _ op operand => op.lingo :: spelling operand
  | .binary _ op left right =>
    "(" :: (spelling left ++ op.lingo :: (spelling right ++ [")"]))
  | .property _ object name =>
    "the" :: name :: (if isTellTarget object then [] else "of" :: spelling object)
  | .chunk _ kind first of => kind.name :: (spelling first ++ "of" :: spelling of)
  | .chunkRange _ kind first last of =>
    kind.name :: (spelling first ++ "to" :: (spelling last ++ "of" :: spelling of))
  | _ => []

section Equations

variable (origin : Nat)

theorem text_unary {op : UnaryOp} (h : op ≠ .minus) (operand : Node) :
    expression (.unary origin op operand) = op.lingo ++ " " ++ expression operand := by
  cases op with
  | minus => exact absurd rfl h
  | _ => rfl

theorem text_binary {op : BinaryOp} (h : op.isSpritePredicate = false) (left right : Node) :
    expression (.binary origin op left right) =
      "(" ++ (expression left ++ " " ++ op.lingo ++ " " ++ expression right) ++ ")" := by
  cases op with
  | intersects | within => cases h
  | _ => rfl

theorem text_property (object : Node) (name : String) :
    expression (.property origin object name) =
      if expression object = "me" then name
      else if startsWith (expression object) "_" || expression object = "tell_obj" then
        "the " ++ name
      else "the " ++ name ++ " of " ++ expression object := rfl

theorem text_chunk (kind : ChunkKind) (first of : Node) :
    expression (.chunk origin kind first of) =
      kind.name ++ " " ++ expression first ++ " of " ++ expression of := rfl

theorem text_chunkRange (kind : ChunkKind) (first last of : Node) :
    expression (.chunkRange origin kind first last of) =
      kind.name ++ " " ++ expression first ++ " to " ++ expression last ++ " of " ++
        expression of := rfl

end Equations

theorem isWord_of_isName {name : String} (h : isName name = true) : isWord name = true :=
  (Bool.and_eq_true_iff.1 h).1

theorem not_mem_keywords {name : String} (h : isName name = true) : name ∉ keywords := by
  simpa [isName] using (Bool.and_eq_true_iff.1 h).2

theorem isWord_lingo (op : BinaryOp) : isWord op.lingo = true := by
  cases op <;> decide

theorem isWord_name (kind : ChunkKind) : isWord kind.name = true := by
  cases kind <;> decide

variable {node : Node} {ws ws' : List String} {t t' : String}

theorem spells_the (h : isWord t = true) : Spells ["the", t] ("the " ++ t) :=
  (Spells.word h).behind "the" "the " (by decide) (by decide)

theorem spelling_ne_nil (h : Phrase node) : spelling node ≠ [] := by
  cases h <;> simp [spelling]

theorem exists_of_spelling (h : Phrase node) (hword : spelling node = [t]) :
    ∃ position, node = .leaf .localVariable t position := by
  cases h with
  | @localVariable _ position => exact ⟨position, by simpa [spelling] using hword⟩
  | unary _ h => simp [spelling, spelling_ne_nil h] at hword
  | _ => simp [spelling] at hword

theorem startsWith_spelling (h : Phrase node) :
    ∀ w ∈ (spelling node).head?, startsWith w "_" = false := by
  cases h with
  | localVariable _ _ howner => simpa [spelling] using howner
  | unary hop =>
    rcases hop with rfl | rfl <;> simp [spelling, UnaryOp.lingo, startsWith, List.isPrefixOf]
  | @chunk _ kind | @chunkRange _ kind =>
    cases kind <;> simp [spelling, ChunkKind.name, startsWith, List.isPrefixOf]
  | _ => simp [spelling, startsWith, List.isPrefixOf]

section Property

variable {object : Node}

theorem expression_ne_me (h : Phrase object) (hspells : Spells (spelling object) (expression object)) :
    expression object ≠ "me" := by
  intro hme
  rw [hme] at hspells
  have hword : spelling object = ["me"] := hspells.words_eq.symm.trans (by decide)
  obtain ⟨position, rfl⟩ := exists_of_spelling h hword
  cases h
  contradiction

theorem startsWith_expression (h : Phrase object)
    (hspells : Spells (spelling object) (expression object)) :
    startsWith (expression object) "_" = false := by
  rw [Bool.eq_false_iff]
  intro hstart
  obtain ⟨rest, htext⟩ : ['_'] <+: (expression object).toList := by
    simpa [startsWith] using hstart
  obtain ⟨w, ws, hwords, hw⟩ := exists_wordsBehind (List.cons_ne_nil '_' []) rest
  have hspelling : spelling object = w :: ws := by
    rw [← hspells.words_eq, words, ← htext, ← hwords]
    rfl
  have hfirst := startsWith_spelling h w (by rw [hspelling]; rfl)
  rw [startsWith, List.isPrefixOf_iff_prefix.2 (by simpa using hw)] at hfirst
  cases hfirst

theorem expression_eq_tell_obj_iff (h : Phrase object)
    (hspells : Spells (spelling object) (expression object)) :
    expression object = "tell_obj" ↔ isTellTarget object = true := by
  constructor
  · intro htell
    rw [htell] at hspells
    have hword : spelling object = ["tell_obj"] := hspells.words_eq.symm.trans (by decide)
    obtain ⟨position, rfl⟩ := exists_of_spelling h hword
    rfl
  · intro htarget
    cases h with
    | localVariable => exact of_decide_eq_true htarget
    | _ => cases htarget

end Property

theorem spells_expression (h : Phrase node) : Spells (spelling node) (expression node) := by
  induction h with
  | localVariable h => exact .word (isWord_of_isName h)
  | @propertyName name position h hancestor =>
    have htext : expression (.leaf .propertyName name position) = "the " ++ name := if_neg hancestor
    rw [htext]
    exact spells_the (isWord_of_isName h)
  | @unary origin op operand hop _ ih =>
    have hword : isWord op.lingo = true := by rcases hop with rfl | rfl <;> decide
    rw [text_unary origin (by rcases hop with rfl | rfl <;> decide)]
    exact (Spells.word hword).space ih
  | @binary origin op left right hop _ _ ihleft ihright =>
    rw [text_binary origin hop]
    have hinner := (ihleft.space (.word (isWord_lingo op))).space ihright
    simpa [spelling] using hinner.parenthesized
  | @property origin object name h hobject ih =>
    have hthe := spells_the (isWord_of_isName h)
    rw [text_property, if_neg (expression_ne_me hobject ih), startsWith_expression hobject ih,
      Bool.false_or]
    simp only [decide_eq_true_eq, expression_eq_tell_obj_iff hobject ih, spelling]
    split
    · exact hthe
    · exact hthe.between ih "of" " of " (by decide) (by decide)
  | @chunk origin kind first of _ _ ihfirst ihof =>
    rw [text_chunk]
    have hstart := (Spells.word (isWord_name kind)).space ihfirst
    exact hstart.between ihof "of" " of " (by decide) (by decide)
  | @chunkRange origin kind first last of _ _ _ ihfirst ihlast ihof =>
    rw [text_chunkRange]
    have hstart := (Spells.word (isWord_name kind)).space ihfirst
    have hend := hstart.between ihlast "to" " to " (by decide) (by decide)
    have hall := hend.between ihof "of" " of " (by decide) (by decide)
    simpa [spelling] using hall

end LingoSource.Lingo
