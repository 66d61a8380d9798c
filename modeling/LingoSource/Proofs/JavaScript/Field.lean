import Mathlib.Data.List.Induction
import LingoSource.Proofs.JavaScript.Header

/-!
Texts that are put into a field, or into a part of one. What is assigned is the text of the field, and
`.text` is inserted where a reference to a field seems to end: behind the first closing parenthesis after
`field(`. That is the right place, and the only one, if the operand of the field has no closing
parenthesis in its text and the bounds of the part refer to no field.
-/
set_option autoImplicit false

namespace LingoSource.JavaScript

open Text

def fieldStart : List Char := ['f', 'i', 'e', 'l', 'd', '(']

def StartsReference (s : List Char) : Prop :=
  ∃ inner rest, s = fieldStart ++ (inner ++ ')' :: rest) ∧ inner ≠ [] ∧ ')' ∉ inner

def RefersToField (s : List Char) : Prop :=
  ∃ rest, rest <:+ s ∧ StartsReference rest

variable {s t inner rest : List Char} {c : Char}

section Reference

theorem not_refersToField_nil : ¬ RefersToField [] := by
  rintro ⟨rest, hrest, inner, after, rfl, -, -⟩
  simp [fieldStart] at hrest

theorem refersToField_cons :
    RefersToField (c :: s) ↔ StartsReference (c :: s) ∨ RefersToField s := by
  simp only [RefersToField, List.suffix_cons_iff, or_and_right, exists_or, exists_eq_left]

theorem StartsReference.of_append (h : StartsReference (s ++ ')' :: t)) :
    StartsReference (s ++ [')']) := by
  obtain ⟨inner, rest, heq, hne, hclose⟩ := h
  have hstart : ')' ∉ fieldStart ++ inner := by simp [fieldStart, hclose]
  rw [← List.append_assoc] at heq
  rcases List.append_eq_append_iff.1 heq with ⟨a, ha, hrest⟩ | ⟨a, rfl, hrest⟩
  · cases a with
    | nil =>
      obtain rfl : s = fieldStart ++ inner := by simpa using ha.symm
      exact ⟨inner, [], by simp, hne, hclose⟩
    | cons d a =>
      obtain ⟨rfl, -⟩ := List.cons.inj hrest
      exact absurd (by rw [ha]; simp) hstart
  · cases a with
    | nil => exact ⟨inner, [], by simp, hne, hclose⟩
    | cons d a =>
      obtain ⟨rfl, -⟩ := List.cons.inj hrest
      exact ⟨inner, a ++ [')'], by simp, hne, hclose⟩

theorem RefersToField.exists_first (h : RefersToField s) :
    ∃ before after, s = before ++ ')' :: after ∧ ¬ RefersToField before ∧
      RefersToField (before ++ [')']) := by
  -- From the end: what refers to a field does so without its last character, or else ends with it.
  induction s using List.reverseRecOn with
  | nil => exact absurd h not_refersToField_nil
  | append_singleton s c ih =>
    by_cases hs : RefersToField s
    · obtain ⟨before, after, rfl, hbefore, hfirst⟩ := ih hs
      exact ⟨before, after ++ [c], by simp, hbefore, hfirst⟩
    · obtain ⟨tail, hsuffix, inner, rest, rfl, hne, hclose⟩ := h
      obtain ⟨before, hbefore⟩ := hsuffix
      rcases List.eq_nil_or_concat rest with rfl | ⟨rest, d, rfl⟩
      · have hend : before ++ (fieldStart ++ inner) ++ [')'] = s ++ [c] := by simpa using hbefore
        obtain ⟨rfl, hc⟩ := List.append_inj' hend rfl
        obtain rfl : ')' = c := by simpa using hc
        exact ⟨_, [], rfl, hs, _, ⟨before, hbefore⟩, inner, [], rfl, hne, hclose⟩
      · have hend : before ++ (fieldStart ++ (inner ++ ')' :: rest)) ++ [d] = s ++ [c] := by
          simpa using hbefore
        obtain ⟨rfl, -⟩ := List.append_inj' hend rfl
        exact absurd ⟨_, ⟨before, rfl⟩, inner, rest, rfl, hne, hclose⟩ hs

end Reference

section Insertion

theorem idxOf?_eq_some_iff_exists {n : Nat} :
    s.idxOf? c = some n ↔ ∃ before after, s = before ++ c :: after ∧ before.length = n ∧ c ∉ before := by
  rw [List.idxOf?_eq_some_iff]
  constructor
  · rintro ⟨hn, hget, hbefore⟩
    refine ⟨s.take n, s.drop (n + 1), ?_, List.length_take_of_le (Nat.le_of_lt hn), ?_⟩
    · rw [← hget, ← List.drop_eq_getElem_cons hn, List.take_append_drop]
    · intro hmem
      obtain ⟨j, hj, heq⟩ := List.mem_take_iff_getElem.1 hmem
      exact hbefore j (by omega) heq
  · rintro ⟨before, after, rfl, rfl, hbefore⟩
    refine ⟨by simp, by simp, fun j hj heq => hbefore ?_⟩
    rw [List.getElem_append_left hj] at heq
    exact heq ▸ List.getElem_mem hj

theorem fieldTextFrom_some (n : Nat) (hs : s.length = n + 1) (t : List Char) :
    fieldTextFrom (some (n + 1)) (s ++ t) = s ++ (".text".toList ++ fieldTextFrom none t) := by
  induction n generalizing s with
  | zero =>
    obtain ⟨c, rfl⟩ := List.length_eq_one_iff.1 hs
    simp [fieldTextFrom]
  | succ n ih =>
    cases s with
    | nil => cases hs
    | cons c s =>
      rw [List.cons_append, fieldTextFrom, if_neg (by omega)]
      exact congrArg (c :: ·) (ih (by simpa using hs))

theorem fieldTextFrom_reference (hne : inner ≠ []) (hclose : ')' ∉ inner) (rest : List Char) :
    fieldTextFrom none (fieldStart ++ (inner ++ ')' :: rest)) =
      fieldStart ++ (inner ++ ')' :: (".text".toList ++ fieldTextFrom none rest)) := by
  have hindex : (inner ++ ')' :: rest).idxOf? ')' = some inner.length :=
    idxOf?_eq_some_iff_exists.2 ⟨inner, rest, rfl, rfl, hclose⟩
  obtain ⟨n, hn⟩ : ∃ n, inner.length = n + 1 :=
    Nat.exists_eq_succ_of_ne_zero (by simpa using hne)
  have hcount := fieldTextFrom_some (n + 6) (s := "ield(".toList ++ inner ++ [')'])
    (by simp [hn]) rest
  simp only [fieldStart, List.cons_append, List.nil_append]
  rw [fieldTextFrom, if_pos (by simp [List.isPrefixOf])]
  simp only [List.drop_succ_cons, List.drop_zero, hindex, hn]
  simpa using hcount

theorem fieldTextFrom_of_not_starts (h : ¬ StartsReference (c :: s)) :
    fieldTextFrom none (c :: s) = c :: fieldTextFrom none s := by
  rw [fieldTextFrom]
  split
  · rename_i hprefix
    obtain ⟨rest, hrest⟩ := List.isPrefixOf_iff_prefix.1 hprefix
    obtain ⟨rfl, rfl⟩ : 'f' = c ∧ 'i' :: 'e' :: 'l' :: 'd' :: '(' :: rest = s := by
      simpa using hrest
    split
    · rename_i n hn
      obtain ⟨inner, after, rfl, hlength, hclose⟩ := idxOf?_eq_some_iff_exists.1 hn
      exact absurd ⟨inner, after, rfl, List.ne_nil_of_length_eq_add_one hlength, hclose⟩ h
    · rfl
  · rfl

theorem fieldTextFrom_of_not_refersToField (h : ¬ RefersToField s) : fieldTextFrom none s = s := by
  induction s with
  | nil => rfl
  | cons c s ih =>
    obtain ⟨hstart, hrest⟩ := not_or.1 (refersToField_cons.not.1 h)
    rw [fieldTextFrom_of_not_starts hstart, ih hrest]

theorem fieldTextFrom_first (hbefore : ¬ RefersToField s) (hfirst : RefersToField (s ++ [')']))
    (t : List Char) :
    fieldTextFrom none (s ++ ')' :: t) = s ++ ')' :: (".text".toList ++ fieldTextFrom none t) := by
  induction s with
  | nil =>
    rcases refersToField_cons.1 hfirst with ⟨inner, rest, heq, -⟩ | h
    · simp [fieldStart] at heq
    · exact absurd h not_refersToField_nil
  | cons c s ih =>
    by_cases hstart : StartsReference (c :: s ++ [')'])
    · obtain ⟨inner, rest, heq, hne, hclose⟩ := hstart
      rcases List.eq_nil_or_concat rest with rfl | ⟨rest, d, rfl⟩
      · have hend : c :: s ++ [')'] = (fieldStart ++ inner) ++ [')'] := by simpa using heq
        have hs : c :: s = fieldStart ++ inner := List.append_cancel_right hend
        rw [hs, List.append_assoc, fieldTextFrom_reference hne hclose, List.append_assoc]
      · have hend : c :: s ++ [')'] = (fieldStart ++ (inner ++ ')' :: rest)) ++ [d] := by
          simpa using heq
        obtain ⟨hs, -⟩ := List.append_inj' hend rfl
        exact absurd (refersToField_cons.2 (.inl ⟨inner, rest, hs, hne, hclose⟩)) hbefore
    · have hrest : RefersToField (s ++ [')']) := (refersToField_cons.1 hfirst).resolve_left hstart
      have hnot : ¬ StartsReference (c :: (s ++ ')' :: t)) := fun h =>
        hstart (StartsReference.of_append (s := c :: s) h)
      have hs : ¬ RefersToField s := fun h => hbefore (refersToField_cons.2 (.inr h))
      rw [List.cons_append, fieldTextFrom_of_not_starts hnot, ih hs hrest]
      rfl

theorem length_le_fieldTextFrom {counted : Option Nat} (h : Due counted s) :
    s.length ≤ (fieldTextFrom counted s).length := by
  induction s generalizing counted with
  | nil => exact Nat.zero_le _
  | cons c s ih =>
    rcases fieldTextFrom_cons h with ⟨-, heq⟩ | ⟨next, hnext, heq⟩ <;> rw [heq]
    · have hrest := ih (due_none s)
      simp only [List.length_cons, List.length_append]
      omega
    · exact Nat.succ_le_succ (ih hnext)

theorem length_lt_fieldTextFrom (h : RefersToField s) :
    s.length < (fieldTextFrom none s).length := by
  obtain ⟨before, after, rfl, hbefore, hfirst⟩ := h.exists_first
  have hafter := length_le_fieldTextFrom (due_none after)
  rw [fieldTextFrom_first hbefore hfirst]
  simp only [List.length_append, List.length_cons, String.length_toList]
  have htext : ".text".length = 5 := rfl
  omega

/-- The place of an insertion shows if a closing parenthesis stands before one of two places. -/
theorem text_append_ne (u v : List Char) :
    ".text".toList ++ (u ++ ')' :: v) ≠ u ++ ')' :: (".text".toList ++ v) := by
  intro h
  have hwhole : ".text".toList ++ u ++ [')'] ++ v = u ++ ").tex".toList ++ ['t'] ++ v := by
    simpa using h
  have hsame := List.append_cancel_right hwhole
  have hlast := congrArg List.getLast? hsame
  rw [List.getLast?_concat, List.getLast?_concat] at hlast
  cases hlast

/-- `.text` is inserted once and behind this closing parenthesis if and only if the first reference ends
there and there is none behind. -/
theorem fieldTextFrom_eq_iff (s t : List Char) :
    fieldTextFrom none (s ++ ')' :: t) = s ++ ')' :: (".text".toList ++ t) ↔
      (¬ RefersToField s ∧ RefersToField (s ++ [')'])) ∧ ¬ RefersToField t := by
  constructor
  · intro h
    have hlength := congrArg List.length h
    have hrefers : RefersToField (s ++ ')' :: t) := by
      by_contra hnone
      rw [fieldTextFrom_of_not_refersToField hnone] at hlength
      simp at hlength
    obtain ⟨before, after, heq, hbefore, hfirst⟩ := hrefers.exists_first
    have hafter : ¬ RefersToField after := fun hafter => by
      have hlonger := length_lt_fieldTextFrom hafter
      have hsplit := congrArg List.length heq
      rw [heq, fieldTextFrom_first hbefore hfirst] at hlength
      simp at hlength hsplit
      omega
    rw [heq, fieldTextFrom_first hbefore hfirst, fieldTextFrom_of_not_refersToField hafter] at h
    -- The closing parenthesis of the first reference is this one, since the results agree.
    rcases List.append_eq_append_iff.1 heq with ⟨a, rfl, htail⟩ | ⟨a, rfl, htail⟩
    · cases a with
      | nil =>
        obtain rfl : t = after := by simpa using htail
        exact ⟨⟨by simpa using hbefore, by simpa using hfirst⟩, hafter⟩
      | cons d a =>
        obtain ⟨rfl, rfl⟩ := List.cons.inj htail
        exact absurd (by simpa using h.symm) (text_append_ne a after)
    · cases a with
      | nil =>
        obtain rfl : after = t := by simpa using htail
        exact ⟨⟨by simpa using hbefore, by simpa using hfirst⟩, hafter⟩
      | cons d a =>
        obtain ⟨rfl, rfl⟩ := List.cons.inj htail
        exact absurd (by simpa using h) (text_append_ne a t)
  · rintro ⟨⟨hs, hfirst⟩, ht⟩
    rw [fieldTextFrom_first hs hfirst, fieldTextFrom_of_not_refersToField ht]

end Insertion

/-- The operand of a field ends the first reference of its text, `field(` itself included. -/
def ClosesField (operand : String) : Prop :=
  ¬ RefersToField ("field(" ++ operand).toList ∧ RefersToField ("field(" ++ operand ++ ")").toList

theorem RefersToField.stands (h : RefersToField s) : fieldStart <:+: s := by
  obtain ⟨_, hsuffix, inner, rest, rfl, -, -⟩ := h
  exact (List.prefix_append ..).isInfix.trans hsuffix.isInfix

/-- The reference ends at the parenthesis of the field if and only if the operand has no closing
parenthesis. Nothing refers to a field without an operand. -/
theorem closesField_iff {operand : String} (h : startsWith operand ")" = false) :
    ClosesField operand ↔ operand ≠ "" ∧ ')' ∉ operand.toList := by
  have hopen : ("field(" ++ operand).toList = fieldStart ++ operand.toList := by simp [fieldStart]
  have hclosed : ("field(" ++ operand ++ ")").toList = fieldStart ++ (operand.toList ++ [')']) := by
    simp [fieldStart]
  have hempty : operand ≠ "" ↔ operand.toList ≠ [] := by simp
  unfold ClosesField
  rw [hopen, hclosed, hempty]
  unfold startsWith at h
  generalize operand.toList = s at h
  constructor
  · rintro ⟨hnone, hfirst⟩
    constructor
    · rintro rfl
      obtain ⟨_, hsuffix, inner, rest, rfl, hne, -⟩ := hfirst
      have hlength := hsuffix.length_le
      have hinner := List.length_pos_iff.2 hne
      simp [fieldStart] at hlength
      omega
    · intro hmem
      obtain ⟨inner, rest, rfl, hinner⟩ := List.eq_append_cons_of_mem hmem
      refine hnone ⟨_, List.suffix_rfl, inner, rest, rfl, ?_, hinner⟩
      rintro rfl
      simp [List.isPrefixOf] at h
  · rintro ⟨hne, hclose⟩
    have hnone : ')' ∉ fieldStart ++ s := by simp [fieldStart, hclose]
    refine ⟨?_, _, List.suffix_rfl, s, [], rfl, hne, hclose⟩
    rintro ⟨_, hsuffix, inner, rest, rfl, -, -⟩
    exact hnone (hsuffix.subset (by simp))

structure Part where
  origin : Nat
  kind : ChunkKind
  first : Node
  last : Option Node

namespace Part

def select (part : Part) (node : Node) : Node :=
  match part.last with
  | none => .chunk part.origin part.kind part.first node
  | some last => .chunkRange part.origin part.kind part.first last node

def bounds (part : Part) : List Node :=
  part.first :: part.last.toList

def reference (scope : Scope) (part : Part) : String :=
  ".getPropRef(\"" ++ part.kind.name ++ "\", " ++ commas (texts scope part.bounds) ++ ")"

end Part

/-- The part of a text that the steps lead to; the outermost step comes last. -/
def selected (parts : List Part) (node : Node) : Node :=
  parts.foldl (fun node part => part.select node) node

def references (scope : Scope) : List Part → String
  | [] => ""
  | part :: parts => part.reference scope ++ references scope parts

theorem Part.text_select (scope : Scope) (part : Part) (node : Node) :
    text scope .plain (part.select node) = text scope .plain node ++ part.reference scope := by
  obtain ⟨origin, kind, first, last⟩ := part
  unfold reference
  cases last with
  | none => simp [select, bounds, text_chunk, texts, commas, String.append_assoc]
  | some last =>
    simp [select, bounds, text_chunkRange, texts, commas, String.append_assoc,
      String.intercalate_cons_cons]

theorem selected_cons (part : Part) (parts : List Part) (node : Node) :
    selected (part :: parts) node = selected parts (part.select node) := rfl

theorem text_selected (scope : Scope) (parts : List Part) (node : Node) :
    text scope .plain (selected parts node) = text scope .plain node ++ references scope parts := by
  induction parts generalizing node with
  | nil => simp [selected, references]
  | cons part parts ih =>
    rw [selected_cons, ih, part.text_select, references, String.append_assoc]

theorem not_infix_of_not_mem (hc : c ∈ fieldStart) (hs : c ∉ s) : ¬ fieldStart <:+: s := fun h =>
  hs (h.subset hc)

theorem not_infix_append_cons (hc : c ∉ fieldStart) (hs : ¬ fieldStart <:+: s)
    (ht : ¬ fieldStart <:+: t) : ¬ fieldStart <:+: s ++ c :: t := fun h =>
  (infix_of_infix_append_cons h hc).elim hs ht

theorem not_infix_commas {texts : List String} (h : ∀ t ∈ texts, ¬ fieldStart <:+: t.toList) :
    ¬ fieldStart <:+: (commas texts).toList := by
  unfold commas
  induction texts with
  | nil => simp [fieldStart]
  | cons first rest ih =>
    obtain ⟨hfirst, hrest⟩ := List.forall_mem_cons.1 h
    cases rest with
    | nil => simpa using hfirst
    | cons next rest =>
      have hbehind := not_infix_append_cons (c := ' ') (s := []) (by decide) (by decide) (ih hrest)
      have hcomma := not_infix_append_cons (c := ',') (by decide) hfirst hbehind
      simpa [String.intercalate_cons_cons] using hcomma

/-- No reference to a part ends or starts a `field(`, so what refers to a field stands in a bound. -/
theorem not_refersToField_references {scope : Scope} {parts : List Part}
    (h : ∀ part ∈ parts, ∀ bound ∈ part.bounds, ¬ Within "field(" (text scope .plain bound)) :
    ¬ RefersToField (references scope parts).toList := by
  suffices hnone : ¬ fieldStart <:+: (references scope parts).toList from fun hfield =>
    hnone hfield.stands
  induction parts with
  | nil => simp [references, fieldStart]
  | cons part parts ih =>
    obtain ⟨hpart, hparts⟩ := List.forall_mem_cons.1 h
    have hbounds : ¬ fieldStart <:+: (commas (texts scope part.bounds)).toList := by
      rw [texts_eq_map]
      exact not_infix_commas (List.forall_mem_map.2 hpart)
    have hkind : ¬ fieldStart <:+: part.kind.name.toList := by
      refine not_infix_of_not_mem (c := '(') (by decide) ?_
      cases part.kind <;> decide
    have hopen : ¬ fieldStart <:+: ".getPropRef(".toList :=
      not_infix_of_not_mem (c := 'd') (by decide) (by decide)
    have hbehind := not_infix_append_cons (c := ')') (by decide) hbounds (ih hparts)
    have hcomma := not_infix_append_cons (c := ',') (s := []) (by decide) (by decide) <|
      not_infix_append_cons (c := ' ') (s := []) (by decide) (by decide) hbehind
    have hquote := not_infix_append_cons (c := '"') (by decide) hopen <|
      not_infix_append_cons (c := '"') (by decide) hkind hcomma
    unfold references Part.reference
    simpa using hquote

theorem putText_inj {mode : PutMode} {a b value : String} :
    putText mode a value = putText mode b value ↔ a = b := by
  refine ⟨fun h => ?_, fun h => h ▸ rfl⟩
  rw [← String.toList_inj] at h ⊢
  -- The target may stand twice; the lengths of the texts still give its length.
  have hlength := congrArg List.length h
  cases mode with
  | into => simpa [putText] using h
  | after =>
    simp [putText] at h hlength
    exact (List.append_inj h (by omega)).1
  | before =>
    simp [putText] at h hlength
    exact (List.append_inj h (by omega)).1

theorem endsWith_references {t : String} (h : endsWith t ')' = true) (scope : Scope)
    (parts : List Part) : endsWith (t ++ references scope parts) ')' = true := by
  induction parts generalizing t with
  | nil => simpa [references] using h
  | cons part parts ih =>
    rw [references, ← String.append_assoc]
    refine ih ?_
    unfold endsWith Part.reference
    simp only [String.toList_append, ← List.append_assoc]
    exact decide_eq_true List.getLast?_concat

theorem isField_references (operand : String) (scope : Scope) (parts : List Part) :
    isField ("field(" ++ operand ++ ")" ++ references scope parts) = true := by
  have hend : endsWith ("field(" ++ operand ++ ")") ')' = true := by
    unfold endsWith
    rw [String.toList_append]
    exact decide_eq_true List.getLast?_concat
  unfold isField
  rw [endsWith_references hend, Bool.and_true]
  simp [startsWith]

/-- What a text that is put into a field, or into a part of one, is assigned to. It is the text of the
left side with one `.text`, behind the parenthesis that closes the field, if and only if the reference to
the field ends there and none starts in what selects the part. -/
theorem text_put_field_iff (scope : Scope) (frame : Frame) (origin fieldOrigin : Nat)
    (mode : PutMode) (operand right : Node) (parts : List Part) :
    let inner := text scope .plain operand
    let field := "field(" ++ inner ++ ")"
    let behind := references scope parts
    let value := text scope .plain right
    let left := selected parts (.unary fieldOrigin .field operand)
    let put := text scope frame (.put origin mode left right)
    text scope .plain left = field ++ behind ∧
      put = putText mode (fieldText (field ++ behind)) value ∧
      (put = putText mode (field ++ ".text" ++ behind) value ↔
        ClosesField inner ∧ ¬ RefersToField behind.toList) ∧
      (startsWith inner ")" = false → (ClosesField inner ↔ inner ≠ "" ∧ ')' ∉ inner.toList)) ∧
      ((∀ part ∈ parts, ∀ bound ∈ part.bounds, ¬ Within "field(" (text scope .plain bound)) →
        ¬ RefersToField behind.toList) := by
  intro inner field behind value left put
  have hleft : text scope .plain left = field ++ behind := text_selected scope parts _
  have hput : put = putText mode (fieldText (field ++ behind)) value := by
    have hframe : put = text scope .plain (.put origin mode left right) := by cases mode <;> rfl
    rw [hframe, text_put, hleft, if_pos (isField_references inner scope parts)]
  refine ⟨hleft, hput, ?_, closesField_iff, not_refersToField_references⟩
  have hopen : (field ++ behind).toList = ("field(" ++ inner).toList ++ ')' :: behind.toList := by
    simp [field]
  have hclosed : ("field(" ++ inner ++ ")").toList = ("field(" ++ inner).toList ++ [')'] :=
    String.toList_append
  have htarget : (field ++ ".text" ++ behind).toList =
      ("field(" ++ inner).toList ++ ')' :: (".text".toList ++ behind.toList) := by
    simp [field]
  rw [hput, putText_inj, ClosesField, hclosed, ← fieldTextFrom_eq_iff, fieldText, hopen,
    ← String.toList_inj, String.toList_ofList, htarget]

/-- What is put into a field that a string names: `.text` goes behind the string. -/
theorem text_put_field_string :
    let operand := Node.leaf .constant "\"score\"" 9
    let scope : Scope := ⟨none, []⟩
    let put := Node.put 11 .into (selected [] (.unary 11 .field operand)) (.leaf .localVariable "x" 0)
    text scope .plain put = "field(new LingoString(\"score\").text) = x" ∧
      text scope .plain put ≠ putText .into "field(new LingoString(\"score\")).text" "x" := by
  intro operand scope put
  have hput : text scope .plain put = "field(new LingoString(\"score\").text) = x" := by
    decide +kernel
  obtain ⟨-, -, hiff, hcloses, -⟩ :=
    text_put_field_iff scope .plain 11 11 .into operand (.leaf .localVariable "x" 0) []
  refine ⟨hput, fun heq => ?_⟩
  have hclose := (hcloses (by decide +kernel)).1 (hiff.1 heq).1
  exact hclose.2 (by decide +kernel)

end LingoSource.JavaScript
