import LingoSource.Proofs.Lingo.Layout
import LingoSource.Proofs.Lingo.Phrase
import LingoSource.Proofs.Text.Comment
import Mathlib.Data.List.Forall2

/-!
Where a comment can come from in an expression. Every node takes over the texts of its parts with
something between them, up to the unary minus, which stands directly in front of its operand. So an
expression has a comment in it if and only if a minus in it stands before a minus sign. A name can be the
text of an expression itself: what a sprite or a cast member is identified by, and what a call calls.
-/
set_option autoImplicit false

namespace LingoSource

namespace Lingo

open Text

/-- How a node stands in the text of another: with its own text, or as the bare name of a word. -/
def Displays (node : Node) (t : String) : Prop :=
  t = expression node ∨ node.word? = some t

/-- An expression whose names are words that can be read on their own, or texts of such expressions. -/
inductive Lexical : Node → Prop
  | word {kind : LeafKind} {name : String} {position : Nat} (h : Steady name) :
      Lexical (.leaf kind name position)
  | identified {kind : LeafKind} {root : Node} {name : String} {position : Nat}
      (hroot : Lexical root) (hname : Displays root name) : Lexical (.leaf kind name position)
  | unary {origin : Nat} {op : UnaryOp} {operand : Node} (h : Lexical operand) :
      Lexical (.unary origin op operand)
  | binary {origin : Nat} {op : BinaryOp} {left right : Node} (hl : Lexical left)
      (hr : Lexical right) : Lexical (.binary origin op left right)
  | chunk {origin : Nat} {kind : ChunkKind} {first of : Node} (hfirst : Lexical first)
      (hof : Lexical of) : Lexical (.chunk origin kind first of)
  | chunkRange {origin : Nat} {kind : ChunkKind} {first last of : Node} (hfirst : Lexical first)
      (hlast : Lexical last) (hof : Lexical of) : Lexical (.chunkRange origin kind first last of)
  | aspect {origin : Nat} {op : UnaryOp} {part : Option String} {of : Node}
      (hpart : ∀ name ∈ part, isPlain name = true) (h : Lexical of) :
      Lexical (.aspect origin op part of)
  | property {origin : Nat} {object : Node} {name : String} (hname : isPlain name = true)
      (h : Lexical object) : Lexical (.property origin object name)
  | builtinProperty {name : String} (origin : Nat) (hname : isPlain name = true) :
      Lexical (.builtinProperty origin name)
  | menuItemOf {origin : Nat} {menu item : Node} (hmenu : Lexical menu) (hitem : Lexical item) :
      Lexical (.menuItemOf origin menu item)
  | menuItemsOf {origin : Nat} {menu : Node} (h : Lexical menu) : Lexical (.menuItemsOf origin menu)
  | arguments {origin : Nat} {kind : ListKind} {args : List Node} (h : ∀ a ∈ args, Lexical a) :
      Lexical (.arguments origin kind args)
  | list {origin : Nat} {values : Node} (h : Lexical values) : Lexical (.list origin values)
  | propertyList {origin inner : Nat} {kind : ListKind} {args : List Node}
      (heven : args.length % 2 = 0) (h : ∀ a ∈ args, Lexical a) :
      Lexical (.propertyList origin (.arguments inner kind args))
  | call {origin : Nat} {name : String} {kind : ListKind} {args : List Node} {inTell : Bool}
      (hname : Steady name) (h : ∀ a ∈ args, Lexical a) :
      Lexical (.call origin name kind args inTell)
  | called {origin : Nat} {callee : Node} {name : String} {kind : ListKind} {args : List Node}
      {inTell : Bool} (hcallee : Lexical callee) (hname : Displays callee name)
      (h : ∀ a ∈ args, Lexical a) : Lexical (.call origin name kind args inTell)
  | methodCall {origin : Nat} {name : String} {object : Node} {kind : ListKind} {args : List Node}
      (hname : isPlain name = true) (hobject : Lexical object) (h : ∀ a ∈ args, Lexical a) :
      Lexical (.methodCall origin name object kind args)

def writesOwner (object : Node) : Bool :=
  !(expression object = "me" || (startsWith (expression object) "_" || expression object = "tell_obj"))

/-- The nodes that stand in the text of a node, for a block in its first line. -/
def parts : Node → List Node
  | .unary _ _ operand => [operand]
  | .binary _ _ left right | .assign _ left right | .put _ _ left right => [left, right]
  | .chunk _ _ first of => [first, of]
  | .chunkRange _ _ first last of => [first, last, of]
  | .aspect _ _ _ of => [of]
  | .property _ object _ => if writesOwner object then [object] else []
  | .menuItemOf _ menu item => [item, menu]
  | .menuItemsOf _ menu => [menu]
  | .arguments _ _ args => args
  | .list _ values => [values]
  | .propertyList _ (.arguments _ _ args) => args
  | .propertyList _ values => [values]
  | .call _ _ _ args _ => args
  | .methodCall _ _ object _ args => object :: args
  | .loop _ _ _ (.counted _ first last _) _ _ => [first, last]
  | .loop _ _ _ (.each _ list) _ _ => [list]
  | .loop _ _ _ .whileTrue condition _ | .branch _ condition _ _ | .jumpUnless _ condition _ =>
    [condition]
  | .tell _ target _ => [target]
  | .leaf .. | .builtinProperty .. | .jump .. | .exitLoop _ => []

def names : Node → List String
  | .leaf _ name _ | .call _ name _ _ _ | .loop _ _ _ (.counted name _ _ _) _ _
  | .loop _ _ _ (.each name _) _ _ => [name]
  | _ => []

inductive ShowsIn (node : Node) : Node → Prop
  | self : ShowsIn node node
  | part {outer part : Node} (hpart : part ∈ parts outer) (h : ShowsIn node part) :
      ShowsIn node outer
  | name {outer root : Node} {t : String} (ht : t ∈ names outer) (hroot : Lexical root)
      (hdisplays : Displays root t) (h : ShowsIn node root) : ShowsIn node outer

/-- A minus that stands before a minus sign shows in the text of a node. -/
def DoublesMinus (node : Node) : Prop :=
  ∃ origin operand, ShowsIn (.unary origin .minus operand) node ∧
    startsWith (expression operand) "-" = true

variable {node : Node} {t : String} {ws : List String}

theorem displays_texts (args : List Node) : List.Forall₂ Displays args (texts args) := by
  induction args with
  | nil => exact .nil
  | cons arg args ih => exact .cons (.inl rfl) ih

theorem displays_argumentTexts (name : String) (args : List Node) :
    List.Forall₂ Displays args (argumentTexts name args (texts args)) := by
  have hall := displays_texts args
  unfold argumentTexts
  split
  · rename_i symbol _ rest _ _ htexts
    rw [htexts] at hall
    refine .cons ?_ (List.forall₂_cons.1 hall).2
    split
    · exact .inr rfl
    · exact (List.forall₂_cons.1 hall).1
  · exact hall

/-- A call is its name and its arguments. Where the name is `sound`, the first of them is a bare word. -/
theorem exists_joins_callText (statement : Bool) (name : String) (args : List Node) :
    ∃ ws, List.Forall₂ Displays args ws ∧
      Joins (name :: ws) (callText statement name args (texts args)) := by
  cases args with
  | nil => exact ⟨[], .nil, .word name⟩
  | cons arg rest =>
    have htexts : texts (arg :: rest) = expression arg :: texts rest := rfl
    unfold callText
    rw [htexts]
    dsimp only
    split
    · rename_i hsound
      subst hsound
      have hspace : "sound " = "sound" ++ " " := by decide
      have hjoins := Joins.before (w := "sound") (s := " ") (by decide)
        (.before (w := arg.word?.getD (expression arg)) (s := " ") (by decide) (.commas (texts rest)))
      refine ⟨arg.word?.getD (expression arg) :: texts rest, .cons ?_ (displays_texts rest), ?_⟩
      · cases hword : arg.word? with
        | none => exact .inl rfl
        | some word => exact .inr hword
      · simpa only [hspace, String.append_assoc] using hjoins
    · have hargs := displays_argumentTexts name (arg :: rest)
      rw [htexts] at hargs
      refine ⟨_, hargs, ?_⟩
      have hparams := Joins.commas (argumentTexts name (arg :: rest) (expression arg :: texts rest))
      split
      · simpa only [String.append_assoc] using Joins.before (s := " ") (by decide) hparams
      · have hclosed := hparams.append_gap (s := ")") (by decide)
        simpa only [String.append_assoc] using Joins.before (s := "(") (by decide) hclosed

theorem pairTexts_eq_nil {texts : List String} (heven : texts.length % 2 = 0)
    (h : pairTexts texts = []) : texts = [] := by
  rcases texts with _ | ⟨_, _ | ⟨_, _⟩⟩
  · rfl
  · cases heven
  · cases h

theorem joins_pairTexts (texts : List String) (heven : texts.length % 2 = 0) :
    Joins texts (commas (pairTexts texts)) := by
  fun_induction pairTexts texts with
  | case1 key value rest ih =>
    have hrest : rest.length % 2 = 0 := by
      rw [List.length_cons, List.length_cons] at heven
      omega
    have hpair := Joins.before (s := ": ") (by decide) (.word value) (w := key)
    rw [← String.append_assoc] at hpair
    exact hpair.commas_cons (ih hrest) (pairTexts_eq_nil hrest)
  | case2 texts h =>
    have hnil : pairTexts texts = [] := by
      unfold pairTexts
      split
      · exact absurd rfl (h _ _ _)
      · rfl
    rw [pairTexts_eq_nil heven hnil]
    exact .quiet (by decide)

theorem displays_map (nodes : List Node) : List.Forall₂ Displays nodes (nodes.map expression) := by
  induction nodes with
  | nil => exact .nil
  | cons node nodes ih => exact .cons (.inl rfl) ih

theorem quiet_lingo (op : UnaryOp) : Quiet (op.lingo ++ " ") := by
  cases op <;> decide

theorem gap_lingo (op : BinaryOp) : Gap (" " ++ op.lingo ++ " ") := by
  cases op <;> decide

theorem quiet_name (kind : ChunkKind) : Quiet (kind.name ++ " ") := by
  cases kind <;> decide

theorem length_texts (args : List Node) : (texts args).length = args.length :=
  (displays_texts args).length_eq.symm

section Equations

variable (origin : Nat)

theorem text_aspect_some (op : UnaryOp) (part : String) (of : Node) :
    expression (.aspect origin op (some part) of) =
      if op = .last then "the last " ++ part ++ " of " ++ expression of
      else "the " ++ op.lingo ++ " of " ++ part ++ "s of " ++ expression of := rfl

theorem text_aspect_none (op : UnaryOp) (of : Node) :
    expression (.aspect origin op none of) = "the " ++ op.lingo ++ " of " ++ expression of := rfl

theorem text_propertyList (inner : Nat) (kind : ListKind) (args : List Node) :
    expression (.propertyList origin (.arguments inner kind args)) =
      if args = [] then "[:]" else "[" ++ commas (pairTexts (texts args)) ++ "]" := by
  cases args <;> rfl

end Equations

theorem text_spritePredicate (origin : Nat) {op : BinaryOp} (h : op.isSpritePredicate = true)
    (left right : Node) :
    expression (.binary origin op left right) =
      "sprite " ++ (expression left ++ " " ++ op.lingo ++ " " ++ expression right) :=
  if_pos h

def Composed (node : Node) (t : String) : Prop :=
  ∃ ws, List.Forall₂ Displays (parts node) ws ∧ Joins (names node ++ ws) t

theorem composed_binary (origin : Nat) (op : BinaryOp) (left right : Node) :
    Composed (.binary origin op left right) (expression (.binary origin op left right)) := by
  refine ⟨_, displays_map _, ?_⟩
  change Joins [expression left, expression right] _
  have hinner := Joins.before (w := expression left) (gap_lingo op) (.word (expression right))
  cases hsprite : op.isSpritePredicate with
  | false =>
    rw [text_binary origin hsprite]
    have hgroup := Joins.behind (s := "(") (by decide) (hinner.append_gap (s := ")") (by decide))
    simpa only [String.append_assoc] using hgroup
  | true =>
    rw [text_spritePredicate origin hsprite]
    have hpair := Joins.behind (s := "sprite ") (by decide) hinner
    simpa only [String.append_assoc] using hpair

theorem composed_aspect (origin : Nat) (op : UnaryOp) (of : Node) {part : Option String}
    (hpart : ∀ name ∈ part, isPlain name = true) :
    Composed (.aspect origin op part of) (expression (.aspect origin op part of)) := by
  refine ⟨_, displays_map _, ?_⟩
  have hof (s : String) (hs : Quiet s) : Joins [expression of] (s ++ expression of) :=
    .behind hs (.word _)
  cases part with
  | none =>
    rw [text_aspect_none]
    exact hof _ (by cases op <;> decide)
  | some part =>
    have hplain := quiet_of_isPlain (hpart part rfl)
    rw [text_aspect_some]
    split
    · exact hof _ ((Quiet.append (s := "the last ") (by decide) hplain).append (by decide))
    · have hthe : Quiet ("the " ++ op.lingo ++ " of ") := by cases op <;> decide
      exact hof _ ((hthe.append hplain).append (by decide))

theorem composed_property (origin : Nat) (object : Node) {name : String} (hname : isPlain name = true) :
    Composed (.property origin object name) (expression (.property origin object name)) := by
  have hplain := quiet_of_isPlain hname
  have hthe : Quiet ("the " ++ name) := Quiet.append (by decide) hplain
  rw [Composed, text_property, parts]
  by_cases hme : expression object = "me"
  · rw [if_pos hme]
    exact ⟨[], by simp [writesOwner, hme], .quiet hplain⟩
  rw [if_neg hme]
  cases howner : startsWith (expression object) "_" || expression object = "tell_obj" with
  | true => exact ⟨[], by simp [writesOwner, hme, howner], .quiet hthe⟩
  | false =>
    refine ⟨[expression object], ?_, .behind (hthe.append (by decide)) (.word _)⟩
    simpa [writesOwner, hme, howner] using displays_map [object]

theorem composed_propertyList (origin inner : Nat) (kind : ListKind) {args : List Node}
    (heven : args.length % 2 = 0) :
    Composed (.propertyList origin (.arguments inner kind args))
      (expression (.propertyList origin (.arguments inner kind args))) := by
  refine ⟨_, displays_texts args, ?_⟩
  change Joins (texts args) _
  rw [text_propertyList]
  split
  · rename_i hnil
    subst hnil
    exact .quiet (by decide)
  · have hpairs := joins_pairTexts (texts args) ((length_texts args).symm ▸ heven)
    have hclosed := hpairs.append_gap (s := "]") (by decide)
    simpa only [String.append_assoc] using hclosed.behind (s := "[") (by decide)

theorem composed_methodCall (origin : Nat) (object : Node) (kind : ListKind) (args : List Node)
    {name : String} (hname : isPlain name = true) :
    Composed (.methodCall origin name object kind args)
      (expression (.methodCall origin name object kind args)) := by
  refine ⟨expression object :: texts args, .cons (.inl rfl) (displays_texts args), ?_⟩
  have hargs := (Joins.commas (texts args)).append_gap (s := ")") (by decide)
  have hto : Gap (" to " ++ name ++ "(") :=
    (Gap.append (s := " to ") (by decide) (quiet_of_isPlain hname)).append (by decide)
  have hcall := (Joins.before (w := expression object) hto hargs).behind (s := "tell ") (by decide)
  change Joins (expression object :: texts args)
    ("tell " ++ expression object ++ " to " ++ name ++ "(" ++ commas (texts args) ++ ")")
  simpa only [String.append_assoc] using hcall

/-- A minus is all that does not keep its operand apart from itself. -/
theorem composed_expression (h : Lexical node) (hleaf : node.isLeaf = false)
    (hminus : ∀ origin operand, node ≠ .unary origin .minus operand) :
    Composed node (expression node) := by
  unfold Composed
  cases h with
  | word | identified => cases hleaf
  | @unary origin op operand =>
    refine ⟨_, displays_map _, ?_⟩
    rw [text_unary origin fun hop => hminus origin operand (hop ▸ rfl)]
    exact .behind (quiet_lingo op) (.word _)
  | binary => exact composed_binary _ _ _ _
  | @chunk origin kind first of =>
    refine ⟨_, displays_map _, ?_⟩
    change Joins [expression first, expression of] _
    rw [text_chunk]
    have hof := Joins.before (w := expression first) (s := " of ") (by decide) (.word (expression of))
    simpa only [String.append_assoc] using hof.behind (quiet_name kind)
  | @chunkRange origin kind first last of =>
    refine ⟨_, displays_map _, ?_⟩
    change Joins [expression first, expression last, expression of] _
    rw [text_chunkRange]
    have hof := Joins.before (w := expression last) (s := " of ") (by decide) (.word (expression of))
    have hto := Joins.before (w := expression first) (s := " to ") (by decide) hof
    simpa only [String.append_assoc] using hto.behind (quiet_name kind)
  | aspect hpart => exact composed_aspect _ _ _ hpart
  | property hname => exact composed_property _ _ hname
  | builtinProperty origin hname =>
    exact ⟨[], .nil, .quiet (Quiet.append (s := "the ") (by decide) (quiet_of_isPlain hname))⟩
  | @menuItemOf origin menu item =>
    refine ⟨_, displays_map _, ?_⟩
    change Joins [expression item, expression menu] (expression item ++ " of " ++ expression menu)
    rw [String.append_assoc]
    exact .before (by decide) (.word (expression menu))
  | @menuItemsOf origin menu =>
    exact ⟨_, displays_map _, .behind (s := "menuItems of ") (by decide) (.word (expression menu))⟩
  | @arguments origin kind args => exact ⟨_, displays_texts args, .commas _⟩
  | @list origin values =>
    refine ⟨_, displays_map _, ?_⟩
    have hclosed := (Joins.word (expression values)).append_gap (s := "]") (by decide)
    have hlist := hclosed.behind (s := "[") (by decide)
    rw [← String.append_assoc] at hlist
    exact hlist
  | propertyList heven => exact composed_propertyList _ _ _ heven
  | @call origin name kind args | @called origin _ name kind args =>
    exact exists_joins_callText false name args
  | methodCall hname => exact composed_methodCall _ _ _ _ hname

theorem Lexical.induction {motive : Node → Prop} (h : Lexical node)
    (hstep : ∀ node, Lexical node → (∀ part ∈ parts node, Lexical part ∧ motive part) →
      (∀ name ∈ names node, Steady name ∨ ∃ root, Lexical root ∧ motive root ∧ Displays root name) →
        motive node) : motive node := by
  induction h with
  | word h => exact hstep _ (.word h) (by simp [parts]) (by simp [names, h])
  | identified hroot hname ih =>
    exact hstep _ (.identified hroot hname) (by simp [parts])
      (by simpa [names] using .inr ⟨_, hroot, ih, hname⟩)
  | unary h ih => exact hstep _ (.unary h) (by simp [parts, h, ih]) (by simp [names])
  | binary hl hr ihl ihr => exact hstep _ (.binary hl hr) (by simp [parts, *]) (by simp [names])
  | chunk hfirst hof ihfirst ihof =>
    exact hstep _ (.chunk hfirst hof) (by simp [parts, *]) (by simp [names])
  | chunkRange hfirst hlast hof ihfirst ihlast ihof =>
    exact hstep _ (.chunkRange hfirst hlast hof) (by simp [parts, *]) (by simp [names])
  | aspect hpart h ih => exact hstep _ (.aspect hpart h) (by simp [parts, h, ih]) (by simp [names])
  | property hname h ih =>
    refine hstep _ (.property hname h) ?_ (by simp [names])
    rw [parts]
    split <;> simp [h, ih]
  | builtinProperty origin hname =>
    exact hstep _ (.builtinProperty origin hname) (by simp [parts]) (by simp [names])
  | menuItemOf hmenu hitem ihmenu ihitem =>
    exact hstep _ (.menuItemOf hmenu hitem) (by simp [parts, *]) (by simp [names])
  | menuItemsOf h ih => exact hstep _ (.menuItemsOf h) (by simp [parts, h, ih]) (by simp [names])
  | arguments h ih =>
    exact hstep _ (.arguments h) (fun a ha => ⟨h a ha, ih a ha⟩) (by simp [names])
  | list h ih => exact hstep _ (.list h) (by simp [parts, h, ih]) (by simp [names])
  | propertyList heven h ih =>
    exact hstep _ (.propertyList heven h) (fun a ha => ⟨h a ha, ih a ha⟩) (by simp [names])
  | call hname h ih =>
    exact hstep _ (.call hname h) (fun a ha => ⟨h a ha, ih a ha⟩) (by simp [names, hname])
  | called hcallee hname h ihcallee ih =>
    exact hstep _ (.called hcallee hname h) (fun a ha => ⟨h a ha, ih a ha⟩)
      (by simpa [names] using .inr ⟨_, hcallee, ihcallee, hname⟩)
  | methodCall hname hobject h ihobject ih =>
    refine hstep _ (.methodCall hname hobject h) ?_ (by simp [names])
    rw [parts, List.forall_mem_cons]
    exact ⟨⟨hobject, ihobject⟩, fun a ha => ⟨h a ha, ih a ha⟩⟩

theorem lookup_namedLiterals_steady {name word : String}
    (h : Vocabulary.namedLiterals.lookup name = some word) : Steady word ∧ ¬Commented name := by
  have hall : ∀ entry ∈ Vocabulary.namedLiterals, Steady entry.2 ∧ ¬Commented entry.1 := by
    decide +kernel
  obtain ⟨before, after, heq, -⟩ := List.lookup_eq_some_iff.1 h
  exact hall (name, word) (heq ▸ by simp)

/-- What is written for a word only has something in front of its name, or has nothing to do with it. -/
theorem word_cases (kind : LeafKind) (name : String) :
    (∃ s, Quiet s ∧ word kind name = s ++ name) ∨ Steady (word kind name) ∧ ¬Commented name := by
  have hself : ∃ s, Quiet s ∧ name = s ++ name := ⟨"", rfl, by simp⟩
  cases kind with
  | constant =>
    unfold word
    cases hliteral : Vocabulary.namedLiterals.lookup name with
    | none => exact .inl hself
    | some literal => exact .inr (lookup_namedLiterals_steady hliteral)
  | symbol | propertyName =>
    unfold word
    dsimp only
    split
    · exact .inl hself
    · exact .inl ⟨_, by decide, rfl⟩
  | localVariable | globalVariable | definedPropertyName | parameterName | raw => exact .inl hself
  | dateTimeFunction | menu | menuItem | soundChannel | sprite | cast =>
    exact .inl ⟨_, by decide, rfl⟩

theorem closes_word (kind : LeafKind) {name : String} (h : Closes name) : Closes (word kind name) := by
  rcases word_cases kind name with ⟨s, hs, heq⟩ | ⟨hsteady, -⟩
  · exact heq ▸ hs.closes_append.2 h
  · exact hsteady.1

theorem commented_word_iff (kind : LeafKind) (name : String) :
    Commented (word kind name) ↔ Commented name := by
  rcases word_cases kind name with ⟨s, hs, heq⟩ | ⟨hsteady, hname⟩
  · rw [heq, hs.commented_append]
  · exact iff_of_false hsteady.2 hname

theorem commented_iff_of_displays (h : Displays node t) : Commented t ↔ Commented (expression node) := by
  rcases h with rfl | h
  · rfl
  · cases node with
    | leaf kind name position =>
      cases h
      exact (commented_word_iff kind t).symm
    | _ => cases h

theorem closes_of_displays {nodes : List Node} (h : List.Forall₂ Displays nodes ws)
    (hnodes : ∀ node ∈ nodes, ∀ t, Displays node t → Closes t) : ∀ w ∈ ws, Closes w := by
  induction h with
  | nil => simp
  | cons hdisplays _ ih =>
    obtain ⟨hnode, hrest⟩ := List.forall_mem_cons.1 hnodes
    exact List.forall_mem_cons.2 ⟨hnode _ hdisplays, ih hrest⟩

theorem exists_commented_iff {nodes : List Node} (h : List.Forall₂ Displays nodes ws) :
    (∃ w ∈ ws, Commented w) ↔ ∃ node ∈ nodes, Commented (expression node) := by
  induction h with
  | nil => simp
  | cons hdisplays _ ih =>
    simp only [List.mem_cons, exists_eq_or_imp, commented_iff_of_displays hdisplays, ih]

namespace Composed

variable (h : Composed node t) (hnames : ∀ name ∈ names node, Closes name)
  (hparts : ∀ part ∈ parts node, ∀ t, Displays part t → Closes t)
include h hnames hparts

theorem closes : Closes t := by
  obtain ⟨ws, hws, hjoins⟩ := h
  exact hjoins.closes (List.forall_mem_append.2 ⟨hnames, closes_of_displays hws hparts⟩)

theorem commented_iff :
    Commented t ↔ (∃ name ∈ names node, Commented name) ∨
      ∃ part ∈ parts node, Commented (expression part) := by
  obtain ⟨ws, hws, hjoins⟩ := h
  rw [hjoins.commented_iff (List.forall_mem_append.2 ⟨hnames, closes_of_displays hws hparts⟩),
    ← exists_commented_iff hws]
  simp only [List.mem_append, or_and_right, exists_or]

end Composed

theorem expression_minus (origin : Nat) (operand : Node) :
    expression (.unary origin .minus operand) = "-" ++ expression operand := rfl

theorem word?_eq_none (h : node.isLeaf = false) : node.word? = none := by
  cases node with
  | leaf => cases h
  | _ => rfl

theorem Lexical.closes (h : Lexical node) : ∀ t, Displays node t → Closes t := by
  refine h.induction (motive := fun node => ∀ t, Displays node t → Closes t)
    fun node h hparts hnames => ?_
  have hclosed : ∀ name ∈ names node, Closes name := fun name hname =>
    (hnames name hname).elim And.left fun ⟨_, _, hroot, hdisplays⟩ => hroot name hdisplays
  cases hleaf : node.isLeaf with
  | true =>
    cases node with
    | leaf kind name position =>
      have hname := hclosed name (List.mem_singleton_self name)
      rintro t (rfl | hword)
      · exact closes_word kind hname
      · cases hword
        exact hname
    | _ => cases hleaf
  | false =>
    rintro t (rfl | hword)
    · by_cases hminus : ∃ origin operand, node = .unary origin .minus operand
      · obtain ⟨origin, operand, rfl⟩ := hminus
        exact closes_minus_append ((hparts operand (List.mem_singleton_self _)).2 _ (.inl rfl))
      · refine (composed_expression h hleaf fun origin operand heq => hminus ⟨_, _, heq⟩).closes
          hclosed fun part hpart => (hparts part hpart).2
    · rw [word?_eq_none hleaf] at hword
      cases hword

theorem Lexical.of_mem_parts (h : Lexical node) : ∀ part ∈ parts node, Lexical part :=
  h.induction (motive := fun node => ∀ part ∈ parts node, Lexical part)
    fun _ _ hparts _ part hpart => (hparts part hpart).1

theorem Lexical.of_mem_names (h : Lexical node) :
    ∀ name ∈ names node, Steady name ∨ ∃ root, Lexical root ∧ Displays root name :=
  h.induction
    (motive := fun node =>
      ∀ name ∈ names node, Steady name ∨ ∃ root, Lexical root ∧ Displays root name)
    fun _ _ _ hnames name hname =>
      (hnames name hname).imp id fun ⟨root, hroot, _, hdisplays⟩ => ⟨root, hroot, hdisplays⟩

structure Legible (node : Node) : Prop where
  parts : ∀ part ∈ parts node, Lexical part
  names : ∀ name ∈ names node, Steady name ∨ ∃ root, Lexical root ∧ Displays root name

theorem Lexical.legible (h : Lexical node) : Legible node :=
  ⟨h.of_mem_parts, h.of_mem_names⟩

namespace Legible

variable (h : Legible node)
include h

theorem closes_name {name : String} (hname : name ∈ Lingo.names node) : Closes name :=
  (h.names name hname).elim And.left fun ⟨_, hroot, hdisplays⟩ => hroot.closes name hdisplays

theorem commented_iff (ht : Composed node t) :
    Commented t ↔ (∃ name ∈ Lingo.names node, Commented name) ∨
      ∃ part ∈ Lingo.parts node, Commented (expression part) :=
  ht.commented_iff (fun _ => h.closes_name) fun part hpart => (h.parts part hpart).closes

end Legible

def IsDoubled (node : Node) : Prop :=
  ∃ origin operand, node = .unary origin .minus operand ∧ startsWith (expression operand) "-" = true

/-- A comment in a text of a node comes from the node itself, from a name or from a part. -/
def CommentsFrom (node : Node) (t : String) : Prop :=
  Commented t ↔ IsDoubled node ∨ (∃ name ∈ names node, Commented name) ∨
    ∃ part ∈ parts node, Commented (expression part)

theorem Composed.commentsFrom (ht : Composed node t) (h : Legible node)
    (hminus : ∀ origin operand, node ≠ .unary origin .minus operand) : CommentsFrom node t := by
  have hdoubled : ¬IsDoubled node := fun ⟨origin, operand, heq, _⟩ => hminus origin operand heq
  rw [CommentsFrom, h.commented_iff ht, or_iff_right hdoubled]

theorem Lexical.commentsFrom (h : Lexical node) : CommentsFrom node (expression node) := by
  by_cases hminus : ∃ origin operand, node = .unary origin .minus operand
  · obtain ⟨origin, operand, rfl⟩ := hminus
    rw [CommentsFrom, expression_minus, commented_minus_append]
    simp [IsDoubled, names, parts]
  · have hother : ∀ origin operand, node ≠ .unary origin .minus operand := fun _ _ heq =>
      hminus ⟨_, _, heq⟩
    cases hleaf : node.isLeaf with
    | true =>
      cases node with
      | leaf kind name position =>
        have hword : Commented (expression (.leaf kind name position)) ↔ Commented name :=
          commented_word_iff kind name
        simp [CommentsFrom, hword, IsDoubled, names, parts]
      | _ => cases hleaf
    | false => exact (composed_expression h hleaf hother).commentsFrom h.legible hother

theorem doublesMinus_of_part {part : Node} (hpart : part ∈ parts node) (h : DoublesMinus part) :
    DoublesMinus node := by
  obtain ⟨origin, operand, hshows, hsign⟩ := h
  exact ⟨origin, operand, .part hpart hshows, hsign⟩

theorem doublesMinus_of_name {root : Node} (ht : t ∈ names node) (hroot : Lexical root)
    (hdisplays : Displays root t) (h : DoublesMinus root) : DoublesMinus node := by
  obtain ⟨origin, operand, hshows, hsign⟩ := h
  exact ⟨origin, operand, .name ht hroot hdisplays hshows, hsign⟩

theorem IsDoubled.doublesMinus (h : IsDoubled node) : DoublesMinus node := by
  obtain ⟨origin, operand, rfl, hsign⟩ := h
  exact ⟨origin, operand, .self, hsign⟩

/-- Where comments in the names and parts of a node come from doubled minuses, so do those in its text. -/
theorem CommentsFrom.doublesMinus (h : CommentsFrom node t) (hcommented : Commented t)
    (hnames : ∀ name ∈ names node, Steady name ∨
      ∃ root, Lexical root ∧ (Commented (expression root) → DoublesMinus root) ∧ Displays root name)
    (hparts : ∀ part ∈ parts node, Commented (expression part) → DoublesMinus part) :
    DoublesMinus node := by
  rcases h.1 hcommented with hdoubled | ⟨name, hname, hcommented⟩ | ⟨part, hpart, hcommented⟩
  · exact hdoubled.doublesMinus
  · rcases hnames name hname with hsteady | ⟨root, hroot, hdoubles, hdisplays⟩
    · exact absurd hcommented hsteady.2
    · exact doublesMinus_of_name hname hroot hdisplays
        (hdoubles ((commented_iff_of_displays hdisplays).1 hcommented))
  · exact doublesMinus_of_part hpart (hparts part hpart hcommented)

theorem Lexical.doublesMinus (h : Lexical node) :
    Commented (expression node) → DoublesMinus node :=
  h.induction (motive := fun node => Commented (expression node) → DoublesMinus node)
    fun _ h hparts hnames hcommented =>
      h.commentsFrom.doublesMinus hcommented hnames fun part hpart => (hparts part hpart).2

theorem Lexical.commented (h : Lexical node) (hdoubles : DoublesMinus node) :
    Commented (expression node) := by
  obtain ⟨origin, operand, hshows, hsign⟩ := hdoubles
  induction hshows with
  | self => exact h.commentsFrom.2 (.inl ⟨origin, operand, rfl, hsign⟩)
  | part hpart _ ih =>
    exact h.commentsFrom.2 (.inr (.inr ⟨_, hpart, ih (h.of_mem_parts _ hpart)⟩))
  | name ht hroot hdisplays _ ih =>
    have hcommented := (commented_iff_of_displays hdisplays).2 (ih hroot)
    exact h.commentsFrom.2 (.inr (.inl ⟨_, ht, hcommented⟩))

theorem Legible.commented_iff_doublesMinus (h : Legible node) (ht : CommentsFrom node t) :
    Commented t ↔ DoublesMinus node := by
  constructor
  · intro hcommented
    refine ht.doublesMinus hcommented (fun name hname => ?_) fun part hpart => (h.parts part hpart).doublesMinus
    exact (h.names name hname).imp id fun ⟨root, hroot, hdisplays⟩ =>
      ⟨root, hroot, hroot.doublesMinus, hdisplays⟩
  · rintro ⟨origin, operand, hshows, hsign⟩
    cases hshows with
    | self => exact ht.2 (.inl ⟨origin, operand, rfl, hsign⟩)
    | part hpart hshows =>
      exact ht.2 (.inr (.inr ⟨_, hpart, (h.parts _ hpart).commented ⟨_, _, hshows, hsign⟩⟩))
    | name hname hroot hdisplays hshows =>
      exact ht.2 (.inr (.inl ⟨_, hname, (commented_iff_of_displays hdisplays).2
        (hroot.commented ⟨_, _, hshows, hsign⟩)⟩))

end Lingo

end LingoSource
