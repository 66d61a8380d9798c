import LingoSource.Proofs.JavaScript.Layout
import LingoSource.Proofs.JavaScript.Within

set_option autoImplicit false

namespace LingoSource

open Text

namespace JavaScript

def folds (scope : Scope) (name : String) (args : List Node) : Bool :=
  name = "go" && (goTarget? (commas (argumentTexts name args (texts scope args)))).isSome

def isField (target : String) : Bool :=
  Text.startsWith target "field(" && Text.endsWith target ')'

/-- The nodes in the header of a loop. Only comparisons make a counted loop. -/
def loopParts (kind : LoopKind) (condition : Node) : List Node :=
  match kind, condition with
  | .whileTrue, condition => [condition]
  | .counted _ first _ _, .binary _ _ left right => [first, left, right]
  | .counted _ first _ _, _ => [first]
  | .each _ list, _ => [list]

/-- The nodes whose texts a node takes over as they are. -/
def parts (scope : Scope) : Node → List Node
  | .unary _ _ operand => [operand]
  | .binary _ _ left right | .assign _ left right => [left, right]
  | .put _ _ left right => if isField (text scope .plain left) then [right] else [left, right]
  | .chunk _ _ first of => [first, of]
  | .chunkRange _ _ first last of => [first, last, of]
  | .aspect _ _ _ of => [of]
  | .property _ object _ => [object]
  | .menuItemOf _ menu item => [menu, item]
  | .menuItemsOf _ menu => [menu]
  | .arguments _ _ args => args
  | .list _ values | .propertyList _ values => [values]
  | .call _ name _ args _ => if folds scope name args then [] else args
  | .methodCall _ _ object _ args => object :: args
  | .loop _ _ _ kind condition _ => loopParts kind condition
  | .branch _ condition _ _ => [condition]
  | .tell _ target _ => [target]
  | .jumpUnless _ condition _ => [condition]
  | .leaf .. | .builtinProperty .. | .jump .. | .exitLoop _ => []

/-- A string constant is an operand of a node, at some depth. In a field that is written to, `.text`
goes behind the first closing parenthesis. -/
inductive Operand (scope : Scope) (v : String) : Node → Prop
  | self (position : Nat) :
    Operand scope v (.leaf .constant (Literal.source (.string v)) position)
  | part {node part : Node} (h : Operand scope v part) (hpart : part ∈ parts scope node) :
    Operand scope v node
  | target {origin : Nat} {mode : PutMode} {left right : Node} (h : Operand scope v left)
    (hv : ')' ∉ v.toList) : Operand scope v (.put origin mode left right)

def opening (scope : Scope) (node : Node) : String :=
  match sections scope node with
  | [] => text scope .plain node
  | (header, _) :: _ => header

variable {scope : Scope} {v x a : String} {node : Node}

theorem within_callText {name params : String} {inTell : Bool} (h : Within (quoted v) params)
    (hgo : name = "go" → goTarget? params = none) :
    Within (quoted v) (callText scope name params inTell) := by
  have hcalled (callee : String) : Within (quoted v) (callee ++ "(" ++ params ++ ")") :=
    (h.behind _).before _
  unfold callText
  dsimp only
  split
  · exact hcalled _
  · exact hcalled _
  · rw [hgo rfl]
    exact hcalled _
  · exact hcalled _
  · exact hcalled _
  · rw [if_neg (by simpa using h.ne_empty (quoted_ne_empty v))]
    exact h.behind _
  · exact hcalled _

theorem mem_texts {args : List Node} {arg : Node} (h : arg ∈ args) :
    text scope .plain arg ∈ texts scope args := by
  induction args with
  | nil => cases h
  | cons first rest ih =>
    rw [texts]
    rcases List.mem_cons.1 h with rfl | h
    · exact List.mem_cons_self ..
    · exact List.mem_cons_of_mem _ (ih h)

section Equations

variable (scope : Scope) (origin : Nat)

theorem text_binary (op : BinaryOp) (left right : Node) :
    text scope .plain (.binary origin op left right) =
      if op.isMethod then "sprite(" ++ text scope .plain left ++ ")" ++ op.javaScript ++
        "(sprite(" ++ text scope .plain right ++ "))"
      else "(" ++ text scope .plain left ++ " " ++ op.javaScript ++ " " ++ text scope .plain right ++
        ")" := rfl

theorem text_property (object : Node) (name : String) :
    text scope .plain (.property origin object name) =
      if text scope .plain object = "tell_obj" then name
      else text scope .plain object ++ "." ++ name := rfl

theorem text_aspect_some (op : UnaryOp) (name : String) (of : Node) :
    text scope .plain (.aspect origin op (some name) of) =
      if op = .last then text scope .plain of ++ ".getProp(\"" ++ name ++ "\", \"last\")"
      else text scope .plain of ++ "." ++ name ++ "." ++ op.javaScript := rfl

theorem text_aspect_none (op : UnaryOp) (of : Node) :
    text scope .plain (.aspect origin op none of) =
      (if of.word? = some "menus" then "_menuBar.menu" else text scope .plain of) ++ "." ++
        op.javaScript := rfl

end Equations

theorem opening_of_not_isBlock (h : node.isBlock = false) :
    opening scope node = text scope .plain node := by
  unfold opening
  rw [sections_eq_nil scope h]

theorem sections_ne_nil (scope : Scope) (h : node.isBlock = true) : sections scope node ≠ [] := by
  cases node <;> simp only [Node.isBlock, Bool.false_eq_true] at h
  all_goals simp [sections]

theorem opening_of_cons {p : String × List Statement} {rest : List (String × List Statement)}
    (h : sections scope node = p :: rest) : opening scope node = p.1 := by
  unfold opening
  rw [h]

theorem within_parenthesized (h : Within x a) : Within x (parenthesized a) := by
  unfold parenthesized
  split
  · exact h
  · exact (h.behind _).before _

def putText (mode : PutMode) (target value : String) : String :=
  match mode with
  | .into => target ++ " = " ++ value
  | .after => target ++ " = " ++ target ++ " + " ++ value
  | .before => target ++ " = " ++ value ++ " + " ++ target

theorem text_put (scope : Scope) (origin : Nat) (mode : PutMode) (left right : Node) :
    text scope .plain (.put origin mode left right) =
      putText mode
        (if isField (text scope .plain left) then fieldText (text scope .plain left)
          else text scope .plain left)
        (text scope .plain right) := by
  cases mode <;> rfl

theorem within_putText {target value : String} (mode : PutMode)
    (h : Within x target ∨ Within x value) : Within x (putText mode target value) := by
  cases mode <;> rcases h with h | h
  · exact (h.before _).before _
  · exact h.behind _
  · exact (((h.before _).before _).before _).before _
  · exact h.behind _
  · exact h.behind _
  · exact ((h.behind _).before _).before _

theorem exists_parenthesized (scope : Scope) (origin : Nat) (op : BinaryOp) (left right : Node) :
    ∃ inner, parenthesized (text scope .plain (.binary origin op left right)) = "(" ++ inner ++ ")" ∧
      Within (text scope .plain left) inner ∧ Within (text scope .plain right) inner := by
  rw [text_binary]
  generalize text scope .plain left = a
  generalize text scope .plain right = b
  split
  · refine ⟨"sprite(" ++ a ++ ")" ++ op.javaScript ++ "(sprite(" ++ b ++ "))", ?_, ?_, ?_⟩
    · exact if_neg (by simp [startsWith, List.isPrefixOf])
    · exact ((((((Within.refl a).behind _).before _).before _).before _).before _).before _
    · exact ((Within.refl b).behind _).before _
  · refine ⟨a ++ " " ++ op.javaScript ++ " " ++ b, ?_, ?_, ?_⟩
    · unfold parenthesized
      rw [if_pos (by simp [startsWith, List.isPrefixOf])]
      simp only [String.append_assoc]
    · exact ((((Within.refl a).before _).before _).before _).before _
    · exact (Within.refl b).behind _

theorem mem_argumentTexts {name : String} {args : List Node} {arg : Node} (h : arg ∈ args)
    (hsymbol : ∀ symbol position, arg ≠ .leaf .symbol symbol position) :
    text scope .plain arg ∈ argumentTexts name args (texts scope args) := by
  unfold argumentTexts
  split
  · rename_i htexts
    cases htexts
    rcases List.mem_cons.1 h with rfl | h
    · exact absurd rfl (hsymbol _ _)
    · exact List.mem_cons_of_mem _ (mem_texts h)
  · exact mem_texts h

def stripped (condition : String) : String :=
  String.ofList ((parenthesized condition).toList.drop 1).dropLast

theorem within_countedHeader {variableName : String} {first last condition : Node} {up : Bool}
    (h : Within x (text scope .plain first) ∨ Within x (stripped (text scope .plain condition))) :
    Within x (loopHeader scope (.counted variableName first last up) condition) := by
  unfold stripped at h
  unfold loopHeader
  dsimp only
  rcases h with h | h
  all_goals
    repeat (first | with_reducible exact .behind _ h | refine .before ?_ _)

theorem within_loopHeader {kind : LoopKind} {condition part : Node}
    (hpart : part ∈ loopParts kind condition) (h : Within x (text scope .plain part)) :
    Within x (loopHeader scope kind condition) := by
  cases kind with
  | whileTrue =>
    obtain rfl := List.mem_singleton.1 hpart
    exact ((within_parenthesized h).behind _).before _
  | each variableName list =>
    obtain rfl := List.mem_singleton.1 hpart
    exact (h.behind _).before _
  | counted variableName first last up =>
    cases condition with
    | binary origin op left right =>
      obtain ⟨inner, hinner, hleft, hright⟩ := exists_parenthesized scope origin op left right
      have hstripped : stripped (text scope .plain (.binary origin op left right)) = inner := by
        rw [stripped, hinner]
        simp
      rcases List.mem_cons.1 hpart with rfl | hpart
      · exact within_countedHeader (.inl h)
      · refine within_countedHeader (.inr ?_)
        rw [hstripped]
        rcases List.mem_pair.1 hpart with rfl | rfl
        · exact h.trans hleft
        · exact h.trans hright
    | _ =>
      obtain rfl := List.mem_singleton.1 hpart
      exact within_countedHeader (.inl h)

theorem within_opening_of_part {part : Node} (hpart : part ∈ parts scope node)
    (hleaf : ∀ kind name position, part = .leaf kind name position →
      kind = .constant ∧ name = Literal.source (.string v))
    (h : Within (quoted v) (text scope .plain part)) : Within (quoted v) (opening scope node) := by
  cases node with
  | leaf | builtinProperty | jump | exitLoop => cases hpart
  | unary | assign | chunk | chunkRange | menuItemOf | menuItemsOf | list | propertyList
  | jumpUnless =>
    simp only [parts, List.mem_cons, List.not_mem_nil, or_false] at hpart
    change Within _ (_ ++ _)
    rcases hpart with rfl | rfl | rfl
    all_goals
      repeat (first | with_reducible exact h | with_reducible exact .behind _ h | refine .before ?_ _)
  | binary =>
    rw [opening_of_not_isBlock rfl, text_binary]
    rcases List.mem_pair.1 hpart with rfl | rfl <;> split
    all_goals
      repeat (first | with_reducible exact h | with_reducible exact .behind _ h | refine .before ?_ _)
  | arguments => exact .commas (mem_texts hpart) h
  | methodCall =>
    rcases List.mem_cons.1 hpart with rfl | hpart
    · change Within _ (_ ++ _)
      repeat (first | with_reducible exact h | refine .before ?_ _)
    · exact ((Within.commas (mem_texts hpart) h).behind _).before _
  | branch | tell =>
    obtain rfl := List.mem_singleton.1 hpart
    exact ((within_parenthesized h).behind _).before _
  | loop _ _ _ kind condition _ => exact within_loopHeader hpart h
  | put _ mode left right =>
    rw [opening_of_not_isBlock rfl, text_put]
    refine within_putText mode ?_
    rw [parts] at hpart
    split at hpart
    · obtain rfl := List.mem_singleton.1 hpart
      exact .inr h
    · rename_i hfield
      rw [if_neg hfield]
      rcases List.mem_pair.1 hpart with rfl | rfl
      · exact .inl h
      · exact .inr h
  | aspect _ op partName of =>
    obtain rfl := List.mem_singleton.1 hpart
    have hmenus : part.word? ≠ some "menus" := by
      intro hname
      cases part with
      | leaf kind name position =>
        have hsource := (hleaf kind name position rfl).2
        rw [Option.some.inj hname] at hsource
        have hquote : '"' ∈ "menus".toList := by
          rw [hsource, toList_source]
          simp
        simp at hquote
      | _ => cases hname
    rw [opening_of_not_isBlock rfl]
    cases partName with
    | some partName =>
      rw [text_aspect_some]
      split
      · exact ((h.before _).before _).before _
      · exact (((h.before _).before _).before _).before _
    | none =>
      rw [text_aspect_none, if_neg hmenus]
      exact (h.before _).before _
  | property _ object name =>
    obtain rfl := List.mem_singleton.1 hpart
    have howner : text scope .plain part ≠ "tell_obj" := by
      intro hname
      rw [hname] at h
      have hmem : ' ' ∈ "tell_obj".toList := h.subset (space_mem_quoted v)
      simp at hmem
    rw [opening_of_not_isBlock rfl, text_property, if_neg howner]
    exact (h.before _).before _
  | call _ name _ args inTell =>
    rw [parts] at hpart
    split at hpart
    · cases hpart
    · rename_i hfolds
      have hsymbol : ∀ symbol position, part ≠ .leaf .symbol symbol position := by
        rintro symbol position rfl
        exact absurd (hleaf _ _ _ rfl).1 (by decide)
      refine within_callText (.commas (mem_argumentTexts hpart hsymbol) h) fun hname => ?_
      unfold folds at hfolds
      simpa [hname] using hfolds

theorem within_text_opening (scope : Scope) (frame : Frame) (node : Node) :
    Within (opening scope node) (text scope frame node) := by
  cases hblock : node.isBlock with
  | false =>
    rw [opening_of_not_isBlock hblock, text_eq_plain frame hblock]
    exact .refl _
  | true =>
    obtain ⟨p, rest, hsections⟩ := List.exists_cons_of_ne_nil (sections_ne_nil scope hblock)
    rw [opening_of_cons hsections, text_eq hblock, assembled, hsections, sectionsText]
    exact ((((Within.refl _).before _).before _).before _).before _

theorem Operand.eq_of_leaf {kind : LeafKind} {name : String} {position : Nat}
    (h : Operand scope v (.leaf kind name position)) :
    kind = .constant ∧ name = Literal.source (.string v) := by
  cases h with
  | self => exact ⟨rfl, rfl⟩
  | part _ hpart => cases hpart

theorem Operand.within_opening (h : Operand scope v node) :
    Within (quoted v) (opening scope node) := by
  induction h with
  | self position =>
    have hquote : startsWith (Literal.source (.string v)) "\"" = true := by
      unfold startsWith
      rw [toList_source]
      rfl
    have htext : text scope .plain (.leaf .constant (Literal.source (.string v)) position) =
        quoted v := if_pos hquote
    rw [opening_of_not_isBlock rfl, htext]
    exact .refl _
  | @part node part h hpart ih =>
    refine within_opening_of_part hpart ?_ (ih.trans (within_text_opening scope .plain part))
    rintro kind name position rfl
    exact h.eq_of_leaf
  | @target origin mode left right h hv ih =>
    have htext := ih.trans (within_text_opening scope .plain left)
    rw [opening_of_not_isBlock rfl, text_put]
    refine within_putText mode (.inl ?_)
    split
    · exact within_fieldText hv htext
    · exact htext

theorem LineReads.exists_mem {a b : List Line} (h : List.Forall₂ LineReads a b) {line : Line}
    (hline : line ∈ a) : ∃ line' ∈ b, LineReads line line' := by
  induction h with
  | nil => cases hline
  | cons hfirst _ ih =>
    rcases List.mem_cons.1 hline with rfl | hline
    · exact ⟨_, List.mem_cons_self .., hfirst⟩
    · obtain ⟨line', hmem, hreads⟩ := ih hline
      exact ⟨line', List.mem_cons_of_mem _ hmem, hreads⟩

/-- The literal of an operand stands in a line of its statement. -/
theorem Operand.exists_line (h : Operand scope v node) (hv : ¬ partReference <:+: v.toList)
    (level : Nat) : ∃ line ∈ layout scope level node, Within (quoted v) line.text := by
  have hopening := h.within_opening
  cases hblock : node.isBlock with
  | false =>
    rw [opening_of_not_isBlock hblock] at hopening
    rw [layout_of_not_isBlock scope level hblock]
    exact ⟨_, List.mem_singleton_self _, within_finish hv hopening⟩
  | true =>
    obtain ⟨p, rest, hsections⟩ := List.exists_cons_of_ne_nil (sections_ne_nil scope hblock)
    rw [opening_of_cons hsections] at hopening
    rw [layout_eq scope level hblock, hsections]
    have hheader : (⟨level, p.1⟩ : Line) ∈ sectionsLayout scope level (p :: rest) :=
      List.mem_cons_self ..
    obtain ⟨line, hline, -, htext⟩ := LineReads.exists_mem (forall₂_readLines _) hheader
    exact ⟨line, hline, htext.within_quoted hv hopening⟩

end JavaScript

open JavaScript in
/-- Where a string constant is an operand of a statement, a line of the statement in the generated text
has its literal, which ends at its own closing quote and denotes the constant exactly if that has no
double quote. -/
theorem Script.literal_of_operand {s : Script} {f : Function} {statement : Statement} {depth : Nat}
    {node : Node} {v : String} (hf : f ∈ s.functions) (hstatement : statement ∈ f.body)
    (hstands : statement.node.StandsIn depth node) (hoperand : Operand (.ofScript s) v node)
    (hv : ¬ "getPropRef".toList <:+: v.toList) :
    (∀ unit : String, (∀ c ∈ unit.toList, c = ' ') →
      s.javaScript unit = Line.writtenAll unit (JavaScript.scriptLayout s)) ∧
      ∃ own, own <:+: JavaScript.scriptLayout s ∧
        List.Forall₂ LineReads
          (JavaScript.layout (.ofScript s) (JavaScript.bodyLevel s + depth) node) own ∧
        ∃ line ∈ own, ∃ before after,
          line.text = before ++ "new LingoString(" ++ Literal.source (.string v) ++ ")" ++ after ∧
          (readLiteral (Literal.source (.string v) ++ ")" ++ after) = some (v, ")" ++ after) ↔
            '"' ∉ v.toList) := by
  rw [toList_getPropRef] at hv
  obtain ⟨own, hown, hreads⟩ := layout_readIn (.ofScript s) (JavaScript.bodyLevel s) hstands
  have hbody := layout_infix_layoutAll (.ofScript s) (JavaScript.bodyLevel s) hstatement
  obtain ⟨line, hline, hwithin⟩ := hoperand.exists_line hv (JavaScript.bodyLevel s + depth)
  obtain ⟨line', hline', -, htext⟩ := LineReads.exists_mem hreads hline
  obtain ⟨before, after, heq⟩ := (htext.within_quoted hv hwithin).exists_eq
  refine ⟨fun unit h => javaScript_eq_writtenAll h s, own,
    (hown.trans hbody).trans (layoutAll_infix_scriptLayout hf), hreads, line', hline', before, after,
    ?_, ?_⟩
  · rw [heq]
    unfold quoted
    simp only [String.append_assoc]
  · rw [String.append_assoc]
    exact readLiteral_source_iff v _

/-- `x = [f(v & y)]` -/
def assignedList (v : String) : Node :=
  let joined := Node.binary 4 .concat (.leaf .constant (Literal.source (.string v)) 1)
    (.leaf .localVariable "y" 2)
  .assign 8 (.leaf .localVariable "x" 0)
    (.list 7 (.arguments 6 .argList [.call 5 "f" .argList [joined] false]))

def branchingScript (inner : Node) : Script where
  properties := []
  globals := []
  functions := [{ name := "h", position := 0,
                  statements := [⟨9, .branch 9 (.leaf .constant "1" 0) [⟨8, inner⟩] []⟩] }]

theorem JavaScript.operand_assignedList (scope : Scope) (v : String) :
    Operand scope v (assignedList v) :=
  have hjoined : Operand scope v (.binary 4 .concat _ (.leaf .localVariable "y" 2)) :=
    .part (.self 1) (List.mem_cons_self ..)
  have hcall : Operand scope v (.call 5 "f" .argList [_] false) :=
    .part hjoined (List.mem_singleton_self _)
  have hlist : Operand scope v (.list 7 (.arguments 6 .argList [_])) :=
    .part (.part hcall (List.mem_singleton_self _)) (List.mem_singleton_self _)
  .part hlist (List.mem_cons_of_mem _ (List.mem_singleton_self _))

open JavaScript in
/-- A tabulator and an accent are written as codes, a backslash twice. -/
theorem Script.literal_of_operand_coded :
    let v := "\t\\\u00e9"
    let s := branchingScript (assignedList v)
    s.javaScript "  " = Line.writtenAll "  " (JavaScript.scriptLayout s) ∧
      ∃ own, own <:+: JavaScript.scriptLayout s ∧ ∃ line ∈ own, ∃ before after,
        line.text = before ++ "new LingoString(" ++ Literal.source (.string v) ++ ")" ++ after ∧
        readLiteral (Literal.source (.string v) ++ ")" ++ after) = some (v, ")" ++ after) := by
  intro v s
  let branch : Statement := ⟨9, .branch 9 (.leaf .constant "1" 0) [⟨8, assignedList v⟩] []⟩
  have hstands : branch.node.StandsIn 1 (assignedList v) :=
    .inner (s := ⟨8, assignedList v⟩) .self (List.mem_cons_self ..) (List.mem_cons_self ..)
  have hbody : branch ∈ (Function.mk "h" 0 [] [] [] [branch] false).body := List.mem_cons_self ..
  obtain ⟨hscript, own, hown, -, line, hline, before, after, htext, hiff⟩ :=
    literal_of_operand (s := s) (List.mem_cons_self ..) hbody hstands (operand_assignedList _ v)
      (by decide)
  exact ⟨hscript "  " (by simp), own, hown, line, hline, before, after, htext, hiff.2 (by decide)⟩

def quoteLines : String :=
  "function h() \x7b\nif (1) \x7b\nx = new LingoString(\"\"\");\n\x7d\n\x7d\n"

open JavaScript in
/-- A double quote ends the literal that it stands in. -/
theorem Script.literal_of_operand_quote :
    let assignment := Node.assign 2 (.leaf .localVariable "x" 0)
      (.leaf .constant (Literal.source (.string "\"")) 1)
    let s := branchingScript assignment
    Operand (.ofScript s) "\"" assignment ∧
      s.javaScript "" = quoteLines ∧
      ¬ ∃ before literal after,
        s.javaScript "" = before ++ "new LingoString(" ++ (literal ++ ")" ++ after) ∧
        readLiteral (literal ++ ")" ++ after) = some ("\"", ")" ++ after) := by
  intro assignment s
  have htext : s.javaScript "" = quoteLines := by decide +kernel
  refine ⟨.part (.self 1) (List.mem_cons_of_mem _ (List.mem_singleton_self _)), htext, ?_⟩
  rw [htext]
  rintro ⟨before, literal, after, hsplit, hread⟩
  have hplaces : ∀ n < 60,
      "new LingoString(".toList <+: (quoteLines.toList.drop n) →
        (readLiteral (String.ofList (quoteLines.toList.drop (n + 16)))).map Prod.fst ≠ some "\"" := by
    decide +kernel
  have hlist := congrArg String.toList hsplit
  rw [String.toList_append, String.toList_append, List.append_assoc] at hlist
  have hdrop := congrArg (List.drop before.toList.length) hlist
  rw [List.drop_left] at hdrop
  have hlength : before.toList.length < 60 := by
    have htotal : quoteLines.toList.length < 60 := by decide +kernel
    rw [hlist, List.length_append] at htotal
    omega
  refine hplaces before.toList.length hlength ⟨_, hdrop.symm⟩ ?_
  rw [← List.drop_drop, hdrop, List.drop_left' (by decide), String.ofList_toList, hread]
  rfl

end LingoSource
