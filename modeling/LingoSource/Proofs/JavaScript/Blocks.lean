import LingoSource.Proofs.JavaScript.Lines
import LingoSource.Proofs.JavaScript.Reading
import LingoSource.Proofs.Tree.Blocks

/-!
Blocks in JavaScript. The text of a block has the texts of the statements in it between its headers
and its closing brace, but each block around a statement makes one more reference a reading: a
reference that is deleted in a block reads as a value in the end, and one in a header does so unless
something is assigned below it.
-/
set_option autoImplicit false

namespace LingoSource

namespace JavaScript

def loopHeader (scope : Scope) (kind : LoopKind) (condition : Node) : String :=
  let condition := parenthesized (text scope .plain condition)
  match kind with
  | .whileTrue => "while " ++ condition ++ " \x7b"
  | .counted variableName first _ up =>
    "for(" ++ variableName ++ " = " ++ text scope .plain first ++ "; " ++
      String.ofList (condition.toList.drop 1).dropLast ++ "; " ++ variableName ++
      (if up then "++" else "--") ++ ") \x7b"
  | .each variableName list =>
    "for(" ++ variableName ++ " of " ++ text scope .plain list ++ ") \x7b"

def branchHeader (scope : Scope) (condition : Node) : String :=
  "if " ++ parenthesized (text scope .plain condition) ++ " \x7b"

def tellHeader (scope : Scope) (target : Node) : String :=
  "with " ++ parenthesized (text scope .plain target) ++ " \x7b"

def sections (scope : Scope) : Node → List (String × List Statement)
  | .loop _ _ _ kind condition body => [(loopHeader scope kind condition, body)]
  | .branch _ condition thenBody elseBody =>
    (branchHeader scope condition, thenBody) ::
      (if elseBody.isEmpty then [] else [("\x7d else \x7b", elseBody)])
  | .tell _ target body => [(tellHeader scope target, body)]
  | _ => []

def bodyText (render : Node → String) (frame : Frame) (body : List Statement) : String :=
  String.join (body.map fun s => frame.indentation ++ render s.node ++ "\n")

def sectionsText (render : Node → String) (frame : Frame) : List (String × List Statement) → String
  | [] => "\x7d"
  | (header, body) :: rest =>
    header ++ "\n" ++ bodyText render frame.deeper body ++ frame.indentation ++
      sectionsText render frame rest

/-- The text of a block between whose headers each statement has the text that `render` gives it one
level further in. -/
def assembled (render : Frame → Node → String) (scope : Scope) (frame : Frame) (node : Node) :
    String :=
  sectionsText (render frame.deeper) frame (sections scope node)

mutual

/-- The lines of a statement on its own, where a block has the lines of the statements in it, one
unit further in. -/
def lines (scope : Scope) (unit : String) : Node → List String
  | .loop _ _ _ kind condition body =>
    loopHeader scope kind condition :: (bodyLines scope unit body ++ ["\x7d"])
  | .branch _ condition thenBody elseBody =>
    branchHeader scope condition ::
      (bodyLines scope unit thenBody ++
        ((if elseBody.isEmpty then [] else "\x7d else \x7b" :: bodyLines scope unit elseBody) ++
          ["\x7d"]))
  | .tell _ target body => tellHeader scope target :: (bodyLines scope unit body ++ ["\x7d"])
  | node => [statementText scope .plain node]

def bodyLines (scope : Scope) (unit : String) : List Statement → List String
  | [] => []
  | ⟨_, node⟩ :: rest => (lines scope unit node).map (unit ++ ·) ++ bodyLines scope unit rest

end

def composedText (scope : Scope) (frame : Frame) (node : Node) : String :=
  frame.joined (lines scope frame.unit node)

/-- The second statement, in its frame, is the first one or stands in it at some depth. -/
inductive Inside (scope : Scope) : Frame → Node → Frame → Node → Prop
  | self (frame : Frame) (node : Node) : Inside scope frame node frame node
  | inner {frame frame' : Frame} {node node' : Node} {p : String × List Statement} {s : Statement}
    (hp : p ∈ sections scope node) (hs : s ∈ p.2)
    (h : Inside scope frame.deeper s.node frame' node') : Inside scope frame node frame' node'

variable {scope : Scope} {frame : Frame} {node : Node}

theorem sizeOf_lt_of_mem_sections {p : String × List Statement} {s : Statement}
    (hp : p ∈ sections scope node) (hs : s ∈ p.2) : sizeOf s.node < sizeOf node := by
  have hstatement : sizeOf s.node < sizeOf s := by
    cases s
    simp only [Statement.mk.sizeOf_spec]
    omega
  have hmem := List.sizeOf_lt_of_mem hs
  have hbody : sizeOf p.2 < sizeOf node := by
    cases node <;> simp only [sections, List.not_mem_nil] at hp
    case loop =>
      obtain rfl := List.mem_singleton.1 hp
      simp only [Node.loop.sizeOf_spec]
      omega
    case branch =>
      rcases List.mem_cons.1 hp with rfl | helse
      · simp only [Node.branch.sizeOf_spec]
        omega
      · split at helse
        · cases helse
        · obtain rfl := List.mem_singleton.1 helse
          simp only [Node.branch.sizeOf_spec]
          omega
    case tell =>
      obtain rfl := List.mem_singleton.1 hp
      simp only [Node.tell.sizeOf_spec]
      omega
  omega

/-- What holds of a statement whenever it holds of those directly in it holds of all. -/
theorem induction_of_sections (scope : Scope) {P : Node → Prop}
    (step : ∀ node, (∀ p ∈ sections scope node, ∀ s ∈ p.2, P s.node) → P node) (node : Node) :
    P node :=
  step node fun _ hp s hs =>
    have := sizeOf_lt_of_mem_sections hp hs
    induction_of_sections scope step s.node
termination_by sizeOf node

theorem lines_ne_nil (scope : Scope) (unit : String) (node : Node) : lines scope unit node ≠ [] := by
  cases node <;> simp [lines]

theorem lines_eq (unit : String) (h : node.isBlock = true) :
    lines scope unit node =
      (sections scope node).flatMap (fun p => p.1 :: bodyLines scope unit p.2) ++ ["\x7d"] := by
  cases node <;> simp only [Node.isBlock, Bool.false_eq_true] at h
  case branch =>
    rw [lines, sections]
    split <;> simp
  all_goals simp [lines, sections]

theorem block_eq (scope : Scope) (frame : Frame) (body : List Statement) :
    block scope frame body = bodyText (statementText scope frame) frame body := by
  induction body with
  | nil => rfl
  | cons s rest ih =>
    obtain ⟨position, node⟩ := s
    rw [block, ih, Frame.line, if_neg (by simpa using finish_ne_empty _)]
    simp [bodyText, statementText]

theorem text_eq (h : node.isBlock = true) :
    text scope frame node = assembled (statementText scope) scope frame node := by
  cases node <;> simp only [Node.isBlock, Bool.false_eq_true] at h
  case loop origin start stop kind condition body =>
    unfold text assembled sections loopHeader
    cases kind <;> simp [block_eq, sectionsText, String.append_assoc]
  case branch origin condition thenBody elseBody =>
    unfold text assembled sections branchHeader
    cases elseBody <;> simp [block_eq, sectionsText, String.append_assoc]
  case tell =>
    unfold text assembled sections tellHeader
    simp [block_eq, sectionsText, String.append_assoc]

theorem text_eq_plain (frame : Frame) (h : node.isBlock = false) :
    text scope frame node = text scope .plain node := by
  cases node <;> simp only [Node.isBlock, Bool.true_eq_false] at h
  all_goals
    unfold text
    rfl

theorem composedText_eq_statementText (frame : Frame) (h : node.isBlock = false) :
    composedText scope frame node = statementText scope frame node := by
  have hlines : lines scope frame.unit node = [statementText scope .plain node] := by
    cases node <;> simp only [Node.isBlock, Bool.true_eq_false] at h
    all_goals rfl
  rw [composedText, hlines, Frame.joined_cons, Frame.below_nil, String.append_empty, statementText,
    statementText, text_eq_plain frame h]

theorem below_bodyLines (scope : Scope) (frame : Frame) (body : List Statement) :
    frame.below (bodyLines scope frame.unit body) ++ "\n" =
      "\n" ++ bodyText (composedText scope frame.deeper) frame.deeper body := by
  induction body with
  | nil => simp [bodyLines, bodyText]
  | cons s rest ih =>
    obtain ⟨position, node⟩ := s
    rw [bodyLines, Frame.below_append, Frame.below_map_unit frame (lines_ne_nil scope _ node),
      String.append_assoc, ih]
    simp [bodyText, composedText, Frame.deeper, String.append_assoc]

theorem below_sections (scope : Scope) (frame : Frame) (parts : List (String × List Statement)) :
    frame.below (parts.flatMap (fun p => p.1 :: bodyLines scope frame.unit p.2) ++ ["\x7d"]) =
      "\n" ++ frame.indentation ++ sectionsText (composedText scope frame.deeper) frame parts := by
  induction parts with
  | nil => simp [Frame.below_cons, sectionsText]
  | cons part rest ih =>
    obtain ⟨header, body⟩ := part
    have hbody := below_bodyLines scope frame body
    rw [List.flatMap_cons, List.cons_append, List.cons_append, List.append_assoc, Frame.below_cons,
      Frame.below_append, ih, sectionsText]
    calc
      _ = "\n" ++ frame.indentation ++ header ++
          (frame.below (bodyLines scope frame.unit body) ++ "\n") ++ frame.indentation ++
          sectionsText (composedText scope frame.deeper) frame rest := by
        simp only [String.append_assoc]
      _ = _ := by
        rw [hbody]
        simp only [String.append_assoc]

theorem composedText_eq (h : node.isBlock = true) :
    composedText scope frame node = assembled (composedText scope) scope frame node := by
  have hbelow := below_sections scope frame (sections scope node)
  obtain ⟨line, rest, hlines⟩ := List.exists_cons_of_ne_nil (lines_ne_nil scope frame.unit node)
  rw [← lines_eq frame.unit h, hlines, Frame.below_cons] at hbelow
  rw [String.append_assoc] at hbelow
  rw [composedText, hlines, Frame.joined_cons, assembled]
  exact (String.append_right_inj _).1 hbelow

theorem endsWith_append {b : String} {c : Char} (a : String) (h : Text.endsWith b c = true) :
    Text.endsWith (a ++ b) c = true := by
  simp_all [Text.endsWith, List.getLast?_append]

theorem endsWith_sectionsText (render : Node → String) (frame : Frame)
    (parts : List (String × List Statement)) :
    Text.endsWith (sectionsText render frame parts) '\x7d' = true := by
  induction parts with
  | nil => simp [sectionsText, Text.endsWith]
  | cons part rest ih =>
    rw [sectionsText]
    exact endsWith_append _ ih

theorem startsWith_assembled (render : Frame → Node → String) (frame : Frame)
    (h : node.isBlock = true) :
    Text.startsWith (assembled render scope frame node) "delete(" = false := by
  cases node <;> simp only [Node.isBlock, Bool.false_eq_true] at h
  case loop origin start stop kind condition body =>
    cases kind <;> simp [assembled, sections, sectionsText, loopHeader, Text.startsWith,
      List.isPrefixOf]
  all_goals
    simp [assembled, sections, sectionsText, branchHeader, tellHeader, Text.startsWith,
      List.isPrefixOf]

theorem statementText_eq (frame : Frame) (h : node.isBlock = true) :
    statementText scope frame node =
      readParts (assembled (statementText scope) scope frame node) := by
  rw [statementText, text_eq h, assembled, finish_of_endsWith (endsWith_sectionsText ..)]

section Comparing

variable {render render' : Node → String}

theorem bodyText_cons (render : Node → String) (frame : Frame) (s : Statement)
    (rest : List Statement) :
    bodyText render frame (s :: rest) =
      frame.indentation ++ render s.node ++ "\n" ++ bodyText render frame rest := by
  simp [bodyText]

theorem line_reads {a b : String} (frame : Frame) (h : ReadsParts a b) :
    ReadsParts (frame.indentation ++ a ++ "\n") (frame.indentation ++ b ++ "\n") :=
  ((ReadsParts.refl frame.indentation).append h).append (.refl "\n")

theorem bodyText_reads (frame : Frame) {body : List Statement}
    (h : ∀ s ∈ body, ReadsParts (render s.node) (render' s.node)) :
    ReadsParts (bodyText render frame body) (bodyText render' frame body) := by
  induction body with
  | nil => exact .refl _
  | cons s rest ih =>
    obtain ⟨hs, hrest⟩ := List.forall_mem_cons.1 h
    rw [bodyText_cons, bodyText_cons]
    exact (line_reads frame hs).append (ih hrest)

theorem bodyText_eq_iff (frame : Frame) {body : List Statement}
    (h : ∀ s ∈ body, ReadsParts (render s.node) (render' s.node)) :
    bodyText render frame body = bodyText render' frame body ↔
      ∀ s ∈ body, render s.node = render' s.node := by
  induction body with
  | nil => simp [bodyText]
  | cons s rest ih =>
    obtain ⟨hs, hrest⟩ := List.forall_mem_cons.1 h
    rw [bodyText_cons, bodyText_cons,
      (line_reads frame hs).append_eq_iff (bodyText_reads frame hrest), ih hrest]
    simp

theorem sectionsText_reads (frame : Frame) {parts : List (String × List Statement)}
    (h : ∀ p ∈ parts, ∀ s ∈ p.2, ReadsParts (render s.node) (render' s.node)) :
    ReadsParts (sectionsText render frame parts) (sectionsText render' frame parts) := by
  induction parts with
  | nil => exact .refl _
  | cons p rest ih =>
    obtain ⟨hp, hrest⟩ := List.forall_mem_cons.1 h
    exact (((ReadsParts.refl _).append (bodyText_reads frame.deeper hp)).append (.refl _)).append
      (ih hrest)

theorem sectionsText_eq_iff (frame : Frame) {parts : List (String × List Statement)}
    (h : ∀ p ∈ parts, ∀ s ∈ p.2, ReadsParts (render s.node) (render' s.node)) :
    sectionsText render frame parts = sectionsText render' frame parts ↔
      ∀ p ∈ parts, ∀ s ∈ p.2, render s.node = render' s.node := by
  induction parts with
  | nil => simp [sectionsText]
  | cons p rest ih =>
    obtain ⟨hp, hrest⟩ := List.forall_mem_cons.1 h
    have hbody := bodyText_reads frame.deeper hp
    have hfirst := ((ReadsParts.refl (p.1 ++ "\n")).append hbody).append (.refl frame.indentation)
    rw [sectionsText, sectionsText, hfirst.append_eq_iff (sectionsText_reads frame hrest), ih hrest,
      String.append_left_inj, String.append_right_inj, bodyText_eq_iff frame.deeper hp,
      List.forall_mem_cons]

end Comparing

theorem sections_eq_nil (scope : Scope) (h : node.isBlock = false) : sections scope node = [] := by
  cases node <;> simp only [Node.isBlock, Bool.true_eq_false] at h
  all_goals rfl

theorem composedText_reads (scope : Scope) (frame : Frame) (node : Node) :
    ReadsParts (composedText scope frame node) (statementText scope frame node) := by
  induction node using induction_of_sections scope generalizing frame with
  | step node ih =>
    cases h : node.isBlock with
    | false => exact composedText_eq_statementText frame h ▸ .refl _
    | true =>
      rw [composedText_eq h, statementText_eq frame h]
      exact (sectionsText_reads frame fun p hp s hs => ih p hp s hs frame.deeper).trans
        (readsParts_readParts _)

theorem statementText_eq_composedText_iff_of_isBlock (frame : Frame) (h : node.isBlock = true) :
    statementText scope frame node = composedText scope frame node ↔
      (∀ p ∈ sections scope node, ∀ s ∈ p.2,
        statementText scope frame.deeper s.node = composedText scope frame.deeper s.node) ∧
      LastAssigned (composedText scope frame node) := by
  have hinner : ∀ p ∈ sections scope node, ∀ s ∈ p.2,
      ReadsParts (composedText scope frame.deeper s.node) (statementText scope frame.deeper s.node) :=
    fun _ _ s _ => composedText_reads scope frame.deeper s.node
  have hstart : Text.startsWith (composedText scope frame node) "delete(" = false := by
    rw [composedText_eq h]
    exact startsWith_assembled _ _ h
  rw [← readParts_eq_self_iff hstart, statementText_eq frame h, composedText_eq h]
  constructor
  · intro heq
    -- The statements in the block can only make it shorter, and so can its own readings.
    have hlength := (readsParts_readParts (assembled (statementText scope) scope frame node)).length_le
    rw [heq] at hlength
    have hsame : assembled (composedText scope) scope frame node =
        assembled (statementText scope) scope frame node :=
      (sectionsText_reads frame hinner).eq_of_length_le hlength
    refine ⟨fun p hp s hs => ((sectionsText_eq_iff frame hinner).1 hsame p hp s hs).symm, ?_⟩
    rw [← hsame] at heq
    exact heq
  · rintro ⟨hall, hlast⟩
    have hsame := (sectionsText_eq_iff frame hinner).2 fun p hp s hs => (hall p hp s hs).symm
    rw [← hlast]
    exact congrArg readParts hsame.symm

/-- A statement has the composed text exactly if each block in it has its last reference assigned. -/
theorem statementText_eq_composedText_iff (scope : Scope) (frame : Frame) (node : Node) :
    statementText scope frame node = composedText scope frame node ↔
      ∀ frame' node', Inside scope frame node frame' node' → node'.isBlock = true →
        LastAssigned (composedText scope frame' node') := by
  induction node using induction_of_sections scope generalizing frame with
  | step node ih =>
    cases h : node.isBlock with
    | false =>
      refine ⟨fun _ frame' node' hinside hblock => ?_,
        fun _ => (composedText_eq_statementText frame h).symm⟩
      cases hinside with
      | self => simp_all
      | inner hp => simp [sections_eq_nil scope h] at hp
    | true =>
      rw [statementText_eq_composedText_iff_of_isBlock frame h]
      constructor
      · rintro ⟨hall, hlast⟩ frame' node' hinside hblock
        cases hinside with
        | self => exact hlast
        | inner hp hs hinner =>
          exact (ih _ hp _ hs frame.deeper).1 (hall _ hp _ hs) frame' node' hinner hblock
      · intro hall
        refine ⟨fun p hp s hs => (ih p hp s hs frame.deeper).2 ?_, hall frame node (.self _ _) h⟩
        exact fun frame' node' hinner => hall frame' node' (.inner hp hs hinner)

end JavaScript

open JavaScript in
/-- The JavaScript of a script. A block has its headers and the text that each statement in it gets
on its own, one level further in, with at most one more reference made a reading. It is composed of
the statements in it down to the last depth exactly if each block has its last reference assigned. -/
theorem Script.javaScript_composed (s : Script) (unit : String) :
    s.javaScript unit = String.join (scriptLines ⟨unit, 0⟩ s) ∧
      ∀ frame node,
        (node.isBlock = true → statementText (.ofScript s) frame node =
          readParts (assembled (statementText (.ofScript s)) (.ofScript s) frame node)) ∧
        ReadsParts (composedText (.ofScript s) frame node) (statementText (.ofScript s) frame node) ∧
        (statementText (.ofScript s) frame node = composedText (.ofScript s) frame node ↔
          ∀ frame' node', Inside (.ofScript s) frame node frame' node' → node'.isBlock = true →
            LastAssigned (composedText (.ofScript s) frame' node')) :=
  ⟨javaScript_eq s unit, fun frame node => ⟨statementText_eq frame,
    composedText_reads _ frame node, statementText_eq_composedText_iff _ frame node⟩⟩

/-- `if 1 then delete char 1 of x` -/
def JavaScript.deletionInBranch : Node :=
  let deletion := Node.unary 1 .delete
    (.chunk 2 .char (.leaf .constant "1" 0) (.leaf .localVariable "x" 0))
  .branch 3 (.leaf .constant "1" 0) [⟨0, deletion⟩] []

open JavaScript in
theorem Script.javaScript_composed_deletion :
    let scope := Scope.ofScript ⟨[], [], [], none⟩
    deletionInBranch.isBlock = true ∧
      statementText scope .plain deletionInBranch =
        readParts (assembled (statementText scope) scope .plain deletionInBranch) ∧
      statementText scope .plain deletionInBranch =
        "if (1) \x7b\n    delete(x.getProp(\"char\", 1));\n\x7d" ∧
      composedText scope .plain deletionInBranch =
        "if (1) \x7b\n    delete(x.getPropRef(\"char\", 1));\n\x7d" ∧
      ¬ ∀ frame' node', Inside scope .plain deletionInBranch frame' node' →
        node'.isBlock = true → LastAssigned (composedText scope frame' node') := by
  obtain ⟨hblock, -, hiff⟩ :=
    (javaScript_composed ⟨[], [], [], none⟩ "").2 .plain deletionInBranch
  exact ⟨rfl, hblock rfl, by decide +kernel, by decide +kernel, mt hiff.2 (by decide +kernel)⟩

end LingoSource
