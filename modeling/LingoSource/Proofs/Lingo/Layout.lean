import LingoSource.Proofs.Layout.Leveled
import LingoSource.Proofs.Lingo.Lines
import LingoSource.Proofs.Tree.Blocks

set_option autoImplicit false

namespace LingoSource

namespace Lingo

def loopHeader (kind : LoopKind) (condition : Node) : String :=
  match kind with
  | .whileTrue => "repeat while " ++ stripParentheses (text .expression condition)
  | .counted variableName first last up =>
    "repeat with " ++ variableName ++ " = " ++ text .expression first ++
      (if up then " to " else " down to ") ++ text .expression last
  | .each variableName list => "repeat with " ++ variableName ++ " in " ++ text .expression list

def branchHeader (condition : Node) : String :=
  "if " ++ text .expression condition ++ " then"

def tellHeader (target : Node) : String :=
  "tell " ++ text .expression target

mutual

def layout (level : Nat) : Node → List Line
  | .loop _ _ _ kind condition body =>
    ⟨level, loopHeader kind condition⟩ :: (layoutAll (level + 1) body ++ [⟨level, "end repeat"⟩])
  | .branch _ condition thenBody elseBody =>
    ⟨level, branchHeader condition⟩ ::
      (layoutAll (level + 1) thenBody ++
        ((if elseBody.isEmpty then [] else ⟨level, "else"⟩ :: layoutAll (level + 1) elseBody) ++
          [⟨level, "end if"⟩]))
  | .tell _ target body =>
    ⟨level, tellHeader target⟩ :: (layoutAll (level + 1) body ++ [⟨level, "end tell"⟩])
  | node => [⟨level, text (.statement .plain) node⟩]

def layoutAll (level : Nat) : List Statement → List Line
  | [] => []
  | ⟨_, node⟩ :: rest => layout level node ++ layoutAll level rest

end

def functionLayout (scriptGlobals : List String) (f : Function) : List Line :=
  ⟨0, signature f⟩ :: ((ownGlobals f scriptGlobals).map (fun name => ⟨1, "global " ++ name⟩) ++
    (if (ownGlobals f scriptGlobals).isEmpty then [] else [⟨1, ""⟩]) ++
    layoutAll 1 f.body ++ [⟨0, "end"⟩])

def scriptLayout (s : Script) : List Line :=
  (if s.properties.isEmpty then [] else [⟨0, "property " ++ commas s.properties⟩]) ++
    s.globals.map (fun name => ⟨0, "global " ++ name⟩) ++
    (if s.globals.isEmpty then [] else [⟨0, ""⟩]) ++
    ((s.functions.map (functionLayout s.globals)).intersperse [⟨0, ""⟩]).flatten

variable {node : Node}

theorem layoutAll_eq (level : Nat) (statements : List Statement) :
    layoutAll level statements = statements.flatMap fun s => layout level s.node := by
  induction statements with
  | nil => rfl
  | cons s rest ih =>
    obtain ⟨_, node⟩ := s
    rw [layoutAll, ih, List.flatMap_cons]

theorem loopHeader_ne_empty (kind : LoopKind) (condition : Node) : loopHeader kind condition ≠ "" := by
  unfold loopHeader
  split <;> simp

theorem text_loop (frame : Frame) (origin start stop : Nat) (kind : LoopKind) (condition : Node)
    (body : List Statement) :
    text (.statement frame) (.loop origin start stop kind condition body) =
      loopHeader kind condition ++ "\n" ++ block frame.deeper body ++ frame.indentation ++
        "end repeat" := by
  unfold text
  rfl

theorem text_branch (frame : Frame) (origin : Nat) (condition : Node)
    (thenBody elseBody : List Statement) :
    text (.statement frame) (.branch origin condition thenBody elseBody) =
      branchHeader condition ++ "\n" ++ block frame.deeper thenBody ++
        (if elseBody.isEmpty then ""
          else frame.indentation ++ "else\n" ++ block frame.deeper elseBody) ++
        frame.indentation ++ "end if" := by
  unfold text
  simp [branchHeader, Place.frame, String.append_assoc]

theorem text_tell (frame : Frame) (origin : Nat) (target : Node) (body : List Statement) :
    text (.statement frame) (.tell origin target body) =
      tellHeader target ++ "\n" ++ block frame.deeper body ++ frame.indentation ++ "end tell" := by
  unfold text
  rfl

theorem text_of_not_isBlock (frame : Frame) (h : node.isBlock = false) :
    text (.statement frame) node = text (.statement .plain) node := by
  cases node <;> simp only [Node.isBlock, Bool.true_eq_false] at h
  case propertyList _ values =>
    unfold text
    cases values with
    | arguments _ _ args => cases args <;> rfl
    | _ => rfl
  all_goals
    unfold text
    rfl

theorem line_of_not_isBlock (unit : String) (level : Nat) (h : node.isBlock = false) :
    Frame.line ⟨unit, level⟩ (text (.statement ⟨unit, level⟩) node) =
      Line.writtenAll unit (layout level node) := by
  have hlayout : layout level node = [⟨level, text (.statement .plain) node⟩] := by
    cases node <;> simp only [Node.isBlock, Bool.true_eq_false] at h
    all_goals rfl
  rw [hlayout, text_of_not_isBlock _ h, Line.writtenAll_cons, Line.writtenAll_nil,
    String.append_empty, Line.written]

mutual

theorem line_text (unit : String) (level : Nat) (node : Node) :
    Frame.line ⟨unit, level⟩ (text (.statement ⟨unit, level⟩) node) =
      Line.writtenAll unit (layout level node) := by
  cases node with
  | loop _ _ _ kind condition body =>
    rw [text_loop, layout, Frame.deeper, block_eq unit (level + 1) body]
    simp [Line.written, Frame.line, loopHeader_ne_empty, String.append_assoc]
  | branch _ condition thenBody elseBody =>
    rw [text_branch, layout, Frame.deeper, block_eq unit (level + 1) thenBody,
      block_eq unit (level + 1) elseBody]
    split <;> simp [Line.written, Frame.line, branchHeader, String.append_assoc]
  | tell _ target body =>
    rw [text_tell, layout, Frame.deeper, block_eq unit (level + 1) body]
    simp [Line.written, Frame.line, tellHeader, String.append_assoc]
  | _ => exact line_of_not_isBlock unit level rfl

theorem block_eq (unit : String) (level : Nat) (statements : List Statement) :
    block ⟨unit, level⟩ statements = Line.writtenAll unit (layoutAll level statements) := by
  cases statements with
  | nil => simp [block, layoutAll]
  | cons s rest =>
    obtain ⟨_, node⟩ := s
    rw [block, layoutAll, Line.writtenAll_append, line_text unit level node,
      block_eq unit level rest]

end

mutual

theorem levels_layout (level : Nat) (node : Node) :
    (layout level node).map Line.level = node.levels level := by
  cases node with
  | loop _ _ _ _ _ body | tell _ _ body =>
    simp [layout, Node.levels, levels_layoutAll (level + 1) body]
  | branch _ _ thenBody elseBody =>
    have helse := levels_layoutAll (level + 1) elseBody
    simp only [layout, Node.levels, List.map_cons, List.map_append,
      levels_layoutAll (level + 1) thenBody]
    split <;> simp [helse]
  | _ => rfl

theorem levels_layoutAll (level : Nat) (statements : List Statement) :
    (layoutAll level statements).map Line.level = Node.levelsAll level statements := by
  cases statements with
  | nil => rfl
  | cons s rest =>
    obtain ⟨_, node⟩ := s
    rw [layoutAll, Node.levelsAll, List.map_append, levels_layout level node,
      levels_layoutAll level rest]

end

theorem layout_infix_layoutAll (level : Nat) {statements : List Statement} {s : Statement}
    (h : s ∈ statements) : layout level s.node <:+: layoutAll level statements := by
  rw [layoutAll_eq]
  exact Line.infix_flatMap h fun s => layout level s.node

theorem layoutAll_infix_layout (level : Nat) {body : List Statement} (h : body ∈ node.bodies)
    (hbody : body ≠ []) : layoutAll (level + 1) body <:+: layout level node := by
  cases node <;> simp only [Node.bodies, List.mem_cons, List.not_mem_nil, or_false] at h
  case branch _ condition thenBody elseBody =>
    rcases h with rfl | rfl
    · exact ⟨[⟨level, branchHeader condition⟩], _, rfl⟩
    · refine ⟨⟨level, branchHeader condition⟩ :: (layoutAll (level + 1) thenBody ++
        [⟨level, "else"⟩]), [⟨level, "end if"⟩], ?_⟩
      simp [layout, hbody]
  case loop _ _ _ kind condition _ =>
    subst h
    exact ⟨[⟨level, loopHeader kind condition⟩], _, rfl⟩
  case tell _ target _ =>
    subst h
    exact ⟨[⟨level, tellHeader target⟩], _, rfl⟩

theorem layout_infix_of_standsIn {depth : Nat} {root : Node} (level : Nat) (h : root.StandsIn depth node) :
    layout (level + depth) node <:+: layout level root := by
  induction h with
  | self => exact List.infix_refl _
  | @inner depth _ _ _ _ hbody hs ih =>
    have hstatement := layout_infix_layoutAll (level + depth + 1) hs
    exact (hstatement.trans (layoutAll_infix_layout _ hbody (List.ne_nil_of_mem hs))).trans ih

theorem functionLines_eq (scriptGlobals : List String) (unit : String) (f : Function) :
    String.join (functionLines scriptGlobals ⟨unit, 0⟩ f) =
      Line.writtenAll unit (functionLayout scriptGlobals f) := by
  have hbody : String.join (f.body.map fun s =>
      Frame.line ⟨unit, 1⟩ (text (.statement ⟨unit, 1⟩) s.node)) =
      Line.writtenAll unit (layoutAll 1 f.body) := by
    rw [layoutAll_eq]
    exact Line.writtenAll_flatMap fun s _ => line_text unit 1 s.node
  simp only [functionLines, declarationLines, functionLayout, String.join_cons, String.join_append,
    Line.writtenAll_cons, Line.writtenAll_append, Frame.deeper, Nat.zero_add, hbody]
  split <;> simp [Line.writtenAll, Line.written, Frame.line, Function.comp_def]

/-- The lines of a script do not depend on the unit that they are indented with. -/
theorem lingo_eq_writtenAll (s : Script) (unit : String) :
    s.lingo unit = Line.writtenAll unit (scriptLayout s) := by
  rw [lingo_eq, String.join_append,
    Line.writtenAll_separated (functionLines_eq s.globals unit) 0]
  simp only [headerLines, scriptLayout, String.join_append, Line.writtenAll_append]
  split <;> split <;> simp [Line.writtenAll, Line.written, Frame.line, Function.comp_def]

theorem layoutAll_infix_scriptLayout {s : Script} {f : Function} (hf : f ∈ s.functions) :
    layoutAll 1 f.body <:+: scriptLayout s := by
  have hfunction : layoutAll 1 f.body <:+: functionLayout s.globals f :=
    ((List.suffix_append _ _).isInfix.trans (List.prefix_append _ _).isInfix).trans
      (List.suffix_cons _ _).isInfix
  exact (hfunction.trans (Line.infix_separated hf _ _)).trans (List.suffix_append _ _).isInfix

end Lingo

end LingoSource
