import Mathlib.Data.List.Forall2
import LingoSource.Proofs.JavaScript.Blocks
import LingoSource.Proofs.Layout.Leveled
import LingoSource.Proofs.Text.Search

set_option autoImplicit false

namespace LingoSource

namespace JavaScript

def refers (text : String) : Bool :=
  (Text.splitLast "getPropRef".toList text.toList).isSome

def assigns (text : String) : Bool :=
  '=' ∈ text.toList

/-- The last line with a reference makes it a reading, unless an equals sign follows there or below. -/
def readLines : List Line → List Line
  | [] => []
  | line :: rest =>
    if rest.any (refers ·.text) then line :: readLines rest
    else if rest.any (assigns ·.text) then line :: rest
    else { line with text := readLast line.text } :: rest

section Reading

variable {a b text unit : String}

theorem readLast_append_of_refers (a : String) (h : refers b = true) :
    readLast (a ++ b) = a ++ readLast b := by
  obtain ⟨⟨before, after⟩, hb⟩ := Option.isSome_iff_exists.1 h
  have hab := Text.splitLast_append_of_some hb a.toList
  unfold readLast
  rw [String.toList_append, hab, hb]
  dsimp only
  split
  · rfl
  · simp

/-- Nothing refers to a part of a text across the end of a line. -/
theorem splitLast_line (h : refers b = false) (a : String) :
    Text.splitLast "getPropRef".toList (a ++ "\n" ++ b).toList =
      (Text.splitLast "getPropRef".toList a.toList).map fun found =>
        (found.1, found.2 ++ '\n' :: b.toList) := by
  have hb : Text.splitLast "getPropRef".toList b.toList = none := by simpa [refers] using h
  simpa using Text.splitLast_append_of_none (c := '\n') (by simp) (by decide) hb a.toList

theorem readLast_line_of_assigns (h : refers b = false) (hb : assigns b = true) (a : String) :
    readLast (a ++ "\n" ++ b) = a ++ "\n" ++ b := by
  have hmem : '=' ∈ b.toList := of_decide_eq_true hb
  unfold readLast
  rw [splitLast_line h]
  cases Text.splitLast "getPropRef".toList a.toList with
  | none => rfl
  | some found => exact if_pos (by simp [hmem])

theorem readLast_line_of_not_assigns (h : refers b = false) (hb : assigns b = false) (a : String) :
    readLast (a ++ "\n" ++ b) = readLast a ++ "\n" ++ b := by
  have hmem : '=' ∉ b.toList := of_decide_eq_false hb
  unfold readLast
  rw [splitLast_line h]
  cases Text.splitLast "getPropRef".toList a.toList with
  | none => rfl
  | some found =>
    dsimp only [Option.map_some]
    by_cases hfound : '=' ∈ found.2
    · rw [if_pos hfound, if_pos (List.mem_append_left _ hfound)]
    · rw [if_neg hfound, if_neg (by simp [hfound, hmem])]
      simp [← String.toList_inj]

theorem refers_append (a : String) (h : refers b = true) : refers (a ++ b) = true := by
  obtain ⟨found, hb⟩ := Option.isSome_iff_exists.1 h
  unfold refers
  rw [String.toList_append, Text.splitLast_append_of_some hb]
  rfl

theorem refers_line (a b : String) : refers (a ++ "\n" ++ b) = (refers a || refers b) := by
  cases h : refers b with
  | true => rw [Bool.or_true, refers_append _ h]
  | false =>
    rw [refers, splitLast_line h, Option.isSome_map, Bool.or_false]
    rfl

theorem splitLast_spaces (h : ∀ c ∈ unit.toList, c = ' ') (a : String) :
    Text.splitLast "getPropRef".toList (unit ++ a).toList =
      (Text.splitLast "getPropRef".toList a.toList).map fun found =>
        (unit.toList ++ found.1, found.2) := by
  rw [String.toList_append]
  generalize unit.toList = spaces at h
  induction spaces with
  | nil => simp
  | cons c rest ih =>
    obtain ⟨rfl, hrest⟩ := List.forall_mem_cons.1 h
    rw [List.cons_append, Text.splitLast_cons (by simp) (by decide), ih hrest, Option.map_map]
    rfl

theorem readLast_spaces (h : ∀ c ∈ unit.toList, c = ' ') (a : String) :
    readLast (unit ++ a) = unit ++ readLast a := by
  unfold readLast
  rw [splitLast_spaces h]
  cases Text.splitLast "getPropRef".toList a.toList with
  | none => rfl
  | some found =>
    dsimp only [Option.map_some]
    split
    · rfl
    · simp

theorem refers_spaces (h : ∀ c ∈ unit.toList, c = ' ') (a : String) :
    refers (unit ++ a) = refers a := by
  rw [refers, splitLast_spaces h, Option.isSome_map]
  rfl

theorem readLast_ne_empty (h : text ≠ "") : readLast text ≠ "" := by
  unfold readLast
  split
  · split
    · exact h
    · simp [← String.toList_inj]
  · exact h

theorem assigns_append (a b : String) : assigns (a ++ b) = (assigns a || assigns b) := by
  simp [assigns]

theorem assigns_spaces (h : ∀ c ∈ unit.toList, c = ' ') (a : String) :
    assigns (unit ++ a) = assigns a := by
  have hunit : assigns unit = false := decide_eq_false fun hmem => absurd (h _ hmem) (by decide)
  rw [assigns_append, hunit, Bool.false_or]

theorem indentation_spaces (h : ∀ c ∈ unit.toList, c = ' ') (level : Nat) :
    ∀ c ∈ (Frame.indentation ⟨unit, level⟩).toList, c = ' ' := by
  intro c hc
  have hmem : ∃ s, (level ≠ 0 ∧ s = unit) ∧ c ∈ s.toList := by
    simpa [Frame.indentation] using hc
  obtain ⟨_, ⟨-, rfl⟩, hunit⟩ := hmem
  exact h c hunit

theorem exists_spaces (h : ∀ c ∈ unit.toList, c = ' ') (line : Line) :
    ∃ front : String, (∀ c ∈ front.toList, c = ' ') ∧ ∀ text : String,
      text.isEmpty = line.text.isEmpty →
      Line.written unit { line with text } = front ++ text ++ "\n" := by
  refine ⟨if line.text.isEmpty then "" else Frame.indentation ⟨unit, line.level⟩, ?_, ?_⟩
  · split
    · simp
    · exact indentation_spaces h line.level
  · intro text htext
    simp only [Line.written, Frame.line, htext]
    split
    · rename_i hempty
      rw [hempty] at htext
      simp_all
    · rfl

theorem readLast_writtenAll (h : ∀ c ∈ unit.toList, c = ' ') (lines : List Line) :
    readLast (Line.writtenAll unit lines) = Line.writtenAll unit (readLines lines) ∧
      refers (Line.writtenAll unit lines) = lines.any (refers ·.text) ∧
      assigns (Line.writtenAll unit lines) = lines.any (assigns ·.text) := by
  induction lines with
  | nil => exact ⟨by simp [readLines]; rfl, by simp; rfl, by simp; rfl⟩
  | cons line rest ih =>
    obtain ⟨hread, hrefers, hassigns⟩ := ih
    obtain ⟨front, hfront, hwritten⟩ := exists_spaces h line
    have hline : Line.written unit line = front ++ line.text ++ "\n" := hwritten line.text rfl
    rw [Line.writtenAll_cons, hline]
    refine ⟨?_, ?_, ?_⟩
    · rw [readLines]
      split
      · rename_i hrest
        rw [readLast_append_of_refers _ (hrefers.trans hrest), hread, Line.writtenAll_cons, hline]
      · rename_i hrest
        have hnot := hrefers.trans (Bool.eq_false_iff.2 hrest)
        split
        · rename_i hequals
          rw [readLast_line_of_assigns hnot (hassigns.trans hequals), Line.writtenAll_cons, hline]
        · rename_i hequals
          have hsame : (readLast line.text).isEmpty = line.text.isEmpty := by
            cases hempty : line.text.isEmpty with
            | true =>
              rw [String.isEmpty_iff.1 hempty]
              rfl
            | false =>
              simpa using readLast_ne_empty (by simpa using hempty)
          rw [readLast_line_of_not_assigns hnot (hassigns.trans (Bool.eq_false_iff.2 hequals)),
            readLast_spaces hfront, Line.writtenAll_cons, hwritten _ hsame]
    · rw [refers_line, refers_spaces hfront, hrefers, List.any_cons]
    · rw [assigns_append, assigns_append, assigns_spaces hfront, hassigns, List.any_cons]
      simp [assigns]

end Reading

mutual

def layout (scope : Scope) (level : Nat) : Node → List Line
  | .loop _ _ _ kind condition body =>
    readLines (⟨level, loopHeader scope kind condition⟩ ::
      (layoutAll scope (level + 1) body ++ [⟨level, "\x7d"⟩]))
  | .branch _ condition thenBody elseBody =>
    readLines (⟨level, branchHeader scope condition⟩ ::
      (layoutAll scope (level + 1) thenBody ++
        ((if elseBody.isEmpty then []
            else ⟨level, "\x7d else \x7b"⟩ :: layoutAll scope (level + 1) elseBody) ++
          [⟨level, "\x7d"⟩])))
  | .tell _ target body =>
    readLines (⟨level, tellHeader scope target⟩ ::
      (layoutAll scope (level + 1) body ++ [⟨level, "\x7d"⟩]))
  | node => [⟨level, statementText scope .plain node⟩]

def layoutAll (scope : Scope) (level : Nat) : List Statement → List Line
  | [] => []
  | ⟨_, node⟩ :: rest => layout scope level node ++ layoutAll scope level rest

end

/-- The lines of headers with the statements below them, up to the closing brace. -/
def sectionsLayout (scope : Scope) (level : Nat) (parts : List (String × List Statement)) :
    List Line :=
  parts.flatMap (fun p => ⟨level, p.1⟩ :: layoutAll scope (level + 1) p.2) ++ [⟨level, "\x7d"⟩]

def functionLayout (scope : Scope) (keyword : String) (level : Nat) (f : Function) : List Line :=
  ⟨level, keyword ++ functionName f.name ++ "(" ++ commas f.parameterNames ++ ") \x7b"⟩ ::
    (f.localNames.map (fun name => ⟨level + 1, "var " ++ name ++ ";"⟩) ++
      (if f.localNames.isEmpty then [] else [⟨level + 1, ""⟩]) ++
      layoutAll scope (level + 1) f.body ++ [⟨level, "\x7d"⟩])

def functionsLayout (scope : Scope) (keyword : String) (level : Nat) (functions : List Function) :
    List Line :=
  ((functions.map (functionLayout scope keyword level)).intersperse [⟨level, ""⟩]).flatten

def factoryLayout (scope : Scope) (factory : String) (functions : List Function) : List Line :=
  ⟨0, "class Factory__" ++ factory ++ " extends FactoryBase \x7b"⟩ ::
    functionsLayout scope "" 1 functions ++
    [⟨0, "\x7d"⟩, ⟨0, ""⟩, ⟨0, "function " ++ factory ++ "(methodName, ...args) \x7b"⟩,
      ⟨1, "return factoryCall('" ++ factory ++ "', methodName, args);"⟩, ⟨0, "\x7d"⟩]

def scriptLayout (s : Script) : List Line :=
  let scope := Scope.ofScript s
  match s.factory with
  | some factory => factoryLayout scope factory s.functions
  | none => functionsLayout scope "function " 0 s.functions

variable {scope : Scope} {node : Node} {unit : String}

theorem layoutAll_eq (level : Nat) (statements : List Statement) :
    layoutAll scope level statements = statements.flatMap fun s => layout scope level s.node := by
  induction statements with
  | nil => rfl
  | cons s rest ih =>
    obtain ⟨_, node⟩ := s
    rw [layoutAll, ih, List.flatMap_cons]

theorem layout_eq (scope : Scope) (level : Nat) (h : node.isBlock = true) :
    layout scope level node = readLines (sectionsLayout scope level (sections scope node)) := by
  cases node <;> simp only [Node.isBlock, Bool.false_eq_true] at h
  case branch =>
    rw [layout, sections, sectionsLayout]
    split <;> simp
  all_goals simp [layout, sections, sectionsLayout]

theorem layout_of_not_isBlock (scope : Scope) (level : Nat) (h : node.isBlock = false) :
    layout scope level node = [⟨level, statementText scope .plain node⟩] := by
  cases node <;> simp only [Node.isBlock, Bool.true_eq_false] at h
  all_goals rfl

theorem header_ne_empty {p : String × List Statement} (h : p ∈ sections scope node) : p.1 ≠ "" := by
  cases node <;> simp only [sections, List.not_mem_nil] at h
  case loop _ _ _ kind _ _ =>
    obtain rfl := List.mem_singleton.1 h
    cases kind <;> simp [loopHeader]
  case branch =>
    rcases List.mem_cons.1 h with rfl | helse
    · simp [branchHeader]
    · split at helse
      · cases helse
      · obtain rfl := List.mem_singleton.1 helse
        simp
  case tell =>
    obtain rfl := List.mem_singleton.1 h
    simp [tellHeader]

theorem writtenAll_layoutAll (level : Nat) {statements : List Statement}
    (h : ∀ s ∈ statements, Frame.line ⟨unit, level⟩ (statementText scope ⟨unit, level⟩ s.node) =
      Line.writtenAll unit (layout scope level s.node)) :
    Line.writtenAll unit (layoutAll scope level statements) =
      bodyText (statementText scope ⟨unit, level⟩) ⟨unit, level⟩ statements := by
  rw [layoutAll_eq]
  induction statements with
  | nil => simp [bodyText]
  | cons s rest ih =>
    obtain ⟨hs, hrest⟩ := List.forall_mem_cons.1 h
    rw [List.flatMap_cons, Line.writtenAll_append, ← hs, ih hrest, bodyText_cons, Frame.line,
      if_neg (by simpa [statementText] using finish_ne_empty _)]

theorem writtenAll_sectionsLayout (level : Nat) {parts : List (String × List Statement)}
    (hheader : ∀ p ∈ parts, p.1 ≠ "")
    (h : ∀ p ∈ parts, ∀ s ∈ p.2,
      Frame.line ⟨unit, level + 1⟩ (statementText scope ⟨unit, level + 1⟩ s.node) =
        Line.writtenAll unit (layout scope (level + 1) s.node)) :
    Line.writtenAll unit (sectionsLayout scope level parts) =
      Frame.indentation ⟨unit, level⟩ ++
        sectionsText (statementText scope ⟨unit, level + 1⟩) ⟨unit, level⟩ parts ++ "\n" := by
  induction parts with
  | nil => simp [sectionsLayout, sectionsText, Line.written_of_ne_empty]
  | cons p rest ih =>
    obtain ⟨hp, hrest⟩ := List.forall_mem_cons.1 h
    obtain ⟨hfirst, hheaders⟩ := List.forall_mem_cons.1 hheader
    have hnext := ih hheaders hrest
    unfold sectionsLayout at hnext ⊢
    rw [List.flatMap_cons, List.append_assoc, Line.writtenAll_append, hnext, Line.writtenAll_cons,
      Line.written_of_ne_empty hfirst, writtenAll_layoutAll _ hp, sectionsText]
    simp [Frame.deeper, String.append_assoc]

/-- The lines of a statement do not depend on the unit that they are indented with. -/
theorem line_statementText (h : ∀ c ∈ unit.toList, c = ' ') (level : Nat) (node : Node) :
    Frame.line ⟨unit, level⟩ (statementText scope ⟨unit, level⟩ node) =
      Line.writtenAll unit (layout scope level node) := by
  induction node using induction_of_sections scope generalizing level with
  | step node ih =>
    cases hblock : node.isBlock with
    | false =>
      rw [layout_of_not_isBlock scope level hblock, statementText, text_eq_plain _ hblock]
      simp [Line.written, statementText]
    | true =>
      have hraw := writtenAll_sectionsLayout level (fun _ hp => header_ne_empty hp)
        fun p hp s hs => ih p hp s hs (level + 1)
      let frame : Frame := ⟨unit, level⟩
      let whole := assembled (statementText scope) scope frame node
      have htext : statementText scope frame node = readLast whole := by
        rw [statementText_eq _ hblock, readParts_eq, startsWith_assembled _ _ hblock,
          if_neg Bool.false_ne_true]
      have hne : statementText scope frame node ≠ "" := finish_ne_empty _
      calc
        _ = frame.indentation ++ readLast whole ++ "\n" := by
          rw [Frame.line, if_neg (by simpa using hne), htext]
        _ = readLast (frame.indentation ++ whole ++ "\n" ++ "") := by
          rw [readLast_line_of_not_assigns rfl rfl, readLast_spaces (indentation_spaces h level),
            String.append_empty]
        _ = readLast (Line.writtenAll unit (sectionsLayout scope level (sections scope node))) := by
          rw [String.append_empty, hraw]
          rfl
        _ = _ := by rw [(readLast_writtenAll h _).1, layout_eq scope level hblock]

theorem functionLines_eq (h : ∀ c ∈ unit.toList, c = ' ') (scope : Scope) (keyword : String)
    (level : Nat) (f : Function) :
    String.join (functionLines scope keyword ⟨unit, level⟩ f) =
      Line.writtenAll unit (functionLayout scope keyword level f) := by
  have hbody : String.join (f.body.map fun s =>
      Frame.line ⟨unit, level + 1⟩ (statementText scope ⟨unit, level + 1⟩ s.node)) =
      Line.writtenAll unit (layoutAll scope (level + 1) f.body) := by
    rw [layoutAll_eq]
    exact Line.writtenAll_flatMap fun s _ => line_statementText h (level + 1) s.node
  simp only [functionLines, functionLayout, String.join_cons, String.join_append,
    Line.writtenAll_cons, Line.writtenAll_append, Frame.deeper, hbody]
  split <;> simp [Line.writtenAll, Line.written, Frame.line, Function.comp_def]

theorem functionsLines_eq (h : ∀ c ∈ unit.toList, c = ' ') (scope : Scope) (keyword : String)
    (level : Nat) (functions : List Function) :
    String.join (functionsLines scope keyword ⟨unit, level⟩ functions) =
      Line.writtenAll unit (functionsLayout scope keyword level functions) :=
  Line.writtenAll_separated (functionLines_eq h scope keyword level) level functions

theorem javaScript_eq_writtenAll (h : ∀ c ∈ unit.toList, c = ' ') (s : Script) :
    s.javaScript unit = Line.writtenAll unit (scriptLayout s) := by
  rw [javaScript_eq, scriptLines, scriptLayout]
  cases s.factory with
  | none => exact functionsLines_eq h _ _ 0 s.functions
  | some factory =>
    simp only [factoryLines, factoryLayout, List.cons_append, String.join_cons, String.join_append,
      Line.writtenAll_cons, Line.writtenAll_append, Frame.deeper, functionsLines_eq h]
    simp [Line.written, Frame.line]

theorem levels_readLines (lines : List Line) :
    (readLines lines).map Line.level = lines.map Line.level := by
  induction lines with
  | nil => rfl
  | cons line rest ih =>
    rw [readLines]
    split
    · rw [List.map_cons, List.map_cons, ih]
    · split <;> rfl

mutual

theorem levels_layout (scope : Scope) (level : Nat) (node : Node) :
    (layout scope level node).map Line.level = node.levels level := by
  cases node with
  | loop _ _ _ _ _ body | tell _ _ body =>
    simp [layout, levels_readLines, Node.levels, levels_layoutAll scope (level + 1) body]
  | branch _ _ thenBody elseBody =>
    have helse := levels_layoutAll scope (level + 1) elseBody
    simp only [layout, levels_readLines, Node.levels, List.map_cons, List.map_append,
      levels_layoutAll scope (level + 1) thenBody]
    split <;> simp [helse]
  | _ => rfl

theorem levels_layoutAll (scope : Scope) (level : Nat) (statements : List Statement) :
    (layoutAll scope level statements).map Line.level = Node.levelsAll level statements := by
  cases statements with
  | nil => rfl
  | cons s rest =>
    obtain ⟨_, node⟩ := s
    rw [layoutAll, Node.levelsAll, List.map_append, levels_layout scope level node,
      levels_layoutAll scope level rest]

end

/-- The second line is the first one, with some references made readings. -/
def LineReads (a b : Line) : Prop :=
  b.level = a.level ∧ ReadsParts a.text b.text

theorem LineReads.refl (line : Line) : LineReads line line := ⟨rfl, .refl _⟩

theorem LineReads.trans {a b c : Line} (hab : LineReads a b) (hbc : LineReads b c) : LineReads a c :=
  ⟨hbc.1.trans hab.1, hab.2.trans hbc.2⟩

theorem LineReads.trans_all {a b c : List Line} (hab : List.Forall₂ LineReads a b)
    (hbc : List.Forall₂ LineReads b c) : List.Forall₂ LineReads a c := by
  induction hab generalizing c with
  | nil => exact hbc
  | cons hfirst _ ih =>
    cases hbc with
    | cons hnext hrest => exact .cons (hfirst.trans hnext) (ih hrest)

def ReadIn (lines list : List Line) : Prop :=
  ∃ own, own <:+: list ∧ List.Forall₂ LineReads lines own

theorem ReadIn.of_isInfix {lines list : List Line} (h : lines <:+: list) : ReadIn lines list :=
  ⟨lines, h, List.forall₂_same.2 fun line _ => .refl line⟩

theorem forall₂_readLines (lines : List Line) : List.Forall₂ LineReads lines (readLines lines) := by
  induction lines with
  | nil => exact .nil
  | cons line rest ih =>
    have hrest : List.Forall₂ LineReads rest rest := List.forall₂_same.2 fun line _ => .refl line
    rw [readLines]
    split
    · exact .cons (.refl line) ih
    · split
      · exact .cons (.refl line) hrest
      · exact .cons ⟨rfl, readsParts_readLast line.text⟩ hrest

theorem ReadIn.trans {lines inner inner' list : List Line} (h : ReadIn lines inner)
    (hinner : List.Forall₂ LineReads inner inner') (hlist : inner' <:+: list) :
    ReadIn lines list := by
  obtain ⟨own, ⟨before, after, rfl⟩, hlines⟩ := h
  have hpart := List.forall₂_take own.length (List.forall₂_drop before.length hinner)
  rw [List.append_assoc, List.drop_left, List.take_left] at hpart
  have hinfix := (List.take_prefix own.length _).isInfix.trans
    (List.drop_suffix before.length inner').isInfix
  exact ⟨_, hinfix.trans hlist, LineReads.trans_all hlines hpart⟩

theorem exists_section (scope : Scope) {body : List Statement} (h : body ∈ node.bodies)
    (hbody : body ≠ []) : ∃ p ∈ sections scope node, p.2 = body := by
  cases node <;> simp only [Node.bodies, List.mem_cons, List.not_mem_nil, or_false] at h
  case branch _ condition thenBody elseBody =>
    rcases h with rfl | rfl
    · exact ⟨_, List.mem_cons_self .., rfl⟩
    · exact ⟨("\x7d else \x7b", _), by simp [sections, hbody], rfl⟩
  all_goals
    subst h
    exact ⟨_, List.mem_cons_self .., rfl⟩

theorem layout_infix_layoutAll (scope : Scope) (level : Nat) {statements : List Statement}
    {s : Statement} (h : s ∈ statements) :
    layout scope level s.node <:+: layoutAll scope level statements := by
  rw [layoutAll_eq]
  exact Line.infix_flatMap h fun s => layout scope level s.node

theorem layoutAll_infix_sectionsLayout (level : Nat) {parts : List (String × List Statement)}
    {p : String × List Statement} (h : p ∈ parts) :
    layoutAll scope (level + 1) p.2 <:+: sectionsLayout scope level parts := by
  have hflat := Line.infix_flatMap h fun p => ⟨level, p.1⟩ :: layoutAll scope (level + 1) p.2
  exact ((List.suffix_cons _ _).isInfix.trans hflat).trans (List.prefix_append _ _).isInfix

/-- The lines of a statement read among those of the blocks around it, at its depth. -/
theorem layout_readIn (scope : Scope) {depth : Nat} {root : Node} (level : Nat)
    (h : root.StandsIn depth node) :
    ReadIn (layout scope (level + depth) node) (layout scope level root) := by
  induction h with
  | self => exact .of_isInfix (List.infix_refl _)
  | @inner depth node _ _ _ hbody hs ih =>
    obtain ⟨p, hp, rfl⟩ := exists_section scope hbody (List.ne_nil_of_mem hs)
    have hblock : node.isBlock = true := by
      cases h : node.isBlock with
      | true => rfl
      | false => simp [sections_eq_nil scope h] at hp
    obtain ⟨own, hown, hreads⟩ := ih
    rw [layout_eq scope _ hblock] at hreads
    have hraw := (layout_infix_layoutAll scope (level + depth + 1) hs).trans
      (layoutAll_infix_sectionsLayout (level + depth) hp)
    exact ((ReadIn.of_isInfix hraw).trans (forall₂_readLines _) (List.infix_refl _)).trans hreads hown

def bodyLevel (s : Script) : Nat :=
  if s.factory.isSome then 2 else 1

theorem layoutAll_infix_functionLayout (scope : Scope) (keyword : String) (level : Nat)
    (f : Function) :
    layoutAll scope (level + 1) f.body <:+: functionLayout scope keyword level f :=
  ((List.suffix_append _ _).isInfix.trans (List.prefix_append _ _).isInfix).trans
    (List.suffix_cons _ _).isInfix

theorem layoutAll_infix_scriptLayout {s : Script} {f : Function} (hf : f ∈ s.functions) :
    layoutAll (.ofScript s) (bodyLevel s) f.body <:+: scriptLayout s := by
  unfold bodyLevel scriptLayout
  cases s.factory with
  | none =>
    exact (layoutAll_infix_functionLayout _ _ 0 f).trans (Line.infix_separated hf _ _)
  | some factory =>
    have hfunctions := (layoutAll_infix_functionLayout (.ofScript s) "" 1 f).trans
      (Line.infix_separated hf (functionLayout (.ofScript s) "" 1) [⟨1, ""⟩])
    exact (hfunctions.trans (List.suffix_cons _ _).isInfix).trans (List.prefix_append _ _).isInfix

end JavaScript

end LingoSource
