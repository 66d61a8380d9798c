import LingoSource.Proofs.Lingo.Comment
import LingoSource.Proofs.Tree.Operands

set_option autoImplicit false

namespace LingoSource

theorem Node.StandsIn.trans {root middle node : Node} {depth depth' : Nat}
    (h : root.StandsIn depth middle) (h' : middle.StandsIn depth' node) :
    root.StandsIn (depth + depth') node := by
  induction h' with
  | self => exact h
  | inner _ hbody hs ih => exact .inner ih hbody hs

namespace Lingo

open Text

def firstLine : Node → String
  | .loop _ _ _ kind condition _ => loopHeader kind condition
  | .branch _ condition _ _ => branchHeader condition
  | .tell _ target _ => tellHeader target
  | node => text (.statement .plain) node

def closings : List String :=
  ["end repeat", "else", "end if", "end tell"]

theorem not_commented_of_mem_closings {t : String} (h : t ∈ closings) : ¬Commented t := by
  revert t
  decide

theorem firstLine_mem_layout (level : Nat) (node : Node) : ⟨level, firstLine node⟩ ∈ layout level node := by
  cases node <;> exact List.mem_cons_self ..

mutual

theorem exists_of_mem_layout {level : Nat} {line : Line} (root : Node) (h : line ∈ layout level root) :
    (∃ depth node, root.StandsIn depth node ∧ line = ⟨level + depth, firstLine node⟩) ∨
      line.text ∈ closings := by
  have hbelow {body : List Statement} (hbody : body ∈ root.bodies)
      (h : (∃ s ∈ body, ∃ depth node, s.node.StandsIn depth node ∧
        line = ⟨level + 1 + depth, firstLine node⟩) ∨ line.text ∈ closings) :
      (∃ depth node, root.StandsIn depth node ∧ line = ⟨level + depth, firstLine node⟩) ∨
        line.text ∈ closings := by
    refine h.imp (fun ⟨s, hs, depth, node, hstands, heq⟩ => ?_) id
    have hdepth : level + 1 + depth = level + (0 + 1 + depth) := by omega
    exact ⟨0 + 1 + depth, node, (Node.StandsIn.self.inner hbody hs).trans hstands, hdepth ▸ heq⟩
  cases root with
  | loop _ _ _ _ _ body | tell _ _ body =>
    simp only [layout, List.mem_cons, List.mem_append, List.not_mem_nil, or_false] at h
    rcases h with rfl | h | rfl
    · exact .inl ⟨0, _, .self, rfl⟩
    · exact hbelow (List.mem_singleton_self _) (exists_of_mem_layoutAll body h)
    · exact .inr (by simp [closings])
  | branch _ condition thenBody elseBody =>
    simp only [layout, List.mem_cons, List.mem_append, List.not_mem_nil, or_false] at h
    rcases h with rfl | h | h | rfl
    · exact .inl ⟨0, _, .self, rfl⟩
    · exact hbelow (List.mem_cons_self ..) (exists_of_mem_layoutAll thenBody h)
    · split at h
      · cases h
      · rcases List.mem_cons.1 h with rfl | h
        · exact .inr (by simp [closings])
        · exact hbelow (List.mem_cons_of_mem _ (List.mem_singleton_self _))
            (exists_of_mem_layoutAll elseBody h)
    · exact .inr (by simp [closings])
  | _ =>
    obtain rfl := List.mem_singleton.1 h
    exact .inl ⟨0, _, .self, rfl⟩

theorem exists_of_mem_layoutAll {level : Nat} {line : Line} (statements : List Statement)
    (h : line ∈ layoutAll level statements) :
    (∃ s ∈ statements, ∃ depth node, s.node.StandsIn depth node ∧
      line = ⟨level + depth, firstLine node⟩) ∨ line.text ∈ closings := by
  cases statements with
  | nil => cases h
  | cons s rest =>
    obtain ⟨_, node⟩ := s
    rcases List.mem_append.1 h with h | h
    · exact (exists_of_mem_layout node h).imp (fun h => ⟨_, List.mem_cons_self .., h⟩) id
    · exact (exists_of_mem_layoutAll rest h).imp
        (fun ⟨s, hs, h⟩ => ⟨s, List.mem_cons_of_mem _ hs, h⟩) id

end

variable {node : Node}

theorem stripParentheses_cases (t : String) :
    stripParentheses t = t ∨ t = "(" ∨
      ∃ inner c, t = "(" ++ (inner ++ String.ofList [c]) ∧ stripParentheses t = inner := by
  unfold stripParentheses
  split
  · rename_i inner hchars
    refine .inr ?_
    rcases List.eq_nil_or_concat inner with rfl | ⟨chars, c, rfl⟩
    · exact .inl (String.toList_inj.1 hchars)
    · refine .inr ⟨String.ofList chars, c, String.toList_inj.1 ?_, by simp⟩
      simpa using hchars
  · exact .inl rfl

/-- Taking parentheses off brings no comment about, and takes none away that starts in front of the last
character. -/
theorem commented_of_stripParentheses {t : String} (h : Commented (stripParentheses t)) :
    Commented t := by
  rcases stripParentheses_cases t with heq | rfl | ⟨inner, c, rfl, heq⟩
  · exact heq ▸ h
  · exact absurd h (by decide)
  · rw [heq] at h
    exact (Quiet.commented_append (s := "(") (by decide)).2 (h.append _)

theorem commented_stripParentheses_iff {t : String} (hend : endsWith t '-' = false) :
    Commented (stripParentheses t) ↔ Commented t := by
  rcases stripParentheses_cases t with heq | rfl | ⟨inner, c, rfl, heq⟩
  · rw [heq]
  · decide
  · have hchars : ("(" ++ (inner ++ String.ofList [c])).toList = ('(' :: inner.toList) ++ [c] := by simp
    rw [endsWith, hchars, List.getLast?_concat] at hend
    have hc : c ≠ '-' := by simpa using hend
    rw [heq, Quiet.commented_append (s := "(") (by decide), commented_append_char_iff hc]

theorem legible_of_operandsIn (h : node.OperandsIn Lexical) : Legible node := by
  cases node with
  | assign | put =>
    simp only [Node.OperandsIn] at h
    exact ⟨by simp [parts, h], by simp [names]⟩
  | branch | tell =>
    simp only [Node.OperandsIn] at h
    exact ⟨by simp [parts, h], by simp [names]⟩
  | jumpUnless =>
    simp only [Node.OperandsIn] at h
    exact ⟨by simp [parts, h], by simp [names]⟩
  | jump | exitLoop => exact ⟨by simp [parts], by simp [names]⟩
  | loop _ _ _ kind =>
    simp only [Node.OperandsIn] at h
    cases kind with
    | whileTrue => exact ⟨by simp [parts, h], by simp [names]⟩
    | counted name =>
      obtain ⟨⟨⟨root, hroot, hname⟩, hfirst, hlast⟩, -⟩ := h
      exact ⟨by simp [parts, hfirst, hlast], by simpa [names] using .inr ⟨root, hroot, .inr hname⟩⟩
    | each name =>
      obtain ⟨⟨⟨root, hroot, hname⟩, hlist⟩, -⟩ := h
      exact ⟨by simp [parts, hlist], by simpa [names] using .inr ⟨root, hroot, .inr hname⟩⟩
  | _ => exact Lexical.legible h

theorem text_statement (h : Lexical node) (frame : Frame)
    (hcall : ∀ origin name kind args inTell, node ≠ .call origin name kind args inTell) :
    text (.statement frame) node = expression node := by
  cases h with
  | call | called => exact absurd rfl (hcall _ _ _ _ _)
  | @propertyList _ _ _ args => cases args <;> rfl
  | _ => rfl

theorem composed_assign (origin : Nat) (left right : Node) :
    Composed (.assign origin left right) (firstLine (.assign origin left right)) := by
  have htext : firstLine (.assign origin left right) =
      if startsWith (expression left) "field(" && endsWith (expression left) ')' then
        "put " ++ expression right ++ " into " ++ expression left
      else "set " ++ expression left ++ " = " ++ expression right := rfl
  refine ⟨_, displays_map _, ?_⟩
  change Joins [expression left, expression right] _
  rw [htext]
  split
  · have hinto := Joins.before (w := expression right) (s := " into ") (by decide) (.word (expression left))
    have hput := (hinto.behind (s := "put ") (by decide)).perm (List.Perm.swap _ _ _)
    simpa only [String.append_assoc] using hput
  · have hto := Joins.before (w := expression left) (s := " = ") (by decide) (.word (expression right))
    simpa only [String.append_assoc] using hto.behind (s := "set ") (by decide)

theorem composed_put (origin : Nat) (mode : PutMode) (left right : Node) :
    Composed (.put origin mode left right) (firstLine (.put origin mode left right)) := by
  have htext : firstLine (.put origin mode left right) =
      "put " ++ expression right ++ " " ++ mode.name ++ " " ++ expression left := rfl
  have hmode : Gap (" " ++ mode.name ++ " ") := by cases mode <;> decide
  have hput := Joins.before (w := expression right) hmode (.word (expression left))
  have hperm := (hput.behind (s := "put ") (by decide)).perm (List.Perm.swap _ _ _)
  refine ⟨_, displays_map _, ?_⟩
  change Joins [expression left, expression right] _
  rw [htext]
  simpa only [String.append_assoc] using hperm

theorem composed_counted (origin start stop : Nat) (name : String) (first last : Node) (up : Bool)
    (condition : Node) (body : List Statement) :
    Composed (.loop origin start stop (.counted name first last up) condition body)
      (loopHeader (.counted name first last up) condition) := by
  have hdirection : Gap (if up then " to " else " down to ") := by cases up <;> decide
  have hlast := Joins.before (w := expression first) hdirection (.word (expression last))
  have hfirst := Joins.before (w := name) (s := " = ") (by decide) hlast
  have hloop := hfirst.behind (s := "repeat with ") (by decide)
  refine ⟨_, displays_map _, ?_⟩
  change Joins [name, expression first, expression last]
    ("repeat with " ++ name ++ " = " ++ expression first ++ (if up then " to " else " down to ") ++
      expression last)
  simpa only [String.append_assoc] using hloop

theorem composed_each (origin start stop : Nat) (name : String) (list condition : Node)
    (body : List Statement) :
    Composed (.loop origin start stop (.each name list) condition body)
      (loopHeader (.each name list) condition) := by
  have hlist := Joins.before (w := name) (s := " in ") (by decide) (.word (expression list))
  have hloop := hlist.behind (s := "repeat with ") (by decide)
  refine ⟨_, displays_map _, ?_⟩
  change Joins [name, expression list] ("repeat with " ++ name ++ " in " ++ expression list)
  simpa only [String.append_assoc] using hloop

theorem composed_branch (origin : Nat) (condition : Node) (thenBody elseBody : List Statement) :
    Composed (.branch origin condition thenBody elseBody) (branchHeader condition) := by
  have hthen := (Joins.word (expression condition)).append_gap (s := " then") (by decide)
  have hif := hthen.behind (s := "if ") (by decide)
  rw [← String.append_assoc] at hif
  exact ⟨_, displays_map _, hif⟩

theorem composed_tell (origin : Nat) (target : Node) (body : List Statement) :
    Composed (.tell origin target body) (tellHeader target) :=
  ⟨_, displays_map _, .behind (s := "tell ") (by decide) (.word (expression target))⟩

theorem commentsFrom_expression (h : Lexical node) (hfirstLine : firstLine node = text (.statement .plain) node) :
    CommentsFrom node (firstLine node) := by
  rw [hfirstLine]
  by_cases hcall : ∃ origin name kind args inTell, node = .call origin name kind args inTell
  · obtain ⟨origin, name, kind, args, inTell, rfl⟩ := hcall
    exact Composed.commentsFrom (exists_joins_callText true name args) h.legible
      fun _ _ heq => by cases heq
  · rw [text_statement h .plain fun origin name kind args inTell heq =>
      hcall ⟨origin, name, kind, args, inTell, heq⟩]
    exact h.commentsFrom

theorem commented_whileHeader_iff (condition : Node) :
    Commented (loopHeader .whileTrue condition) ↔
      Commented (stripParentheses (expression condition)) :=
  Quiet.commented_append (s := "repeat while ") (by decide)

/-- The condition of a `repeat while` loses its last character if it stands in parentheses. No comment is
lost with that unless it is a minus sign. -/
def KeepsComments (node : Node) : Prop :=
  ∀ origin start stop condition body, node = .loop origin start stop .whileTrue condition body →
    endsWith (expression condition) '-' = false

theorem commentsFrom_firstLine (h : node.OperandsIn Lexical) (hjump : node.isJump = false)
    (hkeeps : KeepsComments node) : CommentsFrom node (firstLine node) := by
  have hlegible := legible_of_operandsIn h
  cases node with
  | assign => exact (composed_assign _ _ _).commentsFrom hlegible fun _ _ heq => by cases heq
  | put => exact (composed_put _ _ _ _).commentsFrom hlegible fun _ _ heq => by cases heq
  | branch => exact (composed_branch _ _ _ _).commentsFrom hlegible fun _ _ heq => by cases heq
  | tell => exact (composed_tell _ _ _).commentsFrom hlegible fun _ _ heq => by cases heq
  | loop origin start stop kind condition body =>
    cases kind with
    | whileTrue =>
      have hheader := (commented_whileHeader_iff condition).trans
        (commented_stripParentheses_iff (hkeeps _ _ _ _ _ rfl))
      simp [CommentsFrom, firstLine, hheader, IsDoubled, names, parts]
    | counted => exact (composed_counted ..).commentsFrom hlegible fun _ _ heq => by cases heq
    | each => exact (composed_each ..).commentsFrom hlegible fun _ _ heq => by cases heq
  | exitLoop origin =>
    have hquiet : Quiet "exit repeat" := by decide
    exact Composed.commentsFrom ⟨[], .nil, .quiet hquiet⟩ hlegible fun _ _ heq => by cases heq
  | jump | jumpUnless => cases hjump
  | _ => exact commentsFrom_expression h rfl

theorem doublesMinus_of_commented_firstLine (h : node.OperandsIn Lexical) (hjump : node.isJump = false)
    (hcommented : Commented (firstLine node)) : DoublesMinus node := by
  by_cases hkeeps : KeepsComments node
  · exact ((legible_of_operandsIn h).commented_iff_doublesMinus
      (commentsFrom_firstLine h hjump hkeeps)).1 hcommented
  · simp only [KeepsComments, not_forall] at hkeeps
    obtain ⟨origin, start, stop, condition, body, rfl, -⟩ := hkeeps
    simp only [Node.OperandsIn] at h
    have hcondition := commented_of_stripParentheses ((commented_whileHeader_iff condition).1 hcommented)
    exact doublesMinus_of_part (List.mem_singleton_self _) (h.2.1.doublesMinus hcondition)

theorem commented_firstLine (h : node.OperandsIn Lexical) (hjump : node.isJump = false)
    (hkeeps : KeepsComments node) (hdoubles : DoublesMinus node) : Commented (firstLine node) :=
  ((legible_of_operandsIn h).commented_iff_doublesMinus
    (commentsFrom_firstLine h hjump hkeeps)).2 hdoubles

end Lingo

end LingoSource
