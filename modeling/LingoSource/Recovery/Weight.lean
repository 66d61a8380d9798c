import LingoSource.Tree.Basic

/-!
The weight of statements bounds how deep the passes over them can go. Two jumps of a condition weigh
at least as much as the block that takes their place, so no pass makes a list heavier.
-/
set_option autoImplicit false

namespace LingoSource

mutual

def Node.weight : Node → Nat
  | .loop _ _ _ _ _ body => 1 + Statement.weightAll body
  | .branch _ _ thenBody elseBody =>
    1 + Statement.weightAll thenBody + Statement.weightAll elseBody
  | .tell _ _ body => 1 + Statement.weightAll body
  | .jumpUnless .. => 3
  | _ => 1

def Statement.weightAll : List Statement → Nat
  | [] => 0
  | ⟨_, node⟩ :: rest => node.weight + Statement.weightAll rest

end

theorem Node.weight_pos (node : Node) : 0 < node.weight := by
  cases node <;> unfold Node.weight <;> omega

theorem Statement.length_le_weightAll (statements : List Statement) :
    statements.length ≤ Statement.weightAll statements := by
  induction statements with
  | nil => simp [weightAll]
  | cons s rest ih =>
    obtain ⟨p, node⟩ := s
    have := node.weight_pos
    simp only [List.length_cons, weightAll]
    omega

end LingoSource
