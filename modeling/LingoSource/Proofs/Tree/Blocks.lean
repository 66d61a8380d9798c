import LingoSource.Tree.Script

set_option autoImplicit false

namespace LingoSource

namespace Node

def isBlock : Node → Bool
  | .loop .. | .branch .. | .tell .. => true
  | _ => false

def bodies : Node → List (List Statement)
  | .loop _ _ _ _ _ body => [body]
  | .branch _ _ thenBody elseBody => [thenBody, elseBody]
  | .tell _ _ body => [body]
  | _ => []

inductive StandsIn (root : Node) : Nat → Node → Prop
  | self : StandsIn root 0 root
  | inner {depth : Nat} {node : Node} {body : List Statement} {s : Statement}
    (h : StandsIn root depth node) (hbody : body ∈ node.bodies) (hs : s ∈ body) :
    StandsIn root (depth + 1) s.node

mutual

/-- The levels of the lines of a statement that starts at `level`: a block has a line for each of its
headers and one at its end, and the lines of the statements in it one level further in. -/
def levels (level : Nat) : Node → List Nat
  | .loop _ _ _ _ _ body => level :: (levelsAll (level + 1) body ++ [level])
  | .branch _ _ thenBody elseBody =>
    level :: (levelsAll (level + 1) thenBody ++
      ((if elseBody.isEmpty then [] else level :: levelsAll (level + 1) elseBody) ++ [level]))
  | .tell _ _ body => level :: (levelsAll (level + 1) body ++ [level])
  | _ => [level]

def levelsAll (level : Nat) : List Statement → List Nat
  | [] => []
  | ⟨_, node⟩ :: rest => levels level node ++ levelsAll level rest

end

mutual

theorem le_of_mem_levels {level l : Nat} (node : Node) (h : l ∈ node.levels level) : level ≤ l := by
  cases node with
  | loop _ _ _ _ _ body | tell _ _ body =>
    simp only [levels, List.mem_cons, List.mem_append, List.not_mem_nil, or_false] at h
    rcases h with rfl | h | rfl
    · exact Nat.le_refl _
    · exact Nat.le_of_succ_le (le_of_mem_levelsAll body h)
    · exact Nat.le_refl _
  | branch _ _ thenBody elseBody =>
    simp only [levels, List.mem_cons, List.mem_append, List.not_mem_nil, or_false] at h
    rcases h with rfl | h | h | rfl
    · exact Nat.le_refl _
    · exact Nat.le_of_succ_le (le_of_mem_levelsAll thenBody h)
    · split at h
      · cases h
      · rcases List.mem_cons.1 h with rfl | h
        · exact Nat.le_refl _
        · exact Nat.le_of_succ_le (le_of_mem_levelsAll elseBody h)
    · exact Nat.le_refl _
  | _ =>
    obtain rfl := List.mem_singleton.1 h
    exact Nat.le_refl _

theorem le_of_mem_levelsAll {level l : Nat} (statements : List Statement)
    (h : l ∈ levelsAll level statements) : level ≤ l := by
  cases statements with
  | nil => cases h
  | cons s rest =>
    obtain ⟨_, node⟩ := s
    rcases List.mem_append.1 h with h | h
    · exact le_of_mem_levels node h
    · exact le_of_mem_levelsAll rest h

end

end Node

end LingoSource
