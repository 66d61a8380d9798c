import LingoSource.Tree.Script

set_option autoImplicit false

namespace LingoSource

mutual

def Node.forget : Node → Node
  | .leaf kind name _ => .leaf kind name 0
  | .unary _ op operand => .unary 0 op operand.forget
  | .binary _ op left right => .binary 0 op left.forget right.forget
  | .assign _ left right => .assign 0 left.forget right.forget
  | .put _ mode left right => .put 0 mode left.forget right.forget
  | .chunk _ kind first of => .chunk 0 kind first.forget of.forget
  | .chunkRange _ kind first last of => .chunkRange 0 kind first.forget last.forget of.forget
  | .aspect _ op part of => .aspect 0 op part of.forget
  | .property _ object name => .property 0 object.forget name
  | .builtinProperty _ name => .builtinProperty 0 name
  | .menuItemOf _ menu item => .menuItemOf 0 menu.forget item.forget
  | .menuItemsOf _ menu => .menuItemsOf 0 menu.forget
  | .arguments _ kind args => .arguments 0 kind (Node.forgetAll args)
  | .list _ values => .list 0 values.forget
  | .propertyList _ values => .propertyList 0 values.forget
  | .call _ name kind args inTell => .call 0 name kind (Node.forgetAll args) inTell
  | .methodCall _ name object kind args =>
    .methodCall 0 name object.forget kind (Node.forgetAll args)
  | .loop _ _ _ kind condition body =>
    .loop 0 0 0 kind.forget condition.forget (Statement.forgetAll body)
  | .branch _ condition thenBody elseBody =>
    .branch 0 condition.forget (Statement.forgetAll thenBody) (Statement.forgetAll elseBody)
  | .jump _ _ => .jump 0 0
  | .jumpUnless _ condition _ => .jumpUnless 0 condition.forget 0
  | .exitLoop _ => .exitLoop 0
  | .tell _ target body => .tell 0 target.forget (Statement.forgetAll body)

def Node.forgetAll : List Node → List Node
  | [] => []
  | node :: rest => node.forget :: Node.forgetAll rest

def LoopKind.forget : LoopKind → LoopKind
  | .whileTrue => .whileTrue
  | .counted variableName first last up => .counted variableName first.forget last.forget up
  | .each variableName list => .each variableName list.forget

def Statement.forgetAll : List Statement → List Statement
  | [] => []
  | ⟨_, node⟩ :: rest => ⟨0, node.forget⟩ :: Statement.forgetAll rest

end

theorem Statement.forgetAll_cons (s : Statement) (rest : List Statement) :
    forgetAll (s :: rest) = ⟨0, s.node.forget⟩ :: forgetAll rest := by
  obtain ⟨position, node⟩ := s
  rw [forgetAll]

theorem Statement.forgetAll_append (a b : List Statement) :
    forgetAll (a ++ b) = forgetAll a ++ forgetAll b := by
  induction a with
  | nil => simp [forgetAll]
  | cons s a ih => simp [forgetAll_cons, ih]

end LingoSource
