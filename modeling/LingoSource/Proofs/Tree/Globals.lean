import LingoSource.Proofs.Flow.Rewriting
import LingoSource.Proofs.Instruction.Emission
import LingoSource.Proofs.Loop.Recognition

set_option autoImplicit false

namespace LingoSource

mutual

def Node.globals : Node → List String
  | .leaf kind name _ => if kind = .globalVariable then [name] else []
  | .unary _ _ node | .aspect _ _ _ node | .property _ node _ | .menuItemsOf _ node
  | .list _ node | .propertyList _ node | .jumpUnless _ node _ => node.globals
  | .binary _ _ left right | .assign _ left right | .put _ _ left right | .chunk _ _ left right
  | .menuItemOf _ left right => left.globals ++ right.globals
  | .chunkRange _ _ first last of => first.globals ++ last.globals ++ of.globals
  | .arguments _ _ args | .call _ _ _ args _ => Node.globalsAll args
  | .methodCall _ _ object _ args => object.globals ++ Node.globalsAll args
  | .loop _ _ _ kind condition body => kind.globals ++ condition.globals ++ Statement.globals body
  | .branch _ condition thenBody elseBody =>
    condition.globals ++ Statement.globals thenBody ++ Statement.globals elseBody
  | .tell _ target body => target.globals ++ Statement.globals body
  | .builtinProperty .. | .jump .. | .exitLoop .. => []

def Node.globalsAll : List Node → List String
  | [] => []
  | node :: rest => node.globals ++ Node.globalsAll rest

def LoopKind.globals : LoopKind → List String
  | .whileTrue => []
  | .counted _ first last _ => first.globals ++ last.globals
  | .each _ list => list.globals

def Statement.globals : List Statement → List String
  | [] => []
  | ⟨_, node⟩ :: rest => node.globals ++ Statement.globals rest

end

namespace Node

variable {names : List String}

theorem globalsAll_subset_iff {nodes : List Node} :
    globalsAll nodes ⊆ names ↔ ∀ node ∈ nodes, node.globals ⊆ names := by
  induction nodes with
  | nil => simp [globalsAll]
  | cons node rest ih => simp [globalsAll, ih]

def GlobalsIn (names : List String) (node : Node) : Prop := node.globals ⊆ names

theorem globalsIn_leaf {kind : LeafKind} {name : String} {position : Nat} :
    GlobalsIn names (.leaf kind name position) ↔ (kind = .globalVariable → name ∈ names) := by
  unfold GlobalsIn
  rw [globals]
  split <;> simp_all

theorem compound_globalsIn (names : List String) : Compound (GlobalsIn names) where
  word h _ _ := globalsIn_leaf.2 fun heq => absurd heq h
  unary h := by simpa [GlobalsIn, globals] using h
  binary hl hr := by simpa [GlobalsIn, globals] using ⟨hl, hr⟩
  chunk hfirst hof := by simpa [GlobalsIn, globals] using ⟨hfirst, hof⟩
  chunkRange hfirst hlast hof := by simpa [GlobalsIn, globals] using ⟨hfirst, hlast, hof⟩
  aspect h := by simpa [GlobalsIn, globals] using h
  property h := by simpa [GlobalsIn, globals] using h
  builtinProperty _ _ := by simp [GlobalsIn, globals]
  menuItemOf hmenu hitem := by simpa [GlobalsIn, globals] using ⟨hmenu, hitem⟩
  menuItemsOf h := by simpa [GlobalsIn, globals] using h
  arguments h := by simpa [GlobalsIn, globals, globalsAll_subset_iff] using h
  list h := by simpa [GlobalsIn, globals, globalsAll_subset_iff] using h
  propertyList _ h := by simpa [GlobalsIn, globals, globalsAll_subset_iff] using h
  call h := by simpa [GlobalsIn, globals, globalsAll_subset_iff] using h
  methodCall hobject h := by
    simpa [GlobalsIn, globals, globalsAll_subset_iff] using ⟨hobject, h⟩
  of_arguments h := by simpa [GlobalsIn, globals, globalsAll_subset_iff] using h
  of_list h := by simpa [GlobalsIn, globals, globalsAll_subset_iff] using h

theorem Emittable.globalsIn {node : Node} (h : node.Emittable (GlobalsIn names)) :
    GlobalsIn names node := by
  have hcompound := compound_globalsIn names
  cases h with
  | call h => exact hcompound.call h
  | methodCall hobject h => exact hcompound.methodCall hobject h
  | assign hl hr => simpa [GlobalsIn, globals] using ⟨hl, hr⟩
  | put hl hr => simpa [GlobalsIn, globals] using ⟨hl, hr⟩
  | unary h => exact hcompound.unary h
  | tell h => simpa [GlobalsIn, globals, Statement.globals] using h
  | jump => simp [GlobalsIn, globals]
  | jumpUnless h => simpa [GlobalsIn, globals] using h

end Node

namespace Statement

theorem globals_cons (s : Statement) (rest : List Statement) :
    globals (s :: rest) = s.node.globals ++ globals rest := by
  obtain ⟨position, node⟩ := s
  rw [globals]

@[simp] theorem globals_append (a b : List Statement) :
    globals (a ++ b) = globals a ++ globals b := by
  induction a with
  | nil => simp [globals]
  | cons s a ih => simp [globals_cons, ih]

theorem globals_filter_sublist (p : Statement → Bool) (statements : List Statement) :
    (globals (statements.filter p)).Sublist (globals statements) := by
  induction statements with
  | nil => simp
  | cons s rest ih =>
    rw [List.filter_cons, globals_cons]
    split
    · rw [globals_cons]
      exact (List.Sublist.refl _).append ih
    · exact List.sublist_append_of_sublist_right ih

variable {loopEnd? : Option Nat} {a b : List Statement} {names : List String}

theorem Rewrites.globals_subset (h : Rewrites loopEnd? a b) (ha : globals a ⊆ names) :
    globals b ⊆ names := by
  induction h with
  | refl => exact ha
  | trans _ _ ih ih' => exact ih' (ih ha)
  | append _ _ ih ih' =>
    simp only [globals_append, List.append_subset] at ha ⊢
    exact ⟨ih ha.1, ih' ha.2⟩
  | loop _ _ _ _ _ _ _ ih =>
    simp only [globals, Node.globals, List.append_subset] at ha ⊢
    exact ⟨⟨ha.1.1, ih ha.1.2⟩, ha.2⟩
  | tell _ _ _ _ ih =>
    simp only [globals, Node.globals, List.append_subset] at ha ⊢
    exact ⟨⟨ha.1.1, ih ha.1.2⟩, ha.2⟩
  | branch _ _ _ _ _ ih ih' =>
    simp only [globals, Node.globals, List.append_subset] at ha ⊢
    exact ⟨⟨⟨ha.1.1.1, ih ha.1.1.2⟩, ih' ha.1.2⟩, ha.2⟩
  | exit => simp [globals, Node.globals]
  | exitUnless => simpa [globals, Node.globals] using ha
  | oneWay => simpa [globals, Node.globals] using ha
  | twoWay => simpa [globals, Node.globals] using ha

theorem Recognizes.globals_subset {found : Bool} (h : Recognizes found a b)
    (ha : globals a ⊆ names) : globals b ⊆ names := by
  induction h with
  | refl => exact ha
  | trans _ _ ih ih' => exact ih' (ih ha)
  | append _ _ ih ih' =>
    simp only [globals_append, List.append_subset] at ha ⊢
    exact ⟨ih ha.1, ih' ha.2⟩
  | loop _ _ _ _ _ _ _ ih =>
    simp only [globals, Node.globals, List.append_subset] at ha ⊢
    exact ⟨⟨ha.1.1, ih ha.1.2⟩, ha.2⟩
  | tell _ _ _ _ ih =>
    simp only [globals, Node.globals, List.append_subset] at ha ⊢
    exact ⟨⟨ha.1.1, ih ha.1.2⟩, ha.2⟩
  | branch _ _ _ _ _ ih ih' =>
    simp only [globals, Node.globals, List.append_subset] at ha ⊢
    exact ⟨⟨⟨ha.1.1.1, ih ha.1.1.2⟩, ih' ha.1.2⟩, ha.2⟩
  | whileCondition _ _ _ _ _ _ _ _ hfirst =>
    simp only [globals, Node.globals, hfirst, globals_cons, List.append_subset] at ha ⊢
    tauto
  | counted _ _ _ _ _ _ _ _ hbefore hstep =>
    simp only [globals, globals_cons, globals_append, Node.globals, LoopKind.globals, hbefore, hstep,
      List.append_subset] at ha ⊢
    tauto
  | each _ _ _ _ _ _ _ _ hfirst =>
    simp only [globals, globals_cons, Node.globals, LoopKind.globals, Node.globalsAll, hfirst,
      List.append_subset] at ha ⊢
    tauto

theorem globals_structured_subset {statements : List Statement} (h : globals statements ⊆ names) :
    globals (structured statements) ⊆ names := by
  obtain ⟨found, hrecognizes⟩ := Loop.recognizes_recover (Condition.recover none statements)
  exact (Exit.rewrites_recover none _).globals_subset
    (hrecognizes.globals_subset ((Condition.rewrites_recover none statements).globals_subset h))

end Statement

end LingoSource
