import LingoSource.Proofs.Flow.Rewriting
import LingoSource.Proofs.Loop.Recognition
import LingoSource.Proofs.Tree.Blocks

/-!
The grammar of trees. An expression has no statement inside; a list is made of arguments, and a
property list of an even number of them. Jumps are statements as long as the control flow is not
recovered, and an exit stands in a loop.
-/
set_option autoImplicit false

namespace LingoSource

inductive Node.IsExpression : Node → Prop
  | leaf (kind : LeafKind) (name : String) (position : Nat) :
      IsExpression (.leaf kind name position)
  | unary {origin : Nat} {op : UnaryOp} {operand : Node} (h : IsExpression operand) :
      IsExpression (.unary origin op operand)
  | binary {origin : Nat} {op : BinaryOp} {left right : Node} (hl : IsExpression left)
      (hr : IsExpression right) : IsExpression (.binary origin op left right)
  | chunk {origin : Nat} {kind : ChunkKind} {first of : Node} (hfirst : IsExpression first)
      (hof : IsExpression of) : IsExpression (.chunk origin kind first of)
  | chunkRange {origin : Nat} {kind : ChunkKind} {first last of : Node}
      (hfirst : IsExpression first) (hlast : IsExpression last) (hof : IsExpression of) :
      IsExpression (.chunkRange origin kind first last of)
  | aspect {origin : Nat} {op : UnaryOp} {part : Option String} {of : Node}
      (h : IsExpression of) : IsExpression (.aspect origin op part of)
  | property {origin : Nat} {object : Node} {name : String} (h : IsExpression object) :
      IsExpression (.property origin object name)
  | builtinProperty (origin : Nat) (name : String) : IsExpression (.builtinProperty origin name)
  | menuItemOf {origin : Nat} {menu item : Node} (hmenu : IsExpression menu)
      (hitem : IsExpression item) : IsExpression (.menuItemOf origin menu item)
  | menuItemsOf {origin : Nat} {menu : Node} (h : IsExpression menu) :
      IsExpression (.menuItemsOf origin menu)
  | arguments {origin : Nat} {kind : ListKind} {args : List Node}
      (h : ∀ a ∈ args, IsExpression a) : IsExpression (.arguments origin kind args)
  | list {origin inner : Nat} {kind : ListKind} {args : List Node}
      (h : ∀ a ∈ args, IsExpression a) : IsExpression (.list origin (.arguments inner kind args))
  | propertyList {origin inner : Nat} {kind : ListKind} {args : List Node}
      (heven : args.length % 2 = 0) (h : ∀ a ∈ args, IsExpression a) :
      IsExpression (.propertyList origin (.arguments inner kind args))
  | call {origin : Nat} {name : String} {kind : ListKind} {args : List Node} {inTell : Bool}
      (h : ∀ a ∈ args, IsExpression a) : IsExpression (.call origin name kind args inTell)
  | methodCall {origin : Nat} {name : String} {object : Node} {kind : ListKind} {args : List Node}
      (hobject : IsExpression object) (h : ∀ a ∈ args, IsExpression a) :
      IsExpression (.methodCall origin name object kind args)

inductive LoopKind.OfExpressions : LoopKind → Prop
  | whileTrue : OfExpressions .whileTrue
  | counted {name : String} {first last : Node} {up : Bool} (hfirst : first.IsExpression)
      (hlast : last.IsExpression) : OfExpressions (.counted name first last up)
  | each {name : String} {list : Node} (h : list.IsExpression) : OfExpressions (.each name list)

/-- The nodes that stand as statements; `jumps` tells whether jumps do, and `inLoop` whether a loop is
around them. -/
inductive Node.IsStatement (jumps : Bool) : (inLoop : Bool) → Node → Prop
  | expression {inLoop : Bool} {node : Node} (h : node.IsExpression) : IsStatement jumps inLoop node
  | assign {inLoop : Bool} {origin : Nat} {left right : Node} (hl : left.IsExpression)
      (hr : right.IsExpression) : IsStatement jumps inLoop (.assign origin left right)
  | put {inLoop : Bool} {origin : Nat} {mode : PutMode} {left right : Node}
      (hl : left.IsExpression) (hr : right.IsExpression) :
      IsStatement jumps inLoop (.put origin mode left right)
  | loop {inLoop : Bool} {origin start stop : Nat} {kind : LoopKind} {condition : Node}
      {body : List Statement} (hkind : kind.OfExpressions) (hcondition : condition.IsExpression)
      (hbody : ∀ s ∈ body, IsStatement jumps true s.node) :
      IsStatement jumps inLoop (.loop origin start stop kind condition body)
  | branch {inLoop : Bool} {origin : Nat} {condition : Node} {thenBody elseBody : List Statement}
      (hcondition : condition.IsExpression)
      (hthen : ∀ s ∈ thenBody, IsStatement jumps inLoop s.node)
      (helse : ∀ s ∈ elseBody, IsStatement jumps inLoop s.node) :
      IsStatement jumps inLoop (.branch origin condition thenBody elseBody)
  | tell {inLoop : Bool} {origin : Nat} {target : Node} {body : List Statement}
      (htarget : target.IsExpression) (hbody : ∀ s ∈ body, IsStatement jumps inLoop s.node) :
      IsStatement jumps inLoop (.tell origin target body)
  | exitLoop (origin : Nat) : IsStatement jumps true (.exitLoop origin)
  | jump {inLoop : Bool} (hjumps : jumps = true) (origin address : Nat) :
      IsStatement jumps inLoop (.jump origin address)
  | jumpUnless {inLoop : Bool} (hjumps : jumps = true) {origin : Nat} {condition : Node}
      (hcondition : condition.IsExpression) (address : Nat) :
      IsStatement jumps inLoop (.jumpUnless origin condition address)

namespace Statement

def Grammatical (jumps inLoop : Bool) (statements : List Statement) : Prop :=
  ∀ s ∈ statements, s.node.IsStatement jumps inLoop

variable {jumps inLoop : Bool} {a b : List Statement} {s : Statement}

@[simp] theorem grammatical_nil : Grammatical jumps inLoop [] := by simp [Grammatical]

@[simp] theorem grammatical_cons :
    Grammatical jumps inLoop (s :: a) ↔
      s.node.IsStatement jumps inLoop ∧ Grammatical jumps inLoop a := by
  simp [Grammatical]

@[simp] theorem grammatical_append :
    Grammatical jumps inLoop (a ++ b) ↔ Grammatical jumps inLoop a ∧ Grammatical jumps inLoop b := by
  simp [Grammatical, or_imp, forall_and]

end Statement

open Statement

namespace Node.IsStatement

variable {jumps inLoop : Bool}

theorem in_loop {node : Node} (h : IsStatement jumps inLoop node) :
    IsStatement jumps true node := by
  induction h with
  | expression h => exact .expression h
  | assign hl hr => exact .assign hl hr
  | put hl hr => exact .put hl hr
  | loop hkind hcondition hbody => exact .loop hkind hcondition hbody
  | branch hcondition _ _ ihthen ihelse => exact .branch hcondition ihthen ihelse
  | tell htarget _ ihbody => exact .tell htarget ihbody
  | exitLoop origin => exact .exitLoop origin
  | jump hjumps origin address => exact .jump hjumps origin address
  | jumpUnless hjumps hcondition address => exact .jumpUnless hjumps hcondition address

variable {origin start stop : Nat} {kind : LoopKind} {condition target left right : Node}
  {body thenBody elseBody : List Statement}

@[simp] theorem loop_iff :
    IsStatement jumps inLoop (.loop origin start stop kind condition body) ↔
      kind.OfExpressions ∧ condition.IsExpression ∧ Grammatical jumps true body := by
  refine ⟨fun h => ?_, fun ⟨hkind, hcondition, hbody⟩ => .loop hkind hcondition hbody⟩
  cases h with
  | expression h => cases h
  | loop hkind hcondition hbody => exact ⟨hkind, hcondition, hbody⟩

@[simp] theorem branch_iff :
    IsStatement jumps inLoop (.branch origin condition thenBody elseBody) ↔
      condition.IsExpression ∧ Grammatical jumps inLoop thenBody ∧
        Grammatical jumps inLoop elseBody := by
  refine ⟨fun h => ?_, fun ⟨hcondition, hthen, helse⟩ => .branch hcondition hthen helse⟩
  cases h with
  | expression h => cases h
  | branch hcondition hthen helse => exact ⟨hcondition, hthen, helse⟩

@[simp] theorem tell_iff :
    IsStatement jumps inLoop (.tell origin target body) ↔
      target.IsExpression ∧ Grammatical jumps inLoop body := by
  refine ⟨fun h => ?_, fun ⟨htarget, hbody⟩ => .tell htarget hbody⟩
  cases h with
  | expression h => cases h
  | tell htarget hbody => exact ⟨htarget, hbody⟩

@[simp] theorem assign_iff :
    IsStatement jumps inLoop (.assign origin left right) ↔
      left.IsExpression ∧ right.IsExpression := by
  refine ⟨fun h => ?_, fun ⟨hl, hr⟩ => .assign hl hr⟩
  cases h with
  | expression h => cases h
  | assign hl hr => exact ⟨hl, hr⟩

@[simp] theorem exitLoop_iff :
    IsStatement jumps inLoop (.exitLoop origin) ↔ inLoop = true := by
  refine ⟨fun h => ?_, fun h => h ▸ .exitLoop origin⟩
  cases h with
  | expression h => cases h
  | exitLoop => rfl

@[simp] theorem jumpUnless_iff {address : Nat} :
    IsStatement jumps inLoop (.jumpUnless origin condition address) ↔
      jumps = true ∧ condition.IsExpression := by
  refine ⟨fun h => ?_, fun ⟨hjumps, hcondition⟩ => .jumpUnless hjumps hcondition address⟩
  cases h with
  | expression h => cases h
  | jumpUnless hjumps hcondition => exact ⟨hjumps, hcondition⟩

theorem isJump_eq_false {node : Node} (h : IsStatement false inLoop node) : node.isJump = false := by
  cases h with
  | expression h => cases h <;> rfl
  | jump hjumps | jumpUnless hjumps => cases hjumps
  | _ => rfl

theorem exists_of_mem_bodies {node : Node} (h : IsStatement jumps inLoop node)
    {body : List Statement} (hbody : body ∈ node.bodies) :
    ∃ inLoop, Grammatical jumps inLoop body := by
  cases h with
  | expression h => cases h <;> cases hbody
  | loop _ _ h =>
    obtain rfl := List.mem_singleton.1 hbody
    exact ⟨true, h⟩
  | tell _ h =>
    obtain rfl := List.mem_singleton.1 hbody
    exact ⟨inLoop, h⟩
  | branch _ hthen helse =>
    rcases List.mem_cons.1 hbody with rfl | hbody
    · exact ⟨inLoop, hthen⟩
    · obtain rfl := List.mem_singleton.1 hbody
      exact ⟨inLoop, helse⟩
  | _ => cases hbody

theorem exists_of_standsIn {root node : Node} {depth : Nat} (h : IsStatement jumps inLoop root)
    (hstands : root.StandsIn depth node) : ∃ inLoop, IsStatement jumps inLoop node := by
  induction hstands with
  | self => exact ⟨inLoop, h⟩
  | inner _ hbody hs ih =>
    obtain ⟨_, houter⟩ := ih
    obtain ⟨inLoop, hall⟩ := houter.exists_of_mem_bodies hbody
    exact ⟨inLoop, hall _ hs⟩

end Node.IsStatement

namespace Node.IsExpression

@[simp] theorem unary_iff {origin : Nat} {op : UnaryOp} {operand : Node} :
    IsExpression (.unary origin op operand) ↔ operand.IsExpression :=
  ⟨fun h => by cases h; assumption, .unary⟩

@[simp] theorem binary_iff {origin : Nat} {op : BinaryOp} {left right : Node} :
    IsExpression (.binary origin op left right) ↔ left.IsExpression ∧ right.IsExpression :=
  ⟨fun h => by cases h; constructor <;> assumption, fun ⟨hl, hr⟩ => .binary hl hr⟩

@[simp] theorem call_iff {origin : Nat} {name : String} {kind : ListKind} {args : List Node}
    {inTell : Bool} :
    IsExpression (.call origin name kind args inTell) ↔ ∀ a ∈ args, a.IsExpression :=
  ⟨fun h => by cases h; assumption, .call⟩

end Node.IsExpression

theorem isSome_of_leavesLoop {loopEnd? : Option Nat} {address : Nat}
    (h : leavesLoop loopEnd? address = true) : loopEnd?.isSome = true := by
  cases loopEnd? with
  | none => cases h
  | some => rfl

namespace Statement

variable {jumps inLoop : Bool} {a b : List Statement}

theorem Rewrites.grammatical {loopEnd? : Option Nat} (h : Rewrites loopEnd? a b)
    (ha : Grammatical jumps loopEnd?.isSome a) : Grammatical jumps loopEnd?.isSome b := by
  induction h with
  | refl => exact ha
  | trans _ _ ih ih' => exact ih' (ih ha)
  | append _ _ ih ih' =>
    obtain ⟨ha, hb⟩ := grammatical_append.1 ha
    exact grammatical_append.2 ⟨ih ha, ih' hb⟩
  | loop _ _ _ _ _ _ _ ih =>
    simp only [grammatical_cons, Node.IsStatement.loop_iff] at ha ⊢
    exact ⟨⟨ha.1.1, ha.1.2.1, ih ha.1.2.2⟩, ha.2⟩
  | tell _ _ _ _ ih =>
    simp only [grammatical_cons, Node.IsStatement.tell_iff] at ha ⊢
    exact ⟨⟨ha.1.1, ih ha.1.2⟩, ha.2⟩
  | branch _ _ _ _ _ ih ih' =>
    simp only [grammatical_cons, Node.IsStatement.branch_iff] at ha ⊢
    exact ⟨⟨ha.1.1, ih ha.1.2.1, ih' ha.1.2.2⟩, ha.2⟩
  | exit _ _ _ hleaves => simp [isSome_of_leavesLoop hleaves]
  | exitUnless _ _ _ hleaves =>
    simp only [grammatical_cons, Node.IsStatement.jumpUnless_iff] at ha
    simp [isSome_of_leavesLoop hleaves, ha.1.2]
  | oneWay =>
    simp only [grammatical_cons, Node.IsStatement.jumpUnless_iff] at ha
    simpa using ⟨ha.1.2, ha.2⟩
  | twoWay =>
    simp only [grammatical_cons, grammatical_append, Node.IsStatement.jumpUnless_iff] at ha
    simpa using ⟨ha.1.2, ha.2.1, ha.2.2.2⟩

theorem Recognizes.grammatical {found : Bool} (h : Recognizes found a b)
    (ha : Grammatical jumps inLoop a) : Grammatical jumps inLoop b := by
  induction h generalizing inLoop with
  | refl => exact ha
  | trans _ _ ih ih' => exact ih' (ih ha)
  | append _ _ ih ih' =>
    obtain ⟨ha, hb⟩ := grammatical_append.1 ha
    exact grammatical_append.2 ⟨ih ha, ih' hb⟩
  | loop _ _ _ _ _ _ _ ih =>
    simp only [grammatical_cons, Node.IsStatement.loop_iff] at ha ⊢
    exact ⟨⟨ha.1.1, ha.1.2.1, ih ha.1.2.2⟩, ha.2⟩
  | tell _ _ _ _ ih =>
    simp only [grammatical_cons, Node.IsStatement.tell_iff] at ha ⊢
    exact ⟨⟨ha.1.1, ih ha.1.2⟩, ha.2⟩
  | branch _ _ _ _ _ ih ih' =>
    simp only [grammatical_cons, Node.IsStatement.branch_iff] at ha ⊢
    exact ⟨⟨ha.1.1, ih ha.1.2.1, ih' ha.1.2.2⟩, ha.2⟩
  | whileCondition _ _ _ _ _ _ _ _ hfirst hlast =>
    simp [hfirst] at ha
    simp_all
  | counted _ _ _ _ _ _ _ _ hbefore hstep =>
    simp [hbefore, hstep] at ha
    simp [LoopKind.OfExpressions.counted, ha]
  | each _ _ _ _ _ _ _ _ hfirst =>
    simp [hfirst] at ha
    simp [LoopKind.OfExpressions.each, ha]

end Statement

namespace Exit

theorem firstJump?_eq_none_iff {statements : List Statement} :
    firstJump? statements = none ↔ ∀ s ∈ statements, jumpIn? s.position s.node = none := by
  induction statements with
  | nil => simp [firstJump?]
  | cons s rest ih =>
    obtain ⟨position, node⟩ := s
    simp [firstJump?, Option.or_eq_none_iff, ih]

theorem isStatement_of_jumpIn? {inLoop : Bool} {node : Node} (h : node.IsStatement true inLoop)
    {position : Nat} (hjump : jumpIn? position node = none) : node.IsStatement false inLoop := by
  induction h generalizing position with
  | expression h => exact .expression h
  | assign hl hr => exact .assign hl hr
  | put hl hr => exact .put hl hr
  | loop hkind hcondition _ ih =>
    have hbody := firstJump?_eq_none_iff.1 hjump
    exact .loop hkind hcondition fun s hs => ih s hs (hbody s hs)
  | branch hcondition _ _ ihthen ihelse =>
    rw [jumpIn?, Option.or_eq_none_iff, firstJump?_eq_none_iff, firstJump?_eq_none_iff] at hjump
    exact .branch hcondition (fun s hs => ihthen s hs (hjump.1 s hs))
      fun s hs => ihelse s hs (hjump.2 s hs)
  | tell htarget _ ih =>
    have hbody := firstJump?_eq_none_iff.1 hjump
    exact .tell htarget fun s hs => ih s hs (hbody s hs)
  | exitLoop origin => exact .exitLoop origin
  | jump => cases hjump
  | jumpUnless => cases hjump

end Exit

/-- Recovery of control flow keeps the grammar, and takes the jumps out where it succeeds. -/
theorem Statement.Grammatical.recoverFlow {statements tree : List Statement}
    (h : Grammatical true false statements) (hok : recoverFlow statements = .ok tree) :
    Grammatical false false tree := by
  obtain ⟨rfl, hjump⟩ := recoverFlow_eq_ok_iff.1 hok
  have hcondition := (Condition.rewrites_recover none statements).grammatical h
  obtain ⟨found, hrecognizes⟩ := Loop.recognizes_recover (Condition.recover none statements)
  have hexit := (Exit.rewrites_recover none _).grammatical (hrecognizes.grammatical hcondition)
  exact fun s hs =>
    Exit.isStatement_of_jumpIn? (hexit s hs) (Exit.firstJump?_eq_none_iff.1 hjump s hs)

end LingoSource
