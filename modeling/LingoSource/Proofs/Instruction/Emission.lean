import LingoSource.Proofs.Instruction.Effect

/-!
What an instruction does to the emitted statements, said once for all instructions: it leaves them as
they are, adds one statement at its own offset, or closes a loop or a `tell` block around the last of
them. A class of nodes that is closed under what instructions build holds of the stack throughout.
-/
set_option autoImplicit false

namespace LingoSource

/-- A class of nodes that has all words but globals, and every node that instructions build from its
nodes. -/
structure Node.Compound (P : Node → Prop) : Prop where
  word {kind : LeafKind} (h : kind ≠ .globalVariable) (name : String) (position : Nat) :
    P (.leaf kind name position)
  unary {origin : Nat} {op : UnaryOp} {operand : Node} (h : P operand) :
    P (.unary origin op operand)
  binary {origin : Nat} {op : BinaryOp} {left right : Node} (hl : P left) (hr : P right) :
    P (.binary origin op left right)
  chunk {origin : Nat} {kind : ChunkKind} {first of : Node} (hfirst : P first) (hof : P of) :
    P (.chunk origin kind first of)
  chunkRange {origin : Nat} {kind : ChunkKind} {first last of : Node} (hfirst : P first)
    (hlast : P last) (hof : P of) : P (.chunkRange origin kind first last of)
  aspect {origin : Nat} {op : UnaryOp} {part : Option String} {of : Node} (h : P of) :
    P (.aspect origin op part of)
  property {origin : Nat} {object : Node} {name : String} (h : P object) :
    P (.property origin object name)
  builtinProperty (origin : Nat) (name : String) : P (.builtinProperty origin name)
  menuItemOf {origin : Nat} {menu item : Node} (hmenu : P menu) (hitem : P item) :
    P (.menuItemOf origin menu item)
  menuItemsOf {origin : Nat} {menu : Node} (h : P menu) : P (.menuItemsOf origin menu)
  arguments {origin : Nat} {kind : ListKind} {args : List Node} (h : ∀ a ∈ args, P a) :
    P (.arguments origin kind args)
  list {origin inner : Nat} {kind : ListKind} {args : List Node} (h : ∀ a ∈ args, P a) :
    P (.list origin (.arguments inner kind args))
  propertyList {origin inner : Nat} {kind : ListKind} {args : List Node}
    (heven : args.length % 2 = 0) (h : ∀ a ∈ args, P a) :
    P (.propertyList origin (.arguments inner kind args))
  call {origin : Nat} {name : String} {kind : ListKind} {args : List Node} {inTell : Bool}
    (h : ∀ a ∈ args, P a) : P (.call origin name kind args inTell)
  methodCall {origin : Nat} {name : String} {object : Node} {kind : ListKind} {args : List Node}
    (hobject : P object) (h : ∀ a ∈ args, P a) : P (.methodCall origin name object kind args)
  of_arguments {origin : Nat} {kind : ListKind} {args : List Node}
    (h : P (.arguments origin kind args)) : ∀ a ∈ args, P a
  of_list {origin inner : Nat} {kind : ListKind} {args : List Node}
    (h : P (.list origin (.arguments inner kind args))) : ∀ a ∈ args, P a

structure Node.Closed (P : Node → Prop) : Prop extends Node.Compound P where
  leaf (kind : LeafKind) (name : String) (position : Nat) : P (.leaf kind name position)
  word := fun _ => leaf _

theorem Node.closed_true : Node.Closed fun _ => True := by
  refine ⟨?_, fun _ _ _ => trivial⟩
  constructor <;> intros <;> trivial

inductive Node.Emittable (P : Node → Prop) : Node → Prop
  | call {origin : Nat} {name : String} {kind : ListKind} {args : List Node} {inTell : Bool}
      (h : ∀ a ∈ args, P a) : Emittable P (.call origin name kind args inTell)
  | methodCall {origin : Nat} {name : String} {object : Node} {kind : ListKind} {args : List Node}
      (hobject : P object) (h : ∀ a ∈ args, P a) :
      Emittable P (.methodCall origin name object kind args)
  | assign {origin : Nat} {left right : Node} (hl : P left) (hr : P right) :
      Emittable P (.assign origin left right)
  | put {origin : Nat} {mode : PutMode} {left right : Node} (hl : P left) (hr : P right) :
      Emittable P (.put origin mode left right)
  | unary {origin : Nat} {op : UnaryOp} {operand : Node} (h : P operand) :
      Emittable P (.unary origin op operand)
  | tell {origin : Nat} {target : Node} (h : P target) : Emittable P (.tell origin target [])
  | jump (origin address : Nat) : Emittable P (.jump origin address)
  | jumpUnless {origin : Nat} {condition : Node} (h : P condition) (address : Nat) :
      Emittable P (.jumpUnless origin condition address)

/-- What an instruction at an offset makes of the statements emitted before it. -/
inductive Instruction.Emission (P : Node → Prop) (offset : Nat) :
    List Statement → List Statement → Prop
  | keep (statements : List Statement) : Emission P offset statements statements
  | emit (statements : List Statement) {node : Node} (h : node.Emittable P) :
      Emission P offset statements (statements ++ [⟨offset, node⟩])
  | closeLoop (statements : List Statement) {start : Nat} (h : start ≤ offset) :
      Emission P offset statements (statements.filter (·.position < start) ++
        [⟨offset, .loop offset start offset .whileTrue (.leaf .constant "TRUE" start)
          (statements.filter (start ≤ ·.position))⟩])
  | closeTell (before : List Statement) (position origin : Nat) (target : Node)
      (body after : List Statement) :
      Emission P offset (before ++ ⟨position, .tell origin target body⟩ :: after)
        (before ++ [⟨position, .tell origin target (body ++ after)⟩])

structure Machine.Within (P : Node → Prop) (m : Machine) : Prop where
  stack : ∀ node ∈ m.stack, P node
  parameters : ∀ node ∈ m.function.parameters, P node
  locals : ∀ node ∈ m.function.locals, P node

theorem Machine.within_true (m : Machine) : m.Within fun _ => True :=
  ⟨fun _ _ => trivial, fun _ _ => trivial, fun _ _ => trivial⟩

namespace Instruction

/-- Where it succeeds, `x` emits no statement, stays in a class of nodes and has a result in `Q`. -/
def Builds (P : Node → Prop) {α : Type} (x : Recovering α) (Q : α → Prop) : Prop :=
  ∀ m a m', m.Within P → x.run m = .ok a m' →
    m'.Within P ∧ m'.function.statements = m.function.statements ∧ Q a

variable {P : Node → Prop} {α β : Type}

namespace Builds

theorem pure {Q : α → Prop} {a : α} (h : Q a) : Builds P (Pure.pure a : Recovering α) Q := by
  intro m b m' hm hrun
  cases hrun
  exact ⟨hm, rfl, h⟩

theorem throw {Q : α → Prop} (e : RecoveryError) : Builds P (throw e : Recovering α) Q := by
  intro m a m' _ hrun
  cases hrun

theorem bind {Q : α → Prop} {R : β → Prop} {x : Recovering α} {f : α → Recovering β}
    (hx : Builds P x Q) (hf : ∀ a, Q a → Builds P (f a) R) : Builds P (x >>= f) R := by
  intro m b m' hm hrun
  obtain ⟨a, m₁, hrun₁, hrun₂⟩ := run_bind_eq_ok hrun
  obtain ⟨hm₁, hs₁, ha⟩ := hx m a m₁ hm hrun₁
  obtain ⟨hm₂, hs₂, hb⟩ := hf a ha m₁ b m' hm₁ hrun₂
  exact ⟨hm₂, hs₂.trans hs₁, hb⟩

theorem get : Builds P (MonadState.get : Recovering Machine) (·.Within P) := by
  intro m a m' hm hrun
  cases hrun
  exact ⟨hm, rfl, hm⟩

end Builds

variable (i : Instruction)

theorem builds_unexpected {Q : α → Prop} (fault : OperandFault) :
    Builds P (i.unexpected fault : Recovering α) Q :=
  .throw _

theorem builds_lookUp {Q : α → Prop} (table : IndexedTable) {entries : List α}
    (h : ∀ entry ∈ entries, Q entry) (index : Nat) : Builds P (i.lookUp table entries index) Q := by
  intro m entry m' hm hrun
  obtain ⟨hentry, rfl⟩ := lookUp_eq_ok hrun
  exact ⟨hm, rfl, h entry (List.mem_of_getElem? hentry)⟩

theorem builds_entry (table : IndexedTable) (entries : List α) (index : Nat) :
    Builds P (i.lookUp table entries index) fun _ => True :=
  builds_lookUp i table (fun _ _ => trivial) index

theorem builds_nameAt (index : Nat) : Builds P (i.nameAt index) fun _ => True :=
  .bind .get fun _ _ => builds_entry i _ _ _

theorem builds_localAt (index : Nat) : Builds P (i.localAt index) P :=
  .bind .get fun _ hm => builds_lookUp i _ hm.locals _

theorem builds_parameterAt (index : Nat) : Builds P (i.parameterAt index) P :=
  .bind .get fun _ hm => builds_lookUp i _ hm.parameters _

theorem builds_descale (raw : Nat) : Builds P (descale raw) fun _ => True := by
  intro m a m' hm hrun
  cases hrun
  exact ⟨⟨hm.stack, hm.parameters, hm.locals⟩, rfl, trivial⟩

theorem builds_pop : Builds P i.pop P := by
  intro m node m' hm hrun
  obtain ⟨stack, hstack, rfl⟩ := pop_eq_ok hrun
  obtain ⟨hnode, hrest⟩ := List.forall_mem_cons.1 (hstack ▸ hm.stack)
  exact ⟨⟨hrest, hm.parameters, hm.locals⟩, rfl, hnode⟩

theorem builds_popMany (count : Nat) :
    Builds P (i.popMany count) fun nodes => ∀ n ∈ nodes, P n := by
  intro m nodes m' hm hrun
  obtain ⟨-, hnodes, rfl⟩ := popMany_eq_ok hrun
  refine ⟨⟨fun n hn => hm.stack n (List.mem_of_mem_drop hn), hm.parameters, hm.locals⟩, rfl, ?_⟩
  intro n hn
  rw [hnodes, List.mem_reverse] at hn
  exact hm.stack n (List.mem_of_mem_take hn)

theorem builds_push {node : Node} (h : P node) : Builds P (push node) fun _ => True := by
  intro m a m' hm hrun
  cases hrun
  exact ⟨⟨List.forall_mem_cons.2 ⟨h, hm.stack⟩, hm.parameters, hm.locals⟩, rfl, trivial⟩

theorem builds_declareGlobal (name : String) : Builds P (declareGlobal name) fun _ => True := by
  intro m a m' hm hrun
  cases hrun
  exact ⟨⟨hm.stack, by simpa using hm.parameters, by simpa using hm.locals⟩, by simp, trivial⟩

theorem builds_popIndex : Builds P i.popIndex fun _ => True := by
  refine .bind (builds_pop i) fun node _ => ?_
  split
  · split
    · exact .pure trivial
    · exact builds_unexpected i _
  · exact builds_unexpected i _

theorem builds_popIdentifier : Builds P i.popIdentifier fun _ => True :=
  .bind (builds_pop i) fun _ _ => .pure trivial

theorem builds_popPropertyName (table : IndexedTable) (names : List String) :
    Builds P (i.popPropertyName table names) fun _ => True :=
  .bind (builds_popIndex i) fun _ _ => builds_entry i _ _ _

def Emits (P : Node → Prop) (offset : Nat) (x : Recovering Unit) : Prop :=
  ∀ m m', m.Within P → x.run m = .ok () m' →
    m'.Within P ∧ Emission P offset m.function.statements m'.function.statements

theorem Builds.emits {Q : Unit → Prop} {x : Recovering Unit} (h : Builds P x Q) (offset : Nat) :
    Emits P offset x := by
  intro m m' hm hrun
  obtain ⟨hm', hs, -⟩ := h m () m' hm hrun
  exact ⟨hm', hs ▸ .keep _⟩

theorem Builds.bind_emits {Q : α → Prop} {x : Recovering α} {f : α → Recovering Unit} {offset : Nat}
    (hx : Builds P x Q) (hf : ∀ a, Q a → Emits P offset (f a)) : Emits P offset (x >>= f) := by
  intro m m' hm hrun
  obtain ⟨a, m₁, hrun₁, hrun₂⟩ := run_bind_eq_ok hrun
  obtain ⟨hm₁, hs₁, ha⟩ := hx m a m₁ hm hrun₁
  obtain ⟨hm₂, he⟩ := hf a ha m₁ m' hm₁ hrun₂
  exact ⟨hm₂, hs₁ ▸ he⟩

theorem emits_emit {node : Node} (h : node.Emittable P) : Emits P i.offset (i.emit node) := by
  intro m m' hm hrun
  cases hrun
  exact ⟨⟨hm.stack, hm.parameters, hm.locals⟩, .emit _ h⟩

theorem builds_peek (depth : Nat) : Builds P (i.peek depth) fun _ => True :=
  .bind .get fun _ hm => .bind (builds_lookUp i _ hm.stack depth) fun _ h => builds_push h

theorem builds_readProperty (table : IndexedTable) (names : List String)
    {owner : String → Recovering Node} (h : ∀ name, Builds P (owner name) P) :
    Builds P (i.readProperty table names owner) fun _ => True :=
  .bind (builds_popPropertyName i table names) fun name _ =>
    .bind (h name) fun _ hn => builds_push hn

theorem emits_assign {left : Node} (h : P left) : Emits P i.offset (i.assign left) :=
  (builds_pop i).bind_emits fun _ hr => emits_emit i (.assign h hr)

theorem emits_put (mode : PutMode) {left : Node} (h : P left) :
    Emits P i.offset (i.put mode left) :=
  (builds_pop i).bind_emits fun _ hr => emits_emit i (.put h hr)

theorem emits_writeProperty (table : IndexedTable) (names : List String)
    {owner : String → Recovering Node} (h : ∀ name, Builds P (owner name) P) :
    Emits P i.offset (i.writeProperty table names owner) :=
  (builds_popPropertyName i table names).bind_emits fun name _ =>
    (builds_pop i).bind_emits fun _ hr =>
      (h name).bind_emits fun _ hl => emits_emit i (.assign hl hr)

theorem emits_yieldBy (kind : ListKind) {node : Node} (h : P node) (hn : node.Emittable P) :
    Emits P i.offset (i.yieldBy kind node) := by
  cases kind with
  | argList => exact (builds_push h).emits i.offset
  | argListNoRet => exact emits_emit i hn

theorem emits_putIntoLocal (mode : PutMode) : Emits P i.offset (i.putIntoLocal mode) :=
  (builds_popIndex i).bind_emits fun raw _ => (builds_descale raw).bind_emits fun _ _ =>
    (builds_localAt i _).bind_emits fun _ h => emits_put i mode h

section Compound

variable (hP : Node.Compound P)
include hP

theorem builds_popField : Builds P i.popField P :=
  .bind (builds_pop i) fun _ h => .pure (hP.unary h)

theorem builds_popArguments : Builds P i.popArguments fun r => ∀ a ∈ r.2, P a := by
  refine .bind (builds_pop i) fun node h => ?_
  split
  · exact .pure (hP.of_arguments h)
  · exact builds_unexpected i _

theorem select_mem {kind : ChunkKind} {first last of : Node} (hfirst : P first) (hlast : P last)
    (hof : P of) : P (i.select kind first last of) := by
  unfold select
  split
  · exact hof
  · split
    · exact hP.chunk hfirst hof
    · exact hP.chunkRange hfirst hlast hof

theorem builds_popSelection {of : Node} (hof : P of) : Builds P (i.popSelection of) P := by
  refine .bind (builds_pop i) fun _ h₁ => .bind (builds_pop i) fun _ h₂ =>
    .bind (builds_pop i) fun _ h₃ => .bind (builds_pop i) fun _ h₄ =>
    .bind (builds_pop i) fun _ h₅ => .bind (builds_pop i) fun _ h₆ =>
    .bind (builds_pop i) fun _ h₇ => .bind (builds_pop i) fun _ h₈ => .pure ?_
  exact select_mem i hP h₈ h₇
    (select_mem i hP h₆ h₅ (select_mem i hP h₄ h₃ (select_mem i hP h₂ h₁ hof)))

theorem builds_specialProperty : Builds P i.specialProperty P := by
  refine .bind (builds_popIndex i) fun _ _ => ?_
  split
  · exact .pure (hP.word (by decide) _ _)
  · split
    · exact .pure (hP.word (by decide) _ _)
    · exact .bind (builds_entry i _ _ _) fun _ _ =>
        .bind (builds_pop i) fun _ h => .pure (hP.aspect h)

theorem builds_systemProperty : Builds P i.systemProperty P :=
  .bind (builds_popIndex i) fun _ _ => .bind (builds_entry i _ _ _) fun _ _ =>
    .bind .get fun _ _ => .pure (hP.property (hP.word (by decide) _ _))

theorem builds_propertyTarget (name : String) : Builds P (i.propertyTarget name) P := by
  refine .bind .get fun _ _ => ?_
  split
  · exact .pure (hP.property (hP.word (by decide) _ _))
  · exact .pure (hP.word (by decide) _ _)

theorem builds_objectOf {kind : LeafKind} (h : kind ≠ .globalVariable) (name : String) :
    Builds P (i.objectOf kind name) P :=
  .bind (builds_popIdentifier i) fun _ _ => .pure (hP.property (hP.word h _ _))

theorem builds_menuItemOf (name : String) : Builds P (i.menuItemOf name) P :=
  .bind (builds_popIdentifier i) fun _ _ => .bind (builds_popIdentifier i) fun _ _ =>
    .pure (hP.property (hP.menuItemOf (hP.word (by decide) _ _) (hP.word (by decide) _ _)))

theorem builds_binary (op : BinaryOp) : Builds P (i.binary op) fun _ => True :=
  .bind (builds_pop i) fun _ hr => .bind (builds_pop i) fun _ hl => builds_push (hP.binary hl hr)

theorem builds_unary (op : UnaryOp) : Builds P (i.unary op) fun _ => True :=
  .bind (builds_pop i) fun _ h => builds_push (hP.unary h)

theorem builds_loadArguments (kind : ListKind) (count : Nat) :
    Builds P (i.loadArguments kind count) fun _ => True :=
  .bind (builds_popMany i count) fun _ h => builds_push (hP.arguments h)

theorem builds_pushList : Builds P i.pushList fun _ => True := by
  refine .bind (builds_pop i) fun node h => ?_
  split
  · exact builds_push (hP.list (hP.of_arguments h))
  · exact builds_unexpected i _

theorem builds_pushPropertyList : Builds P i.pushPropertyList fun _ => True := by
  refine .bind (builds_pop i) fun node h => ?_
  split
  · split
    · rename_i heven
      exact builds_push (hP.propertyList heven (hP.of_arguments h))
    · exact builds_unexpected i _
  · exact builds_unexpected i _

theorem builds_pushConstant (raw : Nat) : Builds P (i.pushConstant raw) fun _ => True :=
  .bind (builds_descale raw) fun _ _ => .bind .get fun _ _ => .bind (builds_entry i _ _ _)
    fun _ _ => builds_push (hP.word (by decide) _ _)

theorem builds_pushBuiltin (name : String) : Builds P (i.pushBuiltin name) fun _ => True := by
  refine .bind (builds_pop i) fun node _ => ?_
  split
  · exact builds_push (hP.builtinProperty _ _)
  · exact builds_unexpected i _

theorem builds_menuAspect : Builds P i.menuAspect fun _ => True := by
  refine .bind (builds_popIndex i) fun kind _ => .bind (builds_popIdentifier i) fun _ _ => ?_
  dsimp only
  split
  · exact builds_push (hP.aspect (hP.word (by decide) _ _))
  · exact builds_push (hP.aspect (hP.menuItemsOf (hP.word (by decide) _ _)))
  · exact builds_unexpected i _

theorem emits_putIntoPart (mode : PutMode) {of : Node} (h : P of) :
    Emits P i.offset (i.putIntoPart mode of) :=
  (builds_popSelection i hP h).bind_emits fun _ hl => emits_put i mode hl

theorem emits_delete {of : Node} (h : P of) : Emits P i.offset (i.delete of) :=
  (builds_popSelection i hP h).bind_emits fun _ ho => emits_emit i (.unary ho)

theorem emits_call (name : String) (kind : ListKind) {args : List Node} (h : ∀ a ∈ args, P a) :
    Emits P i.offset (i.call name kind args) :=
  emits_yieldBy i kind (hP.call h) (.call h)

theorem emits_callGlobal (name : String) (hname : ∀ position, P (.leaf .globalVariable name position)) :
    Emits P i.offset (i.callGlobal name) := by
  refine (builds_pop i).bind_emits fun callee _ => (builds_popArguments i hP).bind_emits
    fun ⟨kind, args⟩ h => emits_call i hP _ kind fun a ha => ?_
  obtain ⟨arg, harg, rfl⟩ := List.mem_map.1 ha
  split
  · split
    · rename_i heq
      exact heq ▸ hname _
    · exact hP.word (by decide) _ _
  · exact h arg harg

theorem emits_callMethod (name : String) : Emits P i.offset (i.callMethod name) := by
  refine (builds_pop i).bind_emits fun node h => ?_
  split
  · rename_i origin inner kind args
    have hargs := hP.of_list h
    split
    · rename_i object hobject
      have ho := hargs object (List.mem_of_getLast? hobject)
      have hrest : ∀ a ∈ args.dropLast, P a := fun a ha => hargs a (List.dropLast_subset args ha)
      exact emits_yieldBy i kind (hP.methodCall ho hrest) (.methodCall ho hrest)
    · exact (builds_unexpected (Q := fun _ => True) i _).emits _
  · exact (builds_unexpected (Q := fun _ => True) i _).emits _
  · exact (builds_unexpected (Q := fun _ => True) i _).emits _

theorem emits_stepPair (pair : PairOpcode) : Emits P i.offset (i.stepPair pair) := by
  cases pair with
  | assignIntoLocal | assignAfterLocal | assignBeforeLocal => exact emits_putIntoLocal i _
  | assignIntoField | assignAfterField | assignBeforeField =>
    exact (builds_popField i hP).bind_emits fun _ h => emits_put i _ h
  | putIntoField | putIntoFieldChunk | putAfterField | putBeforeField =>
    exact (builds_popField i hP).bind_emits fun _ h => emits_putIntoPart i hP _ h
  | putIntoVar | putAfterVar | putBeforeVar =>
    exact (builds_pop i).bind_emits fun _ h => emits_putIntoPart i hP _ h
  | putIntoLocal | putAfterLocal | putBeforeLocal =>
    exact (builds_popIndex i).bind_emits fun _ _ => (builds_localAt i _).bind_emits
      fun _ h => emits_putIntoPart i hP _ h
  | deleteVar => exact (builds_pop i).bind_emits fun _ h => emits_delete i hP h
  | deleteLocal =>
    exact (builds_popIndex i).bind_emits fun _ _ => (builds_localAt i _).bind_emits
      fun _ h => emits_delete i hP h
  | deleteField => exact (builds_popField i hP).bind_emits fun _ h => emits_delete i hP h
  | getSpecial =>
    exact ((builds_specialProperty i hP).bind fun _ h => builds_push h).emits _
  | setSpecial => exact (builds_specialProperty i hP).bind_emits fun _ h => emits_assign i h
  | getNumberOf =>
    exact ((builds_popPropertyName i _ _).bind fun _ _ => (builds_pop i).bind
      fun _ h => builds_push (hP.aspect h)).emits _
  | getMenu => exact (builds_menuAspect i hP).emits _
  | getMenuItem => exact (builds_readProperty i _ _ (builds_menuItemOf i hP)).emits _
  | setMenuItem => exact emits_writeProperty i _ _ (builds_menuItemOf i hP)
  | getSound => exact (builds_readProperty i _ _ (builds_objectOf i hP (by decide))).emits _
  | getSprite => exact (builds_readProperty i _ _ (builds_objectOf i hP (by decide))).emits _
  | getCast => exact (builds_readProperty i _ _ (builds_objectOf i hP (by decide))).emits _
  | getVideo => exact (builds_readProperty i _ _ (builds_objectOf i hP (by decide))).emits _
  | setSound | setSprite | setCast | setFieldProp | setVideo =>
    exact emits_writeProperty i _ _ (builds_objectOf i hP (by decide))
  | getSystem => exact ((builds_systemProperty i hP).bind fun _ h => builds_push h).emits _
  | setSystem => exact (builds_systemProperty i hP).bind_emits fun _ h => emits_assign i h
  | getCastCount =>
    exact ((builds_popPropertyName i _ _).bind fun _ _ =>
      builds_push (hP.aspect (hP.word (by decide) _ _))).emits _
  | getFieldProp =>
    exact ((builds_popPropertyName i _ _).bind fun _ _ => (builds_popField i hP).bind
      fun _ h => builds_push (hP.property h)).emits _

end Compound

theorem partition_position (statements : List Statement) (start : Nat) :
    statements.partition (·.position < start) =
      (statements.filter (·.position < start), statements.filter (start ≤ ·.position)) := by
  rw [List.partition_eq_filter_filter]
  exact congrArg (Prod.mk _) (List.filter_congr fun s _ => by
    simp only [Function.comp_apply, ← decide_not, Nat.not_lt])

theorem emits_closeLoop (distance : Nat) : Emits P i.offset (i.closeLoop distance) := by
  intro m m' hm hrun
  simp only [closeLoop] at hrun
  split at hrun
  · obtain ⟨_, _, hthrow, -⟩ := run_bind_eq_ok hrun
    cases hthrow
  · cases hrun
    refine ⟨⟨hm.stack, hm.parameters, hm.locals⟩, ?_⟩
    simp only [partition_position]
    exact .closeLoop _ (Nat.sub_le _ _)

theorem reverse_take_length_sub {α : Type} (p : α → Bool) (l : List α) :
    (l.take (l.length - (l.reverse.takeWhile p).reverse.length)).reverse =
      l.reverse.dropWhile p := by
  have hsplit : (l.reverse.dropWhile p).reverse ++ (l.reverse.takeWhile p).reverse = l := by
    rw [← List.reverse_append, List.takeWhile_append_dropWhile, List.reverse_reverse]
  have hlength := congrArg List.length hsplit
  rw [List.length_append] at hlength
  have hcount : l.length - (l.reverse.takeWhile p).reverse.length =
      (l.reverse.dropWhile p).reverse.length := by omega
  have hfront := congrArg (List.take (l.reverse.dropWhile p).reverse.length) hsplit
  rw [List.take_left] at hfront
  rw [hcount, ← hfront, List.reverse_reverse]

theorem eq_false_of_dropWhile {α : Type} {p : α → Bool} {l rest : List α} {a : α}
    (h : l.dropWhile p = a :: rest) : p a = false := by
  have hhead := List.head?_dropWhile_not p l
  rwa [h] at hhead

/-- The block that a `tell` is closed at is the last one of its position. -/
theorem eq_of_splitAtTell {position origin : Nat} {target : Node}
    {statements before body after : List Statement}
    (h : splitAtTell position statements = some (before, origin, target, body, after)) :
    statements = before ++ ⟨position, .tell origin target body⟩ :: after := by
  unfold splitAtTell at h
  dsimp only at h
  rw [reverse_take_length_sub] at h
  split at h
  · rename_i place _ _ _ _ hdrop
    cases h
    obtain rfl : place = position := by simpa using eq_false_of_dropWhile hdrop
    rw [← List.reverse_inj, List.reverse_append, List.reverse_cons, List.reverse_reverse,
      List.reverse_reverse, List.append_assoc, List.singleton_append, ← hdrop,
      List.takeWhile_append_dropWhile]
  · cases h

theorem emits_closeTell : Emits P i.offset i.closeTell := by
  intro m m' hm hrun
  unfold closeTell at hrun
  obtain ⟨position?, m₁, hclose, hrun⟩ := run_bind_eq_ok hrun
  cases hclose
  obtain ⟨m₂, m₃, hget, hrun⟩ := run_bind_eq_ok hrun
  cases hget
  dsimp only at hrun
  split at hrun
  · cases hrun
  · rename_i position before origin target body after hfound
    cases hrun
    simp only [Option.bind_eq_some_iff, Option.map_eq_some_iff] at hfound
    obtain ⟨place, -, _, hsplit, heq⟩ := hfound
    cases heq
    refine ⟨⟨hm.stack, hm.parameters, hm.locals⟩, ?_⟩
    rw [eq_of_splitAtTell hsplit]
    exact .closeTell _ _ _ _ _ _

theorem emits_startTell (target : Node) (h : P target) :
    Emits P i.offset (do
      modify fun m => { m with context := m.context.openTell i.offset target }
      i.emit (.tell i.offset target [])) := by
  intro m m' hm hrun
  cases hrun
  exact ⟨⟨hm.stack, hm.parameters, hm.locals⟩, .emit _ (.tell h)⟩

def namesGlobal : Bool :=
  match i.opcode with
  | .pushVarRef | .getGlobal | .getGlobal2 | .setGlobal | .setGlobal2 | .extGlobalCall => true
  | _ => false

/-- What an instruction that names no global does to the statements, and that it stays in a class of
nodes. -/
theorem emits_step_of_words (hP : Node.Compound P) (hwords : i.namesGlobal = false) :
    Emits P i.offset i.step := by
  obtain ⟨offset, opcode, operand⟩ := i
  cases opcode with
  | pushVarRef | getGlobal | getGlobal2 | setGlobal | setGlobal2 | extGlobalCall => cases hwords
  | exit => exact emits_emit _ (.call (by simp))
  | pushZero | pushInt8 | pushInt16 => exact (builds_push (hP.word (by decide) _ _)).emits _
  | mul | add | sub | div | mod | joinStr | joinPadStr | lt | ltEq | ntEq | eq | gt | gtEq | and | or
  | containsStr | contains0Str | ontoSpr | intoSpr => exact (builds_binary _ hP _).emits _
  | inv | not | getField => exact (builds_unary _ hP _).emits _
  | getChunk =>
    exact ((builds_pop _).bind fun _ h => (builds_popSelection _ hP h).bind
      fun _ h => builds_push h).emits _
  | hiliteChunk =>
    exact (builds_popField _ hP).bind_emits fun _ h => (builds_popSelection _ hP h).bind_emits
      fun _ h => emits_emit _ (.unary h)
  | startTell => exact (builds_pop _).bind_emits fun target h => emits_startTell _ target h
  | endTell => exact emits_closeTell _
  | pushList => exact (builds_pushList _ hP).emits _
  | pushPropList => exact (builds_pushPropertyList _ hP).emits _
  | pushArgListNoRet | pushArgListNoRet16 | pushArgList | pushArgList16 =>
    exact (builds_loadArguments _ hP _ _).emits _
  | pushCons | pushCons16 => exact (builds_pushConstant _ hP _).emits _
  | pushSymb | pushPropName | getProp =>
    exact ((builds_nameAt _ _).bind fun _ _ => builds_push (hP.word (by decide) _ _)).emits _
  | getParam =>
    exact ((builds_descale _).bind fun _ _ => (builds_parameterAt _ _).bind fun _ _ =>
      builds_push (hP.word (by decide) _ _)).emits _
  | getLocal =>
    exact ((builds_descale _).bind fun _ _ => (builds_localAt _ _).bind fun _ h =>
      builds_push h).emits _
  | setProp | setMovieProp =>
    exact (builds_nameAt _ _).bind_emits fun _ _ => (builds_propertyTarget _ hP _).bind_emits
      fun _ h => emits_assign _ h
  | setParam =>
    exact (builds_descale _).bind_emits fun _ _ => (builds_parameterAt _ _).bind_emits fun _ h =>
      emits_assign _ h
  | setLocal =>
    exact (builds_descale _).bind_emits fun _ _ => (builds_localAt _ _).bind_emits fun _ h =>
      emits_assign _ h
  | endRepeat => exact emits_closeLoop _ _
  | localCall =>
    exact Builds.get.bind_emits fun _ _ => (builds_entry _ _ _ _).bind_emits fun _ _ =>
      (builds_popArguments _ hP).bind_emits fun _ h => emits_call _ hP _ _ h
  | extCall =>
    exact (builds_nameAt _ _).bind_emits fun _ _ => (builds_popArguments _ hP).bind_emits
      fun _ h => emits_call _ hP _ _ h
  | getMovieProp =>
    refine ((builds_nameAt _ _).bind (R := fun _ => True) fun name _ => ?_).emits _
    split
    · exact builds_push (hP.property (hP.word (by decide) _ _))
    · exact builds_push (hP.word (by decide) _ _)
  | getObjProp =>
    exact ((builds_nameAt _ _).bind fun _ _ => (builds_pop _).bind fun _ h =>
      builds_push (hP.property h)).emits _
  | setObjProp =>
    exact (builds_nameAt _ _).bind_emits fun _ _ => (builds_pop _).bind_emits fun _ hr =>
      (builds_pop _).bind_emits fun _ h => emits_emit _ (.assign (hP.property h) hr)
  | tellCall =>
    exact (builds_nameAt _ _).bind_emits fun _ _ => (builds_popArguments _ hP).bind_emits
      fun _ h => emits_emit _ (.call h)
  | peek => exact (builds_peek _ _).emits _
  | pop => exact ((builds_popMany _ _).bind fun _ _ => .pure (Q := fun _ => True) trivial).emits _
  | theBuiltin => exact ((builds_nameAt _ _).bind fun _ _ => builds_pushBuiltin _ hP _).emits _
  | objCall => exact (builds_nameAt _ _).bind_emits fun _ _ => emits_callMethod _ hP _
  | jmp => exact emits_emit _ (.jump _ _)
  | jmpIfZ => exact (builds_pop _).bind_emits fun _ h => emits_emit _ (.jumpUnless h _)
  | assignMode | putChunk | deleteChunk | get | set =>
    dsimp only [step]
    split
    · exact emits_stepPair _ hP _
    · exact (Builds.throw (Q := fun _ => True) _).emits _

theorem emits_step (hP : Node.Closed P) : Emits P i.offset i.step := by
  cases hglobal : i.namesGlobal with
  | false => exact emits_step_of_words i hP.toCompound hglobal
  | true =>
    obtain ⟨offset, opcode, operand⟩ := i
    cases opcode with
    | pushVarRef =>
      exact ((builds_nameAt _ _).bind fun _ _ => .bind .get fun _ _ =>
        builds_push (hP.leaf _ _ _)).emits _
    | getGlobal | getGlobal2 =>
      exact ((builds_nameAt _ _).bind fun _ _ => (builds_declareGlobal _).bind fun _ _ =>
        builds_push (hP.leaf _ _ _)).emits _
    | setGlobal | setGlobal2 =>
      exact (builds_nameAt _ _).bind_emits fun _ _ => (builds_declareGlobal _).bind_emits
        fun _ _ => emits_assign _ (hP.leaf _ _ _)
    | extGlobalCall =>
      exact (builds_nameAt _ _).bind_emits fun _ _ =>
        emits_callGlobal _ hP.toCompound _ fun _ => hP.leaf _ _ _
    | _ => cases hglobal

theorem Steps.keep {P : Node → Prop} (hP : Node.Closed P) {Q : List Statement → Prop}
    (hQ : ∀ offset a b, Emission P offset a b → Q a → Q b) {instructions : List Instruction}
    {m m' : Machine} (hsteps : Steps instructions m m') (hm : m.Within P)
    (hq : Q m.function.statements) : m'.Within P ∧ Q m'.function.statements := by
  induction instructions generalizing m with
  | nil =>
    cases hsteps
    exact ⟨hm, hq⟩
  | cons i rest ih =>
    obtain ⟨m₁, hi, hrest⟩ := hsteps.uncons
    obtain ⟨hm₁, hemission⟩ := emits_step i hP m m₁ hm hi
    exact ih hrest hm₁ (hQ _ _ _ hemission hq)

end Instruction

end LingoSource
