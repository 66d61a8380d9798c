import LingoSource.Proofs.Chunk.Constant
import LingoSource.Proofs.Instruction.Emission
import LingoSource.Proofs.Lingo.FirstLine

set_option autoImplicit false

namespace LingoSource

open Lingo (Lexical Displays)
open Text (isPlain Steady)

structure Context.Lexical (c : Context) : Prop where
  names : ∀ name ∈ c.names, isPlain name = true
  handlerNames : ∀ name ∈ c.handlerNames, isPlain name = true
  constants : ∀ text ∈ c.constants, Steady text

theorem Context.Lexical.closeTell {c : Context} (h : c.Lexical) : c.closeTell.2.Lexical := by
  unfold Context.closeTell
  split
  · exact h
  · exact ⟨h.names, h.handlerNames, h.constants⟩

structure Machine.Lexical (m : Machine) : Prop where
  context : m.context.Lexical
  stack : ∀ node ∈ m.stack, Lingo.Lexical node
  parameters : ∀ node ∈ m.function.parameters, Lingo.Lexical node
  locals : ∀ node ∈ m.function.locals, Lingo.Lexical node
  statements : Statement.OperandsIn Lingo.Lexical m.function.statements

namespace Instruction

/-- Where it succeeds, `x` leaves a lexical machine and has a result in `Q`. -/
def Upholds {α : Type} (x : Recovering α) (Q : α → Prop) : Prop :=
  ∀ m a m', m.Lexical → x.run m = .ok a m' → m'.Lexical ∧ Q a

variable {α β : Type}

namespace Upholds

theorem pure {Q : α → Prop} {a : α} (h : Q a) : Upholds (Pure.pure a : Recovering α) Q := by
  intro m b m' hm hrun
  cases hrun
  exact ⟨hm, h⟩

theorem throw {Q : α → Prop} (e : RecoveryError) : Upholds (throw e : Recovering α) Q := by
  intro m a m' _ hrun
  cases hrun

theorem bind {Q : α → Prop} {R : β → Prop} {x : Recovering α} {f : α → Recovering β}
    (hx : Upholds x Q) (hf : ∀ a, Q a → Upholds (f a) R) : Upholds (x >>= f) R := by
  intro m b m' hm hrun
  obtain ⟨a, m₁, hrun₁, hrun₂⟩ := run_bind_eq_ok hrun
  obtain ⟨hm₁, ha⟩ := hx m a m₁ hm hrun₁
  exact hf a ha m₁ b m' hm₁ hrun₂

theorem get : Upholds (MonadState.get : Recovering Machine) Machine.Lexical := by
  intro m a m' hm hrun
  cases hrun
  exact ⟨hm, hm⟩

theorem modify {f : Machine → Machine} (h : ∀ m, m.Lexical → (f m).Lexical) :
    Upholds (modify f : Recovering Unit) fun _ => True := by
  intro m a m' hm hrun
  cases hrun
  exact ⟨h m hm, trivial⟩

end Upholds

variable (i : Instruction)

theorem upholds_unexpected {Q : α → Prop} (fault : OperandFault) :
    Upholds (i.unexpected fault : Recovering α) Q :=
  .throw _

theorem upholds_lookUp {Q : α → Prop} (table : IndexedTable) {entries : List α}
    (h : ∀ entry ∈ entries, Q entry) (index : Nat) : Upholds (i.lookUp table entries index) Q := by
  intro m entry m' hm hrun
  obtain ⟨hentry, rfl⟩ := lookUp_eq_ok hrun
  exact ⟨hm, h entry (List.mem_of_getElem? hentry)⟩

theorem upholds_nameAt (index : Nat) : Upholds (i.nameAt index) (isPlain · = true) :=
  .bind .get fun _ hm => upholds_lookUp i _ hm.context.names _

theorem upholds_localAt (index : Nat) : Upholds (i.localAt index) Lexical :=
  .bind .get fun _ hm => upholds_lookUp i _ hm.locals _

theorem upholds_parameterAt (index : Nat) : Upholds (i.parameterAt index) Lexical :=
  .bind .get fun _ hm => upholds_lookUp i _ hm.parameters _

theorem upholds_descale (raw : Nat) : Upholds (descale raw) fun _ => True := by
  intro m a m' hm hrun
  cases hrun
  exact ⟨{ hm with context := ⟨hm.context.names, hm.context.handlerNames, hm.context.constants⟩ }, trivial⟩

theorem upholds_pop : Upholds i.pop Lexical := by
  intro m node m' hm hrun
  obtain ⟨stack, hstack, rfl⟩ := pop_eq_ok hrun
  obtain ⟨hnode, hrest⟩ := List.forall_mem_cons.1 (hstack ▸ hm.stack)
  exact ⟨{ hm with stack := hrest }, hnode⟩

theorem upholds_popMany (count : Nat) :
    Upholds (i.popMany count) fun nodes => ∀ n ∈ nodes, Lexical n := by
  intro m nodes m' hm hrun
  obtain ⟨-, rfl, rfl⟩ := popMany_eq_ok hrun
  refine ⟨{ hm with stack := fun n hn => hm.stack n (List.mem_of_mem_drop hn) }, fun n hn => ?_⟩
  exact hm.stack n (List.mem_of_mem_take (List.mem_reverse.1 hn))

theorem upholds_push {node : Node} (h : Lexical node) : Upholds (push node) fun _ => True :=
  .modify fun _ hm => { hm with stack := List.forall_mem_cons.2 ⟨h, hm.stack⟩ }

theorem upholds_emit {node : Node} (h : node.OperandsIn Lexical) :
    Upholds (i.emit node) fun _ => True :=
  .modify fun _ hm =>
    { hm with
      statements := Statement.operandsIn_append.2 ⟨hm.statements, by simpa [Statement.OperandsIn] using h⟩ }

theorem upholds_declareGlobal (name : String) : Upholds (declareGlobal name) fun _ => True :=
  .modify fun _ hm =>
    { hm with
      parameters := by simpa using hm.parameters
      locals := by simpa using hm.locals
      statements := by simpa using hm.statements }

theorem upholds_popIndex : Upholds i.popIndex fun _ => True := by
  refine .bind (upholds_pop i) fun node _ => ?_
  split
  · split
    · exact .pure trivial
    · exact upholds_unexpected i _
  · exact upholds_unexpected i _

theorem upholds_popIdentifier :
    Upholds i.popIdentifier fun text => ∃ root, Lexical root ∧ Displays root text := by
  refine .bind (upholds_pop i) fun node h => .pure ⟨node, h, ?_⟩
  cases hword : node.word? with
  | none => exact .inl rfl
  | some word => exact .inr hword

theorem upholds_popArguments : Upholds i.popArguments fun r => ∀ a ∈ r.2, Lexical a := by
  refine .bind (upholds_pop i) fun node h => ?_
  split
  · cases h with
    | arguments h => exact .pure h
  · exact upholds_unexpected i _

theorem upholds_popField : Upholds i.popField Lexical :=
  .bind (upholds_pop i) fun _ h => .pure (.unary h)

theorem upholds_popPropertyName {Q : String → Prop} (table : IndexedTable) {names : List String}
    (h : ∀ name ∈ names, Q name) : Upholds (i.popPropertyName table names) Q :=
  .bind (upholds_popIndex i) fun _ _ => upholds_lookUp i table h _

theorem lexical_leaf {name : String} (h : isPlain name = true) (kind : LeafKind) :
    Lexical (i.leaf kind name) :=
  .word (Text.quiet_of_isPlain h).steady

theorem upholds_yieldBy (kind : ListKind) {node : Node} (h : Lexical node)
    (hn : node.OperandsIn Lexical) : Upholds (i.yieldBy kind node) fun _ => True := by
  cases kind with
  | argList => exact upholds_push h
  | argListNoRet => exact upholds_emit i hn

theorem select_lexical {kind : ChunkKind} {first last of : Node} (hfirst : Lexical first)
    (hlast : Lexical last) (hof : Lexical of) : Lexical (i.select kind first last of) := by
  unfold select
  split
  · exact hof
  · split
    · exact .chunk hfirst hof
    · exact .chunkRange hfirst hlast hof

theorem upholds_popSelection {of : Node} (hof : Lexical of) : Upholds (i.popSelection of) Lexical := by
  refine .bind (upholds_pop i) fun _ h₁ => .bind (upholds_pop i) fun _ h₂ =>
    .bind (upholds_pop i) fun _ h₃ => .bind (upholds_pop i) fun _ h₄ =>
    .bind (upholds_pop i) fun _ h₅ => .bind (upholds_pop i) fun _ h₆ =>
    .bind (upholds_pop i) fun _ h₇ => .bind (upholds_pop i) fun _ h₈ => .pure ?_
  exact select_lexical i h₈ h₇ (select_lexical i h₆ h₅ (select_lexical i h₄ h₃ (select_lexical i h₂ h₁ hof)))

theorem upholds_binary (op : BinaryOp) : Upholds (i.binary op) fun _ => True :=
  .bind (upholds_pop i) fun _ hr => .bind (upholds_pop i) fun _ hl => upholds_push (.binary hl hr)

theorem upholds_unary (op : UnaryOp) : Upholds (i.unary op) fun _ => True :=
  .bind (upholds_pop i) fun _ h => upholds_push (.unary h)

theorem upholds_assign {left : Node} (h : Lexical left) : Upholds (i.assign left) fun _ => True :=
  .bind (upholds_pop i) fun _ hr => upholds_emit i ⟨h, hr⟩

theorem upholds_put (mode : PutMode) {left : Node} (h : Lexical left) :
    Upholds (i.put mode left) fun _ => True :=
  .bind (upholds_pop i) fun _ hr => upholds_emit i ⟨h, hr⟩

theorem upholds_putIntoLocal (mode : PutMode) : Upholds (i.putIntoLocal mode) fun _ => True :=
  .bind (upholds_popIndex i) fun raw _ => .bind (upholds_descale raw) fun _ _ =>
    .bind (upholds_localAt i _) fun _ h => upholds_put i mode h

theorem upholds_putIntoPart (mode : PutMode) {of : Node} (h : Lexical of) :
    Upholds (i.putIntoPart mode of) fun _ => True :=
  .bind (upholds_popSelection i h) fun _ hl => upholds_put i mode hl

theorem upholds_delete {of : Node} (h : Lexical of) : Upholds (i.delete of) fun _ => True :=
  .bind (upholds_popSelection i h) fun _ ho => upholds_emit i (.unary ho)

theorem upholds_loadArguments (kind : ListKind) (count : Nat) :
    Upholds (i.loadArguments kind count) fun _ => True :=
  .bind (upholds_popMany i count) fun _ h => upholds_push (.arguments h)

theorem upholds_pushList : Upholds i.pushList fun _ => True := by
  refine .bind (upholds_pop i) fun node h => ?_
  split
  · exact upholds_push (.list h)
  · exact upholds_unexpected i _

theorem upholds_pushPropertyList : Upholds i.pushPropertyList fun _ => True := by
  refine .bind (upholds_pop i) fun node h => ?_
  split
  · cases h with
    | arguments h =>
      split
      · rename_i heven
        exact upholds_push (.propertyList heven h)
      · exact upholds_unexpected i _
  · exact upholds_unexpected i _

theorem upholds_pushConstant (raw : Nat) : Upholds (i.pushConstant raw) fun _ => True :=
  .bind (upholds_descale raw) fun _ _ => .bind .get fun _ hm =>
    .bind (upholds_lookUp i _ hm.context.constants _) fun _ h => upholds_push (.word h)

theorem upholds_pushBuiltin {name : String} (hname : isPlain name = true) :
    Upholds (i.pushBuiltin name) fun _ => True := by
  refine .bind (upholds_pop i) fun node _ => ?_
  split
  · exact upholds_push (.builtinProperty _ hname)
  · exact upholds_unexpected i _

theorem upholds_call {name : String} (hname : isPlain name = true) (kind : ListKind) {args : List Node}
    (h : ∀ a ∈ args, Lexical a) : Upholds (i.call name kind args) fun _ => True :=
  have hcall : Lexical (.call i.offset name kind args false) :=
    .call (Text.quiet_of_isPlain hname).steady h
  upholds_yieldBy i kind hcall hcall

theorem upholds_called {callee : Node} (hcallee : Lexical callee) (kind : ListKind) {args : List Node}
    (h : ∀ a ∈ args, Lexical a) :
    Upholds (i.call (Lingo.expression callee) kind args) fun _ => True :=
  have hcall : Lexical (.call i.offset (Lingo.expression callee) kind args false) :=
    .called hcallee (.inl rfl) h
  upholds_yieldBy i kind hcall hcall

theorem upholds_callGlobal (name : String) : Upholds (i.callGlobal name) fun _ => True := by
  refine .bind (upholds_pop i) fun callee hcallee => .bind (upholds_popArguments i)
    fun ⟨kind, args⟩ h => upholds_called i hcallee kind fun a ha => ?_
  obtain ⟨arg, harg, rfl⟩ := List.mem_map.1 ha
  have hlexical := h arg harg
  split
  · cases hlexical with
    | word h => exact .word h
    | identified hroot hname => exact .identified hroot hname
  · exact hlexical

theorem upholds_callMethod {name : String} (hname : isPlain name = true) :
    Upholds (i.callMethod name) fun _ => True := by
  refine .bind (upholds_pop i) fun node h => ?_
  split
  · rename_i origin inner kind args
    cases h with
    | list h =>
      cases h with
      | arguments hargs =>
        split
        · rename_i object hobject
          have hcall : Lexical (.methodCall i.offset name object kind args.dropLast) :=
            .methodCall hname (hargs object (List.mem_of_getLast? hobject))
              fun a ha => hargs a (List.dropLast_subset args ha)
          exact upholds_yieldBy i kind hcall hcall
        · exact upholds_unexpected i _
  · exact upholds_unexpected i _
  · exact upholds_unexpected i _

theorem upholds_propertyTarget {name : String} (hname : isPlain name = true) :
    Upholds (i.propertyTarget name) Lexical := by
  refine .bind .get fun _ _ => ?_
  split
  · exact .pure (.property hname (lexical_leaf i (by decide) _))
  · exact .pure (lexical_leaf i hname _)

theorem upholds_peek (depth : Nat) : Upholds (i.peek depth) fun _ => True :=
  .bind .get fun _ hm => .bind (upholds_lookUp i _ hm.stack depth) fun _ h => upholds_push h

theorem upholds_specialProperty : Upholds i.specialProperty Lexical := by
  have hspecial : ∀ name ∈ Vocabulary.specialProperties, isPlain name = true := by decide +kernel
  have hdate : ∀ name ∈ Vocabulary.dateTimeFunctions, isPlain name = true := by decide +kernel
  have hpart : ∀ name ∈ Vocabulary.textParts, isPlain name = true := by decide +kernel
  refine .bind (upholds_popIndex i) fun _ _ => ?_
  split
  · rename_i hname
    exact .pure (lexical_leaf i (hspecial _ (List.mem_of_getElem? hname)) _)
  · split
    · rename_i hname
      exact .pure (lexical_leaf i (hdate _ (List.mem_of_getElem? hname)) _)
    · exact .bind (upholds_lookUp i _ hpart _) fun part hplain => .bind (upholds_pop i) fun _ h =>
        .pure (.aspect (by simpa using hplain) h)

theorem upholds_systemProperty : Upholds i.systemProperty Lexical := by
  have hall : ∀ entry ∈ Vocabulary.systemProperties,
      isPlain entry.1 = true ∧ isPlain entry.2 = true := by decide +kernel
  refine .bind (upholds_popIndex i) fun _ _ => .bind (upholds_lookUp i _ hall _) fun entry hentry =>
    .bind .get fun m _ => .pure (.property hentry.1 (lexical_leaf i ?_ _))
  split
  · exact hentry.2
  · decide

theorem upholds_menuAspect : Upholds i.menuAspect fun _ => True := by
  refine .bind (upholds_popIndex i) fun kind _ => .bind (upholds_popIdentifier i)
    fun _ ⟨root, hroot, hdisplays⟩ => ?_
  have hmenu : Lexical (i.leaf .menu _) := .identified hroot hdisplays
  dsimp only
  split
  · exact upholds_push (.aspect (by simp) hmenu)
  · exact upholds_push (.aspect (by simp) (.menuItemsOf hmenu))
  · exact upholds_unexpected i _

theorem upholds_objectOf (kind : LeafKind) {name : String} (hname : isPlain name = true) :
    Upholds (i.objectOf kind name) Lexical :=
  .bind (upholds_popIdentifier i) fun _ ⟨_, hroot, hdisplays⟩ =>
    .pure (.property hname (.identified hroot hdisplays))

theorem upholds_menuItemOf {name : String} (hname : isPlain name = true) :
    Upholds (i.menuItemOf name) Lexical :=
  .bind (upholds_popIdentifier i) fun _ ⟨_, hmenu, hmenuText⟩ =>
    .bind (upholds_popIdentifier i) fun _ ⟨_, hitem, hitemText⟩ =>
      .pure (.property hname (.menuItemOf (.identified hmenu hmenuText) (.identified hitem hitemText)))

section Property

variable (table : IndexedTable) {names : List String} (hnames : ∀ name ∈ names, isPlain name = true)
  {owner : String → Recovering Node}
  (howner : ∀ name, isPlain name = true → Upholds (owner name) Lexical)
include hnames howner

theorem upholds_readProperty : Upholds (i.readProperty table names owner) fun _ => True :=
  .bind (upholds_popPropertyName i table hnames) fun name hname =>
    .bind (howner name hname) fun _ hn => upholds_push hn

theorem upholds_writeProperty : Upholds (i.writeProperty table names owner) fun _ => True :=
  .bind (upholds_popPropertyName i table hnames) fun name hname =>
    .bind (upholds_pop i) fun _ hr => .bind (howner name hname) fun _ hl => upholds_emit i ⟨hl, hr⟩

end Property

theorem operandsIn_filter {statements : List Statement} (h : Statement.OperandsIn Lexical statements)
    (p : Statement → Bool) : Statement.OperandsIn Lexical (statements.filter p) :=
  Statement.operandsIn_iff.2 fun s hs => Statement.operandsIn_iff.1 h s (List.mem_filter.1 hs).1

theorem upholds_closeLoop (distance : Nat) : Upholds (i.closeLoop distance) fun _ => True := by
  intro m a m' hm hrun
  simp only [closeLoop] at hrun
  split at hrun
  · obtain ⟨_, _, hthrow, -⟩ := run_bind_eq_ok hrun
    cases hthrow
  · cases hrun
    have htrue : Lexical (.leaf .constant "TRUE" (i.offset - distance)) := .word (by decide)
    refine ⟨{ hm with statements := ?_ }, trivial⟩
    simp only [partition_position]
    refine Statement.operandsIn_append.2 ⟨operandsIn_filter hm.statements _, ?_, trivial⟩
    exact ⟨trivial, htrue, operandsIn_filter hm.statements _⟩

theorem upholds_closeTell : Upholds i.closeTell fun _ => True := by
  intro m a m' hm hrun
  unfold closeTell at hrun
  obtain ⟨position?, m₁, hclose, hrun⟩ := run_bind_eq_ok hrun
  cases hclose
  obtain ⟨m₂, m₃, hget, hrun⟩ := run_bind_eq_ok hrun
  cases hget
  dsimp only at hrun
  split at hrun
  · cases hrun
  · rename_i position before origin target body after hfound
    cases hrun
    simp only [Option.bind_eq_some_iff, Option.map_eq_some_iff] at hfound
    obtain ⟨place, -, _, hsplit, heq⟩ := hfound
    cases heq
    have hstatements := hm.statements
    rw [eq_of_splitAtTell hsplit] at hstatements
    simp only [Statement.operandsIn_append, Statement.OperandsIn, Node.OperandsIn] at hstatements
    obtain ⟨hbefore, ⟨htarget, hbody⟩, hafter⟩ := hstatements
    refine ⟨⟨hm.context.closeTell, hm.stack, hm.parameters, hm.locals, ?_⟩, trivial⟩
    exact Statement.operandsIn_append.2
      ⟨hbefore, ⟨htarget, Statement.operandsIn_append.2 ⟨hbody, hafter⟩⟩, trivial⟩

theorem upholds_stepPair (pair : PairOpcode) : Upholds (i.stepPair pair) fun _ => True := by
  have hparts : ∀ name ∈ Vocabulary.textParts, isPlain name = true := by decide +kernel
  have hmenu : ∀ name ∈ Vocabulary.menuItemProperties, isPlain name = true := by decide +kernel
  have hcounts : ∀ name ∈ Vocabulary.movieCounts, isPlain name = true := by decide +kernel
  have hsound : ∀ name ∈ Vocabulary.soundProperties, isPlain name = true := by decide +kernel
  have hsprite : ∀ name ∈ Vocabulary.spriteProperties, isPlain name = true := by decide +kernel
  have hcast : ∀ name ∈ Vocabulary.castProperties, isPlain name = true := by decide +kernel
  have hvideo : ∀ name ∈ Vocabulary.videoProperties, isPlain name = true := by decide +kernel
  cases pair with
  | assignIntoLocal | assignAfterLocal | assignBeforeLocal => exact upholds_putIntoLocal i _
  | assignIntoField | assignAfterField | assignBeforeField =>
    exact (upholds_popField i).bind fun _ h => upholds_put i _ h
  | putIntoField | putIntoFieldChunk | putAfterField | putBeforeField =>
    exact (upholds_popField i).bind fun _ h => upholds_putIntoPart i _ h
  | putIntoVar | putAfterVar | putBeforeVar =>
    exact (upholds_pop i).bind fun _ h => upholds_putIntoPart i _ h
  | putIntoLocal | putAfterLocal | putBeforeLocal =>
    exact (upholds_popIndex i).bind fun _ _ => (upholds_localAt i _).bind
      fun _ h => upholds_putIntoPart i _ h
  | deleteVar => exact (upholds_pop i).bind fun _ h => upholds_delete i h
  | deleteLocal =>
    exact (upholds_popIndex i).bind fun _ _ => (upholds_localAt i _).bind fun _ h => upholds_delete i h
  | deleteField => exact (upholds_popField i).bind fun _ h => upholds_delete i h
  | getSpecial => exact (upholds_specialProperty i).bind fun _ h => upholds_push h
  | setSpecial => exact (upholds_specialProperty i).bind fun _ h => upholds_assign i h
  | getNumberOf =>
    exact (upholds_popPropertyName i _ hparts).bind fun part hplain => (upholds_pop i).bind
      fun _ h => upholds_push (.aspect (by simpa using hplain) h)
  | getMenu => exact upholds_menuAspect i
  | getMenuItem => exact upholds_readProperty i _ hmenu fun _ => upholds_menuItemOf i
  | setMenuItem => exact upholds_writeProperty i _ hmenu fun _ => upholds_menuItemOf i
  | getSound => exact upholds_readProperty i _ hsound fun _ => upholds_objectOf i _
  | setSound => exact upholds_writeProperty i _ hsound fun _ => upholds_objectOf i _
  | getSprite => exact upholds_readProperty i _ hsprite fun _ => upholds_objectOf i _
  | setSprite => exact upholds_writeProperty i _ hsprite fun _ => upholds_objectOf i _
  | getSystem => exact (upholds_systemProperty i).bind fun _ h => upholds_push h
  | setSystem => exact (upholds_systemProperty i).bind fun _ h => upholds_assign i h
  | getCastCount =>
    exact (upholds_popPropertyName i _ hcounts).bind fun name hname =>
      upholds_push (.aspect (by simp) (lexical_leaf i hname _))
  | getCast => exact upholds_readProperty i _ hcast fun _ => upholds_objectOf i _
  | setCast | setFieldProp => exact upholds_writeProperty i _ hcast fun _ => upholds_objectOf i _
  | getFieldProp =>
    exact (upholds_popPropertyName i _ hcast).bind fun name hname => (upholds_popField i).bind
      fun _ h => upholds_push (.property hname h)
  | getVideo => exact upholds_readProperty i _ hvideo fun _ => upholds_objectOf i _
  | setVideo => exact upholds_writeProperty i _ hvideo fun _ => upholds_objectOf i _

theorem upholds_startTell {target : Node} (h : Lexical target) :
    Upholds (do
      modify fun m => { m with context := m.context.openTell i.offset target }
      i.emit (.tell i.offset target [])) fun _ => True :=
  .bind (.modify fun _ hm =>
    { hm with context := ⟨hm.context.names, hm.context.handlerNames, hm.context.constants⟩ })
    fun _ _ => upholds_emit i ⟨h, trivial⟩

/-- Every instruction keeps to expressions whose names can be read. -/
theorem upholds_step : Upholds i.step fun _ => True := by
  obtain ⟨offset, opcode, operand⟩ := i
  cases opcode with
  | exit => exact upholds_emit _ (.call (by decide) (by simp))
  | pushZero => exact upholds_push (lexical_leaf _ (by decide) _)
  | pushInt8 | pushInt16 => exact upholds_push (.word (steady_toString _))
  | mul | add | sub | div | mod | joinStr | joinPadStr | lt | ltEq | ntEq | eq | gt | gtEq | and | or
  | containsStr | contains0Str | ontoSpr | intoSpr => exact upholds_binary _ _
  | inv | not | getField => exact upholds_unary _ _
  | getChunk =>
    exact (upholds_pop _).bind fun _ h => (upholds_popSelection _ h).bind fun _ h => upholds_push h
  | hiliteChunk =>
    exact (upholds_popField _).bind fun _ h => (upholds_popSelection _ h).bind
      fun _ h => upholds_emit _ (.unary h)
  | startTell => exact (upholds_pop _).bind fun _ h => upholds_startTell _ h
  | endTell => exact upholds_closeTell _
  | pushList => exact upholds_pushList _
  | pushPropList => exact upholds_pushPropertyList _
  | pushArgListNoRet | pushArgListNoRet16 | pushArgList | pushArgList16 =>
    exact upholds_loadArguments _ _ _
  | pushCons | pushCons16 => exact upholds_pushConstant _ _
  | pushSymb | pushPropName | getProp =>
    exact (upholds_nameAt _ _).bind fun _ h => upholds_push (lexical_leaf _ h _)
  | pushVarRef =>
    exact (upholds_nameAt _ _).bind fun _ h => .bind .get fun _ _ => upholds_push (lexical_leaf _ h _)
  | getGlobal | getGlobal2 =>
    exact (upholds_nameAt _ _).bind fun _ h => (upholds_declareGlobal _).bind
      fun _ _ => upholds_push (lexical_leaf _ h _)
  | getParam =>
    refine (upholds_descale _).bind fun _ _ => (upholds_parameterAt _ _).bind fun parameter h =>
      upholds_push ?_
    cases hword : parameter.word? with
    | none => exact lexical_leaf _ (by decide) _
    | some name => exact .identified h (.inr hword)
  | getLocal =>
    exact (upholds_descale _).bind fun _ _ => (upholds_localAt _ _).bind fun _ h => upholds_push h
  | setGlobal | setGlobal2 =>
    exact (upholds_nameAt _ _).bind fun _ h => (upholds_declareGlobal _).bind
      fun _ _ => upholds_assign _ (lexical_leaf _ h _)
  | setProp | setMovieProp =>
    exact (upholds_nameAt _ _).bind fun _ h => (upholds_propertyTarget _ h).bind
      fun _ h => upholds_assign _ h
  | setParam =>
    exact (upholds_descale _).bind fun _ _ => (upholds_parameterAt _ _).bind
      fun _ h => upholds_assign _ h
  | setLocal =>
    exact (upholds_descale _).bind fun _ _ => (upholds_localAt _ _).bind fun _ h => upholds_assign _ h
  | endRepeat => exact upholds_closeLoop _ _
  | localCall =>
    exact Upholds.get.bind fun _ hm => (upholds_lookUp _ _ hm.context.handlerNames _).bind
      fun _ hname => (upholds_popArguments _).bind fun _ h => upholds_call _ hname _ h
  | extCall =>
    exact (upholds_nameAt _ _).bind fun _ hname => (upholds_popArguments _).bind
      fun _ h => upholds_call _ hname _ h
  | extGlobalCall => exact (upholds_nameAt _ _).bind fun _ _ => upholds_callGlobal _ _
  | getMovieProp =>
    have howners : ∀ entry ∈ Vocabulary.moviePropertyOwners, isPlain entry.2 = true := by decide +kernel
    refine (upholds_nameAt _ _).bind fun name hname => ?_
    split
    · rename_i owner howner
      obtain ⟨before, behind, heq, -⟩ := List.lookup_eq_some_iff.1 howner
      have howner := howners (name, owner) (heq ▸ by simp)
      exact upholds_push (.property hname (lexical_leaf _ howner _))
    · exact upholds_push (lexical_leaf _ hname _)
  | getObjProp =>
    exact (upholds_nameAt _ _).bind fun _ hname => (upholds_pop _).bind
      fun _ h => upholds_push (.property hname h)
  | setObjProp =>
    exact (upholds_nameAt _ _).bind fun _ hname => (upholds_pop _).bind fun _ hr =>
      (upholds_pop _).bind fun _ h => upholds_emit _ ⟨.property hname h, hr⟩
  | tellCall =>
    exact (upholds_nameAt _ _).bind fun _ hname => (upholds_popArguments _).bind
      fun _ h => upholds_emit _ (.call (Text.quiet_of_isPlain hname).steady h)
  | peek => exact upholds_peek _ _
  | pop => exact (upholds_popMany _ _).bind fun _ _ => .pure trivial
  | theBuiltin => exact (upholds_nameAt _ _).bind fun _ h => upholds_pushBuiltin _ h
  | objCall => exact (upholds_nameAt _ _).bind fun _ h => upholds_callMethod _ h
  | jmp => exact upholds_emit _ trivial
  | jmpIfZ => exact (upholds_pop _).bind fun _ h => upholds_emit _ h
  | assignMode | putChunk | deleteChunk | get | set =>
    dsimp only [step]
    split
    · exact upholds_stepPair _ _
    · exact .throw _

end Instruction

end LingoSource
