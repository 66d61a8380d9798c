import LingoSource.Proofs.Instruction.Emission

/-!
Everything an instruction can do to the machine, also when it fails half-way, and which errors it can
raise. The stack is free; the function only gains globals and statements, and the context only changes
its scale and its open `tell` blocks. An error names the instruction that raised it.

The parts of an instruction are gone through once, for any relation between machines that admits what
they do. Only an operand that is brought to scale is left open: what becomes of the scale depends on it.
-/
set_option autoImplicit false

namespace LingoSource

namespace Instruction

variable (i : Instruction)

inductive Writes : Node → Prop
  | call (name : String) (kind : ListKind) (args : List Node) (inTell : Bool) :
      Writes (.call i.offset name kind args inTell)
  | methodCall (name : String) (object : Node) (kind : ListKind) (args : List Node) :
      Writes (.methodCall i.offset name object kind args)
  | assign (left right : Node) : Writes (.assign i.offset left right)
  | put (mode : PutMode) (left right : Node) : Writes (.put i.offset mode left right)
  | unary (op : UnaryOp) (operand : Node) : Writes (.unary i.offset op operand)
  | tell (h : i.opcode = .startTell) (target : Node) : Writes (.tell i.offset target [])
  | jump (h : i.opcode = .jmp) : Writes (.jump i.offset (i.offset + i.operand))
  | jumpUnless (h : i.opcode = .jmpIfZ) (condition : Node) :
      Writes (.jumpUnless i.offset condition (i.offset + i.operand))

/-- What can become of a machine while an instruction runs. -/
inductive Change : Machine → Machine → Prop
  | refl (m : Machine) : Change m m
  | trans {m m' m'' : Machine} (h : Change m m') (h' : Change m' m'') : Change m m''
  | stack (m : Machine) (stack : List Node) : Change m { m with stack }
  | descale (m : Machine) (raw : Nat) : Change m { m with context := (m.context.descale raw).2 }
  | declareGlobal (m : Machine) (name : String) :
      Change m { m with function := m.function.addGlobal name }
  | emit (m : Machine) {node : Node} (h : i.Writes node) :
      Change m { m with function.statements := m.function.statements ++ [⟨i.offset, node⟩] }
  | openTell (h : i.opcode = .startTell) (m : Machine) (target : Node) :
      Change m { m with context := m.context.openTell i.offset target }
  | closeTell (h : i.opcode = .endTell) (m : Machine) :
      Change m { m with context := m.context.closeTell.2 }
  | fillTell (h : i.opcode = .endTell) (m : Machine) {before after body : List Statement}
      {position origin : Nat} {target : Node}
      (hstatements : m.function.statements =
        before ++ ⟨position, .tell origin target body⟩ :: after) :
      Change m { m with
        function.statements := before ++ [⟨position, .tell origin target (body ++ after)⟩] }
  | closeLoop (h : i.opcode = .endRepeat) (m : Machine) (start : Nat) :
      Change m { m with
        function.statements := m.function.statements.filter (·.position < start) ++
          [⟨i.offset, .loop i.offset start i.offset .whileTrue (.leaf .constant "TRUE" start)
            (m.function.statements.filter (start ≤ ·.position))⟩] }

end Instruction

inductive RecoveryError.RaisedBy (i : Instruction) : RecoveryError → Prop
  | stackUnderflow : RaisedBy i (.stackUnderflow i.offset i.opcode.byte)
  | indexOutOfRange (table : IndexedTable) (index : Nat) :
      RaisedBy i (.indexOutOfRange i.offset i.opcode.byte table index)
  | unexpectedOperand (fault : OperandFault) :
      RaisedBy i (.unexpectedOperand i.offset i.opcode.byte fault)
  | unknownOpcodePair (h : i.opcode.isPairPrefix) :
      RaisedBy i (.unknownOpcodePair i.offset i.opcode.byte (UInt8.ofNat i.operand))
  | unmatchedTellEnd (h : i.opcode = .endTell) : RaisedBy i (.unmatchedTellEnd i.offset)

def PairOpcode.scalesIndex : PairOpcode → Bool
  | .assignIntoLocal | .assignAfterLocal | .assignBeforeLocal => true
  | _ => false

def Opcode.isScaled : Opcode → Bool
  | .pushCons | .pushCons16 | .getParam | .getLocal | .setParam | .setLocal => true
  | op => op.isPairPrefix

namespace Machine

def topIndex? (m : Machine) : Option Nat :=
  match m.stack with
  | .leaf .constant text _ :: _ => parseIndex? text
  | _ => none

def descaled (m : Machine) (raw : Nat) : Machine :=
  { m with context := (m.context.descale raw).2 }

end Machine

namespace Instruction

/-- The operand that an instruction brings to scale: its own, or an index on the stack. -/
def scaled? (i : Instruction) (m : Machine) : Option Nat :=
  match i.opcode with
  | .pushCons | .pushCons16 | .getParam | .getLocal | .setParam | .setLocal => some i.operand
  | .assignMode | .putChunk | .deleteChunk | .get | .set =>
    (PairOpcode.ofBytes? i.opcode.byte (UInt8.ofNat i.operand)).bind fun pair =>
      if pair.scalesIndex then m.topIndex? else none
  | _ => none

/-- The relation has everything that an instruction does to a machine beside scaling. -/
class Admits (i : Instruction) (R : Machine → Machine → Prop) : Prop where
  refl (m : Machine) : R m m
  trans {m m' m'' : Machine} (h : R m m') (h' : R m' m'') : R m m''
  stack (m : Machine) (stack : List Node) : R m { m with stack }
  declareGlobal (m : Machine) (name : String) : R m { m with function := m.function.addGlobal name }
  emit (m : Machine) {node : Node} (h : i.Writes node) :
    R m { m with function.statements := m.function.statements ++ [⟨i.offset, node⟩] }
  openTell (h : i.opcode = .startTell) (m : Machine) (target : Node) :
    R m { m with context := m.context.openTell i.offset target }
  closeTell (h : i.opcode = .endTell) (m : Machine) :
    R m { m with context := m.context.closeTell.2 }
  fillTell (h : i.opcode = .endTell) (m : Machine) {before after body : List Statement}
    {position origin : Nat} {target : Node}
    (hstatements : m.function.statements =
      before ++ ⟨position, .tell origin target body⟩ :: after) :
    R m { m with
      function.statements := before ++ [⟨position, .tell origin target (body ++ after)⟩] }
  closeLoop (h : i.opcode = .endRepeat) (m : Machine) (start : Nat) :
    R m { m with
      function.statements := m.function.statements.filter (·.position < start) ++
        [⟨i.offset, .loop i.offset start i.offset .whileTrue (.leaf .constant "TRUE" start)
          (m.function.statements.filter (start ≤ ·.position))⟩] }

instance (i : Instruction) : i.Admits i.Change where
  refl := .refl
  trans := .trans
  stack := .stack
  declareGlobal := .declareGlobal
  emit := .emit
  openTell := .openTell
  closeTell := .closeTell
  fillTell := .fillTell
  closeLoop := .closeLoop

/-- The run of a part of an instruction on `m` ends in the relation, and fails only with an error that
the instruction raises. -/
inductive Ends (i : Instruction) (R : Machine → Machine → Prop) (m : Machine) {α : Type} :
    EStateM.Result RecoveryError Machine α → Prop
  | ok {a : α} {m' : Machine} (h : R m m') : Ends i R m (.ok a m')
  | error {e : RecoveryError} {m' : Machine} (h : R m m') (he : e.RaisedBy i) :
      Ends i R m (.error e m')

def Keeps (i : Instruction) (R : Machine → Machine → Prop) {α : Type} (x : Recovering α) : Prop :=
  ∀ m, i.Ends R m (x.run m)

inductive Allows (i : Instruction) (m : Machine) {α : Type} :
    EStateM.Result RecoveryError Machine α → Prop
  | ok {a : α} {m' : Machine} (h : i.Change m m') : Allows i m (.ok a m')
  | error {e : RecoveryError} {m' : Machine} (h : i.Change m m') (he : e.RaisedBy i) :
      Allows i m (.error e m')

def Respects (i : Instruction) {α : Type} (x : Recovering α) : Prop :=
  ∀ m, i.Allows m (x.run m)

variable {i : Instruction} {R : Machine → Machine → Prop} {α β : Type} {m m' : Machine}

theorem Ends.allows {result : EStateM.Result RecoveryError Machine α}
    (h : i.Ends i.Change m result) : i.Allows m result := by
  cases h with
  | ok h => exact .ok h
  | error h he => exact .error h he

theorem Keeps.respects {x : Recovering α} (h : i.Keeps i.Change x) : i.Respects x :=
  fun m => (h m).allows

variable [i.Admits R]

theorem Ends.of_admitted {result : EStateM.Result RecoveryError Machine α} (h : R m m')
    (hresult : i.Ends R m' result) : i.Ends R m result := by
  cases hresult with
  | ok h' => exact .ok (Admits.trans i h h')
  | error h' he => exact .error (Admits.trans i h h') he

theorem Ends.bind {x : Recovering α} {f : α → Recovering β} (hx : i.Ends R m (x.run m))
    (hf : ∀ a m', x.run m = .ok a m' → i.Ends R m' ((f a).run m')) :
    i.Ends R m ((x >>= f).run m) := by
  change i.Ends R m (EStateM.bind x f m)
  unfold EStateM.bind
  cases hrun : x m with
  | ok a m' =>
    rw [show x.run m = _ from hrun] at hx
    cases hx with
    | ok h => exact .of_admitted h (hf a m' hrun)
  | error e m' =>
    rw [show x.run m = _ from hrun] at hx
    cases hx with
    | error h he => exact .error h he

namespace Keeps

theorem pure (a : α) : i.Keeps R (Pure.pure a : Recovering α) := fun m => .ok (Admits.refl i m)

theorem throw {e : RecoveryError} (h : e.RaisedBy i) : i.Keeps R (throw e : Recovering α) :=
  fun m => .error (Admits.refl i m) h

theorem get : i.Keeps R (MonadState.get : Recovering Machine) := fun m => .ok (Admits.refl i m)

theorem bind {x : Recovering α} {f : α → Recovering β} (hx : i.Keeps R x)
    (hf : ∀ a, i.Keeps R (f a)) : i.Keeps R (x >>= f) :=
  fun m => .bind (hx m) fun a m' _ => hf a m'

end Keeps

theorem keeps_unexpected (fault : OperandFault) :
    i.Keeps R (i.unexpected fault : Recovering α) :=
  .throw (.unexpectedOperand fault)

theorem keeps_lookUp (table : IndexedTable) (entries : List α) (index : Nat) :
    i.Keeps R (i.lookUp table entries index) := by
  unfold lookUp
  split
  · exact .pure _
  · exact .throw (.indexOutOfRange table index)

theorem keeps_nameAt (index : Nat) : i.Keeps R (i.nameAt index) :=
  .bind .get fun _ => keeps_lookUp _ _ _

theorem keeps_localAt (index : Nat) : i.Keeps R (i.localAt index) :=
  .bind .get fun _ => keeps_lookUp _ _ _

theorem keeps_parameterAt (index : Nat) : i.Keeps R (i.parameterAt index) :=
  .bind .get fun _ => keeps_lookUp _ _ _

theorem keeps_push (node : Node) : i.Keeps R (push node) := fun m => .ok (Admits.stack i m _)

theorem keeps_declareGlobal (name : String) : i.Keeps R (declareGlobal name) :=
  fun m => .ok (Admits.declareGlobal i m name)

theorem keeps_emit {node : Node} (h : i.Writes node) : i.Keeps R (i.emit node) :=
  fun m => .ok (Admits.emit m h)

theorem keeps_pop : i.Keeps R i.pop := by
  intro m
  unfold pop
  simp only [EStateM.run]
  split
  · exact .error (Admits.refl i m) .stackUnderflow
  · exact .ok (Admits.stack i m _)

theorem keeps_popMany (count : Nat) : i.Keeps R (i.popMany count) := by
  intro m
  unfold popMany
  simp only [EStateM.run]
  split
  · exact .ok (Admits.stack i m _)
  · exact .error (Admits.refl i m) .stackUnderflow

theorem keeps_popIndex : i.Keeps R i.popIndex := by
  refine .bind keeps_pop fun node => ?_
  split
  · split
    · exact .pure _
    · exact keeps_unexpected _
  · exact keeps_unexpected _

theorem keeps_popIdentifier : i.Keeps R i.popIdentifier :=
  .bind keeps_pop fun _ => .pure _

theorem keeps_popArguments : i.Keeps R i.popArguments := by
  refine .bind keeps_pop fun node => ?_
  split
  · exact .pure _
  · exact keeps_unexpected _

theorem keeps_popField : i.Keeps R i.popField :=
  .bind keeps_pop fun _ => .pure _

theorem keeps_popSelection (of : Node) : i.Keeps R (i.popSelection of) :=
  .bind keeps_pop fun _ => .bind keeps_pop fun _ => .bind keeps_pop fun _ =>
    .bind keeps_pop fun _ => .bind keeps_pop fun _ => .bind keeps_pop fun _ =>
    .bind keeps_pop fun _ => .bind keeps_pop fun _ => .pure _

theorem keeps_popPropertyName (table : IndexedTable) (names : List String) :
    i.Keeps R (i.popPropertyName table names) :=
  .bind keeps_popIndex fun _ => keeps_lookUp _ _ _

theorem keeps_yieldBy (kind : ListKind) {node : Node} (h : i.Writes node) :
    i.Keeps R (i.yieldBy kind node) := by
  cases kind with
  | argList => exact keeps_push _
  | argListNoRet => exact keeps_emit h

theorem keeps_call (name : String) (kind : ListKind) (args : List Node) :
    i.Keeps R (i.call name kind args) :=
  keeps_yieldBy kind (.call name kind args false)

theorem keeps_binary (op : BinaryOp) : i.Keeps R (i.binary op) :=
  .bind keeps_pop fun _ => .bind keeps_pop fun _ => keeps_push _

theorem keeps_unary (op : UnaryOp) : i.Keeps R (i.unary op) :=
  .bind keeps_pop fun _ => keeps_push _

theorem keeps_assign (left : Node) : i.Keeps R (i.assign left) :=
  .bind keeps_pop fun _ => keeps_emit (.assign _ _)

theorem keeps_put (mode : PutMode) (left : Node) : i.Keeps R (i.put mode left) :=
  .bind keeps_pop fun _ => keeps_emit (.put _ _ _)

theorem keeps_putIntoPart (mode : PutMode) (of : Node) : i.Keeps R (i.putIntoPart mode of) :=
  .bind (keeps_popSelection _) fun _ => keeps_put _ _

theorem keeps_delete (of : Node) : i.Keeps R (i.delete of) :=
  .bind (keeps_popSelection _) fun _ => keeps_emit (.unary _ _)

theorem keeps_loadArguments (kind : ListKind) (count : Nat) :
    i.Keeps R (i.loadArguments kind count) :=
  .bind (keeps_popMany _) fun _ => keeps_push _

theorem keeps_pushList : i.Keeps R i.pushList := by
  refine .bind keeps_pop fun node => ?_
  split
  · exact keeps_push _
  · exact keeps_unexpected _

theorem keeps_pushPropertyList : i.Keeps R i.pushPropertyList := by
  refine .bind keeps_pop fun node => ?_
  split
  · split
    · exact keeps_push _
    · exact keeps_unexpected _
  · exact keeps_unexpected _

theorem keeps_callGlobal (name : String) : i.Keeps R (i.callGlobal name) :=
  .bind keeps_pop fun _ => .bind keeps_popArguments fun _ => keeps_call _ _ _

theorem keeps_callMethod (name : String) : i.Keeps R (i.callMethod name) := by
  refine .bind keeps_pop fun node => ?_
  split
  · split
    · exact keeps_yieldBy _ (.methodCall _ _ _ _)
    · exact keeps_unexpected _
  · exact keeps_unexpected _
  · exact keeps_unexpected _

theorem keeps_pushBuiltin (name : String) : i.Keeps R (i.pushBuiltin name) := by
  refine .bind keeps_pop fun node => ?_
  split
  · exact keeps_push _
  · exact keeps_unexpected _

theorem keeps_propertyTarget (name : String) : i.Keeps R (i.propertyTarget name) := by
  refine .bind .get fun m => ?_
  split
  · exact .pure _
  · exact .pure _

theorem keeps_peek (depth : Nat) : i.Keeps R (i.peek depth) :=
  .bind .get fun _ => .bind (keeps_lookUp _ _ _) fun _ => keeps_push _

theorem keeps_specialProperty : i.Keeps R i.specialProperty := by
  refine .bind keeps_popIndex fun index => ?_
  split
  · exact .pure _
  · split
    · exact .pure _
    · exact .bind (keeps_lookUp _ _ _) fun _ => .bind keeps_pop fun _ => .pure _

theorem keeps_systemProperty : i.Keeps R i.systemProperty :=
  .bind keeps_popIndex fun _ => .bind (keeps_lookUp _ _ _) fun _ => .bind .get fun _ => .pure _

theorem keeps_menuAspect : i.Keeps R i.menuAspect := by
  refine .bind keeps_popIndex fun kind => .bind keeps_popIdentifier fun _ => ?_
  dsimp only
  split
  · exact keeps_push _
  · exact keeps_push _
  · exact keeps_unexpected _

theorem keeps_objectOf (kind : LeafKind) (name : String) : i.Keeps R (i.objectOf kind name) :=
  .bind keeps_popIdentifier fun _ => .pure _

theorem keeps_menuItemOf (name : String) : i.Keeps R (i.menuItemOf name) :=
  .bind keeps_popIdentifier fun _ => .bind keeps_popIdentifier fun _ => .pure _

theorem keeps_readProperty (table : IndexedTable) (names : List String)
    {owner : String → Recovering Node} (h : ∀ name, i.Keeps R (owner name)) :
    i.Keeps R (i.readProperty table names owner) :=
  .bind (keeps_popPropertyName _ _) fun name => .bind (h name) fun _ => keeps_push _

theorem keeps_writeProperty (table : IndexedTable) (names : List String)
    {owner : String → Recovering Node} (h : ∀ name, i.Keeps R (owner name)) :
    i.Keeps R (i.writeProperty table names owner) :=
  .bind (keeps_popPropertyName _ _) fun name => .bind keeps_pop fun _ =>
    .bind (h name) fun _ => keeps_emit (.assign _ _)

theorem keeps_stepPair {pair : PairOpcode} (h : pair.scalesIndex = false) :
    i.Keeps R (i.stepPair pair) := by
  cases pair with
  | assignIntoLocal | assignAfterLocal | assignBeforeLocal => cases h
  | assignIntoField | assignAfterField | assignBeforeField =>
    exact .bind keeps_popField fun _ => keeps_put _ _
  | putIntoField | putIntoFieldChunk | putAfterField | putBeforeField =>
    exact .bind keeps_popField fun _ => keeps_putIntoPart _ _
  | putIntoVar | putAfterVar | putBeforeVar =>
    exact .bind keeps_pop fun _ => keeps_putIntoPart _ _
  | putIntoLocal | putAfterLocal | putBeforeLocal =>
    exact .bind keeps_popIndex fun _ => .bind (keeps_localAt _) fun _ =>
      keeps_putIntoPart _ _
  | deleteVar => exact .bind keeps_pop fun _ => keeps_delete _
  | deleteLocal =>
    exact .bind keeps_popIndex fun _ => .bind (keeps_localAt _) fun _ => keeps_delete _
  | deleteField => exact .bind keeps_popField fun _ => keeps_delete _
  | getSpecial => exact .bind keeps_specialProperty fun _ => keeps_push _
  | setSpecial => exact .bind keeps_specialProperty fun _ => keeps_assign _
  | getNumberOf =>
    exact .bind (keeps_popPropertyName _ _) fun _ => .bind keeps_pop fun _ =>
      keeps_push _
  | getMenu => exact keeps_menuAspect
  | getMenuItem => exact keeps_readProperty _ _ keeps_menuItemOf
  | setMenuItem => exact keeps_writeProperty _ _ keeps_menuItemOf
  | getSound | getSprite | getCast | getVideo =>
    exact keeps_readProperty _ _ (keeps_objectOf _)
  | setSound | setSprite | setCast | setFieldProp | setVideo =>
    exact keeps_writeProperty _ _ (keeps_objectOf _)
  | getSystem => exact .bind keeps_systemProperty fun _ => keeps_push _
  | setSystem => exact .bind keeps_systemProperty fun _ => keeps_assign _
  | getCastCount => exact .bind (keeps_popPropertyName _ _) fun _ => keeps_push _
  | getFieldProp =>
    exact .bind (keeps_popPropertyName _ _) fun _ => .bind keeps_popField fun _ =>
      keeps_push _

theorem keeps_closeLoop (h : i.opcode = .endRepeat) (distance : Nat) :
    i.Keeps R (i.closeLoop distance) := by
  have hmove : i.Keeps R (modify fun m =>
      { m with
        function.statements := (m.function.statements.partition
            (·.position < i.offset - distance)).1 ++
          [⟨i.offset, .loop i.offset (i.offset - distance) i.offset .whileTrue
            (.leaf .constant "TRUE" (i.offset - distance))
            (m.function.statements.partition (·.position < i.offset - distance)).2⟩] }) := by
    intro m
    simp only [partition_position]
    exact .ok (Admits.closeLoop h m _)
  unfold closeLoop
  dsimp only
  split
  · exact .bind (keeps_unexpected _) fun _ => hmove
  · exact hmove

theorem run_modifyGet_bind {α β : Type} (f : Machine → α × Machine) (next : α → Recovering β)
    (m : Machine) : EStateM.run (modifyGet f >>= next) m = EStateM.run (next (f m).1) (f m).2 := rfl

theorem run_get_bind {α : Type} (next : Machine → Recovering α) (m : Machine) :
    EStateM.run (get >>= next) m = EStateM.run (next m) m := rfl

theorem keeps_closeTell (h : i.opcode = .endTell) : i.Keeps R i.closeTell := by
  intro m
  refine .of_admitted (Admits.closeTell h m) ?_
  unfold closeTell
  rw [run_modifyGet_bind, run_get_bind]
  dsimp only
  split
  · exact .error (Admits.refl i _) (.unmatchedTellEnd h)
  · rename_i position before origin target body after hfound
    obtain ⟨place, -, hplace⟩ := Option.bind_eq_some_iff.1 hfound
    obtain ⟨_, hsplit, heq⟩ := Option.map_eq_some_iff.1 hplace
    cases heq
    exact .ok (Admits.fillTell h _ (eq_of_splitAtTell hsplit))

theorem keeps_step (h : i.opcode.isScaled = false) : i.Keeps R i.step := by
  obtain ⟨offset, opcode, operand⟩ := i
  cases opcode with
  | pushCons | pushCons16 | getParam | getLocal | setParam | setLocal | assignMode | putChunk
  | deleteChunk | get | set => cases h
  | exit => exact keeps_emit (.call _ _ _ _)
  | pushZero | pushInt8 | pushInt16 => exact keeps_push _
  | mul | add | sub | div | mod | joinStr | joinPadStr | lt | ltEq | ntEq | eq | gt | gtEq | and | or
  | containsStr | contains0Str | ontoSpr | intoSpr => exact keeps_binary _
  | inv | not | getField => exact keeps_unary _
  | getChunk =>
    exact .bind keeps_pop fun _ => .bind (keeps_popSelection _) fun _ => keeps_push _
  | hiliteChunk =>
    exact .bind keeps_popField fun _ => .bind (keeps_popSelection _) fun _ =>
      keeps_emit (.unary _ _)
  | startTell =>
    exact .bind keeps_pop fun target =>
      .bind (fun m => .ok (Admits.openTell rfl m target)) fun _ => keeps_emit (.tell rfl target)
  | endTell => exact keeps_closeTell rfl
  | pushList => exact keeps_pushList
  | pushPropList => exact keeps_pushPropertyList
  | pushArgListNoRet | pushArgListNoRet16 | pushArgList | pushArgList16 =>
    exact keeps_loadArguments _ _
  | pushSymb | pushPropName | getProp =>
    exact .bind (keeps_nameAt _) fun _ => keeps_push _
  | pushVarRef => exact .bind (keeps_nameAt _) fun _ => .bind .get fun _ => keeps_push _
  | getGlobal | getGlobal2 =>
    exact .bind (keeps_nameAt _) fun _ => .bind (keeps_declareGlobal _) fun _ =>
      keeps_push _
  | setGlobal | setGlobal2 =>
    exact .bind (keeps_nameAt _) fun _ => .bind (keeps_declareGlobal _) fun _ =>
      keeps_assign _
  | setProp | setMovieProp =>
    exact .bind (keeps_nameAt _) fun _ => .bind (keeps_propertyTarget _) fun _ =>
      keeps_assign _
  | endRepeat => exact keeps_closeLoop rfl _
  | localCall =>
    exact .bind .get fun _ => .bind (keeps_lookUp _ _ _) fun _ =>
      .bind keeps_popArguments fun _ => keeps_call _ _ _
  | extCall =>
    exact .bind (keeps_nameAt _) fun _ => .bind keeps_popArguments fun _ =>
      keeps_call _ _ _
  | extGlobalCall => exact .bind (keeps_nameAt _) fun _ => keeps_callGlobal _
  | getMovieProp =>
    refine .bind (keeps_nameAt _) fun name => ?_
    split
    · exact keeps_push _
    · exact keeps_push _
  | getObjProp =>
    exact .bind (keeps_nameAt _) fun _ => .bind keeps_pop fun _ => keeps_push _
  | setObjProp =>
    exact .bind (keeps_nameAt _) fun _ => .bind keeps_pop fun _ => .bind keeps_pop
      fun _ => keeps_emit (.assign _ _)
  | tellCall =>
    exact .bind (keeps_nameAt _) fun _ => .bind keeps_popArguments fun _ =>
      keeps_emit (.call _ _ _ _)
  | peek => exact keeps_peek _
  | pop => exact .bind (keeps_popMany _) fun _ => .pure _
  | theBuiltin => exact .bind (keeps_nameAt _) fun _ => keeps_pushBuiltin _
  | objCall => exact .bind (keeps_nameAt _) fun _ => keeps_callMethod _
  | jmp => exact keeps_emit (.jump rfl)
  | jmpIfZ => exact .bind keeps_pop fun _ => keeps_emit (.jumpUnless rfl _)

theorem ends_descale {f : Nat → Recovering α} {raw : Nat} (hraw : R m (m.descaled raw))
    (hf : ∀ index, i.Keeps R (f index)) : i.Ends R m ((descale raw >>= f).run m) := by
  unfold descale
  rw [run_modifyGet_bind]
  exact .of_admitted hraw (hf _ _)

theorem popIndex_eq_ok {raw : Nat} (h : i.popIndex.run m = .ok raw m') :
    m.topIndex? = some raw ∧ m'.context = m.context := by
  obtain ⟨node, m₁, hpop, hrest⟩ := run_bind_eq_ok h
  obtain ⟨stack, hstack, rfl⟩ := pop_eq_ok hpop
  unfold Machine.topIndex?
  rw [hstack]
  split at hrest
  · split at hrest
    · rename_i hparse
      cases hrest
      exact ⟨hparse, rfl⟩
    · cases hrest
  · cases hrest

theorem ends_stepPair (pair : PairOpcode)
    (h : pair.scalesIndex = true → ∀ raw, m.topIndex? = some raw →
      ∀ m', m'.context = m.context → R m' (m'.descaled raw)) :
    i.Ends R m ((i.stepPair pair).run m) := by
  cases hscales : pair.scalesIndex with
  | false => exact keeps_stepPair hscales m
  | true =>
    cases pair with
    | assignIntoLocal | assignAfterLocal | assignBeforeLocal =>
      refine .bind (keeps_popIndex m) fun raw m' hrun => ?_
      obtain ⟨htop, hcontext⟩ := popIndex_eq_ok hrun
      exact ends_descale (h rfl raw htop m' hcontext) fun _ => .bind (keeps_localAt _) fun _ =>
        keeps_put _ _
    | _ => cases hscales

/-- An instruction ends in any relation that admits what it does, if that has the scaling of the one
operand that it scales. -/
theorem ends_step (i : Instruction) [i.Admits R]
    (h : ∀ raw, i.scaled? m = some raw → ∀ m', m'.context = m.context → R m' (m'.descaled raw)) :
    i.Ends R m (i.step.run m) := by
  cases hopcode : i.opcode.isScaled with
  | false => exact keeps_step hopcode m
  | true =>
    obtain ⟨offset, opcode, operand⟩ := i
    cases opcode with
    | pushCons | pushCons16 =>
      exact ends_descale (h operand rfl m rfl) fun _ => .bind .get fun _ =>
        .bind (keeps_lookUp _ _ _) fun _ => keeps_push _
    | getParam =>
      exact ends_descale (h operand rfl m rfl) fun _ => .bind (keeps_parameterAt _) fun _ =>
        keeps_push _
    | getLocal =>
      exact ends_descale (h operand rfl m rfl) fun _ => .bind (keeps_localAt _) fun _ =>
        keeps_push _
    | setParam =>
      exact ends_descale (h operand rfl m rfl) fun _ => .bind (keeps_parameterAt _) fun _ =>
        keeps_assign _
    | setLocal =>
      exact ends_descale (h operand rfl m rfl) fun _ => .bind (keeps_localAt _) fun _ =>
        keeps_assign _
    | assignMode | putChunk | deleteChunk | get | set =>
      dsimp only [step, scaled?] at h ⊢
      split
      · rename_i pair hpair
        rw [hpair] at h
        exact ends_stepPair pair fun hscales raw hraw => h raw (by simp [hscales, hraw])
      · exact Keeps.throw (.unknownOpcodePair rfl) m
    | _ => cases hopcode

theorem respects_step (i : Instruction) : i.Respects i.step :=
  fun _ => (ends_step i fun raw _ m' _ => .descale m' raw).allows

end Instruction

end LingoSource
