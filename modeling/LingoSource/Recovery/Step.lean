import LingoSource.Recovery.Machine
import LingoSource.Vocabulary

set_option autoImplicit false

namespace LingoSource.Instruction

variable (i : Instruction)

def binary (op : BinaryOp) : Recovering Unit := do
  let right ← i.pop
  let left ← i.pop
  push (.binary i.offset op left right)

def unary (op : UnaryOp) : Recovering Unit := do
  push (.unary i.offset op (← i.pop))

def assign (left : Node) : Recovering Unit := do
  i.emit (.assign i.offset left (← i.pop))

def put (mode : PutMode) (left : Node) : Recovering Unit := do
  i.emit (.put i.offset mode left (← i.pop))

def putIntoLocal (mode : PutMode) : Recovering Unit := do
  let raw ← i.popIndex
  let index ← descale raw
  i.put mode (← i.localAt index)

def putIntoPart (mode : PutMode) (of : Node) : Recovering Unit := do
  i.put mode (← i.popSelection of)

def delete (of : Node) : Recovering Unit := do
  i.emit (.unary i.offset .delete (← i.popSelection of))

def loadArguments (kind : ListKind) (count : Nat) : Recovering Unit := do
  push (.arguments i.offset kind (← i.popMany count))

def pushList : Recovering Unit := do
  match ← i.pop with
  | values@(.arguments ..) => push (.list i.offset values)
  | _ => i.unexpected .listOfNoArguments

def pushPropertyList : Recovering Unit := do
  match ← i.pop with
  | values@(.arguments _ _ args) =>
    if args.length % 2 = 0 then push (.propertyList i.offset values)
    else i.unexpected (.oddPropertyList args.length)
  | _ => i.unexpected .propertyListOfNoArguments

def pushConstant (raw : Nat) : Recovering Unit := do
  let index ← descale raw
  push (i.leaf .constant (← i.lookUp .constants (← get).context.constants index))

/-- Calls what the text of a node names. A symbol among the arguments that names the global given by
the operand stands for that global. -/
def callGlobal (name : String) : Recovering Unit := do
  let callee ← i.pop
  let (kind, args) ← i.popArguments
  let args := args.map fun
    | .leaf .symbol symbol position =>
      .leaf (if symbol = name then .globalVariable else .symbol) symbol position
    | arg => arg
  i.call (Lingo.expression callee) kind args

/-- The receiver is the last argument. -/
def callMethod (name : String) : Recovering Unit := do
  match ← i.pop with
  | .list _ (.arguments _ kind args) =>
    match args.getLast? with
    | some object => i.yieldBy kind (.methodCall i.offset name object kind args.dropLast)
    | none => i.unexpected .methodWithoutReceiver
  | .list .. => i.unexpected .methodWithoutArguments
  | _ => i.unexpected .methodWithoutList

def pushBuiltin (name : String) : Recovering Unit := do
  match ← i.pop with
  | .arguments _ _ [] => push (.builtinProperty i.offset name)
  | _ => i.unexpected .builtinWithArguments

/-- The left side of an assignment to a name that may be a property of the script itself. -/
def propertyTarget (name : String) : Recovering Node := do
  if name ∈ (← get).context.properties then
    return .property i.offset (i.leaf .raw "me") name
  else return i.leaf .propertyName name

def peek (depth : Nat) : Recovering Unit := do
  push (← i.lookUp .stack (← get).stack depth)

def closeLoop (distance : Nat) : Recovering Unit := do
  if i.offset < distance then i.unexpected (.loopBeforeStart distance)
  let start := i.offset - distance
  modify fun m =>
    let (outer, body) := m.function.statements.partition (·.position < start)
    { m with
      function.statements := outer ++
        [⟨i.offset, .loop i.offset start i.offset .whileTrue (.leaf .constant "TRUE" start) body⟩] }

def splitAtTell (position : Nat) (statements : List Statement) :
    Option (List Statement × Nat × Node × List Statement × List Statement) :=
  let isTell (s : Statement) : Bool :=
    s.position = position && (match s.node with | .tell .. => true | _ => false)
  let after := (statements.reverse.takeWhile (!isTell ·)).reverse
  match (statements.take (statements.length - after.length)).reverse with
  | ⟨_, .tell origin target body⟩ :: before => some (before.reverse, origin, target, body, after)
  | _ => none

def closeTell : Recovering Unit := do
  let position? ← modifyGet fun m =>
    let (position?, context) := m.context.closeTell
    (position?, { m with context })
  let statements := (← get).function.statements
  match position?.bind fun p => (splitAtTell p statements).map (p, ·) with
  | none => throw (.unmatchedTellEnd i.offset)
  | some (position, before, origin, target, body, after) =>
    modify fun m =>
      { m with
        function.statements := before ++ [⟨position, .tell origin target (body ++ after)⟩] }

/-- A property by number: a special property, a date or time, or the last part of a text. -/
def specialProperty : Recovering Node := do
  let index ← i.popIndex
  match Vocabulary.specialProperties[index]? with
  | some name => return i.leaf .propertyName name
  | none =>
    match Vocabulary.dateTimeFunctions[index - 6]? with
    | some name => return i.leaf .dateTimeFunction name
    | none =>
      let part ← i.lookUp .textParts Vocabulary.textParts (index - 11)
      return .aspect i.offset .last (some part) (← i.pop)

/-- Inside a `tell`, a system property belongs to its target. -/
def systemProperty : Recovering Node := do
  let index ← i.popIndex
  let (name, owner) ← i.lookUp .systemProperties Vocabulary.systemProperties index
  let owner := if (← get).context.tells.isEmpty then owner else "tell_obj"
  return .property i.offset (i.leaf .localVariable owner) name

def menuAspect : Recovering Unit := do
  let kind ← i.popIndex
  let menu := i.leaf .menu (← i.popIdentifier)
  match kind with
  | 1 => push (.aspect i.offset .name none menu)
  | 2 => push (.aspect i.offset .number none (.menuItemsOf i.offset menu))
  | kind => i.unexpected (.unknownMenuProperty kind)

def popPropertyName (table : IndexedTable) (names : List String) : Recovering String := do
  i.lookUp table names (← i.popIndex)

def objectOf (kind : LeafKind) (name : String) : Recovering Node := do
  return .property i.offset (i.leaf kind (← i.popIdentifier)) name

def menuItemOf (name : String) : Recovering Node := do
  let menu := i.leaf .menu (← i.popIdentifier)
  let item := i.leaf .menuItem (← i.popIdentifier)
  return .property i.offset (.menuItemOf i.offset menu item) name

def readProperty (table : IndexedTable) (names : List String) (owner : String → Recovering Node) :
    Recovering Unit := do
  push (← owner (← i.popPropertyName table names))

/-- Writes a property; its value lies between its number and the object. -/
def writeProperty (table : IndexedTable) (names : List String)
    (owner : String → Recovering Node) : Recovering Unit := do
  let name ← i.popPropertyName table names
  let value ← i.pop
  i.emit (.assign i.offset (← owner name) value)

def stepPair (pair : PairOpcode) : Recovering Unit := do
  match pair with
  | .assignIntoLocal => i.putIntoLocal .into
  | .assignAfterLocal => i.putIntoLocal .after
  | .assignBeforeLocal => i.putIntoLocal .before
  | .assignIntoField => i.put .into (← i.popField)
  | .assignAfterField => i.put .after (← i.popField)
  | .assignBeforeField => i.put .before (← i.popField)
  | .putIntoField | .putIntoFieldChunk => i.putIntoPart .into (← i.popField)
  | .putAfterField => i.putIntoPart .after (← i.popField)
  | .putBeforeField => i.putIntoPart .before (← i.popField)
  | .putIntoVar => i.putIntoPart .into (← i.pop)
  | .putAfterVar => i.putIntoPart .after (← i.pop)
  | .putBeforeVar => i.putIntoPart .before (← i.pop)
  | .putIntoLocal => i.putIntoPart .into (← i.localAt (← i.popIndex))
  | .putAfterLocal => i.putIntoPart .after (← i.localAt (← i.popIndex))
  | .putBeforeLocal => i.putIntoPart .before (← i.localAt (← i.popIndex))
  | .deleteVar => i.delete (← i.pop)
  | .deleteLocal => i.delete (← i.localAt (← i.popIndex))
  | .deleteField => i.delete (← i.popField)
  | .getSpecial => push (← i.specialProperty)
  | .setSpecial => i.assign (← i.specialProperty)
  | .getNumberOf =>
    let part ← i.popPropertyName .textParts Vocabulary.textParts
    push (.aspect i.offset .number (some part) (← i.pop))
  | .getMenu => i.menuAspect
  | .getMenuItem =>
    i.readProperty .menuItemProperties Vocabulary.menuItemProperties i.menuItemOf
  | .setMenuItem =>
    i.writeProperty .menuItemProperties Vocabulary.menuItemProperties i.menuItemOf
  | .getSound =>
    i.readProperty .soundProperties Vocabulary.soundProperties (i.objectOf .soundChannel)
  | .setSound =>
    i.writeProperty .soundProperties Vocabulary.soundProperties (i.objectOf .soundChannel)
  | .getSprite =>
    i.readProperty .spriteProperties Vocabulary.spriteProperties (i.objectOf .sprite)
  | .setSprite =>
    i.writeProperty .spriteProperties Vocabulary.spriteProperties (i.objectOf .sprite)
  | .getSystem => push (← i.systemProperty)
  | .setSystem => i.assign (← i.systemProperty)
  | .getCastCount =>
    let name ← i.popPropertyName .movieCounts Vocabulary.movieCounts
    push (.aspect i.offset .number none (i.leaf .localVariable name))
  | .getCast => i.readProperty .castProperties Vocabulary.castProperties (i.objectOf .cast)
  | .setCast => i.writeProperty .castProperties Vocabulary.castProperties (i.objectOf .cast)
  | .getFieldProp =>
    let name ← i.popPropertyName .castProperties Vocabulary.castProperties
    push (.property i.offset (← i.popField) name)
  | .setFieldProp => i.writeProperty .castProperties Vocabulary.castProperties (i.objectOf .cast)
  | .getVideo => i.readProperty .videoProperties Vocabulary.videoProperties (i.objectOf .cast)
  | .setVideo => i.writeProperty .videoProperties Vocabulary.videoProperties (i.objectOf .cast)

def step : Recovering Unit := do
  match i.opcode with
  | .exit => i.emit (.call i.offset "exit" .argListNoRet [] false)
  | .pushZero => push (i.leaf .constant "0")
  | .mul => i.binary .mul
  | .add => i.binary .add
  | .sub => i.binary .sub
  | .div => i.binary .div
  | .mod => i.binary .mod
  | .joinStr => i.binary .concat
  | .joinPadStr => i.binary .concatSpaces
  | .lt => i.binary .lt
  | .ltEq => i.binary .ltEq
  | .ntEq => i.binary .ntEq
  | .eq => i.binary .eq
  | .gt => i.binary .gt
  | .gtEq => i.binary .gtEq
  | .and => i.binary .and
  | .or => i.binary .or
  | .containsStr => i.binary .contains
  | .contains0Str => i.binary .start
  | .ontoSpr => i.binary .intersects
  | .intoSpr => i.binary .within
  | .inv => i.unary .minus
  | .not => i.unary .not
  | .getField => i.unary .field
  | .getChunk => push (← i.popSelection (← i.pop))
  | .hiliteChunk => i.emit (.unary i.offset .hilite (← i.popSelection (← i.popField)))
  | .startTell =>
    let target ← i.pop
    modify fun m => { m with context := m.context.openTell i.offset target }
    i.emit (.tell i.offset target [])
  | .endTell => i.closeTell
  | .pushList => i.pushList
  | .pushPropList => i.pushPropertyList
  | .pushInt8 => push (i.leaf .constant (toString (signed 8 i.operand)))
  | .pushInt16 => push (i.leaf .constant (toString (signed 16 i.operand)))
  | .pushArgListNoRet | .pushArgListNoRet16 => i.loadArguments .argListNoRet i.operand
  | .pushArgList | .pushArgList16 => i.loadArguments .argList i.operand
  | .pushCons | .pushCons16 => i.pushConstant i.operand
  | .pushSymb => push (i.leaf .symbol (← i.nameAt i.operand))
  | .pushPropName => push (i.leaf .propertyName (← i.nameAt i.operand))
  | .pushVarRef =>
    let name ← i.nameAt i.operand
    let isGlobal := (← get).function.hasGlobal name
    push (i.leaf (if isGlobal then .globalVariable else .localVariable) name)
  | .getGlobal | .getGlobal2 =>
    let name ← i.nameAt i.operand
    declareGlobal name
    push (i.leaf .globalVariable name)
  | .getProp => push (i.leaf .definedPropertyName (← i.nameAt i.operand))
  | .getParam =>
    let parameter ← i.parameterAt (← descale i.operand)
    push (i.leaf .parameterName (parameter.word?.getD Context.unnamed))
  | .getLocal => push (← i.localAt (← descale i.operand))
  | .setGlobal | .setGlobal2 =>
    let name ← i.nameAt i.operand
    declareGlobal name
    i.assign (i.leaf .globalVariable name)
  | .setProp | .setMovieProp => i.assign (← i.propertyTarget (← i.nameAt i.operand))
  | .setParam => i.assign (← i.parameterAt (← descale i.operand))
  | .setLocal => i.assign (← i.localAt (← descale i.operand))
  | .endRepeat => i.closeLoop i.operand
  | .localCall =>
    let name ← i.lookUp .handlers (← get).context.handlerNames i.operand
    let (kind, args) ← i.popArguments
    i.call name kind args
  | .extCall =>
    let name ← i.nameAt i.operand
    let (kind, args) ← i.popArguments
    i.call name kind args
  | .extGlobalCall => i.callGlobal (← i.nameAt i.operand)
  | .getMovieProp =>
    let name ← i.nameAt i.operand
    match Vocabulary.moviePropertyOwners.lookup name with
    | some owner => push (.property i.offset (i.leaf .localVariable owner) name)
    | none => push (i.leaf .propertyName name)
  | .getObjProp =>
    let name ← i.nameAt i.operand
    push (.property i.offset (← i.pop) name)
  | .setObjProp =>
    let name ← i.nameAt i.operand
    let value ← i.pop
    i.emit (.assign i.offset (.property i.offset (← i.pop) name) value)
  | .tellCall =>
    let name ← i.nameAt i.operand
    let (kind, args) ← i.popArguments
    i.emit (.call i.offset name kind args true)
  | .peek => i.peek i.operand
  | .pop => let _ ← i.popMany i.operand
  | .theBuiltin => i.pushBuiltin (← i.nameAt i.operand)
  | .objCall => i.callMethod (← i.nameAt i.operand)
  | .jmp => i.emit (.jump i.offset (i.offset + i.operand))
  | .jmpIfZ =>
    let condition ← i.pop
    i.emit (.jumpUnless i.offset condition (i.offset + i.operand))
  | .assignMode | .putChunk | .deleteChunk | .get | .set =>
    let second := UInt8.ofNat i.operand
    match PairOpcode.ofBytes? i.opcode.byte second with
    | some pair => i.stepPair pair
    | none => throw (.unknownOpcodePair i.offset i.opcode.byte second)

def run (offset : Nat) (bytecode : List UInt8) : Recovering Unit := do
  let (instructions, stop) := decode offset bytecode
  instructions.forM step
  match stop with
  | some e => throw e
  | none => pure ()

end LingoSource.Instruction
