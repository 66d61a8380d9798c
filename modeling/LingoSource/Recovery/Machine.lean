import LingoSource.Instruction.Pair
import LingoSource.Instruction.Stream
import LingoSource.Lingo.Expression
import LingoSource.Recovery.Context
import LingoSource.Tree.Script

/-!
The machine that reads bytecode as a program over a stack of expressions. An instruction either puts
a node on the stack or emits a statement. The state survives an error, so the scale that a handler
has narrowed down stays narrow.
-/
set_option autoImplicit false

namespace LingoSource

structure Machine where
  context : Context
  function : Function
  stack : List Node := []

abbrev Recovering := EStateM RecoveryError Machine

/-- The number that the text of a constant spells, if an address of 64 bits can hold it. -/
def parseIndex? (text : String) : Option Nat :=
  let digits := match text.toList with
    | '+' :: rest => rest
    | chars => chars
  if digits.isEmpty || !digits.all Char.isDigit then none
  else
    let n := digits.foldl (fun n c => n * 10 + (c.toNat - 48)) 0
    if n < Nat.pow 2 64 then some n else none

namespace Instruction

variable (i : Instruction)

def outOfRange {α : Type} (table : IndexedTable) (index : Nat) : Recovering α :=
  throw (.indexOutOfRange i.offset i.opcode.byte table index)

def unexpected {α : Type} (fault : OperandFault) : Recovering α :=
  throw (.unexpectedOperand i.offset i.opcode.byte fault)

def leaf (kind : LeafKind) (name : String) : Node :=
  .leaf kind name i.offset

def lookUp {α : Type} (table : IndexedTable) (entries : List α) (index : Nat) : Recovering α :=
  match entries[index]? with
  | some entry => pure entry
  | none => i.outOfRange table index

def nameAt (index : Nat) : Recovering String := do
  i.lookUp .names (← get).context.names index

def localAt (index : Nat) : Recovering Node := do
  i.lookUp .locals (← get).function.locals index

def parameterAt (index : Nat) : Recovering Node := do
  i.lookUp .parameters (← get).function.parameters index

def descale (raw : Nat) : Recovering Nat :=
  modifyGet fun m =>
    let (index, context) := m.context.descale raw
    (index, { m with context })

def pop : Recovering Node := fun m =>
  match m.stack with
  | [] => .error (.stackUnderflow i.offset i.opcode.byte) m
  | node :: stack => .ok node { m with stack }

/-- Pops `count` nodes; the one pushed first comes first. -/
def popMany (count : Nat) : Recovering (List Node) := fun m =>
  if count ≤ m.stack.length then
    .ok (m.stack.take count).reverse { m with stack := m.stack.drop count }
  else .error (.stackUnderflow i.offset i.opcode.byte) m

def push (node : Node) : Recovering Unit :=
  modify fun m => { m with stack := node :: m.stack }

def emit (node : Node) : Recovering Unit :=
  modify fun m =>
    { m with function.statements := m.function.statements ++ [⟨i.offset, node⟩] }

def declareGlobal (name : String) : Recovering Unit :=
  modify fun m => { m with function := m.function.addGlobal name }

def popIndex : Recovering Nat := do
  match ← i.pop with
  | .leaf .constant text _ =>
    match parseIndex? text with
    | some n => pure n
    | none => i.unexpected (.notAnInteger text)
  | _ => i.unexpected .notAConstant

/-- Pops the identifier of a sprite, cast member, menu or sound channel, as text. -/
def popIdentifier : Recovering String := do
  let node ← i.pop
  return node.word?.getD (Lingo.expression node)

def popArguments : Recovering (ListKind × List Node) := do
  match ← i.pop with
  | .arguments _ kind args => pure (kind, args)
  | _ => i.unexpected .notAnArgumentList

def popField : Recovering Node := do
  return .unary i.offset .field (← i.pop)

/-- Emits a node that yields no value, and pushes one that does. -/
def yieldBy (kind : ListKind) (node : Node) : Recovering Unit :=
  match kind with
  | .argList => push node
  | .argListNoRet => i.emit node

def call (name : String) (kind : ListKind) (args : List Node) : Recovering Unit :=
  i.yieldBy kind (.call i.offset name kind args false)

/-- One step from a text to a part of it; a start of zero selects the whole. -/
def select (kind : ChunkKind) (first last of : Node) : Node :=
  if first.word? = some "0" then of
  else if last.word? = some "0" then .chunk i.offset kind first of
  else .chunkRange i.offset kind first last of

def popSelection (of : Node) : Recovering Node := do
  let lastLine ← i.pop
  let firstLine ← i.pop
  let lastItem ← i.pop
  let firstItem ← i.pop
  let lastWord ← i.pop
  let firstWord ← i.pop
  let lastChar ← i.pop
  let firstChar ← i.pop
  let of := i.select .line firstLine lastLine of
  let of := i.select .item firstItem lastItem of
  let of := i.select .word firstWord lastWord of
  return i.select .char firstChar lastChar of

end Instruction

end LingoSource
