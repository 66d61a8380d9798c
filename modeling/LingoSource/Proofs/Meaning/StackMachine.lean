import LingoSource.Instruction.Stream
import LingoSource.Proofs.Instruction.Effect
import Mathlib.Logic.Function.Basic

set_option autoImplicit false

namespace LingoSource

/-- A variable as bytecode refers to it: a global by the number of its name, others by index. -/
inductive Slot
  | global (number : Nat)
  | parameter (index : Nat)
  | localVariable (index : Nat)
  deriving DecidableEq, Repr

inductive Straight
  | integer (value : Int)
  | unary (op : UnaryOp)
  | binary (op : BinaryOp)
  | read (slot : Slot)
  | store (slot : Slot)
  | peek (depth : Nat)
  | pop (count : Nat)
  deriving DecidableEq, Repr

def Straight.slot? : Straight → Option Slot
  | .read slot | .store slot => some slot
  | _ => none

def slots (code : List Straight) : List Slot :=
  code.filterMap Straight.slot?

def BinaryOp.ofOpcode? : Opcode → Option BinaryOp
  | .add => some .add
  | .sub => some .sub
  | .mul => some .mul
  | .div => some .div
  | .mod => some .mod
  | .joinStr => some .concat
  | .joinPadStr => some .concatSpaces
  | .containsStr => some .contains
  | .contains0Str => some .start
  | .and => some .and
  | .or => some .or
  | .lt => some .lt
  | .ltEq => some .ltEq
  | .gt => some .gt
  | .gtEq => some .gtEq
  | .eq => some .eq
  | .ntEq => some .ntEq
  | .ontoSpr => some .intersects
  | .intoSpr => some .within
  | _ => none

theorem BinaryOp.ofOpcode?_eq_some_iff {opcode : Opcode} {op : BinaryOp} :
    ofOpcode? opcode = some op ↔ opcode = op.opcode := by
  constructor
  · intro h
    cases opcode <;> cases h <;> rfl
  · rintro rfl
    cases op <;> rfl

namespace Instruction

/-- The variable that a scaled operand refers to, and the scale that it leaves. -/
def scaled (scale raw : Nat) (slot : Nat → Slot) : Slot × Nat :=
  let scale := Context.narrowed scale raw
  (slot (raw / scale), scale)

def straight? (scale : Nat) (i : Instruction) : Option (Straight × Nat) :=
  match i.opcode with
  | .pushZero => some (.integer 0, scale)
  | .pushInt8 => some (.integer (signed 8 i.operand), scale)
  | .pushInt16 => some (.integer (signed 16 i.operand), scale)
  | .inv => some (.unary .minus, scale)
  | .not => some (.unary .not, scale)
  | .getGlobal => some (.read (.global i.operand), scale)
  | .getParam => some ((scaled scale i.operand .parameter).map .read id)
  | .getLocal => some ((scaled scale i.operand .localVariable).map .read id)
  | .setGlobal => some (.store (.global i.operand), scale)
  | .setParam => some ((scaled scale i.operand .parameter).map .store id)
  | .setLocal => some ((scaled scale i.operand .localVariable).map .store id)
  | .peek => some (.peek i.operand, scale)
  | .pop => some (.pop i.operand, scale)
  | opcode => (BinaryOp.ofOpcode? opcode).map fun op => (.binary op, scale)

def straightLine? (scale : Nat) : List Instruction → Option (List Straight)
  | [] => some []
  | i :: rest => do
    let (instruction, scale) ← i.straight? scale
    return instruction :: (← straightLine? scale rest)

end Instruction

structure Interpretation (α : Type) where
  integer : Int → α
  unary : UnaryOp → α → α
  binary : BinaryOp → α → α → α

/-- The top of the stack comes first. -/
structure StackMachine (α : Type) where
  stack : List α
  store : Slot → α

namespace StackMachine

variable {α : Type}

def step (I : Interpretation α) (k : StackMachine α) : Straight → Option (StackMachine α)
  | .integer value => some { k with stack := I.integer value :: k.stack }
  | .unary op =>
    match k.stack with
    | a :: stack => some { k with stack := I.unary op a :: stack }
    | _ => none
  | .binary op =>
    match k.stack with
    | b :: a :: stack => some { k with stack := I.binary op a b :: stack }
    | _ => none
  | .read slot => some { k with stack := k.store slot :: k.stack }
  | .store slot =>
    match k.stack with
    | a :: stack => some { stack, store := Function.update k.store slot a }
    | _ => none
  | .peek depth => k.stack[depth]?.map fun a => { k with stack := a :: k.stack }
  | .pop count =>
    if count ≤ k.stack.length then some { k with stack := k.stack.drop count } else none

def run (I : Interpretation α) (k : StackMachine α) (code : List Straight) :
    Option (StackMachine α) :=
  code.foldlM (step I) k

end StackMachine

end LingoSource
