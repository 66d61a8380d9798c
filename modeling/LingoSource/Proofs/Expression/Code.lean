import LingoSource.Proofs.Instruction.Effect
import LingoSource.Proofs.Tree.Forget

/-!
Expressions as a compiler writes them: operands first, then the operation, arguments in their order.
An expression names variables, constants and words by number, as the bytecode does; a scope says
what the numbers stand for. Beside the code stands the tree that it spells, without places.
-/
set_option autoImplicit false

namespace LingoSource

inductive Expression
  | int8 (byte : UInt8)
  | int16 (word : UInt16)
  | constant (index : Nat)
  | symbol (name : Nat)
  | global (name : Nat)
  | property (name : Nat)
  | parameter (index : Nat)
  | localVariable (index : Nat)
  | unary (op : PrefixOp) (operand : Expression)
  | binary (op : BinaryOp) (left right : Expression)
  /-- `the p of e` -/
  | propertyOf (name : Nat) (object : Expression)
  | list (elements : List Expression)
  /-- Keys and values in turn. -/
  | propertyList (values : List Expression)
  | call (name : Nat) (args : List Expression)
  | methodCall (name : Nat) (args : List Expression) (receiver : Expression)

namespace Expression

mutual

def code (scale : Nat) : Expression → List Operation
  | int8 byte => [⟨.pushInt8, byte.toNat⟩]
  | int16 word => [⟨.pushInt16, word.toNat⟩]
  | constant index => [⟨.pushCons, index * scale⟩]
  | symbol name => [⟨.pushSymb, name⟩]
  | global name => [⟨.getGlobal, name⟩]
  | property name => [⟨.getProp, name⟩]
  | parameter index => [⟨.getParam, index * scale⟩]
  | localVariable index => [⟨.getLocal, index * scale⟩]
  | unary op operand => operand.code scale ++ [⟨op.opcode, 0⟩]
  | binary op left right => left.code scale ++ right.code scale ++ [⟨op.opcode, 0⟩]
  | propertyOf name object => object.code scale ++ [⟨.getObjProp, name⟩]
  | list elements => codeAll scale elements ++ [⟨.pushArgList, elements.length⟩, ⟨.pushList, 0⟩]
  | propertyList values =>
    codeAll scale values ++ [⟨.pushArgList, values.length⟩, ⟨.pushPropList, 0⟩]
  | call name args => codeAll scale args ++ [⟨.pushArgList, args.length⟩, ⟨.extCall, name⟩]
  | methodCall name args receiver =>
    codeAll scale args ++ receiver.code scale ++
      [⟨.pushArgList, args.length + 1⟩, ⟨.pushList, 0⟩, ⟨.objCall, name⟩]

def codeAll (scale : Nat) : List Expression → List Operation
  | [] => []
  | e :: rest => e.code scale ++ codeAll scale rest

end

mutual

def tree (s : Scope) : Expression → Node
  | int8 byte => .leaf .constant (toString (signed 8 byte.toNat)) 0
  | int16 word => .leaf .constant (toString (signed 16 word.toNat)) 0
  | constant index => .leaf .constant (s.constant index) 0
  | symbol name => .leaf .symbol (s.name name) 0
  | global name => .leaf .globalVariable (s.name name) 0
  | property name => .leaf .definedPropertyName (s.name name) 0
  | parameter index => .leaf .parameterName (s.parameterName index) 0
  | localVariable index => (s.localNode index).forget
  | unary op operand => .unary 0 op.unary (operand.tree s)
  | binary op left right => .binary 0 op (left.tree s) (right.tree s)
  | propertyOf name object => .property 0 (object.tree s) (s.name name)
  | list elements => .list 0 (.arguments 0 .argList (treeAll s elements))
  | propertyList values => .propertyList 0 (.arguments 0 .argList (treeAll s values))
  | call name args => .call 0 (s.name name) .argList (treeAll s args) false
  | methodCall name args receiver =>
    .methodCall 0 (s.name name) (receiver.tree s) .argList (treeAll s args)

def treeAll (s : Scope) : List Expression → List Node
  | [] => []
  | e :: rest => e.tree s :: treeAll s rest

end

def Numbered {α : Type} (entries : List α) (number : Nat) : Prop :=
  number < entries.length ∧ number < 256

def Scaled {α : Type} (scale : Nat) (entries : List α) (index : Nat) : Prop :=
  index < entries.length ∧ index * scale < 256

mutual

/-- All operands of the code are in range, and a property list has a value for each key. -/
def InRange (s : Scope) : Expression → Prop
  | int8 _ => True
  | int16 _ => True
  | constant index => Scaled s.scale s.constants index
  | symbol name => Numbered s.names name
  | global name => Numbered s.names name
  | property name => Numbered s.names name
  | parameter index => Scaled s.scale s.parameters index
  | localVariable index => Scaled s.scale s.locals index
  | unary _ operand => operand.InRange s
  | binary _ left right => left.InRange s ∧ right.InRange s
  | propertyOf name object => Numbered s.names name ∧ object.InRange s
  | list elements => elements.length < 256 ∧ AllInRange s elements
  | propertyList values =>
    values.length < 256 ∧ values.length % 2 = 0 ∧ AllInRange s values
  | call name args => Numbered s.names name ∧ args.length < 256 ∧ AllInRange s args
  | methodCall name args receiver =>
    Numbered s.names name ∧ args.length + 1 < 256 ∧ AllInRange s args ∧ receiver.InRange s

def AllInRange (s : Scope) : List Expression → Prop
  | [] => True
  | e :: rest => e.InRange s ∧ AllInRange s rest

end

end Expression

end LingoSource
