import LingoSource.Proofs.Instruction.Effect
import LingoSource.Proofs.Tree.Forget

/-!
Structured programs as a compiler writes them: calls, branches, `tell` blocks, loops and exits from
loops, nested to any depth. All jumps go forward over code whose size is known, and a loop jumps back
to its start. Beside the code of a program stands the tree that it spells, without places.
-/
set_option autoImplicit false

namespace LingoSource

inductive Push
  | zero
  | byte (value : UInt8)
  | word (value : UInt16)
  deriving DecidableEq, Repr

namespace Push

def operation : Push → Operation
  | zero => ⟨.pushZero, 0⟩
  | byte value => ⟨.pushInt8, value.toNat⟩
  | word value => ⟨.pushInt16, value.toNat⟩

def text : Push → String
  | zero => "0"
  | byte value => toString (signed 8 value.toNat)
  | word value => toString (signed 16 value.toNat)

def size (c : Push) : Nat := c.operation.size

def node (c : Push) (offset : Nat) : Node := .leaf .constant c.text offset

end Push

/-- Where the scaled operands of a program are small, all its variables are locals with a number. -/
inductive Block
  | call (name : Nat)
  | exitLoop
  | ifThen (condition : Push) (thenPart : List Block)
  | ifElse (condition : Push) (thenPart elsePart : List Block)
  /-- `tell` to a global. -/
  | tell (target : Nat) (body : List Block)
  /-- `repeat while` a local is below a bound. -/
  | whileLess (index : Nat) (bound : UInt8) (body : List Block)
  /-- `repeat with` a local from one bound up or down to another. -/
  | counted (index : Nat) (first last : UInt8) (up : Bool) (body : List Block)

namespace Block

mutual

def size : Block → Nat
  | call _ => 4
  | exitLoop => 3
  | ifThen condition thenPart => condition.size + 3 + sizeAll thenPart
  | ifElse condition thenPart elsePart =>
    condition.size + 3 + sizeAll thenPart + 3 + sizeAll elsePart
  | tell _ body => 3 + sizeAll body + 1
  | whileLess _ _ body => 8 + sizeAll body + 2
  | counted _ _ _ _ body => 12 + sizeAll body + 9

def sizeAll : List Block → Nat
  | [] => 0
  | b :: rest => b.size + sizeAll rest

end

def testCode (scale index : Nat) (compared : BinaryOp) (bound : UInt8) (distance : Nat) :
    List Operation :=
  [⟨.getLocal, index * scale⟩, ⟨.pushInt8, bound.toNat⟩, ⟨compared.opcode, 0⟩, ⟨.jmpIfZ, distance⟩]

def comparison (up : Bool) : BinaryOp := if up then .ltEq else .gtEq

def increment (up : Bool) : UInt8 := if up then 1 else 255

mutual

/-- The code of a block that lies `exit` bytes in front of the end of the loop around it. -/
def code (scale exit : Nat) : Block → List Operation
  | call name => [⟨.pushArgListNoRet, 0⟩, ⟨.extCall, name⟩]
  | exitLoop => [⟨.jmp, 3 + exit⟩]
  | ifThen condition thenPart =>
    [condition.operation, ⟨.jmpIfZ, 3 + sizeAll thenPart⟩] ++ codeAll scale exit thenPart
  | ifElse condition thenPart elsePart =>
    [condition.operation, ⟨.jmpIfZ, 3 + (sizeAll thenPart + 3)⟩] ++
      codeAll scale (exit + (3 + sizeAll elsePart)) thenPart ++
      [⟨.jmp, 3 + sizeAll elsePart⟩] ++ codeAll scale exit elsePart
  | tell target body =>
    [⟨.getGlobal, target⟩, ⟨.startTell, 0⟩] ++ codeAll scale (exit + 1) body ++ [⟨.endTell, 0⟩]
  | whileLess index bound body =>
    testCode scale index .lt bound (3 + sizeAll body + 2) ++ codeAll scale 2 body ++
      [⟨.endRepeat, 8 + sizeAll body⟩]
  | counted index first last up body =>
    [⟨.pushInt8, first.toNat⟩, ⟨.setLocal, index * scale⟩] ++
      testCode scale index (comparison up) last (3 + sizeAll body + 9) ++ codeAll scale 9 body ++
      [⟨.pushInt8, (increment up).toNat⟩, ⟨.getLocal, index * scale⟩, ⟨.add, 0⟩,
        ⟨.setLocal, index * scale⟩, ⟨.endRepeat, 15 + sizeAll body⟩]

def codeAll (scale exit : Nat) : List Block → List Operation
  | [] => []
  | b :: rest => b.code scale (exit + sizeAll rest) ++ codeAll scale exit rest

end

def testNode (s : Scope) (offset index : Nat) (compared : BinaryOp) (bound : UInt8) : Node :=
  .binary (offset + 4) compared (s.localNode index) ((Push.byte bound).node (offset + 2))

mutual

def tree (s : Scope) : Block → Statement
  | call name => ⟨0, .call 0 (s.name name) .argListNoRet [] false⟩
  | exitLoop => ⟨0, .exitLoop 0⟩
  | ifThen condition thenPart => ⟨0, .branch 0 (condition.node 0) (treeAll s thenPart) []⟩
  | ifElse condition thenPart elsePart =>
    ⟨0, .branch 0 (condition.node 0) (treeAll s thenPart) (treeAll s elsePart)⟩
  | tell target body =>
    ⟨0, .tell 0 (.leaf .globalVariable (s.name target) 0) (treeAll s body)⟩
  | whileLess index bound body =>
    ⟨0, .loop 0 0 0 .whileTrue (testNode s 0 index .lt bound).forget (treeAll s body)⟩
  | counted index first last up body =>
    ⟨0, .loop 0 0 0
      (.counted (s.localName index) ((Push.byte first).node 0) ((Push.byte last).node 0) up)
      (testNode s 0 index (comparison up) last).forget (treeAll s body)⟩

def treeAll (s : Scope) : List Block → List Statement
  | [] => []
  | b :: rest => b.tree s :: treeAll s rest

end

mutual

def Declared (s : Scope) : Block → Prop
  | call name => name < s.names.length
  | exitLoop => True
  | ifThen _ thenPart => DeclaredAll s thenPart
  | ifElse _ thenPart elsePart => DeclaredAll s thenPart ∧ DeclaredAll s elsePart
  | tell target body => target < s.names.length ∧ DeclaredAll s body
  | whileLess index _ body => index < s.locals.length ∧ DeclaredAll s body
  | counted index _ _ _ body => index < s.locals.length ∧ DeclaredAll s body

def DeclaredAll (s : Scope) : List Block → Prop
  | [] => True
  | b :: rest => b.Declared s ∧ DeclaredAll s rest

end

mutual

/-- Exits stand in loops only, and no second part of a branch is empty. -/
def WellFormed (inLoop : Bool) : Block → Prop
  | call _ => True
  | exitLoop => inLoop = true
  | ifThen _ thenPart => WellFormedAll inLoop thenPart
  | ifElse _ thenPart elsePart =>
    elsePart ≠ [] ∧ WellFormedAll inLoop thenPart ∧ WellFormedAll inLoop elsePart
  | tell _ body => WellFormedAll inLoop body
  | whileLess _ _ body => WellFormedAll true body
  | counted _ _ _ _ body => WellFormedAll true body

def WellFormedAll (inLoop : Bool) : List Block → Prop
  | [] => True
  | b :: rest => b.WellFormed inLoop ∧ WellFormedAll inLoop rest

end

mutual

def ExitFree : Block → Prop
  | call _ => True
  | exitLoop => False
  | ifThen _ thenPart => ExitFreeAll thenPart
  | ifElse _ thenPart elsePart => ExitFreeAll thenPart ∧ ExitFreeAll elsePart
  | tell _ body => ExitFreeAll body
  | whileLess _ _ body => ExitFreeAll body
  | counted _ _ _ _ body => ExitFreeAll body

def ExitFreeAll : List Block → Prop
  | [] => True
  | b :: rest => b.ExitFree ∧ ExitFreeAll rest

end

theorem sizeAll_testCode (scale index : Nat) (compared : BinaryOp) (bound : UInt8)
    (distance : Nat) : Operation.sizeAll (testCode scale index compared bound distance) = 8 := by
  cases compared <;> rfl

theorem size_operation (c : Push) : c.operation.size = c.size := rfl

mutual

theorem sizeAll_code (scale exit : Nat) :
    (b : Block) → Operation.sizeAll (b.code scale exit) = b.size
  | call _ | exitLoop => rfl
  | ifThen condition thenPart => by
    have := sizeAll_codeAll scale exit thenPart
    have hwidth : Operation.size ⟨.jmpIfZ, 3 + sizeAll thenPart⟩ = 3 := rfl
    simp only [code, size, Operation.sizeAll_append, Operation.sizeAll, size_operation]
    omega
  | ifElse condition thenPart elsePart => by
    have := sizeAll_codeAll scale (exit + (3 + sizeAll elsePart)) thenPart
    have := sizeAll_codeAll scale exit elsePart
    have hwidth : Operation.size ⟨.jmpIfZ, 3 + (sizeAll thenPart + 3)⟩ = 3 := rfl
    have hjump : Operation.size ⟨.jmp, 3 + sizeAll elsePart⟩ = 3 := rfl
    simp only [code, size, Operation.sizeAll_append, Operation.sizeAll, size_operation]
    omega
  | tell target body => by
    have := sizeAll_codeAll scale (exit + 1) body
    have hopen : Operation.sizeAll [⟨.getGlobal, target⟩, ⟨.startTell, 0⟩] = 3 := rfl
    have hclose : Operation.sizeAll [⟨.endTell, 0⟩] = 1 := rfl
    simp only [code, size, Operation.sizeAll_append]
    omega
  | whileLess index bound body => by
    have := sizeAll_codeAll scale 2 body
    have hclose : Operation.sizeAll [⟨.endRepeat, 8 + sizeAll body⟩] = 2 := rfl
    simp only [code, size, Operation.sizeAll_append, sizeAll_testCode]
    omega
  | counted index first last up body => by
    have := sizeAll_codeAll scale 9 body
    have hopen : Operation.sizeAll [⟨.pushInt8, first.toNat⟩, ⟨.setLocal, index * scale⟩] = 4 := rfl
    have hclose : Operation.sizeAll [⟨.pushInt8, (increment up).toNat⟩, ⟨.getLocal, index * scale⟩,
        ⟨.add, 0⟩, ⟨.setLocal, index * scale⟩, ⟨.endRepeat, 15 + sizeAll body⟩] = 9 := rfl
    simp only [code, size, Operation.sizeAll_append, sizeAll_testCode]
    omega

theorem sizeAll_codeAll (scale exit : Nat) :
    (blocks : List Block) → Operation.sizeAll (codeAll scale exit blocks) = sizeAll blocks
  | [] => rfl
  | b :: rest => by
    have := sizeAll_code scale (exit + sizeAll rest) b
    have := sizeAll_codeAll scale exit rest
    simp only [codeAll, sizeAll, Operation.sizeAll_append]
    omega

end

end Block

end LingoSource
