import LingoSource.Instruction.Opcode
import LingoSource.Recovery.Error

/-!
Bytecode as instructions. Decoding goes on as long as the bytes make whole instructions with known
codes, and tells what stopped it.
-/
set_option autoImplicit false

namespace LingoSource

structure Instruction where
  offset : Nat
  opcode : Opcode
  operand : Nat
  deriving DecidableEq, Repr

namespace Instruction

def size (i : Instruction) : Nat :=
  1 + i.opcode.operandWidth

/-- The instructions of the bytes that start at `offset`, and the error at the first byte that
starts none. -/
def decode (offset : Nat) : List UInt8 → List Instruction × Option RecoveryError
  | [] => ([], none)
  | b :: rest =>
    match Opcode.ofByte? b with
    | none => ([], some (.unknownOpcode offset b))
    | some opcode =>
      match opcode.operandWidth, rest with
      | 0, rest =>
        let (instructions, stop) := decode (offset + 1) rest
        (⟨offset, opcode, 0⟩ :: instructions, stop)
      | 1, x :: rest =>
        let (instructions, stop) := decode (offset + 2) rest
        (⟨offset, opcode, x.toNat⟩ :: instructions, stop)
      | 2, x :: y :: rest =>
        let (instructions, stop) := decode (offset + 3) rest
        (⟨offset, opcode, x.toNat * 256 + y.toNat⟩ :: instructions, stop)
      | _, _ => ([], some (.truncatedInstruction offset b))

end Instruction

end LingoSource
