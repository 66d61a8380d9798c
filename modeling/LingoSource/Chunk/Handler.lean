import LingoSource.Chunk.Error

set_option autoImplicit false

namespace LingoSource

structure Variable where
  nameId : Int
  offset : Nat
  deriving DecidableEq, Repr

/-- A negative count stands for an empty table. -/
structure HandlerRecord where
  nameId : Int
  codeLength : Nat
  codeOffset : Nat
  parameterCount : Nat
  parameterOffset : Nat
  localCount : Nat
  localOffset : Nat
  /-- The offset just past the record, which stands for the handler itself. -/
  endOffset : Nat
  deriving DecidableEq, Repr

structure Handler where
  record : HandlerRecord
  parameters : List Variable
  locals : List Variable
  bytecode : List UInt8
  deriving DecidableEq, Repr

namespace HandlerRecord

def size : Nat := 42

def read (data : Bytes) (offset : Nat) : Except ChunkError HandlerRecord :=
  ChunkPart.handlerRecord offset |>.reading do
    let nameId ← data.int16 offset
    let _ ← data.int16 (offset + 2)
    let codeLength ← data.int32 (offset + 4)
    let codeOffset ← data.int32 (offset + 8)
    let parameterCount ← data.int16 (offset + 12)
    let parameterOffset ← data.int32 (offset + 14)
    let localCount ← data.int16 (offset + 18)
    let localOffset ← data.int32 (offset + 20)
    let _ ← data.int16 (offset + 24)
    let _ ← data.int32 (offset + 26)
    let _ ← data.int32 (offset + 30)
    let _ ← data.int16 (offset + 34)
    let _ ← data.int16 (offset + 36)
    let _ ← data.int32 (offset + 38)
    return {
      nameId
      codeLength := address codeLength
      codeOffset := address codeOffset
      parameterCount := parameterCount.toNat
      parameterOffset := address parameterOffset
      localCount := localCount.toNat
      localOffset := address localOffset
      endOffset := offset + size }

def readAll (data : Bytes) : (count offset : Nat) → Except ChunkError (List HandlerRecord)
  | 0, _ => .ok []
  | count + 1, offset => do
    let record ← read data offset
    return record :: (← readAll data count (offset + size))

end HandlerRecord

def Variable.readTable (data : Bytes) : (count offset : Nat) → Except ChunkError (List Variable)
  | 0, _ => .ok []
  | count + 1, offset => do
    let nameId ← (ChunkPart.variableTable offset).reading (data.int16 offset)
    return ⟨nameId, offset⟩ :: (← readTable data count (offset + 2))

def Handler.read (data : Bytes) (record : HandlerRecord) : Except ChunkError Handler := do
  let locals ← Variable.readTable data record.localCount record.localOffset
  let parameters ← Variable.readTable data record.parameterCount record.parameterOffset
  let bytecode ← (ChunkPart.bytecode record.codeOffset).reading
    (data.slice record.codeOffset record.codeLength)
  return { record, parameters, locals, bytecode }

end LingoSource
