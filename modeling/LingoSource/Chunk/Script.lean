import LingoSource.Chunk.Handler
import LingoSource.Chunk.Literal

set_option autoImplicit false

namespace LingoSource

structure ScriptHeader where
  scriptType : Int
  propertiesOffset : Nat
  globalCount : Nat
  globalsOffset : Nat
  handlerCount : Nat
  handlersOffset : Nat
  constantCount : Nat
  constantsOffset : Nat
  constantDataOffset : Nat
  deriving DecidableEq, Repr

structure ScriptChunk where
  header : ScriptHeader
  literals : List Literal
  constantWidth : Nat
  propertyIds : List Int
  globalIds : List Int
  handlers : List Handler
  deriving DecidableEq, Repr

namespace ScriptHeader

def read (data : Bytes) : Except ChunkError ScriptHeader := do
  let word (offset : Nat) := ChunkPart.scriptHeader.reading (data.int32 offset)
  let half (offset : Nat) := ChunkPart.scriptHeader.reading (data.unsigned offset 2)
  let scriptType ← word 0
  let _ ← word 4
  let first ← word 8
  let second ← word 12
  let _ ← (List.range' 16 12 4).mapM word
  if first ≠ second ∨ first ≠ data.size then
    throw (.scriptSize first second data.size)
  let propertiesOffset ← half 64
  let globalCount ← half 66
  let _ ← half 68
  let globalsOffset ← half 70
  let handlerCount ← half 72
  let _ ← half 74
  let handlersOffset ← half 76
  let constantCount ← half 78
  let _ ← half 80
  let constantsOffset ← half 82
  let _ ← half 84
  let _ ← half 86
  let _ ← half 88
  let constantDataOffset ← half 90
  return {
    scriptType, propertiesOffset, globalCount, globalsOffset, handlerCount, handlersOffset
    constantCount, constantsOffset, constantDataOffset }

end ScriptHeader

namespace ScriptChunk

def readNameBlock (data : Bytes) (start stop : Nat) : Except ChunkError (List Int) :=
  (List.range' start ((stop - start + 1) / 2) 2).mapM fun offset =>
    (ChunkPart.nameBlock offset).reading (data.int16 offset)

/-- The properties end where the globals start, and the globals where the handlers do. -/
def read (data : Bytes) : Except ChunkError ScriptChunk := do
  let header ← ScriptHeader.read data
  let constants ←
    LiteralTable.read data header.constantCount header.constantsOffset header.constantDataOffset
  let propertyIds ← readNameBlock data header.propertiesOffset header.globalsOffset
  let globalIds ← readNameBlock data header.globalsOffset header.handlersOffset
  let records ← HandlerRecord.readAll data header.handlerCount header.handlersOffset
  let handlers ← records.mapM (Handler.read data)
  return {
    header
    literals := constants.literals
    constantWidth := constants.recordWidth
    propertyIds, globalIds, handlers }

end ScriptChunk

end LingoSource
