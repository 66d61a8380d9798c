import LingoSource.Chunk.NameTable
import LingoSource.Chunk.Script
import LingoSource.Recovery.Exit
import LingoSource.Recovery.Step

set_option autoImplicit false

namespace LingoSource

def Handler.signature (c : Context) (h : Handler) : Function where
  name := c.resolveName h.record.nameId
  position := h.record.endOffset
  parameters := h.parameters.map fun v => .leaf .parameterName (c.resolveName v.nameId) v.offset
  locals := h.locals.map fun v => .leaf .localVariable (c.resolveName v.nameId) v.offset

def Handler.recover (c : Context) (h : Handler) : Except RecoveryError Function × Context :=
  let start : Machine := { context := c.resetTells, function := h.signature c }
  match (Instruction.run h.record.codeOffset h.bytecode).run start with
  | .error e m => (.error e, m.context)
  | .ok () m =>
    (return { m.function with statements := ← Statement.recoverFlow m.function.statements },
      m.context)

def Handler.recoverAll (c : Context) : List Handler → List Function × Option RecoveryError
  | [] => ([], none)
  | h :: rest =>
    match h.recover c with
    | (.error e, _) => ([], some e)
    | (.ok f, c) =>
      let (functions, stop) := recoverAll c rest
      (f :: functions, stop)

namespace ScriptChunk

def context (chunk : ScriptChunk) (table : NameTable) : Context :=
  let c := Context.create table.names (chunk.literals.map Literal.source) chunk.constantWidth
  { c with
    handlerNames := chunk.handlers.map fun h => c.resolveName h.record.nameId
    properties := chunk.propertyIds.map c.resolveName }

def recoverHandlers (chunk : ScriptChunk) (table : NameTable) :
    List Function × Option RecoveryError :=
  Handler.recoverAll (chunk.context table) chunk.handlers

def recover (chunk : ScriptChunk) (table : NameTable) : Except RecoveryError Script :=
  let c := chunk.context table
  match chunk.recoverHandlers table with
  | (_, some e) => .error e
  | (functions, none) =>
    .ok { properties := c.properties, globals := chunk.globalIds.map c.resolveName, functions }

/-- The name numbers that are looked up in the table, in that order, as far as recovery gets. -/
def usedNames (chunk : ScriptChunk) (table : NameTable) : List Int :=
  let (functions, stop) := chunk.recoverHandlers table
  let started := functions.length + (if stop.isSome then 1 else 0)
  chunk.propertyIds ++ chunk.globalIds ++ chunk.handlers.map (·.record.nameId) ++
    (chunk.handlers.take started).flatMap fun h =>
      h.record.nameId :: (h.locals.map (·.nameId) ++ h.parameters.map (·.nameId))

def missingNames (chunk : ScriptChunk) (table : NameTable) : List Int :=
  (chunk.usedNames table).filter fun id => (Context.nameOf? table.names id).isNone

end ScriptChunk

def Script.ofBytes (names script : Bytes) : Except RecoveryError Script := do
  let table ← (NameTable.read names).mapError .malformedChunk
  let chunk ← (ScriptChunk.read script).mapError .malformedChunk
  chunk.recover table

end LingoSource
