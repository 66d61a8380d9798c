import LingoSource.Chunk.Error
import LingoSource.Text.Hexadecimal

set_option autoImplicit false

namespace LingoSource

inductive IndexedTable
  | names
  | constants
  | locals
  | parameters
  | handlers
  | stack
  | textParts
  | movieCounts
  | menuItemProperties
  | soundProperties
  | spriteProperties
  | castProperties
  | videoProperties
  | systemProperties
  deriving DecidableEq, Repr

def IndexedTable.label : IndexedTable → String
  | .names => "name_list"
  | .constants => "constants"
  | .locals => "local_vars"
  | .parameters => "parameters"
  | .handlers => "local_func_names"
  | .stack => "stack"
  | .textParts => "operation_types"
  | .movieCounts => "num_of_types"
  | .menuItemProperties => "menuitem_properties"
  | .soundProperties => "sound_properties"
  | .spriteProperties => "sprite_properties"
  | .castProperties => "cast_properties"
  | .videoProperties => "video_properties"
  | .systemProperties => "system_properties"

inductive OperandFault
  | notAnInteger (found : String)
  | notAConstant
  | notAnArgumentList
  | listOfNoArguments
  | propertyListOfNoArguments
  | oddPropertyList (count : Nat)
  | builtinWithArguments
  | methodWithoutArguments
  | methodWithoutList
  | methodWithoutReceiver
  | unknownMenuProperty (number : Nat)
  | loopBeforeStart (distance : Nat)
  deriving DecidableEq, Repr

def OperandFault.message : OperandFault → String
  | .notAnInteger found => "expected an integer constant, found " ++ found
  | .notAConstant => "expected an integer constant"
  | .notAnArgumentList => "expected an argument list"
  | .listOfNoArguments => "list literal without an argument list"
  | .propertyListOfNoArguments => "property list without an argument list"
  | .oddPropertyList count => "property list with " ++ toString count ++ " values"
  | .builtinWithArguments => "builtin property with arguments"
  | .methodWithoutArguments => "method call without an argument list"
  | .methodWithoutList => "method call without a list literal"
  | .methodWithoutReceiver => "method call without a receiver"
  | .unknownMenuProperty number => "unknown menu property " ++ toString number
  | .loopBeforeStart distance => "loop start " ++ toString distance ++ " bytes before offset 0"

inductive RecoveryError
  | unknownOpcode (offset : Nat) (opcode : UInt8)
  | unknownOpcodePair (offset : Nat) (first second : UInt8)
  | truncatedInstruction (offset : Nat) (opcode : UInt8)
  | stackUnderflow (offset : Nat) (opcode : UInt8)
  | indexOutOfRange (offset : Nat) (opcode : UInt8) (table : IndexedTable) (index : Nat)
  | unexpectedOperand (offset : Nat) (opcode : UInt8) (fault : OperandFault)
  | unmatchedTellEnd (offset : Nat)
  /-- A jump that is part of no condition and no loop. -/
  | unresolvedJump (position address : Nat)
  | malformedChunk (cause : ChunkError)
  deriving DecidableEq, Repr

namespace RecoveryError

def message : RecoveryError → String
  | .unknownOpcode offset opcode =>
    "unknown opcode " ++ hexByte opcode ++ " at offset " ++ hexAddress offset
  | .unknownOpcodePair offset first second =>
    "unknown opcode pair " ++ hexByte first ++ " " ++ hexByte second ++ " at offset " ++
      hexAddress offset
  | .truncatedInstruction offset opcode =>
    "truncated instruction " ++ hexByte opcode ++ " at offset " ++ hexAddress offset
  | .stackUnderflow offset opcode =>
    "stack underflow in opcode " ++ hexByte opcode ++ " at offset " ++ hexAddress offset
  | .indexOutOfRange offset opcode table index =>
    table.label ++ " index " ++ toString index ++ " out of range in opcode " ++ hexByte opcode ++
      " at offset " ++ hexAddress offset
  | .unexpectedOperand offset opcode fault =>
    "unexpected operand for opcode " ++ hexByte opcode ++ " at offset " ++ hexAddress offset ++
      ": " ++ fault.message
  | .unmatchedTellEnd offset => "tell end without an open tell at offset " ++ hexAddress offset
  | .unresolvedJump position address =>
    "jump at " ++ hexAddress position ++ " to " ++ hexAddress address ++ " could not be resolved"
  | .malformedChunk cause => "malformed chunk: " ++ cause.message

def offset? : RecoveryError → Option Nat
  | .unknownOpcode offset _ | .unknownOpcodePair offset .. | .truncatedInstruction offset _
  | .stackUnderflow offset _ | .indexOutOfRange offset .. | .unexpectedOperand offset ..
  | .unmatchedTellEnd offset | .unresolvedJump offset _ => some offset
  | .malformedChunk _ => none

def opcode? : RecoveryError → Option UInt8
  | .unknownOpcode _ opcode | .unknownOpcodePair _ opcode _ | .truncatedInstruction _ opcode
  | .stackUnderflow _ opcode | .indexOutOfRange _ opcode .. | .unexpectedOperand _ opcode _ =>
    some opcode
  | .unmatchedTellEnd _ | .unresolvedJump .. | .malformedChunk _ => none

end RecoveryError

end LingoSource
