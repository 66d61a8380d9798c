import LingoSource.Bytes.Basic

set_option autoImplicit false

namespace LingoSource

inductive ChunkPart
  | nameTableHeader
  | name (index : Nat)
  | scriptHeader
  | nameBlock (offset : Nat)
  | handlerRecord (offset : Nat)
  | variableTable (offset : Nat)
  | bytecode (offset : Nat)
  | constantRecord
  | constantData
  deriving DecidableEq, Repr

def ChunkPart.label : ChunkPart → String
  | .nameTableHeader => "LNAM header"
  | .name index => "LNAM name " ++ toString index
  | .scriptHeader => "LSCR header"
  | .nameBlock offset => "name block at " ++ toString offset
  | .handlerRecord offset => "handler record at " ++ toString offset
  | .variableTable offset => "name table at " ++ toString offset
  | .bytecode offset => "bytecode at " ++ toString offset
  | .constantRecord => "constant record"
  | .constantData => "constant data"

inductive Overflow
  | addition
  | subtraction
  deriving DecidableEq, Repr

def Overflow.message : Overflow → String
  | .addition => "attempt to add with overflow"
  | .subtraction => "attempt to subtract with overflow"

inductive ChunkError
  | truncated (part : ChunkPart) (read : ReadError)
  | nameTableSize (first second : Nat)
  /-- The size fields of a script differ from each other or from the actual size. -/
  | scriptSize (first second : Int) (actual : Nat)
  | unknownConstantType (code : Int)
  | overflow (calculation : Overflow)
  deriving DecidableEq, Repr

namespace ChunkError

def message : ChunkError → String
  | .truncated part read => "truncated " ++ part.label ++ ": " ++ read.message
  | .nameTableSize first second =>
    "Bad file size! (" ++ toString second ++ " != " ++ toString first ++ ")"
  | .scriptSize .. => "Bad file size!"
  | .unknownConstantType _ => "Unknown constant type!"
  | .overflow calculation => calculation.message

/-- What is reported in a log beside the message, where the message leaves out a value. -/
def detail? : ChunkError → Option String
  | .scriptSize first second actual =>
    some ("bad filesize (" ++ toString second ++ ", " ++ toString first ++ ", " ++
      toString actual ++ ")")
  | .unknownConstantType code => some ("Unknown constant type: " ++ toString code)
  | _ => none

end ChunkError

def ChunkPart.reading {α : Type} (part : ChunkPart) (r : Except ReadError α) :
    Except ChunkError α :=
  r.mapError (.truncated part)

end LingoSource
