import LingoSource.Chunk.Error
import LingoSource.Number.Extended
import LingoSource.Number.Layout
import LingoSource.Text.Escaped

/-!
The constants of a script. Their records start out six bytes wide, a type of two bytes and an offset
of four; a type of zero marks the wide layout, in which this and all later types take four bytes.
Strings and floats lie in a data block of their own, an integer takes the place of its offset.
-/
set_option autoImplicit false

namespace LingoSource

inductive Literal
  | string (value : String)
  | int (value : Int)
  | float (value : Double)
  deriving DecidableEq, Repr

inductive LiteralKind
  | string
  | int
  | float
  deriving DecidableEq, Repr

def LiteralKind.code : LiteralKind → Int
  | .string => 1
  | .int => 4
  | .float => 9

def LiteralKind.ofCode? (code : Int) : Option LiteralKind :=
  [.string, .int, .float].find? (·.code = code)

def Literal.floatLayout : NumberLayout where
  positionalFrom := -4
  positionalBelow := 16
  exponentWidth := 2
  nanText := "nan"
  infinityText := "inf"

def Literal.source : Literal → String
  | .string value => escaped value
  | .int value => toString value
  | .float value => Literal.floatLayout.text value

structure LiteralRecord where
  kind : LiteralKind
  value : Int

/-- Reads the record at `offset`, and tells its width and the layout that holds after it. -/
def LiteralRecord.read (data : Bytes) (wide : Bool) (offset : Nat) :
    Except ChunkError (LiteralRecord × Nat × Bool) := do
  let field {α : Type} (r : Except ReadError α) := ChunkPart.constantRecord.reading r
  let (code, width, wide) ←
    if wide then
      let code ← field (data.int32 offset)
      pure (code, 8, true)
    else
      let code ← field (data.int16 offset)
      if code = 0 then
        let code ← field (data.int16 (offset + 2))
        pure (code, 8, true)
      else
        pure (code, 6, false)
  let value ← field (data.int32 (offset + width - 4))
  match LiteralKind.ofCode? code with
  | some kind => return (⟨kind, value⟩, width, wide)
  | none => throw (.unknownConstantType code)

def LiteralRecord.place (record : LiteralRecord) (dataOffset : Nat) : Except ChunkError Nat :=
  let offset := dataOffset + address record.value
  if offset < Nat.pow 2 64 then .ok offset else .error (.overflow .addition)

/-- The characters of a string whose length counts a closing zero byte. No word of 32 bits is less
than the least one. -/
def Literal.textLength (length : Int) : Except ChunkError Nat :=
  if length = -2147483648 then .error (.overflow .subtraction) else .ok (length - 1).toNat

def Literal.read (data : Bytes) (dataOffset : Nat) (record : LiteralRecord) :
    Except ChunkError Literal := do
  let field {α : Type} (r : Except ReadError α) := ChunkPart.constantData.reading r
  match record.kind with
  | .int => return .int record.value
  | .string =>
    let offset ← record.place dataOffset
    let length ← field (data.int32 offset)
    return .string (← field (data.text (offset + 4) (← textLength length)))
  | .float =>
    let offset ← record.place dataOffset
    let _ ← field (data.int32 offset)
    return .float (Double.ofExtendedBytes (← field (data.slice (offset + 4) 10)))

structure LiteralTable where
  literals : List Literal
  recordWidth : Nat

def LiteralTable.readFrom (data : Bytes) (dataOffset : Nat) :
    (count : Nat) → (wide : Bool) → (offset : Nat) → Except ChunkError LiteralTable
  | 0, wide, _ => .ok ⟨[], if wide then 8 else 6⟩
  | count + 1, wide, offset => do
    let (record, width, wide) ← LiteralRecord.read data wide offset
    let literal ← Literal.read data dataOffset record
    let rest ← readFrom data dataOffset count wide (offset + width)
    return { rest with literals := literal :: rest.literals }

def LiteralTable.read (data : Bytes) (count offset dataOffset : Nat) :
    Except ChunkError LiteralTable :=
  readFrom data dataOffset count false offset

end LingoSource
