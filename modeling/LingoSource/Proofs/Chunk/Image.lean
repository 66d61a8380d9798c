import LingoSource.Chunk.Script
import LingoSource.Proofs.Number.Extended

set_option autoImplicit false

namespace LingoSource

def idBytes (ids : List Int16) : List UInt8 := ids.flatMap fun id => int16Bytes id.toInt

theorem idBytes_cons (id : Int16) (rest : List Int16) :
    idBytes (id :: rest) = int16Bytes id.toInt ++ idBytes rest := rfl

@[simp] theorem length_idBytes (ids : List Int16) : (idBytes ids).length = 2 * ids.length := by
  induction ids with
  | nil => rfl
  | cons id rest ih =>
    simp only [idBytes_cons, List.length_append, length_int16Bytes, ih, List.length_cons]
    omega

namespace Literal

def Storable : Literal → Prop
  | .string value => ∀ c ∈ value.toList, c.toNat < 256
  | .int value => IsSigned 32 value
  | .float value => value.isZero ∨ value.isNormal

/-- A stored zero has no sign; everything else stays as it is. -/
def stored : Literal → Literal
  | .float value => .float value.plainZero
  | value => value

def kind : Literal → LiteralKind
  | .string _ => .string
  | .int _ => .int
  | .float _ => .float

def data : Literal → List UInt8
  | .string value =>
    int32Bytes (value.toList.length + 1) ++ value.toList.map (UInt8.ofNat ·.toNat) ++ [0]
  | .int _ => []
  | .float value => int32Bytes 10 ++ value.extendedBytes

def recordValue (offset : Nat) : Literal → Int
  | .int value => value
  | _ => offset

/-- A wide type has two zero bytes in front, so the first two bytes of a wide record say that it is
one. -/
def record (wide : Bool) (offset : Nat) (c : Literal) : List UInt8 :=
  (if wide then [0, 0] else []) ++ int16Bytes c.kind.code ++ int32Bytes (c.recordValue offset)

def recordAll (wide : Bool) : (offset : Nat) → List Literal → List UInt8
  | _, [] => []
  | offset, c :: rest => c.record wide offset ++ recordAll wide (offset + c.data.length) rest

def recordWidth (wide : Bool) : Nat := if wide then 8 else 6

@[simp] theorem length_record (wide : Bool) (offset : Nat) (c : Literal) :
    (c.record wide offset).length = recordWidth wide := by
  cases wide <;> simp [record, recordWidth]

@[simp] theorem length_recordAll (wide : Bool) (offset : Nat) (constants : List Literal) :
    (recordAll wide offset constants).length = recordWidth wide * constants.length := by
  induction constants generalizing offset with
  | nil => rfl
  | cons c rest ih =>
    simp only [recordAll, List.length_append, length_record, ih, List.length_cons, Nat.mul_succ]
    omega

end Literal

/-- A handler with the bytes of its record that have no known meaning. -/
structure HandlerImage where
  nameId : Int16
  parameters : List Int16
  locals : List Int16
  bytecode : List UInt8
  mark : Vector UInt8 2
  trailer : Vector UInt8 18

namespace HandlerImage

variable (h : HandlerImage) (offset : Nat)

def localsOffset : Nat := offset + 2 * h.parameters.length

def codeOffset : Nat := h.localsOffset offset + 2 * h.locals.length

def body : List UInt8 := idBytes h.parameters ++ idBytes h.locals ++ h.bytecode

def record : List UInt8 :=
  int16Bytes h.nameId.toInt ++ h.mark.toList ++ int32Bytes h.bytecode.length ++
    int32Bytes (h.codeOffset offset) ++ int16Bytes h.parameters.length ++
    int32Bytes offset ++ int16Bytes h.locals.length ++
    int32Bytes (h.localsOffset offset) ++ h.trailer.toList

def recordAll : (offset : Nat) → List HandlerImage → List UInt8
  | _, [] => []
  | offset, h :: rest => h.record offset ++ recordAll (offset + h.body.length) rest

@[simp] theorem length_record : (h.record offset).length = HandlerRecord.size := by
  simp [record, HandlerRecord.size]

@[simp] theorem length_recordAll (handlers : List HandlerImage) :
    (recordAll offset handlers).length = HandlerRecord.size * handlers.length := by
  induction handlers generalizing offset with
  | nil => rfl
  | cons h rest ih =>
    simp only [recordAll, List.length_append, length_record, ih, List.length_cons, Nat.mul_succ]
    omega

@[simp] theorem length_body :
    h.body.length = 2 * h.parameters.length + 2 * h.locals.length + h.bytecode.length := by
  simp only [body, List.length_append, length_idBytes]

end HandlerImage

def Variable.table : (offset : Nat) → List Int16 → List Variable
  | _, [] => []
  | offset, id :: rest => ⟨id.toInt, offset⟩ :: table (offset + 2) rest

def HandlerImage.handler (h : HandlerImage) (recordOffset offset : Nat) : Handler where
  record :=
    { nameId := h.nameId.toInt
      codeLength := h.bytecode.length
      codeOffset := h.codeOffset offset
      parameterCount := h.parameters.length
      parameterOffset := offset
      localCount := h.locals.length
      localOffset := h.localsOffset offset
      endOffset := recordOffset + HandlerRecord.size }
  parameters := Variable.table offset h.parameters
  locals := Variable.table (h.localsOffset offset) h.locals
  bytecode := h.bytecode

def HandlerImage.handlerAll : (recordOffset offset : Nat) → List HandlerImage → List Handler
  | _, _, [] => []
  | recordOffset, offset, h :: rest =>
    h.handler recordOffset offset ::
      handlerAll (recordOffset + HandlerRecord.size) (offset + h.body.length) rest

/-- A script with the bytes of its header that have no known meaning. The number of globals in the
header is not one of them, but nothing depends on it. -/
structure ScriptImage where
  scriptType : Int32
  globalCount : UInt16
  properties : List Int16
  globals : List Int16
  constants : List Literal
  wide : Bool
  handlers : List HandlerImage
  word : Vector UInt8 4
  words : Vector UInt8 48
  marks : Vector UInt8 2 × Vector UInt8 2 × Vector UInt8 2
  trailer : Vector UInt8 6

namespace ScriptImage

variable (s : ScriptImage)

def headerSize : Nat := 92

def globalsOffset : Nat := headerSize + 2 * s.properties.length

def handlersOffset : Nat := s.globalsOffset + 2 * s.globals.length

def constantsOffset : Nat := s.handlersOffset + HandlerRecord.size * s.handlers.length

def constantDataOffset : Nat :=
  s.constantsOffset + Literal.recordWidth s.wide * s.constants.length

def constantData : List UInt8 := s.constants.flatMap Literal.data

def bodiesOffset : Nat := s.constantDataOffset + s.constantData.length

def bodies : List UInt8 := s.handlers.flatMap HandlerImage.body

def size : Nat := s.bodiesOffset + s.bodies.length

def header : List UInt8 :=
  int32Bytes s.scriptType.toInt ++ s.word.toList ++ int32Bytes s.size ++
    int32Bytes s.size ++ s.words.toList ++ bigEndianBytes 2 headerSize ++
    bigEndianBytes 2 s.globalCount.toNat ++ s.marks.1.toList ++ bigEndianBytes 2 s.globalsOffset ++
    bigEndianBytes 2 s.handlers.length ++ s.marks.2.1.toList ++ bigEndianBytes 2 s.handlersOffset ++
    bigEndianBytes 2 s.constants.length ++ s.marks.2.2.toList ++
    bigEndianBytes 2 s.constantsOffset ++ s.trailer.toList ++ bigEndianBytes 2 s.constantDataOffset

def bytes : Bytes :=
  (s.header ++ (idBytes s.properties ++ (idBytes s.globals ++
    (HandlerImage.recordAll s.bodiesOffset s.handlers ++
    (Literal.recordAll s.wide 0 s.constants ++ (s.constantData ++ s.bodies)))))).toArray

/-- The limits of the format: offsets and numbers of blocks have sixteen bits, signed sizes
thirty-two, and a handler counts its variables with sixteen bits of which one is a sign. -/
structure Fits : Prop where
  constantDataOffset_lt : s.constantDataOffset < 65536
  size_lt : s.size < 2147483648
  storable : ∀ c ∈ s.constants, c.Storable
  variables_lt : ∀ h ∈ s.handlers, h.parameters.length < 32768 ∧ h.locals.length < 32768

def chunk : ScriptChunk where
  header :=
    { scriptType := s.scriptType.toInt
      propertiesOffset := headerSize
      globalCount := s.globalCount.toNat
      globalsOffset := s.globalsOffset
      handlerCount := s.handlers.length
      handlersOffset := s.handlersOffset
      constantCount := s.constants.length
      constantsOffset := s.constantsOffset
      constantDataOffset := s.constantDataOffset }
  literals := s.constants.map Literal.stored
  constantWidth := if s.wide ∧ s.constants ≠ [] then 8 else 6
  propertyIds := s.properties.map Int16.toInt
  globalIds := s.globals.map Int16.toInt
  handlers := HandlerImage.handlerAll s.handlersOffset s.bodiesOffset s.handlers

end ScriptImage

end LingoSource
