import LingoSource.Proofs.Chunk.Image

set_option autoImplicit false

namespace LingoSource

open Bytes

theorem ChunkPart.reading_ok {α : Type} (part : ChunkPart) (a : α) : part.reading (.ok a) = .ok a :=
  rfl

/-- An offset inside a block, which has fewer bytes than a signed number can count. -/
theorem address_of_lt_size {n : Nat} (h : n < 2147483648) : address n = n :=
  address_of_lt (Nat.lt_trans h (by decide))

variable {data : Bytes} {offset : Nat}

theorem Variable.readTable_of_holds {ids : List Int16} (h : data.Holds offset (idBytes ids)) :
    readTable data ids.length offset = .ok (table offset ids) := by
  induction ids generalizing offset with
  | nil => rfl
  | cons id rest ih =>
    rw [idBytes_cons, holds_append, length_int16Bytes] at h
    obtain ⟨hid, hrest⟩ := h
    rw [List.length_cons, readTable, int16_of_holds hid (isSigned_int16 id), ih hrest]
    rfl

theorem ScriptChunk.readNameBlock_of_holds {ids : List Int16} (h : data.Holds offset (idBytes ids)) :
    readNameBlock data offset (offset + 2 * ids.length) = .ok (ids.map Int16.toInt) := by
  have hcount : (offset + 2 * ids.length - offset + 1) / 2 = ids.length := by omega
  rw [readNameBlock, hcount]
  clear hcount
  induction ids generalizing offset with
  | nil => rfl
  | cons id rest ih =>
    rw [idBytes_cons, holds_append, length_int16Bytes] at h
    obtain ⟨hid, hrest⟩ := h
    rw [List.length_cons, List.range'_succ, List.mapM_cons, ih hrest,
      int16_of_holds hid (isSigned_int16 id)]
    rfl

namespace HandlerImage

variable {h : HandlerImage} {recordOffset : Nat}

structure FitsAt (h : HandlerImage) (offset : Nat) : Prop where
  parameters_lt : h.parameters.length < 32768
  locals_lt : h.locals.length < 32768
  end_lt : offset + h.body.length < 2147483648

theorem read_record (hfits : h.FitsAt offset) (hrecord : data.Holds recordOffset (h.record offset)) :
    HandlerRecord.read data recordOffset = .ok (h.handler recordOffset offset).record := by
  have hsize := hrecord.le_size
  have hend := hfits.end_lt
  rw [length_record, HandlerRecord.size] at hsize
  rw [length_body] at hend
  simp only [record, holds_append, List.length_append, length_int16Bytes, length_int32Bytes,
    Vector.length_toList, Nat.reduceAdd] at hrecord
  obtain ⟨⟨⟨⟨⟨⟨⟨⟨hname, -⟩, hcodeLength⟩, hcodeOffset⟩, hparameterCount⟩, hparameterOffset⟩,
    hlocalCount⟩, hlocalOffset⟩, -⟩ := hrecord
  have hcodeOffset_lt : h.codeOffset offset < 2147483648 := by
    unfold codeOffset localsOffset; omega
  have hlocalsOffset_lt : h.localsOffset offset < 2147483648 := by unfold localsOffset; omega
  obtain ⟨_, hmark⟩ := exists_int16 (show recordOffset + 2 + 2 ≤ data.size by omega)
  obtain ⟨_, h24⟩ := exists_int16 (show recordOffset + 24 + 2 ≤ data.size by omega)
  obtain ⟨_, h26⟩ := exists_int32 (show recordOffset + 26 + 4 ≤ data.size by omega)
  obtain ⟨_, h30⟩ := exists_int32 (show recordOffset + 30 + 4 ≤ data.size by omega)
  obtain ⟨_, h34⟩ := exists_int16 (show recordOffset + 34 + 2 ≤ data.size by omega)
  obtain ⟨_, h36⟩ := exists_int16 (show recordOffset + 36 + 2 ≤ data.size by omega)
  obtain ⟨_, h38⟩ := exists_int32 (show recordOffset + 38 + 4 ≤ data.size by omega)
  simp only [HandlerRecord.read, int16_of_holds hname (isSigned_int16 h.nameId), hmark,
    int32_of_holds hcodeLength (isSigned_of_lt (by simp only [Nat.pow_eq]; omega)),
    int32_of_holds hcodeOffset (isSigned_of_lt hcodeOffset_lt),
    int16_of_holds hparameterCount (isSigned_of_lt hfits.parameters_lt),
    int32_of_holds hparameterOffset (isSigned_of_lt (by simp only [Nat.pow_eq]; omega)),
    int16_of_holds hlocalCount (isSigned_of_lt hfits.locals_lt),
    int32_of_holds hlocalOffset (isSigned_of_lt hlocalsOffset_lt),
    h24, h26, h30, h34, h36, h38, ok_bind, Int.toNat_natCast]
  rw [address_of_lt_size (show h.bytecode.length < 2147483648 by omega),
    address_of_lt_size hcodeOffset_lt, address_of_lt_size (show offset < 2147483648 by omega),
    address_of_lt_size hlocalsOffset_lt]
  rfl

theorem read_body (hbody : data.Holds offset h.body) :
    Handler.read data (h.handler recordOffset offset).record = .ok (h.handler recordOffset offset) := by
  simp only [body, holds_append, List.length_append, length_idBytes] at hbody
  obtain ⟨⟨hparameters, hlocals⟩, hbytecode⟩ := hbody
  have hcodeOffset : offset + (2 * h.parameters.length + 2 * h.locals.length) = h.codeOffset offset := by
    unfold codeOffset localsOffset; omega
  rw [hcodeOffset] at hbytecode
  simp only [Handler.read, handler]
  rw [Variable.readTable_of_holds hparameters, localsOffset, Variable.readTable_of_holds hlocals,
    hbytecode]
  rfl

theorem readAll_records {handlers : List HandlerImage}
    (hvariables : ∀ h ∈ handlers, h.parameters.length < 32768 ∧ h.locals.length < 32768)
    (hend : offset + (handlers.flatMap body).length < 2147483648)
    (hrecords : data.Holds recordOffset (recordAll offset handlers)) :
    HandlerRecord.readAll data handlers.length recordOffset =
      .ok ((handlerAll recordOffset offset handlers).map Handler.record) := by
  induction handlers generalizing recordOffset offset with
  | nil => rfl
  | cons h rest ih =>
    rw [List.flatMap_cons, List.length_append] at hend
    obtain ⟨hrecord, hrest⟩ := holds_append.1 hrecords
    rw [length_record] at hrest
    obtain ⟨hparameters, hlocals⟩ := hvariables h (by simp)
    have hread := read_record ⟨hparameters, hlocals, by omega⟩ hrecord
    have hreadRest := ih (fun h hh => hvariables h (by simp [hh])) (by omega) hrest
    rw [List.length_cons, HandlerRecord.readAll, hread, hreadRest]
    rfl

theorem mapM_read_bodies {handlers : List HandlerImage}
    (hbodies : data.Holds offset (handlers.flatMap body)) :
    ((handlerAll recordOffset offset handlers).map Handler.record).mapM (Handler.read data) =
      .ok (handlerAll recordOffset offset handlers) := by
  induction handlers generalizing recordOffset offset with
  | nil => rfl
  | cons h rest ih =>
    rw [List.flatMap_cons, holds_append] at hbodies
    rw [handlerAll, List.map_cons, List.mapM_cons, read_body hbodies.1, ih hbodies.2]
    rfl

end HandlerImage

theorem LiteralKind.ofCode?_code (kind : LiteralKind) : ofCode? kind.code = some kind := by
  cases kind <;> rfl

theorem LiteralKind.isSigned_code (kind : LiteralKind) :
    IsSigned 16 kind.code ∧ IsSigned 32 kind.code := by
  cases kind <;> exact ⟨⟨by decide, by decide⟩, by decide, by decide⟩

theorem LiteralKind.code_ne_zero (kind : LiteralKind) : kind.code ≠ 0 := by cases kind <;> decide

theorem LiteralKind.wideBytes_code (kind : LiteralKind) :
    [0, 0] ++ int16Bytes kind.code = int32Bytes kind.code := by
  cases kind <;> decide

theorem latin1_ofNat {value : String} (h : ∀ c ∈ value.toList, c.toNat < 256) :
    latin1 (value.toList.map (UInt8.ofNat ·.toNat)) = value := by
  have hback : ∀ c ∈ value.toList,
      ((fun b : UInt8 => Char.ofNat b.toNat) ∘ (UInt8.ofNat ·.toNat)) c = id c := fun c hc => by
    rw [Function.comp_apply, UInt8.toNat_ofNat', Nat.mod_eq_of_lt (h c hc), Char.ofNat_toNat, id]
  rw [latin1, List.map_map, List.map_congr_left hback, List.map_id, String.ofList_toList]

namespace Literal

variable {c : Literal} {wide wideSoFar : Bool} {dataOffset valueOffset : Nat}

theorem isSigned_recordValue (hc : c.Storable) (hoffset : valueOffset < 2147483648) :
    IsSigned 32 (c.recordValue valueOffset) := by
  cases c with
  | int value => exact hc
  | string value => exact isSigned_of_lt hoffset
  | float value => exact isSigned_of_lt hoffset

/-- A wide layout is known from its first record on, whose type is zero for a reader that does not
know it yet. -/
theorem read_record (hc : c.Storable) (hoffset : valueOffset < 2147483648)
    (hwide : wideSoFar = true → wide = true) (hrecord : data.Holds offset (c.record wide valueOffset)) :
    LiteralRecord.read data wideSoFar offset =
      .ok (⟨c.kind, c.recordValue valueOffset⟩, recordWidth wide, wide) := by
  have hsigned := isSigned_recordValue hc hoffset
  obtain ⟨hcode, hvalue⟩ := holds_append.1 hrecord
  have hbehind : offset + ((if wide then [0, 0] else []) ++ int16Bytes c.kind.code).length =
      offset + recordWidth wide - 4 := by cases wide <;> simp [recordWidth]
  have hvalue := int32_of_holds (hbehind ▸ hvalue) hsigned
  have hkind := c.kind.ofCode?_code
  obtain ⟨hcode16, hcode32⟩ := c.kind.isSigned_code
  cases wide with
  | false =>
    obtain rfl : wideSoFar = false := by simpa using hwide
    have hcode := int16_of_holds (show data.Holds offset (int16Bytes c.kind.code) from hcode) hcode16
    have hvalue : data.int32 (offset + 6 - 4) = .ok (c.recordValue valueOffset) := hvalue
    simp only [LiteralRecord.read, hcode, Bool.false_eq_true, if_false, c.kind.code_ne_zero,
      ChunkPart.reading_ok, ok_bind, pure_bind, hvalue, hkind]
    rfl
  | true =>
    have hvalue : data.int32 (offset + 8 - 4) = .ok (c.recordValue valueOffset) := hvalue
    cases wideSoFar with
    | false =>
      obtain ⟨hzero, hcode⟩ := holds_append.1
        (show data.Holds offset (int16Bytes 0 ++ int16Bytes c.kind.code) from hcode)
      have hzero := int16_of_holds hzero ⟨by decide, by decide⟩
      have hcode := int16_of_holds (by rwa [length_int16Bytes] at hcode) hcode16
      simp only [LiteralRecord.read, hzero, hcode, Bool.false_eq_true, if_false, if_true,
        ChunkPart.reading_ok, ok_bind, pure_bind, hvalue, hkind]
      rfl
    | true =>
      have hcode := int32_of_holds (c.kind.wideBytes_code ▸ hcode) hcode32
      simp only [LiteralRecord.read, hcode, if_true, ChunkPart.reading_ok, ok_bind, pure_bind,
        hvalue, hkind]
      rfl

theorem place_eq (kind : LiteralKind) (h : dataOffset + valueOffset < 2147483648) :
    LiteralRecord.place ⟨kind, (valueOffset : Int)⟩ dataOffset = .ok (dataOffset + valueOffset) := by
  have hoffset : address (valueOffset : Int) = valueOffset := address_of_lt_size (by omega)
  unfold LiteralRecord.place
  dsimp only
  rw [hoffset, if_pos (Nat.lt_trans h (by decide))]

theorem textLength_succ (n : Nat) : textLength ((n + 1 : Nat) : Int) = .ok n := by
  unfold textLength
  rw [if_neg (by omega)]
  congr
  omega

theorem read_data (hc : c.Storable)
    (hend : dataOffset + valueOffset + c.data.length < 2147483648)
    (hdata : data.Holds (dataOffset + valueOffset) c.data) :
    Literal.read data dataOffset ⟨c.kind, c.recordValue valueOffset⟩ = .ok c.stored := by
  have hplace (kind : LiteralKind) :=
    place_eq kind (show dataOffset + valueOffset < 2147483648 by omega)
  cases c with
  | int value => rfl
  | string value =>
    simp only [Literal.data, holds_append, List.length_append, List.length_map,
      length_int32Bytes, List.length_singleton] at hdata hend
    obtain ⟨⟨hlength, hvalue⟩, -⟩ := hdata
    have hlength := int32_of_holds (n := (value.toList.length + 1 : Nat)) hlength
      (isSigned_of_lt (by simp only [Nat.pow_eq]; omega))
    have hvalue : data.text (dataOffset + valueOffset + 4) value.toList.length = .ok value := by
      rw [Bytes.Holds, List.length_map] at hvalue
      rw [text, hvalue, Except.map, latin1_ofNat hc]
    simp only [Literal.read, kind, recordValue, hplace, hlength, ChunkPart.reading_ok, ok_bind,
      textLength_succ, hvalue]
    rfl
  | float value =>
    simp only [Literal.data, holds_append, length_int32Bytes] at hdata
    have hlength := int32_of_holds hdata.1 ⟨by decide, by decide⟩
    have hvalue := hdata.2
    rw [Bytes.Holds, Double.length_extendedBytes] at hvalue
    simp only [Literal.read, kind, recordValue, hplace, hlength, ChunkPart.reading_ok, ok_bind,
      hvalue, Double.ofExtendedBytes_extendedBytes hc]
    rfl

theorem readFrom_recordAll {constants : List Literal} (hstorable : ∀ c ∈ constants, c.Storable)
    (hend : dataOffset + valueOffset + (constants.flatMap Literal.data).length < 2147483648)
    (hwide : wideSoFar = true → wide = true)
    (hrecords : data.Holds offset (recordAll wide valueOffset constants))
    (hdata : data.Holds (dataOffset + valueOffset) (constants.flatMap Literal.data)) :
    LiteralTable.readFrom data dataOffset constants.length wideSoFar offset =
      .ok ⟨constants.map stored,
        if wideSoFar = true ∨ wide = true ∧ constants ≠ [] then 8 else 6⟩ := by
  induction constants generalizing offset valueOffset wideSoFar with
  | nil => simp [LiteralTable.readFrom]
  | cons c rest ih =>
    rw [List.flatMap_cons, List.length_append] at hend
    rw [List.flatMap_cons, holds_append] at hdata
    obtain ⟨hrecord, hrest⟩ := holds_append.1 hrecords
    rw [length_record] at hrest
    have hc : c.Storable := hstorable c (by simp)
    have hreadRest := ih (fun c hc => hstorable c (by simp [hc])) (by omega) id hrest
      (by rw [← Nat.add_assoc]; exact hdata.2)
    rw [List.length_cons, LiteralTable.readFrom, read_record hc (by omega) hwide hrecord, ok_bind]
    simp only [read_data hc (by omega) hdata.1, hreadRest, ok_bind]
    have hwidth : (if wide = true ∨ wide = true ∧ rest ≠ [] then 8 else 6) =
        if wideSoFar = true ∨ wide = true ∧ c :: rest ≠ [] then 8 else 6 := by
      cases wide <;> simp_all
    rw [← hwidth]
    rfl

end Literal

namespace ScriptImage

variable {s : ScriptImage}

theorem length_header : s.header.length = headerSize := by
  simp [header, headerSize]

theorem length_bytes : s.bytes.size = s.size := by
  simp only [bytes, List.size_toArray, List.length_append, length_header, length_idBytes,
    HandlerImage.length_recordAll, Literal.length_recordAll, size, bodiesOffset, constantDataOffset,
    constantsOffset, handlersOffset, globalsOffset]
  omega

theorem holds_parts (s : ScriptImage) :
    s.bytes.Holds 0 s.header ∧ s.bytes.Holds headerSize (idBytes s.properties) ∧
      s.bytes.Holds s.globalsOffset (idBytes s.globals) ∧
      s.bytes.Holds s.handlersOffset (HandlerImage.recordAll s.bodiesOffset s.handlers) ∧
      s.bytes.Holds s.constantsOffset (Literal.recordAll s.wide 0 s.constants) ∧
      s.bytes.Holds s.constantDataOffset s.constantData ∧
      s.bytes.Holds s.bodiesOffset s.bodies := by
  have hall := holds_toArray (s.header ++ (idBytes s.properties ++ (idBytes s.globals ++
    (HandlerImage.recordAll s.bodiesOffset s.handlers ++
    (Literal.recordAll s.wide 0 s.constants ++ (s.constantData ++ s.bodies))))))
  simp only [holds_append, length_header, length_idBytes, HandlerImage.length_recordAll,
    Literal.length_recordAll, Nat.zero_add] at hall
  exact hall

theorem offsets_le (hs : s.Fits) :
    headerSize ≤ s.globalsOffset ∧ s.globalsOffset ≤ s.handlersOffset ∧
      s.handlersOffset + s.handlers.length ≤ s.constantsOffset ∧
      s.constantsOffset + s.constants.length ≤ s.constantDataOffset ∧
      s.constantDataOffset ≤ s.bodiesOffset ∧ s.bodiesOffset ≤ s.size ∧
      s.constantDataOffset < 65536 := by
  have hwidth : s.constants.length ≤ Literal.recordWidth s.wide * s.constants.length :=
    Nat.le_mul_of_pos_left _ (by cases s.wide <;> decide)
  have hrecords : s.handlers.length ≤ HandlerRecord.size * s.handlers.length :=
    Nat.le_mul_of_pos_left _ (by decide)
  have hlt := hs.constantDataOffset_lt
  simp only [size, bodiesOffset, constantDataOffset, constantsOffset, handlersOffset,
    globalsOffset] at *
  omega

theorem read_header (hs : s.Fits) : ScriptHeader.read s.bytes = .ok s.chunk.header := by
  have hsize : s.bytes.size = s.size := length_bytes
  have hheader := s.holds_parts.1
  have hlt := hs.size_lt
  obtain ⟨hglobals, hhandlers, hconstants, hconstantData, hbodies, hend, hoffset⟩ := s.offsets_le hs
  have hheaderSize : headerSize = 92 := rfl
  have hpow : Nat.pow 256 2 = 65536 := rfl
  simp only [header, holds_append, List.length_append, length_int32Bytes, length_bigEndianBytes,
    Vector.length_toList, Nat.zero_add, Nat.reduceAdd] at hheader
  obtain ⟨⟨⟨⟨⟨⟨⟨⟨⟨⟨⟨⟨⟨⟨⟨⟨hscriptType, -⟩, hfirst⟩, hsecond⟩, -⟩, hproperties⟩, hglobalCount⟩, -⟩,
    hglobalsOffset⟩, hhandlerCount⟩, -⟩, hhandlersOffset⟩, hconstantCount⟩, -⟩, hconstantsOffset⟩,
    -⟩, hconstantDataOffset⟩ := hheader
  obtain ⟨_, h4⟩ := exists_int32 (show 4 + 4 ≤ s.bytes.size by omega)
  have hwords : ∀ offset ∈ List.range' 16 12 4,
      ∃ n, ChunkPart.scriptHeader.reading (s.bytes.int32 offset) = .ok n := fun offset hmem => by
    obtain ⟨k, hk, rfl⟩ := List.mem_range'.1 hmem
    obtain ⟨n, hn⟩ := exists_int32 (show 16 + 4 * k + 4 ≤ s.bytes.size by omega)
    exact ⟨n, by rw [hn]; rfl⟩
  obtain ⟨_, hwords⟩ := exists_mapM_eq_ok hwords
  obtain ⟨_, h68⟩ := exists_unsigned (show 68 + 2 ≤ s.bytes.size by omega)
  obtain ⟨_, h74⟩ := exists_unsigned (show 74 + 2 ≤ s.bytes.size by omega)
  obtain ⟨_, h80⟩ := exists_unsigned (show 80 + 2 ≤ s.bytes.size by omega)
  obtain ⟨_, h84⟩ := exists_unsigned (show 84 + 2 ≤ s.bytes.size by omega)
  obtain ⟨_, h86⟩ := exists_unsigned (show 86 + 2 ≤ s.bytes.size by omega)
  obtain ⟨_, h88⟩ := exists_unsigned (show 88 + 2 ≤ s.bytes.size by omega)
  have hmatch : ¬ ((s.size : Int) ≠ s.size ∨ (s.size : Int) ≠ s.bytes.size) := by
    rw [hsize]; simp
  simp only [ScriptHeader.read, int32_of_holds hscriptType (isSigned_int32 _), h4,
    int32_of_holds hfirst (isSigned_of_lt hlt), int32_of_holds hsecond (isSigned_of_lt hlt), hwords,
    if_neg hmatch, unsigned_of_holds hproperties (by decide),
    unsigned_of_holds hglobalCount s.globalCount.toNat_lt, h68,
    unsigned_of_holds hglobalsOffset (by omega), unsigned_of_holds hhandlerCount (by omega), h74,
    unsigned_of_holds hhandlersOffset (by omega), unsigned_of_holds hconstantCount (by omega), h80,
    unsigned_of_holds hconstantsOffset (by omega), h84, h86, h88,
    unsigned_of_holds hconstantDataOffset (by omega), ChunkPart.reading_ok, ok_bind]
  rfl

/-- A script is read as it was written, whatever stands in the parts of no known meaning. -/
theorem read_bytes (hs : s.Fits) : ScriptChunk.read s.bytes = .ok s.chunk := by
  obtain ⟨-, hproperties, hglobals, hrecords, hconstants, hconstantData, hbodies⟩ := s.holds_parts
  obtain ⟨-, -, -, -, -, hend, -⟩ := s.offsets_le hs
  have hsize := hs.size_lt
  have hconstantsRead : LiteralTable.read s.bytes s.constants.length s.constantsOffset
      s.constantDataOffset = .ok ⟨s.chunk.literals, s.chunk.constantWidth⟩ := by
    have hread := Literal.readFrom_recordAll hs.storable
      (show s.constantDataOffset + 0 + s.constantData.length < 2147483648 by
        unfold bodiesOffset at hend; omega)
      (fun h : false = true => nomatch h) hconstants hconstantData
    rw [LiteralTable.read, hread]
    simp [chunk]
  have hpropertiesRead : ScriptChunk.readNameBlock s.bytes headerSize s.globalsOffset =
      .ok s.chunk.propertyIds :=
    ScriptChunk.readNameBlock_of_holds hproperties
  have hglobalsRead : ScriptChunk.readNameBlock s.bytes s.globalsOffset s.handlersOffset =
      .ok s.chunk.globalIds :=
    ScriptChunk.readNameBlock_of_holds hglobals
  have hrecordsRead : HandlerRecord.readAll s.bytes s.handlers.length s.handlersOffset =
      .ok (s.chunk.handlers.map Handler.record) :=
    HandlerImage.readAll_records hs.variables_lt hs.size_lt hrecords
  have hhandlersRead : (s.chunk.handlers.map Handler.record).mapM (Handler.read s.bytes) =
      .ok s.chunk.handlers :=
    HandlerImage.mapM_read_bodies hbodies
  calc ScriptChunk.read s.bytes
      = (do
          let handlers ← (s.chunk.handlers.map Handler.record).mapM (Handler.read s.bytes)
          return { s.chunk with handlers }) := by
        rw [ScriptChunk.read, read_header hs]
        simp only [chunk, ok_bind] at *
        simp only [hconstantsRead, hpropertiesRead, hglobalsRead, hrecordsRead, ok_bind]
    _ = .ok s.chunk := by rw [hhandlersRead]; rfl

/-- A script with a constant of each kind in the wide layout and two handlers, the second of them with
variables. -/
def sample : ScriptImage where
  scriptType := 7
  globalCount := 40000
  properties := [2, -1]
  globals := [3]
  constants := [.string "caf\u00e9", .int (-5), .float ⟨0xc004000000000000⟩]
  wide := true
  handlers :=
    [{ nameId := 0, parameters := [], locals := [], bytecode := [0x01]
       mark := .replicate _ 0, trailer := .replicate _ 0 },
     { nameId := 1, parameters := [4], locals := [5, 6], bytecode := [0x14, 0x01]
       mark := .replicate _ 0xff, trailer := .replicate _ 0x80 }]
  word := .replicate _ 1
  words := .replicate _ 2
  marks := (.replicate _ 3, .replicate _ 4, .replicate _ 5)
  trailer := .replicate _ 6

theorem read_bytes_sample :
    sample.Fits ∧ ScriptChunk.read sample.bytes = .ok
      { header :=
          { scriptType := 7, propertiesOffset := 92, globalCount := 40000, globalsOffset := 96
            handlerCount := 2, handlersOffset := 98, constantCount := 3, constantsOffset := 182
            constantDataOffset := 206 }
        literals := [.string "caf\u00e9", .int (-5), .float ⟨0xc004000000000000⟩]
        constantWidth := 8
        propertyIds := [2, -1]
        globalIds := [3]
        handlers :=
          [{ record :=
               { nameId := 0, codeLength := 1, codeOffset := 229, parameterCount := 0
                 parameterOffset := 229, localCount := 0, localOffset := 229, endOffset := 140 }
             parameters := [], locals := [], bytecode := [0x01] },
           { record :=
               { nameId := 1, codeLength := 2, codeOffset := 236, parameterCount := 1
                 parameterOffset := 230, localCount := 2, localOffset := 232, endOffset := 182 }
             parameters := [⟨4, 230⟩], locals := [⟨5, 232⟩, ⟨6, 234⟩]
             bytecode := [0x14, 0x01] }] } := by
  have hfits : sample.Fits := {
    constantDataOffset_lt := by decide +kernel
    size_lt := by decide +kernel
    storable := by
      simp only [sample, List.forall_mem_cons, Literal.Storable]
      exact ⟨by simp, ⟨by decide, by decide⟩, .inr (by decide +kernel), nofun⟩
    variables_lt := by decide +kernel }
  exact ⟨hfits, (read_bytes hfits).trans (congrArg Except.ok (by decide +kernel))⟩

end ScriptImage

end LingoSource
