import LingoSource.Chunk.Error

/-!
The name table shared by the scripts of a cast: a header of twenty bytes, then the names, each
preceded by its length in one byte. The names start directly after the header; the offset in the
header is read but does not move them.
-/
set_option autoImplicit false

namespace LingoSource

structure NameTable where
  names : List String
  deriving DecidableEq, Repr

namespace NameTable

def readNames (data : Bytes) : (count index offset : Nat) → Except ChunkError (List String)
  | 0, _, _ => .ok []
  | count + 1, index, offset => do
    let part := ChunkPart.name index
    let length ← part.reading (data.unsigned offset 1)
    let name ← part.reading (data.text (offset + 1) length)
    let rest ← readNames data count (index + 1) (offset + 1 + length)
    return name :: rest

/-- The two size fields must agree with each other, whatever the actual size is. -/
def read (data : Bytes) : Except ChunkError NameTable := do
  let field (offset width : Nat) := ChunkPart.nameTableHeader.reading (data.unsigned offset width)
  let _ ← field 0 4
  let _ ← field 4 4
  let first ← field 8 4
  let second ← field 12 4
  let _ ← field 16 2
  let count ← field 18 2
  if first ≠ second then
    throw (.nameTableSize first second)
  return ⟨← readNames data count 0 20⟩

end NameTable

end LingoSource
