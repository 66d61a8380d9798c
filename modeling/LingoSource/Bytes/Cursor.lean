import LingoSource.Bytes.Basic
import LingoSource.Number.Extended

/-!
Sequential reading: a block of bytes with a position. A read that fails leaves the position where it
was, but what was read or moved before it stays done.
-/
set_option autoImplicit false

namespace LingoSource

structure Cursor where
  data : Bytes
  position : Nat := 0

namespace Cursor

/-- The position may lie past the end; only a read there fails. -/
def moveTo (c : Cursor) (position : Nat) : Cursor :=
  { c with position }

def atEnd (c : Cursor) : Bool :=
  c.data.size ≤ c.position

def remaining (c : Cursor) : Nat :=
  c.data.size - c.position

def take (c : Cursor) (count : Nat) : Except ReadError (List UInt8) × Cursor :=
  match c.data.slice c.position count with
  | .ok bytes => (.ok bytes, c.moveTo (c.position + count))
  | .error e => (.error e, c)

def text (c : Cursor) (count : Nat) : Except ReadError String × Cursor :=
  let (bytes, c) := c.take count
  (bytes.map latin1, c)

def pascalText (c : Cursor) : Except ReadError String × Cursor :=
  match c.take 1 with
  | (.ok bytes, c) => c.text (bigEndian bytes)
  | (.error e, c) => (.error e, c)

def extended (c : Cursor) : Except ReadError Double × Cursor :=
  let (bytes, c) := c.take 10
  (bytes.map Double.ofExtendedBytes, c)

def int16At (c : Cursor) (position : Nat) : Except ReadError Int × Cursor :=
  let (bytes, c) := (c.moveTo position).take 2
  (bytes.map fun b => signed 16 (bigEndian b), c)

end Cursor

end LingoSource
