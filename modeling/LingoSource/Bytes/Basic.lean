set_option autoImplicit false

namespace LingoSource

abbrev Bytes := Array UInt8

structure ReadError where
  count : Nat
  offset : Nat
  deriving DecidableEq, Repr

def ReadError.message (e : ReadError) : String :=
  "failed to read " ++ toString e.count ++ " bytes from offset " ++ toString e.offset

def bigEndian (bytes : List UInt8) : Nat :=
  bytes.foldl (fun n b => n * 256 + b.toNat) 0

def signed (width n : Nat) : Int :=
  if n < Nat.pow 2 (width - 1) then n else (n : Int) - Nat.pow 2 width

/-- A signed number as an address of 64 bits: a negative one is extended by its sign. -/
def address (n : Int) : Nat :=
  (n % Nat.pow 2 64).toNat

def latin1 (bytes : List UInt8) : String :=
  String.ofList (bytes.map fun b => Char.ofNat b.toNat)

namespace Bytes

/-- The `count` bytes from `offset` on. Even a read of no bytes needs an offset inside the block or
just past it. -/
def slice (data : Bytes) (offset count : Nat) : Except ReadError (List UInt8) :=
  if offset + count ≤ data.size then
    .ok (data.extract offset (offset + count)).toList
  else
    .error ⟨count, offset⟩

def unsigned (data : Bytes) (offset width : Nat) : Except ReadError Nat :=
  (data.slice offset width).map bigEndian

def int16 (data : Bytes) (offset : Nat) : Except ReadError Int :=
  (data.unsigned offset 2).map (signed 16)

def int32 (data : Bytes) (offset : Nat) : Except ReadError Int :=
  (data.unsigned offset 4).map (signed 32)

def text (data : Bytes) (offset count : Nat) : Except ReadError String :=
  (data.slice offset count).map latin1

theorem slice_eq_ok_iff {data : Bytes} {offset count : Nat} {bytes : List UInt8} :
    data.slice offset count = .ok bytes ↔
      offset + count ≤ data.size ∧ bytes = (data.toList.drop offset).take count := by
  unfold slice
  split
  · simp [*, eq_comm, List.extract_eq_take_drop]
  · simp [*]

theorem length_of_slice {data : Bytes} {offset count : Nat} {bytes : List UInt8}
    (h : data.slice offset count = .ok bytes) : bytes.length = count := by
  obtain ⟨hle, rfl⟩ := slice_eq_ok_iff.1 h
  simp
  omega

end Bytes

end LingoSource
