import LingoSource.Proofs.Bytes.Image
import LingoSource.Proofs.Instruction.Assembly

set_option autoImplicit false

namespace LingoSource

open Bytes Operation

namespace Operation

theorem bytes_eq (op : Operation) :
    op.bytes = op.opcode.byte :: bigEndianBytes op.opcode.operandWidth op.operand := by
  have hw := op.opcode.operandWidth_le_two
  unfold bytes
  generalize op.opcode.operandWidth = width at hw ⊢
  match width with
  | 0 | 1 | 2 => rfl

@[simp] theorem length_bytes (op : Operation) : op.bytes.length = op.size := by
  rw [bytes_eq, List.length_cons, length_bigEndianBytes, size, Nat.add_comm]

variable {opcode : Opcode}

theorem bytes_none (h : opcode.operandWidth = 0) : bytes ⟨opcode, 0⟩ = [opcode.byte] := by
  simp [bytes, h]

theorem bytes_byte (h : opcode.operandWidth = 1) (x : UInt8) :
    bytes ⟨opcode, x.toNat⟩ = [opcode.byte, x] := by
  simp [bytes, h]

theorem bytes_word (h : opcode.operandWidth = 2) (x y : UInt8) :
    bytes ⟨opcode, x.toNat * 256 + y.toNat⟩ = [opcode.byte, x, y] := by
  have hhigh : (x.toNat * 256 + y.toNat) / 256 = x.toNat := by
    have := y.toNat_lt
    omega
  have hlow : UInt8.ofNat (x.toNat * 256 + y.toNat) = y := by
    apply UInt8.toNat_inj.1
    have := y.toNat_lt
    rw [UInt8.toNat_ofNat']
    omega
  simp [bytes, h, hhigh, hlow]

end Operation

namespace Instruction

inductive Decodes : (offset : Nat) → List UInt8 → List Instruction × Option RecoveryError → Prop
  | finish (offset : Nat) : Decodes offset [] ([], none)
  | unknown (offset : Nat) {b : UInt8} (rest : List UInt8) (h : Opcode.ofByte? b = none) :
      Decodes offset (b :: rest) ([], some (.unknownOpcode offset b))
  | truncated (offset : Nat) {opcode : Opcode} {rest : List UInt8}
      (h : rest.length < opcode.operandWidth) :
      Decodes offset (opcode.byte :: rest) ([], some (.truncatedInstruction offset opcode.byte))
  | next {offset : Nat} {op : Operation} (hop : op.Fits) {rest : List UInt8}
      {result : List Instruction × Option RecoveryError}
      (h : Decodes (offset + op.size) rest result) :
      Decodes offset (op.bytes ++ rest) (⟨offset, op.opcode, op.operand⟩ :: result.1, result.2)

theorem decodes_decode (offset : Nat) (bytes : List UInt8) :
    Decodes offset bytes (decode offset bytes) := by
  fun_induction decode offset bytes with
  | case1 => exact .finish _
  | case2 offset b rest hopcode => exact .unknown _ _ hopcode
  | case3 offset b opcode hopcode rest hwidth instructions stop hrest ih =>
    obtain rfl := Opcode.byte_of_ofByte? hopcode
    rw [hrest] at ih
    have hnext := Decodes.next (fits_none hwidth) (by rwa [Operation.size, hwidth])
    rwa [bytes_none hwidth] at hnext
  | case4 offset b opcode hopcode x rest hwidth instructions stop hrest ih =>
    obtain rfl := Opcode.byte_of_ofByte? hopcode
    rw [hrest] at ih
    have hnext := Decodes.next (fits_byte hwidth x.toNat_lt) (by rwa [Operation.size, hwidth])
    rwa [bytes_byte hwidth] at hnext
  | case5 offset b opcode hopcode x y rest hwidth instructions stop hrest ih =>
    obtain rfl := Opcode.byte_of_ofByte? hopcode
    rw [hrest] at ih
    have hlt : x.toNat * 256 + y.toNat < 65536 := by
      have := x.toNat_lt
      have := y.toNat_lt
      omega
    have hnext := Decodes.next (fits_word hwidth hlt) (by rwa [Operation.size, hwidth])
    rwa [bytes_word hwidth] at hnext
  | case6 offset b rest opcode hopcode hnone hone htwo =>
    obtain rfl := Opcode.byte_of_ofByte? hopcode
    refine .truncated _ ?_
    have hw := opcode.operandWidth_le_two
    have hnone : opcode.operandWidth ≠ 0 := hnone
    obtain hwidth | hwidth : opcode.operandWidth = 1 ∨ opcode.operandWidth = 2 := by omega
    · rcases rest with _ | ⟨x, rest⟩
      · simp [hwidth]
      · exact (hone x rest hwidth rfl).elim
    · rcases rest with _ | ⟨x, _ | ⟨y, rest⟩⟩
      · simp [hwidth]
      · simp [hwidth]
      · exact (htwo x y rest hwidth rfl).elim

inductive StartsFrom (data : Bytes) (first : Nat) : Nat → Prop
  | first : StartsFrom data first first
  | next {offset : Nat} {opcode : Opcode} (h : StartsFrom data first offset)
      (hbyte : data[offset]? = some opcode.byte) :
      StartsFrom data first (offset + (1 + opcode.operandWidth))

/-- An instruction as it stands in a block of bytes, in code from one offset to another. -/
structure Stands (data : Bytes) (first stop : Nat) (i : Instruction) : Prop where
  starts : StartsFrom data first i.offset
  opcode : data[i.offset]? = some i.opcode.byte
  operand : data.unsigned (i.offset + 1) i.opcode.operandWidth = .ok i.operand
  end_le : i.offset + i.size ≤ stop

variable {data : Bytes} {first offset : Nat} {bytes : List UInt8}
  {result : List Instruction × Option RecoveryError}

theorem stands_of_holds {op : Operation} (hop : op.Fits) (hbytes : data.Holds offset op.bytes)
    (hstart : StartsFrom data first offset) :
    Stands data first (offset + op.size) ⟨offset, op.opcode, op.operand⟩ := by
  rw [bytes_eq, ← List.singleton_append] at hbytes
  obtain ⟨hopcode, hoperand⟩ := holds_append.1 hbytes
  exact {
    starts := hstart
    opcode := hopcode.getElem? (k := 0) Nat.one_pos
    operand := unsigned_of_holds hoperand hop
    end_le := Nat.le_refl _ }

theorem Stands.mono {stop stop' : Nat} {i : Instruction} (h : i.Stands data first stop)
    (hle : stop ≤ stop') : i.Stands data first stop' :=
  { h with end_le := Nat.le_trans h.end_le hle }

theorem Stands.next {stop : Nat} {i : Instruction} (h : i.Stands data first stop) :
    StartsFrom data first (i.offset + i.size) :=
  h.starts.next h.opcode

theorem Stands.lt_stop {stop : Nat} {i : Instruction} (h : i.Stands data first stop) :
    i.offset < stop := by
  have hle := h.end_le
  unfold Instruction.size at hle
  omega

theorem Stands.lt_size {stop : Nat} {i : Instruction} (h : i.Stands data first stop) :
    i.offset < data.size :=
  (Array.getElem?_eq_some_iff.1 h.opcode).1

theorem Decodes.stands (h : Decodes offset bytes result) (hstart : StartsFrom data first offset)
    (hbytes : data.Holds offset bytes) {i : Instruction} (hi : i ∈ result.1) :
    i.Stands data first (offset + bytes.length) := by
  induction h with
  | finish | unknown | truncated => cases hi
  | @next offset op hop rest result h ih =>
    obtain ⟨hheld, hrest⟩ := holds_append.1 hbytes
    rw [List.length_append, length_bytes] at *
    have hstands := stands_of_holds hop hheld hstart
    rcases List.mem_cons.1 hi with rfl | hi
    · exact hstands.mono (by omega)
    · exact (ih hstands.next hrest hi).mono (by omega)

theorem Decodes.of_stop (h : Decodes offset bytes result) (hstart : StartsFrom data first offset)
    (hbytes : data.Holds offset bytes) {e : RecoveryError} (he : result.2 = some e) :
    ∃ stop b, StartsFrom data first stop ∧ data[stop]? = some b ∧ stop < offset + bytes.length ∧
      (e = .unknownOpcode stop b ∨ e = .truncatedInstruction stop b) := by
  induction h with
  | finish => cases he
  | unknown offset rest h =>
    cases he
    exact ⟨offset, _, hstart, hbytes.getElem? (k := 0) (by simp), by simp, .inl rfl⟩
  | truncated offset h =>
    cases he
    exact ⟨offset, _, hstart, hbytes.getElem? (k := 0) (by simp), by simp, .inr rfl⟩
  | @next offset op hop rest result h ih =>
    obtain ⟨hheld, hrest⟩ := holds_append.1 hbytes
    rw [List.length_append, length_bytes] at *
    have hstands := stands_of_holds hop hheld hstart
    obtain ⟨stop, b, hstop, hb, hlt, he⟩ := ih hstands.next hrest he
    exact ⟨stop, b, hstop, hb, by omega, he⟩

end Instruction

end LingoSource
