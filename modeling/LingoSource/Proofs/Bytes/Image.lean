import LingoSource.Bytes.Basic

set_option autoImplicit false

namespace LingoSource

section Outcomes

variable {ε α β : Type}

theorem ok_bind (a : α) (f : α → Except ε β) : (Except.ok a >>= f) = f a := rfl

theorem bind_eq_ok {x : Except ε α} {f : α → Except ε β} {b : β} (h : (x >>= f) = .ok b) :
    ∃ a, x = .ok a ∧ f a = .ok b := by
  cases x with
  | error e => cases h
  | ok a => exact ⟨a, rfl, h⟩

theorem exists_mapM_eq_ok {f : α → Except ε β} {l : List α}
    (h : ∀ a ∈ l, ∃ b, f a = .ok b) : ∃ bs, l.mapM f = .ok bs := by
  induction l with
  | nil => exact ⟨[], rfl⟩
  | cons a l ih =>
    obtain ⟨b, hb⟩ := h a (by simp)
    obtain ⟨bs, hbs⟩ := ih fun c hc => h c (by simp [hc])
    exact ⟨b :: bs, by rw [List.mapM_cons, hb, hbs]; rfl⟩

theorem mem_of_mapM_eq_ok {f : α → Except ε β} {l : List α} {bs : List β}
    (h : l.mapM f = .ok bs) {b : β} (hb : b ∈ bs) : ∃ a ∈ l, f a = .ok b := by
  induction l generalizing bs with
  | nil => cases h; cases hb
  | cons a l ih =>
    rw [List.mapM_cons] at h
    obtain ⟨c, hc, h⟩ := bind_eq_ok h
    obtain ⟨cs, hcs, h⟩ := bind_eq_ok h
    cases h
    rcases List.mem_cons.1 hb with rfl | hb
    · exact ⟨a, by simp, hc⟩
    · obtain ⟨a', ha', hb⟩ := ih hcs hb
      exact ⟨a', by simp [ha'], hb⟩

end Outcomes

def bigEndianBytes : (width n : Nat) → List UInt8
  | 0, _ => []
  | width + 1, n => bigEndianBytes width (n / 256) ++ [UInt8.ofNat n]

@[simp] theorem length_bigEndianBytes (width n : Nat) : (bigEndianBytes width n).length = width := by
  induction width generalizing n with
  | zero => rfl
  | succ width ih => simp [bigEndianBytes, ih]

theorem bigEndian_concat (bytes : List UInt8) (b : UInt8) :
    bigEndian (bytes ++ [b]) = bigEndian bytes * 256 + b.toNat := by
  simp [bigEndian]

theorem bigEndian_bigEndianBytes (width n : Nat) :
    bigEndian (bigEndianBytes width n) = n % Nat.pow 256 width := by
  induction width generalizing n with
  | zero => exact (Nat.mod_one n).symm
  | succ width ih =>
    have hlow : (UInt8.ofNat n).toNat = n % 256 := UInt8.toNat_ofNat'
    have hsplit : n % (256 * Nat.pow 256 width) = n % 256 + 256 * (n / 256 % Nat.pow 256 width) :=
      Nat.mod_mul
    have hpow : Nat.pow 256 (width + 1) = 256 * Nat.pow 256 width := Nat.mul_comm _ _
    rw [bigEndianBytes, bigEndian_concat, ih, hlow, hpow, hsplit]
    omega

def twosComplement (width : Nat) (n : Int) : Nat :=
  (n % Nat.pow 2 width).toNat

def IsSigned (width : Nat) (n : Int) : Prop :=
  -(Nat.pow 2 (width - 1) : Nat) ≤ n ∧ n < (Nat.pow 2 (width - 1) : Nat)

theorem isSigned_int16 (n : Int16) : IsSigned 16 n.toInt := ⟨n.le_toInt, n.toInt_lt⟩

theorem isSigned_int32 (n : Int32) : IsSigned 32 n.toInt := ⟨n.le_toInt, n.toInt_lt⟩

theorem isSigned_of_lt {width n : Nat} (h : n < Nat.pow 2 (width - 1)) : IsSigned width n :=
  ⟨by omega, by exact_mod_cast h⟩

theorem twosComplement_lt (width : Nat) (n : Int) : twosComplement width n < Nat.pow 2 width := by
  have hpos : 0 < Nat.pow 2 width := Nat.pow_pos (by decide)
  have hlt := Int.emod_lt_of_pos n (Int.natCast_pos.2 hpos)
  unfold twosComplement
  omega

theorem signed_twosComplement {width : Nat} (hwidth : 0 < width) {n : Int} (h : IsSigned width n) :
    signed width (twosComplement width n) = n := by
  obtain ⟨hlow, hhigh⟩ := h
  have htwice : Nat.pow 2 width = 2 * Nat.pow 2 (width - 1) := by
    obtain ⟨k, rfl⟩ : ∃ k, width = k + 1 := ⟨width - 1, by omega⟩
    exact Nat.mul_comm _ _
  unfold signed twosComplement
  rw [htwice]
  generalize Nat.pow 2 (width - 1) = half at hlow hhigh
  by_cases hn : 0 ≤ n
  · rw [Int.emod_eq_of_lt hn (by omega), if_pos (by omega), Int.toNat_of_nonneg hn]
  · have hmod : n % ((2 * half : Nat) : Int) = n + (2 * half : Nat) := by
      rw [← Int.add_emod_right, Int.emod_eq_of_lt (by omega) (by omega)]
    rw [hmod, if_neg (by omega)]
    omega

theorem address_of_lt {n : Nat} (h : n < Nat.pow 2 64) : address n = n := by
  unfold address
  rw [Int.emod_eq_of_lt (by omega) (by exact_mod_cast h), Int.toNat_natCast]

def int16Bytes (n : Int) : List UInt8 := bigEndianBytes 2 (twosComplement 16 n)

def int32Bytes (n : Int) : List UInt8 := bigEndianBytes 4 (twosComplement 32 n)

@[simp] theorem length_int16Bytes (n : Int) : (int16Bytes n).length = 2 :=
  length_bigEndianBytes 2 _

@[simp] theorem length_int32Bytes (n : Int) : (int32Bytes n).length = 4 :=
  length_bigEndianBytes 4 _

namespace Bytes

variable {data : Bytes} {offset : Nat} {a b : List UInt8}

def Holds (data : Bytes) (offset : Nat) (part : List UInt8) : Prop :=
  data.slice offset part.length = .ok part

theorem holds_iff : data.Holds offset a ↔
    ∃ before after, data.toList = before ++ a ++ after ∧ before.length = offset := by
  unfold Holds
  rw [slice_eq_ok_iff]
  constructor
  · rintro ⟨hle, ha⟩
    refine ⟨data.toList.take offset, data.toList.drop (offset + a.length), ?_, by simp; omega⟩
    have hrest : a ++ data.toList.drop (offset + a.length) = data.toList.drop offset := by
      have hsplit := List.take_append_drop a.length (data.toList.drop offset)
      rwa [← ha, List.drop_drop] at hsplit
    rw [List.append_assoc, hrest, List.take_append_drop]
  · rintro ⟨before, after, hdata, rfl⟩
    have hsize := congrArg List.length hdata
    simp only [Array.length_toList, List.length_append] at hsize
    exact ⟨by omega, by simp [hdata]⟩

theorem holds_append :
    data.Holds offset (a ++ b) ↔ data.Holds offset a ∧ data.Holds (offset + a.length) b := by
  unfold Holds
  simp only [slice_eq_ok_iff, List.length_append, List.take_add, List.drop_drop]
  constructor
  · rintro ⟨hle, heq⟩
    obtain ⟨ha, hb⟩ := List.append_inj heq (by simp; omega)
    exact ⟨⟨by omega, ha⟩, by omega, hb⟩
  · rintro ⟨⟨-, ha⟩, hle, hb⟩
    exact ⟨by omega, by rw [← ha, ← hb]⟩

theorem holds_toArray (bytes : List UInt8) : Bytes.Holds bytes.toArray 0 bytes := by
  simp [Holds, slice_eq_ok_iff]

theorem Holds.le_size (h : data.Holds offset a) : offset + a.length ≤ data.size :=
  (slice_eq_ok_iff.1 h).1

theorem Holds.getElem? (h : data.Holds offset a) {k : Nat} (hk : k < a.length) :
    data[offset + k]? = a[k]? := by
  obtain ⟨before, after, hdata, rfl⟩ := holds_iff.1 h
  rw [← Array.getElem?_toList, hdata, List.append_assoc, List.getElem?_append_right (by omega),
    List.getElem?_append_left (by omega)]
  congr 1
  omega

theorem unsigned_of_holds {width n : Nat} (h : data.Holds offset (bigEndianBytes width n))
    (hn : n < Nat.pow 256 width) : data.unsigned offset width = .ok n := by
  rw [Holds, length_bigEndianBytes] at h
  rw [unsigned, h, Except.map, bigEndian_bigEndianBytes, Nat.mod_eq_of_lt hn]

theorem int16_of_holds {n : Int} (h : data.Holds offset (int16Bytes n)) (hn : IsSigned 16 n) :
    data.int16 offset = .ok n := by
  rw [int16, unsigned_of_holds h (twosComplement_lt 16 n), Except.map,
    signed_twosComplement (by decide) hn]

theorem int32_of_holds {n : Int} (h : data.Holds offset (int32Bytes n)) (hn : IsSigned 32 n) :
    data.int32 offset = .ok n := by
  rw [int32, unsigned_of_holds h (twosComplement_lt 32 n), Except.map,
    signed_twosComplement (by decide) hn]

theorem getElem?_of_unsigned {n : Nat} (h : data.unsigned offset 1 = .ok n) :
    data[offset]? = some (UInt8.ofNat n) := by
  unfold unsigned at h
  cases hslice : data.slice offset 1 with
  | error e => rw [hslice] at h; cases h
  | ok bytes =>
    rw [hslice] at h
    obtain ⟨b, rfl⟩ := List.length_eq_one_iff.1 (length_of_slice hslice)
    cases h
    have hbyte := Holds.getElem? (a := [b]) hslice (k := 0) Nat.one_pos
    simpa [bigEndian] using hbyte

theorem exists_unsigned {width : Nat} (h : offset + width ≤ data.size) :
    ∃ n, data.unsigned offset width = .ok n :=
  ⟨_, by rw [unsigned, slice, if_pos h]; rfl⟩

theorem exists_int16 (h : offset + 2 ≤ data.size) : ∃ n, data.int16 offset = .ok n := by
  obtain ⟨n, hn⟩ := exists_unsigned h
  exact ⟨_, by rw [int16, hn]; rfl⟩

theorem exists_int32 (h : offset + 4 ≤ data.size) : ∃ n, data.int32 offset = .ok n := by
  obtain ⟨n, hn⟩ := exists_unsigned h
  exact ⟨_, by rw [int32, hn]; rfl⟩

end Bytes

end LingoSource
