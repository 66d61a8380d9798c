import LingoSource.Number.Extended
import LingoSource.Proofs.Bytes.Image

set_option autoImplicit false

namespace LingoSource

theorem binaryDigits_eq {n k : Nat} (hlow : Nat.pow 2 k ≤ n) (hhigh : n < Nat.pow 2 (k + 1)) :
    binaryDigits n = k + 1 := by
  have hn : n ≠ 0 := Nat.ne_of_gt (Nat.lt_of_lt_of_le (Nat.pow_pos (by decide)) hlow)
  rw [binaryDigits, if_neg hn, (Nat.log2_eq_iff hn).2 ⟨hlow, hhigh⟩]

theorem roundDiv_mul (n : Nat) {d : Nat} (h : 0 < d) : roundDiv (n * d) d = n := by
  have hnone : ¬(d < 2 * 0 ∨ 2 * 0 = d ∧ n % 2 = 1) := by omega
  simp only [roundDiv, Nat.mul_div_cancel _ h, Nat.mul_mod_left, if_neg hnone]

namespace Double

def isZero (d : Double) : Bool :=
  d.exponentField = 0 ∧ d.fraction = 0

def isNormal (d : Double) : Bool :=
  0 < d.exponentField ∧ d.exponentField < 2047

def plainZero (d : Double) : Double :=
  if d.isZero then zero false else d

/-- A zero or normal number in the extended format: sign and exponent, then the significand with its
leading bit. -/
def extendedBytes (d : Double) : List UInt8 :=
  if d.isZero then List.replicate 10 0
  else
    bigEndianBytes 2 ((if d.negative then Nat.pow 2 15 else 0) + (d.exponentField + 15360)) ++
      bigEndianBytes 8 (Nat.pow 2 63 + d.fraction * Nat.pow 2 11)

@[simp] theorem length_extendedBytes (d : Double) : d.extendedBytes.length = 10 := by
  unfold extendedBytes
  split <;> simp

theorem fraction_lt (d : Double) : d.fraction < Nat.pow 2 52 :=
  Nat.mod_lt _ (by decide)

theorem ofMagnitude_fields (d : Double) :
    ofMagnitude d.negative (d.exponentField * Nat.pow 2 52 + d.fraction) = d := by
  obtain ⟨word⟩ := d
  have hword : word.toNat < 18446744073709551616 := word.toNat_lt
  have hbits : (if word.toNat / 9223372036854775808 = 1 then 9223372036854775808 else 0) +
      (word.toNat / 4503599627370496 % 2048 * 4503599627370496 + word.toNat % 4503599627370496) %
        9223372036854775808 = word.toNat := by
    split <;> omega
  have hnegative : (Double.mk word).negative = decide (word.toNat / 9223372036854775808 = 1) := rfl
  unfold ofMagnitude
  rw [hnegative]
  simp only [decide_eq_true_eq]
  exact congrArg Double.mk ((congrArg UInt64.ofNat hbits).trans UInt64.ofNat_toNat)

/-- A significand of fifty-three digits in the normal range is taken over digit by digit. -/
theorem nearest_of_normal (negative : Bool) {field fraction : Nat} (hpos : 0 < field)
    (hfield : field < 2047) (hfraction : fraction < Nat.pow 2 52) :
    nearest negative (Nat.pow 2 52 + fraction) ((field : Int) - 1075) =
      ofMagnitude negative (field * Nat.pow 2 52 + fraction) := by
  have hdigits : binaryDigits (Nat.pow 2 52 + fraction) = 53 :=
    binaryDigits_eq (Nat.le_add_right _ _)
      (Nat.lt_of_lt_of_le (Nat.add_lt_add_left hfraction _) (by decide))
  have hscale : max ((field : Int) - 1075 + (53 : Nat) - 53) (-1074) = (field : Int) - 1075 := by
    omega
  have hshift : ((field : Int) - 1075 - ((field : Int) - 1075)).toNat = 0 := by omega
  have hexponent : ((field : Int) - 1075 + 1074).toNat = field - 1 := by omega
  have hsum : (field - 1) * Nat.pow 2 52 + (Nat.pow 2 52 + fraction) =
      field * Nat.pow 2 52 + fraction := by
    obtain ⟨k, rfl⟩ : ∃ k, field = k + 1 := ⟨field - 1, by omega⟩
    rw [Nat.add_sub_cancel, Nat.succ_mul, Nat.add_assoc]
  have hnonzero : Nat.pow 2 52 + fraction ≠ 0 := Nat.ne_of_gt (Nat.add_pos_left (by decide) _)
  have hfinite : ¬ 2047 * Nat.pow 2 52 ≤ field * Nat.pow 2 52 + fraction := by
    have hlt : field * Nat.pow 2 52 + fraction < (field + 1) * Nat.pow 2 52 := by
      rw [Nat.succ_mul]
      exact Nat.add_lt_add_left hfraction _
    have hle : (field + 1) * Nat.pow 2 52 ≤ 2047 * Nat.pow 2 52 := Nat.mul_le_mul_right _ hfield
    exact Nat.not_le_of_lt (Nat.lt_of_lt_of_le hlt hle)
  have hone : (Nat.pow 2 52 + fraction) * Nat.pow 2 0 = Nat.pow 2 52 + fraction := Nat.mul_one _
  unfold nearest
  simp only [hdigits, hscale, Int.le_refl, if_true, hshift, hexponent, hone, hsum, if_neg hnonzero,
    if_neg hfinite]

theorem ofExtended_of_normal (negative : Bool) {field fraction : Nat} (hpos : 0 < field)
    (hfield : field < 2047) (hfraction : fraction < Nat.pow 2 52) :
    ofExtended negative (field + 15360) (Nat.pow 2 63 + fraction * Nat.pow 2 11) =
      ofMagnitude negative (field * Nat.pow 2 52 + fraction) := by
  have hsignificand : Nat.pow 2 63 + fraction * Nat.pow 2 11 =
      (Nat.pow 2 52 + fraction) * Nat.pow 2 11 :=
    (Nat.add_mul (Nat.pow 2 52) fraction (Nat.pow 2 11)).symm
  have hupper : (Nat.pow 2 52 + fraction) * Nat.pow 2 11 < Nat.pow 2 64 :=
    Nat.mul_lt_mul_of_pos_right (Nat.add_lt_add_left hfraction _) (by decide)
  have hdigits : binaryDigits (Nat.pow 2 63 + fraction * Nat.pow 2 11) = 64 :=
    binaryDigits_eq (Nat.le_add_right _ _) (by rwa [hsignificand])
  have hround : roundDiv (Nat.pow 2 63 + fraction * Nat.pow 2 11) (Nat.pow 2 11) =
      Nat.pow 2 52 + fraction := by
    rw [hsignificand, roundDiv_mul _ (by decide)]
  have hlow : ¬ (1024 : Int) ≤ ((field + 15360 : Nat) : Int) - 16383 := by omega
  have hhigh : ¬ ((field + 15360 : Nat) : Int) - 16383 ≤ -1024 := by omega
  have hexponent : ((field + 15360 : Nat) : Int) - 16383 + ((64 - 53 : Nat) : Int) - 63 =
      (field : Int) - 1075 := by omega
  unfold ofExtended
  simp only [hdigits, hround, if_neg hlow, if_neg hhigh, hexponent]
  exact nearest_of_normal negative hpos hfield hfraction

theorem ofExtendedBytes_extendedBytes {d : Double} (h : d.isZero ∨ d.isNormal) :
    ofExtendedBytes d.extendedBytes = d.plainZero := by
  unfold extendedBytes plainZero
  split
  · decide +kernel
  · rename_i hzero
    have hnormal : 0 < d.exponentField ∧ d.exponentField < 2047 := by
      simpa [isNormal] using h.resolve_left hzero
    have hfraction := d.fraction_lt
    have hsignificand : Nat.pow 2 63 + d.fraction * Nat.pow 2 11 < Nat.pow 256 8 :=
      Nat.lt_of_lt_of_le (Nat.add_lt_add_left (Nat.mul_lt_mul_of_pos_right hfraction (by decide)) _)
        (by decide)
    have hpow : Nat.pow 2 15 = 32768 := rfl
    generalize hhead : (if d.negative then Nat.pow 2 15 else 0) + (d.exponentField + 15360) = head
    have hsplit : head < 65536 ∧ decide (32768 ≤ head) = d.negative ∧
        head % 32768 = d.exponentField + 15360 := by
      subst hhead
      rw [hpow]
      cases d.negative <;> simp <;> omega
    obtain ⟨hlt, hsign, hexponent⟩ := hsplit
    unfold ofExtendedBytes
    rw [List.take_left' (length_bigEndianBytes 2 _), List.drop_left' (length_bigEndianBytes 2 _),
      bigEndian_bigEndianBytes, bigEndian_bigEndianBytes, Nat.mod_eq_of_lt hlt,
      Nat.mod_eq_of_lt hsignificand, hpow]
    dsimp only
    rw [hsign, hexponent, ofExtended_of_normal _ hnormal.1 hnormal.2 hfraction, ofMagnitude_fields]

end Double

end LingoSource
