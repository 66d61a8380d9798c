import LingoSource.Bytes.Cursor
import LingoSource.Proofs.Number.Nearest

set_option autoImplicit false

namespace LingoSource

open Grid (Reaches)

namespace Double

section Rounding

variable {m s : ℕ} {e q : ℤ} {x : ℚ}

/-- The closest whole number, an even one if two are as close. -/
theorem roundDiv_spec (n : ℕ) {d : ℕ} (hd : 0 < d) :
    2 * n ≤ (2 * roundDiv n d + 1) * d ∧ 2 * roundDiv n d * d ≤ 2 * n + d ∧
      (roundDiv n d % 2 = 1 → 2 * n ≠ (2 * roundDiv n d + 1) * d ∧
        2 * roundDiv n d * d ≠ 2 * n + d) := by
  have hsplit := Nat.div_add_mod n d
  have hrest := Nat.mod_lt n hd
  have hexpand (k : ℕ) : (2 * k + 1) * d = 2 * (d * k) + d ∧ 2 * k * d = 2 * (d * k) :=
    ⟨by ring, by ring⟩
  unfold roundDiv
  dsimp only
  split
  · have hnext : d * (n / d + 1) = d * (n / d) + d := Nat.mul_succ _ _
    rw [(hexpand _).1, (hexpand _).2, hnext]
    omega
  · rw [(hexpand _).1, (hexpand _).2]
    omega

theorem binaryDigits_spec (hm : m ≠ 0) :
    2 ^ (binaryDigits m - 1) ≤ m ∧ m < 2 ^ binaryDigits m ∧ 0 < binaryDigits m := by
  rw [binaryDigits, if_neg hm]
  exact ⟨Nat.log2_self_le hm, Nat.lt_log2_self, Nat.succ_pos _⟩

structure RoundsTo (x : ℚ) (s : ℕ) (q : ℤ) : Prop where
  above : 2 * x ≤ (2 * s + 1) * 2 ^ q
  below : 2 * s * 2 ^ q ≤ 2 * x + 2 ^ q
  apart_above : s % 2 = 1 → 2 * x ≠ (2 * s + 1) * 2 ^ q
  apart_below : s % 2 = 1 → 2 * s * 2 ^ q ≠ 2 * x + 2 ^ q

theorem roundsTo_shift (h : q ≤ e) : RoundsTo (m * 2 ^ e) (m * Nat.pow 2 (e - q).toNat) q := by
  have hpos : (0 : ℚ) < 2 ^ q := zpow_pos (by norm_num) q
  have hexact : ((m * Nat.pow 2 (e - q).toNat : ℕ) : ℚ) * 2 ^ q = m * 2 ^ e := by
    rw [Nat.cast_mul, show Nat.pow 2 (e - q).toNat = 2 ^ (e - q).toNat from rfl, Nat.cast_pow,
      ← zpow_natCast, Int.toNat_of_nonneg (by omega), mul_assoc, Nat.cast_ofNat,
      ← zpow_add₀ two_ne_zero, sub_add_cancel]
  constructor <;> intros <;> linarith

theorem roundsTo_roundDiv (h : e < q) :
    RoundsTo (m * 2 ^ e) (roundDiv m (Nat.pow 2 (q - e).toNat)) q := by
  have hpos : (0 : ℚ) < 2 ^ e := zpow_pos (by norm_num) e
  have hd : 0 < Nat.pow 2 (q - e).toNat := Nat.pow_pos (by decide)
  have hscale : (2 : ℚ) ^ q = Nat.pow 2 (q - e).toNat * 2 ^ e := by
    rw [show Nat.pow 2 (q - e).toNat = 2 ^ (q - e).toNat from rfl, Nat.cast_pow, ← zpow_natCast,
      Int.toNat_of_nonneg (by omega), Nat.cast_ofNat, ← zpow_add₀ two_ne_zero, sub_add_cancel]
  obtain ⟨habove, hbelow, hodd⟩ := roundDiv_spec m hd
  generalize Nat.pow 2 (q - e).toNat = d at *
  generalize roundDiv m d = s at *
  have hcast {a b : ℕ} : (a : ℚ) * 2 ^ e ≤ b * 2 ^ e ↔ a ≤ b := by
    rw [mul_le_mul_iff_of_pos_right hpos, Nat.cast_le]
  have hcast' {a b : ℕ} : (a : ℚ) * 2 ^ e = b * 2 ^ e ↔ a = b := by
    rw [mul_left_inj' hpos.ne', Nat.cast_inj]
  have hleft : 2 * ((m : ℚ) * 2 ^ e) = (2 * m : ℕ) * 2 ^ e := by push_cast; ring
  have hright : (2 * (s : ℚ) + 1) * 2 ^ q = ((2 * s + 1) * d : ℕ) * 2 ^ e := by
    rw [hscale]; push_cast; ring
  have hleft' : 2 * (s : ℚ) * 2 ^ q = (2 * s * d : ℕ) * 2 ^ e := by rw [hscale]; push_cast; ring
  have hright' : 2 * ((m : ℚ) * 2 ^ e) + 2 ^ q = (2 * m + d : ℕ) * 2 ^ e := by
    rw [hscale]; push_cast; ring
  refine ⟨?_, ?_, fun hs => ?_, fun hs => ?_⟩
  · rw [hleft, hright, hcast]
    exact habove
  · rw [hleft', hright', hcast]
    exact hbelow
  · rw [hleft, hright, Ne, hcast']
    exact (hodd hs).1
  · rw [hleft', hright', Ne, hcast']
    exact (hodd hs).2

section Places

variable {k : ℕ}

/-- A number of fifty-three digits is rounded to one, or to the next power of two. -/
theorem RoundsTo.significand_le (h : RoundsTo x s q) (hx : x < Nat.pow 2 53 * 2 ^ q) :
    s ≤ Nat.pow 2 53 := by
  have hpos : (0 : ℚ) < 2 ^ q := zpow_pos (by norm_num) _
  generalize Nat.pow 2 53 = n at *
  have hlt : ((2 * s : ℕ) : ℚ) < (2 * n + 1 : ℕ) := by
    refine lt_of_mul_lt_mul_right ?_ hpos.le
    push_cast
    linarith [h.below]
  have hlt' : 2 * s < 2 * n + 1 := by exact_mod_cast hlt
  omega

theorem RoundsTo.le_significand (h : RoundsTo x s q) (hx : Nat.pow 2 52 * 2 ^ q ≤ x) :
    Nat.pow 2 52 ≤ s := by
  have hpos : (0 : ℚ) < 2 ^ q := zpow_pos (by norm_num) _
  generalize Nat.pow 2 52 = n at *
  have hle : ((2 * n : ℕ) : ℚ) ≤ (2 * s + 1 : ℕ) := by
    refine le_of_mul_le_mul_right ?_ hpos
    push_cast
    linarith [h.above]
  have hle' : 2 * n ≤ 2 * s + 1 := by exact_mod_cast hle
  omega

/-- The word above is one place away, or the number does not even reach the word. -/
theorem RoundsTo.magnitude_above (h : RoundsTo x s ((k : ℤ) - 1074))
    (hlow : k = 0 ∨ Nat.pow 2 52 * 2 ^ ((k : ℤ) - 1074) ≤ x)
    (hhigh : x < Nat.pow 2 53 * 2 ^ ((k : ℤ) - 1074)) :
    x < magnitude (k * Nat.pow 2 52 + s) ∨
      magnitude (k * Nat.pow 2 52 + s + 1) = (s + 1) * 2 ^ ((k : ℤ) - 1074) := by
  have hk := hlow.imp_right h.le_significand
  have hs := h.significand_le hhigh
  rcases hs.lt_or_eq with hless | heq
  · have hnext := magnitude_eq (k := k) (Nat.succ_le_of_lt hless)
      (hk.imp_right fun hle => hle.trans (Nat.le_succ s))
    exact .inr (by rw [Nat.add_assoc, hnext, Nat.cast_succ])
  · exact .inl (by rw [magnitude_eq hs hk, heq]; exact hhigh)

theorem RoundsTo.magnitude_below (h : RoundsTo x s ((k : ℤ) - 1074))
    (hlow : k = 0 ∨ Nat.pow 2 52 * 2 ^ ((k : ℤ) - 1074) ≤ x)
    (hhigh : x < Nat.pow 2 53 * 2 ^ ((k : ℤ) - 1074)) (hb : 0 < k * Nat.pow 2 52 + s) :
    magnitude (k * Nat.pow 2 52 + s) ≤ x ∨
      magnitude (k * Nat.pow 2 52 + s - 1) = (s - 1) * 2 ^ ((k : ℤ) - 1074) := by
  have hpow : 0 < Nat.pow 2 52 := by decide
  have hk := hlow.imp_right h.le_significand
  have hs := h.significand_le hhigh
  by_cases hfirst : s = Nat.pow 2 52 ∧ k ≠ 0
  · exact .inl (by rw [magnitude_eq hs hk, hfirst.1]; exact hlow.resolve_left hfirst.2)
  · have hpos : 1 ≤ s := by
      rcases hk with rfl | hk
      · omega
      · omega
    have hprevious := magnitude_eq (s := s - 1) (k := k) (by omega) (by omega)
    exact .inr (by rw [Nat.add_sub_assoc hpos, hprevious, Nat.cast_sub hpos, Nat.cast_one])

/-- A multiple that a number is rounded to gives the bits of its word, if the number has the digits for
normal words or the power is that of the smallest words. -/
theorem RoundsTo.reaches (h : RoundsTo x s ((k : ℤ) - 1074))
    (hlow : k = 0 ∨ Nat.pow 2 52 * 2 ^ ((k : ℤ) - 1074) ≤ x)
    (hhigh : x < Nat.pow 2 53 * 2 ^ ((k : ℤ) - 1074)) :
    Reaches magnitude (k * Nat.pow 2 52 + s) x := by
  have hvalue := magnitude_eq (h.significand_le hhigh) (hlow.imp_right h.le_significand)
  have habove := h.magnitude_above hlow hhigh
  have hbelow := h.magnitude_below hlow hhigh
  have hparity : (k * Nat.pow 2 52 + s) % 2 = s % 2 := by
    show (k * 4503599627370496 + s) % 2 = s % 2
    omega
  have hnext : magnitude (k * Nat.pow 2 52 + s) < magnitude (k * Nat.pow 2 52 + s + 1) :=
    magnitude_strictMono (Nat.lt_succ_self _)
  have hprevious (hb : 0 < k * Nat.pow 2 52 + s) :
      magnitude (k * Nat.pow 2 52 + s - 1) < magnitude (k * Nat.pow 2 52 + s) :=
    magnitude_strictMono (Nat.sub_lt hb Nat.one_pos)
  have hpos (hodd : (k * Nat.pow 2 52 + s) % 2 = 1) : 0 < k * Nat.pow 2 52 + s :=
    Nat.pos_of_ne_zero fun heq => by rw [heq] at hodd; cases hodd
  refine ⟨fun hb => ?_, ?_, fun hodd heq => ?_, fun hodd heq => ?_⟩
  · rcases hbelow hb with hle | hplace
    · linarith [hprevious hb]
    · rw [hplace, hvalue]
      linarith [h.below]
  · rcases habove with hlt | hplace
    · linarith
    · rw [hplace, hvalue]
      linarith [h.above]
  · rcases hbelow (hpos hodd) with hle | hplace
    · linarith [hprevious (hpos hodd)]
    · rw [hplace, hvalue] at heq
      exact h.apart_below (hparity ▸ hodd) (by linarith)
  · rcases habove with hlt | hplace
    · linarith
    · rw [hplace, hvalue] at heq
      exact h.apart_above (hparity ▸ hodd) (by linarith)

end Places

theorem isNearest_of_bits {b : ℕ} {negative : Bool} (hx : 0 ≤ x) (h : Reaches magnitude b x) :
    IsNearest (signum negative * x)
      (if limit ≤ b then infinity negative else ofMagnitude negative b) := by
  have habs : |signum negative * x| = x := by rw [abs_signum_mul, abs_of_nonneg hx]
  have hsign (hne : signum negative * x ≠ 0) : negative = decide (signum negative * x < 0) := by
    have hpos : 0 < x := lt_of_le_of_ne hx fun heq => hne (by rw [← heq, mul_zero])
    cases negative <;> simp [signum, hpos, hx]
  split
  · rename_i hb
    have hover := overflow_le_of_reaches (habs.symm ▸ h) hb
    refine isNearest_infinity hover (hsign fun heq => ?_)
    rw [heq, abs_zero] at hover
    have hnone := limit_middle
    have hpos : 0 ≤ magnitude (limit - 1) ∧ 0 < magnitude limit :=
      ⟨magnitude_nonneg _, by
        rw [← magnitude_zero]
        exact magnitude_strictMono (by decide)⟩
    linarith [hpos.1, hpos.2]
  · rename_i hb
    have hlt := (not_le.1 hb).trans limit_lt
    refine isNearest_of_reaches ?_ ?_ ?_
    · rw [Double.isFinite_iff, bits_ofMagnitude _ hlt]
      exact not_le.1 hb
    · rw [bits_ofMagnitude _ hlt, habs]
      exact h
    · rw [negative_ofMagnitude _ hlt]
      exact hsign

def placed (negative : Bool) (q : ℤ) (s : ℕ) : Double :=
  if s = 0 then zero negative
  else if limit ≤ (q + 1074).toNat * Nat.pow 2 52 + s then infinity negative
  else ofMagnitude negative ((q + 1074).toNat * Nat.pow 2 52 + s)

section Placed

variable {negative : Bool}

theorem nearest_of_le (hq : max (e + binaryDigits m - 53) (-1074) = q) (h : q ≤ e) :
    nearest negative m e = placed negative q (m * Nat.pow 2 (e - q).toNat) := by
  subst hq
  unfold nearest placed
  dsimp only
  rw [if_pos h]
  rfl

theorem nearest_of_lt (hq : max (e + binaryDigits m - 53) (-1074) = q) (h : e < q) :
    nearest negative m e = placed negative q (roundDiv m (Nat.pow 2 (q - e).toNat)) := by
  subst hq
  unfold nearest placed
  dsimp only
  rw [if_neg (not_le.2 h)]
  rfl

/-- A significand of fifty-four digits, one bit set, is the one of the next exponent. -/
theorem placed_carry (hq : -1074 ≤ q) :
    placed negative q (Nat.pow 2 53) = placed negative (q + 1) (Nat.pow 2 52) := by
  have hbits : (q + 1074).toNat * Nat.pow 2 52 + Nat.pow 2 53 =
      (q + 1 + 1074).toNat * Nat.pow 2 52 + Nat.pow 2 52 := by
    show (q + 1074).toNat * 4503599627370496 + 9007199254740992 =
      (q + 1 + 1074).toNat * 4503599627370496 + 4503599627370496
    omega
  unfold placed
  rw [hbits]
  rfl

end Placed

theorem isNearest_nearest (negative : Bool) (m : ℕ) (e : ℤ) :
    IsNearest (signum negative * (m * 2 ^ e)) (nearest negative m e) := by
  have hpow : Nat.pow 2 52 = 2 ^ 52 ∧ Nat.pow 2 53 = 2 ^ 53 := ⟨rfl, rfl⟩
  by_cases hm : m = 0
  · have hzero : nearest negative 0 e = ofMagnitude negative 0 := by
      simp [nearest, binaryDigits, roundDiv, zero]
    rw [hm, hzero, Nat.cast_zero, zero_mul]
    exact isNearest_of_bits le_rfl reaches_zero
  obtain ⟨hdigits, hdigits', hpositive⟩ := binaryDigits_spec hm
  obtain ⟨k, hk⟩ : ∃ k : ℕ, max (e + binaryDigits m - 53) (-1074) = (k : ℤ) - 1074 :=
    ⟨(max (e + binaryDigits m - 53) (-1074) + 1074).toNat, by omega⟩
  obtain ⟨s, hnearest, hrounds⟩ : ∃ s, nearest negative m e = placed negative ((k : ℤ) - 1074) s ∧
      RoundsTo (m * 2 ^ e) s ((k : ℤ) - 1074) := by
    rcases le_or_gt ((k : ℤ) - 1074) e with hle | hlt
    · exact ⟨_, nearest_of_le hk hle, roundsTo_shift hle⟩
    · exact ⟨_, nearest_of_lt hk hlt, roundsTo_roundDiv hlt⟩
  have hpos : (0 : ℚ) < 2 ^ e := zpow_pos (by norm_num) e
  have hlow : k = 0 ∨ Nat.pow 2 52 * (2 : ℚ) ^ ((k : ℤ) - 1074) ≤ m * 2 ^ e := by
    rcases Nat.eq_zero_or_pos k with hzero | hnormal
    · exact .inl hzero
    · have hexponent : (52 : ℕ) + ((k : ℤ) - 1074) = (binaryDigits m - 1 : ℕ) + e := by omega
      refine .inr ?_
      rw [hpow.1, Nat.cast_pow, ← zpow_natCast, Nat.cast_ofNat, ← zpow_add₀ two_ne_zero, hexponent,
        zpow_add₀ two_ne_zero, zpow_natCast, mul_le_mul_iff_of_pos_right hpos]
      exact_mod_cast hdigits
  have hhigh : (m : ℚ) * 2 ^ e < Nat.pow 2 53 * (2 : ℚ) ^ ((k : ℤ) - 1074) := by
    have hexponent : (binaryDigits m : ℤ) + e ≤ (53 : ℕ) + ((k : ℤ) - 1074) := by omega
    calc (m : ℚ) * 2 ^ e < (2 ^ binaryDigits m : ℕ) * 2 ^ e := by
          rw [mul_lt_mul_iff_of_pos_right hpos]
          exact_mod_cast hdigits'
      _ = 2 ^ ((binaryDigits m : ℤ) + e) := by
          rw [Nat.cast_pow, ← zpow_natCast, Nat.cast_ofNat, ← zpow_add₀ two_ne_zero]
      _ ≤ 2 ^ ((53 : ℕ) + ((k : ℤ) - 1074)) := zpow_le_zpow_right₀ (by norm_num) hexponent
      _ = Nat.pow 2 53 * (2 : ℚ) ^ ((k : ℤ) - 1074) := by
          rw [hpow.2, zpow_add₀ two_ne_zero, zpow_natCast, Nat.cast_pow, Nat.cast_ofNat]
  have hplaced := @isNearest_of_bits _ _ negative (mul_nonneg (Nat.cast_nonneg m) hpos.le)
    (hrounds.reaches hlow hhigh)
  have hbits : ((k : ℤ) - 1074 + 1074).toNat = k := by omega
  rw [hnearest, placed, hbits]
  split
  · rename_i hnone
    have hfirst : k = 0 := by
      refine hlow.resolve_right fun hx => ?_
      have hle := hrounds.le_significand hx
      rw [hnone] at hle
      exact absurd hle (by decide)
    rw [hnone, hfirst] at hplaced
    exact hplaced
  · exact hplaced

theorem nearest_roundDiv (negative : Bool) {n : ℤ} (hn : -1022 ≤ n) (hlow : Nat.pow 2 63 ≤ m)
    (hhigh : m < Nat.pow 2 64) :
    nearest negative (roundDiv m (Nat.pow 2 11)) (n - 52) = nearest negative m (n - 63) := by
  have hdigits : binaryDigits m = 64 := binaryDigits_eq hlow hhigh
  have hshift : (n - 52 - (n - 63)).toNat = 11 := by omega
  have hright : nearest negative m (n - 63) =
      placed negative (n - 52) (roundDiv m (Nat.pow 2 11)) := by
    rw [nearest_of_lt (q := n - 52) (by rw [hdigits]; omega) (by omega), hshift]
  have hbounds : Nat.pow 2 52 ≤ roundDiv m (Nat.pow 2 11) ∧
      roundDiv m (Nat.pow 2 11) ≤ Nat.pow 2 53 := by
    obtain ⟨habove, hbelow, -⟩ := roundDiv_spec m (show 0 < Nat.pow 2 11 by decide)
    generalize roundDiv m (Nat.pow 2 11) = s at *
    change 2 * m ≤ (2 * s + 1) * 2048 at habove
    change 2 * s * 2048 ≤ 2 * m + 2048 at hbelow
    change 9223372036854775808 ≤ m at hlow
    change m < 18446744073709551616 at hhigh
    show 4503599627370496 ≤ s ∧ s ≤ 9007199254740992
    omega
  rw [hright]
  rcases hbounds.2.lt_or_eq with hless | hcarry
  · have hdigits : binaryDigits (roundDiv m (Nat.pow 2 11)) = 53 := binaryDigits_eq hbounds.1 hless
    rw [nearest_of_le (q := n - 52) (by rw [hdigits]; omega) le_rfl, sub_self]
    exact congrArg (placed negative (n - 52)) (Nat.mul_one _)
  · have hdigits : binaryDigits (Nat.pow 2 53) = 54 := by decide
    have hshift : (n - 52 + 1 - (n - 52)).toNat = 1 := by omega
    have hhalf : roundDiv (Nat.pow 2 53) (Nat.pow 2 1) = Nat.pow 2 52 := by decide
    rw [hcarry, placed_carry (by omega),
      nearest_of_lt (q := n - 52 + 1) (by rw [hdigits]; omega) (by omega), hshift, hhalf]

end Rounding

end Double

/-- A number of eighty bits: its sign, its exponent with bias 16383, and its significand. -/
structure Extended where
  negative : Bool
  exponent : ℕ
  significand : ℕ

namespace Extended

def ofBytes (bytes : List UInt8) : Extended where
  negative := Nat.pow 2 15 ≤ bigEndian (bytes.take 2)
  exponent := bigEndian (bytes.take 2) % Nat.pow 2 15
  significand := bigEndian (bytes.drop 2)

def value (x : Extended) : ℚ :=
  Double.signum x.negative * (x.significand * 2 ^ ((x.exponent : ℤ) - 16383 - 63))

/-- A leading bit that is set, and an exponent that normal words have as well. -/
structure InRange (x : Extended) : Prop where
  leading : Nat.pow 2 63 ≤ x.significand
  exponent_ge : -1022 ≤ (x.exponent : ℤ) - 16383
  exponent_le : (x.exponent : ℤ) - 16383 ≤ 1023

end Extended

theorem bigEndian_lt (bytes : List UInt8) : bigEndian bytes < Nat.pow 256 bytes.length := by
  induction bytes using List.reverseRecOn with
  | nil => decide
  | append_singleton bytes b ih =>
    have hb : b.toNat < 256 := b.toNat_lt
    have hpow : Nat.pow 256 (bytes.length + 1) = Nat.pow 256 bytes.length * 256 := rfl
    rw [bigEndian_concat, List.length_append, List.length_singleton, hpow]
    omega

namespace Double

theorem isNearest_ofExtendedBytes {bytes : List UInt8} (hlength : bytes.length = 10)
    (h : (Extended.ofBytes bytes).InRange) :
    IsNearest (Extended.ofBytes bytes).value (ofExtendedBytes bytes) := by
  have hlt : bigEndian (bytes.drop 2) < Nat.pow 2 64 := by
    have hlt := bigEndian_lt (bytes.drop 2)
    rw [List.length_drop, hlength] at hlt
    exact lt_of_lt_of_eq hlt (by decide)
  have hlow : Nat.pow 2 63 ≤ bigEndian (bytes.drop 2) := h.leading
  have hge := h.exponent_ge
  have hle := h.exponent_le
  unfold ofExtendedBytes ofExtended
  unfold Extended.ofBytes at hge hle ⊢
  dsimp only [Extended.value] at hge hle ⊢
  generalize bigEndian (bytes.drop 2) = m at *
  generalize bigEndian (bytes.take 2) % Nat.pow 2 15 = exponent at *
  have hexcess : (exponent : ℤ) - 16383 + ((64 - 53 : ℕ) : ℤ) - 63 = (exponent : ℤ) - 16383 - 52 := by
    omega
  rw [binaryDigits_eq hlow hlt, if_neg (by omega), if_neg (by omega), hexcess]
  show IsNearest _ (nearest _ (roundDiv m (Nat.pow 2 11)) _)
  rw [nearest_roundDiv _ hge hlow hlt]
  exact isNearest_nearest _ _ _

end Double

namespace Extended

theorem value_ne_zero {x : Extended} (h : x.InRange) : x.value ≠ 0 := by
  have hpos : (0 : ℕ) < x.significand := lt_of_lt_of_le (by decide) h.leading
  have hsign : Double.signum x.negative ≠ 0 := by cases x.negative <;> simp [Double.signum]
  exact mul_ne_zero hsign (mul_ne_zero (Nat.cast_ne_zero.2 hpos.ne') (zpow_ne_zero _ two_ne_zero))

end Extended

namespace Cursor

variable {c : Cursor} {bytes : List UInt8}

theorem extended_of_holds (h : c.data.Holds c.position bytes) (hlength : bytes.length = 10) :
    c.extended = (.ok (Double.ofExtendedBytes bytes), c.moveTo (c.position + 10)) := by
  rw [Bytes.Holds, hlength] at h
  simp only [extended, take, h, Except.map]

/-- Ten bytes are read as the one word that their number is rounded to, if that is in the range of normal
words or passes the largest of them; and a normal word is read back as it is. -/
theorem extended_rounds (c : Cursor) :
    (∀ bytes, c.data.Holds c.position bytes → bytes.length = 10 → (Extended.ofBytes bytes).InRange →
      ∃ d, c.extended = (.ok d, c.moveTo (c.position + 10)) ∧
        ∀ d', Double.IsNearest (Extended.ofBytes bytes).value d' ↔ d' = d) ∧
    ∀ d : Double, d.isNormal → c.data.Holds c.position d.extendedBytes →
      c.extended = (.ok d, c.moveTo (c.position + 10)) := by
  refine ⟨fun bytes h hlength hrange => ?_, fun d hd h => ?_⟩
  · exact ⟨_, extended_of_holds h hlength, fun d' =>
      (Double.isNearest_ofExtendedBytes hlength hrange).eq_iff (Extended.value_ne_zero hrange)⟩
  · have hzero : d.isZero = false := by
      simp only [Double.isNormal, Bool.decide_and, Bool.and_eq_true, decide_eq_true_eq] at hd
      simp [Double.isZero, hd.1.ne']
    rw [extended_of_holds h d.length_extendedBytes, Double.ofExtendedBytes_extendedBytes (.inr hd),
      Double.plainZero, hzero]
    rfl

/-- The largest exponent with all bits of the significand set is rounded up to infinity, and the smallest
normal word is read back. -/
theorem extended_rounds_extremes :
    (∀ d', Double.IsNearest
      (Extended.ofBytes [0xc3, 0xfe, 255, 255, 255, 255, 255, 255, 255, 255]).value d' ↔
        d' = .infinity true) ∧
    Cursor.extended ⟨#[0x3c, 0x01, 0x80, 0, 0, 0, 0, 0, 0, 0], 0⟩ =
      (.ok ⟨0x0010000000000000⟩, ⟨#[0x3c, 0x01, 0x80, 0, 0, 0, 0, 0, 0, 0], 10⟩) := by
  obtain ⟨d, hread, hnearest⟩ :=
    (extended_rounds ⟨#[0xc3, 0xfe, 255, 255, 255, 255, 255, 255, 255, 255], 0⟩).1
      [0xc3, 0xfe, 255, 255, 255, 255, 255, 255, 255, 255] (Bytes.holds_toArray _) (by decide)
      ⟨by decide, by decide, by decide⟩
  have hlargest : d = .infinity true := by
    have heq := congrArg Prod.fst hread
    have hcomputed : (Cursor.extended ⟨#[0xc3, 0xfe, 255, 255, 255, 255, 255, 255, 255, 255], 0⟩).1 =
        .ok (.infinity true) := by decide
    exact Except.ok.inj (heq.symm.trans hcomputed)
  refine ⟨hlargest ▸ hnearest, ?_⟩
  exact (extended_rounds ⟨#[0x3c, 0x01, 0x80, 0, 0, 0, 0, 0, 0, 0], 0⟩).2 ⟨0x0010000000000000⟩
    (by decide) (Bytes.holds_toArray _)

end Cursor

end LingoSource
