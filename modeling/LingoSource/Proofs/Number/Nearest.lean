import LingoSource.Proofs.Number.Magnitude

set_option autoImplicit false

namespace LingoSource

open Grid (Reaches)

namespace Double

def overflow : ℚ :=
  2 ^ (1024 : ℤ) - 2 ^ (970 : ℤ)

/-- Whether a number is rounded to a word: the infinity of its sign if it is too large, else a finite word
that no other is closer than, and an even one if another is as close. Only the zero has words of both
signs. -/
structure IsNearest (x : ℚ) (d : Double) : Prop where
  isFinite_iff : d.isFinite ↔ |x| < overflow
  not_nan : d.isNaN = false
  negative_eq : x ≠ 0 → d.negative = decide (x < 0)
  closest : |x| < overflow → ∀ c : Double, c.isFinite → |d.value - x| ≤ |c.value - x|
  even_of_tie : |x| < overflow → ∀ c : Double, c.isFinite → |c.value - x| = |d.value - x| →
    c.value ≠ d.value → d.significand % 2 = 0

section Reaching

variable {x : ℚ} {c d : Double} {b : ℕ} {negative : Bool}

theorem limit_middle : magnitude (limit - 1) + magnitude limit = 2 * overflow := by
  have hpow : Nat.pow 2 52 = 4503599627370496 ∧ Nat.pow 2 53 = 9007199254740992 := by decide
  have hlast : limit - 1 = 2045 * Nat.pow 2 52 + 9007199254740991 := by decide
  have hlimit : limit = 2045 * Nat.pow 2 52 + 9007199254740992 := by decide
  rw [hlast, hlimit, magnitude_eq (by omega) (by omega), magnitude_eq (by omega) (by omega), overflow,
    show (1024 : ℤ) = 970 + 54 by norm_num, show ((2045 : ℕ) : ℤ) - 1074 = 970 + 1 by norm_num,
    zpow_add₀ two_ne_zero, zpow_add₀ two_ne_zero]
  generalize (2 : ℚ) ^ (970 : ℤ) = p
  norm_num
  ring

theorem abs_value_sub (h : x ≠ 0 → d.negative = decide (x < 0)) :
    |d.value - x| = abs (magnitude d.bits - |x|) := by
  have hvalue := d.value_eq
  rcases lt_trichotomy x 0 with hx | rfl | hx
  · rw [h hx.ne, decide_eq_true hx] at hvalue
    rw [hvalue, abs_of_neg hx, ← abs_neg]
    simp [signum, add_comm, sub_eq_add_neg]
  · simp [abs_value, abs_of_nonneg (magnitude_nonneg _)]
  · rw [h hx.ne', decide_eq_false hx.not_gt] at hvalue
    rw [hvalue, abs_of_pos hx]
    simp [signum]

theorem le_abs_value_sub (c : Double) (x : ℚ) : abs (magnitude c.bits - |x|) ≤ |c.value - x| := by
  rw [← abs_value]
  exact abs_abs_sub_abs_le _ _

theorem abs_lt_overflow_of_reaches (h : Reaches magnitude b |x|) (hb : b < limit) : |x| < overflow := by
  have hmiddle := limit_middle
  have hlow : magnitude b ≤ magnitude (limit - 1) := magnitude_strictMono.monotone (by omega)
  have hhigh : magnitude (b + 1) ≤ magnitude limit := magnitude_strictMono.monotone hb
  refine lt_of_le_of_ne (by linarith [h.above]) fun heq => ?_
  -- The largest word is odd, so that it does not reach up to the middle.
  have hlast : b = limit - 1 := magnitude_strictMono.injective (by linarith [h.above])
  have hodd : b % 2 = 1 := by
    rw [hlast]
    decide
  exact h.apart_above hodd (by linarith [h.above])

theorem overflow_le_of_reaches (h : Reaches magnitude b |x|) (hb : limit ≤ b) : overflow ≤ |x| := by
  have hmiddle := limit_middle
  have hpos : 0 < limit := by decide
  have hlow : magnitude (limit - 1) ≤ magnitude (b - 1) := magnitude_strictMono.monotone (by omega)
  have hhigh : magnitude limit ≤ magnitude b := magnitude_strictMono.monotone hb
  linarith [h.below (by omega)]

theorem isNearest_of_reaches (hd : d.isFinite) (h : Reaches magnitude d.bits |x|)
    (hsign : x ≠ 0 → d.negative = decide (x < 0)) : IsNearest x d where
  isFinite_iff := iff_of_true hd (abs_lt_overflow_of_reaches h (d.isFinite_iff.1 hd))
  not_nan := by simpa [isNaN, isFinite] using fun heq => absurd heq (by simpa [isFinite] using hd)
  negative_eq := hsign
  closest _ c _ := by
    rw [abs_value_sub hsign]
    exact (h.le magnitude_strictMono _).trans (le_abs_value_sub c x)
  even_of_tie _ c _ htie hne := by
    rw [significand_eq, significandOf_mod_two]
    refine (Nat.mod_two_eq_zero_or_one _).resolve_right fun hodd => ?_
    have hle := le_abs_value_sub c x
    rw [htie, abs_value_sub hsign] at hle
    have hbits : c.bits = d.bits := by
      by_contra hbits
      exact absurd hle (not_le.2 (h.lt magnitude_strictMono hodd hbits))
    -- The other word is the same but for its sign, and both are as close to the number as the zero.
    have hsigns : c.negative ≠ d.negative := fun heq => hne (congrArg value (ext_bits heq hbits))
    have hopposite : c.value = -d.value := by
      rw [c.value_eq, d.value_eq, hbits]
      cases hc : c.negative <;> cases hd : d.negative <;> simp_all [signum]
    rw [hopposite, ← abs_neg, neg_sub, sub_neg_eq_add] at htie
    have hzero : x * d.value = 0 := by
      have hsquares := (sq_eq_sq_iff_abs_eq_abs _ _).2 htie
      nlinarith
    have hvalue : d.value ≠ 0 := fun heq => hne (by rw [hopposite, heq, neg_zero])
    have hx : x = 0 := (mul_eq_zero.1 hzero).resolve_right hvalue
    have hbelow := h.below (by omega)
    rw [hx, abs_zero, mul_zero] at hbelow
    have hnone : magnitude d.bits = 0 :=
      le_antisymm (by linarith [magnitude_nonneg (d.bits - 1)]) (magnitude_nonneg _)
    rw [magnitude_eq_zero_iff] at hnone
    omega

/-- A word that a number is rounded to has it between the middles to its neighbours. -/
theorem IsNearest.reaches (h : IsNearest x d) (hd : d.isFinite) : Reaches magnitude d.bits |x| := by
  have hx : |x| < overflow := h.isFinite_iff.1 hd
  have hb : d.bits < limit := d.isFinite_iff.1 hd
  have hodd : d.bits % 2 = 1 → ¬ d.significand % 2 = 0 := by
    rw [significand_eq, significandOf_mod_two]
    omega
  -- The neighbours are compared as words of the same sign.
  have hbits {b : ℕ} (hb : b < limit) : (ofMagnitude d.negative b).bits = b :=
    bits_ofMagnitude _ (hb.trans limit_lt)
  have hfinite {b : ℕ} (hb : b < limit) : (ofMagnitude d.negative b).isFinite := by
    rw [Double.isFinite_iff, hbits hb]
    exact hb
  have hdistance {b : ℕ} (hb : b < limit) :
      |(ofMagnitude d.negative b).value - x| = abs (magnitude b - |x|) := by
    rw [abs_value_sub, hbits hb]
    rw [negative_ofMagnitude _ (hb.trans limit_lt)]
    exact h.negative_eq
  have hne {b : ℕ} (hb : b < limit) (hother : b ≠ d.bits) :
      (ofMagnitude d.negative b).value ≠ d.value := fun heq => by
    have habs := congrArg abs heq
    rw [abs_value, abs_value, hbits hb] at habs
    exact hother (magnitude_strictMono.injective habs)
  have hclosest {b : ℕ} (hb : b < limit) : abs (magnitude d.bits - |x|) ≤ abs (magnitude b - |x|) := by
    rw [← abs_value_sub h.negative_eq, ← hdistance hb]
    exact h.closest hx _ (hfinite hb)
  have htie {b : ℕ} (hb : b < limit) (hother : b ≠ d.bits) (hparity : d.bits % 2 = 1) :
      abs (magnitude b - |x|) ≠ abs (magnitude d.bits - |x|) := by
    rw [← abs_value_sub h.negative_eq, ← hdistance hb]
    exact fun heq => hodd hparity (h.even_of_tie hx _ (hfinite hb) heq (hne hb hother))
  have hbefore {b : ℕ} (hb : b + 1 = d.bits) : magnitude b < magnitude d.bits :=
    magnitude_strictMono (by omega)
  have hbehind : magnitude d.bits < magnitude (d.bits + 1) := magnitude_strictMono (by omega)
  refine ⟨fun hpos => ?_, ?_, fun hparity heq => ?_, fun hparity heq => ?_⟩
  · exact (Grid.abs_sub_le_abs_sub_iff' (hbefore (by omega))).1 (hclosest (by omega))
  · by_cases hlast : d.bits + 1 < limit
    · exact (Grid.abs_sub_le_abs_sub_iff hbehind).1 (hclosest hlast)
    · have hlimit : d.bits = limit - 1 ∧ d.bits + 1 = limit := by omega
      rw [hlimit.2, hlimit.1, limit_middle]
      linarith
  · have hle := (Grid.abs_sub_le_abs_sub_iff (hbefore (by omega))).2 heq.ge
    exact htie (by omega) (by omega) hparity (le_antisymm hle (hclosest (by omega)))
  · by_cases hlast : d.bits + 1 < limit
    · have hle := (Grid.abs_sub_le_abs_sub_iff' hbehind).2 heq.ge
      exact htie hlast (by omega) hparity (le_antisymm hle (hclosest hlast))
    · have hlimit : d.bits = limit - 1 ∧ d.bits + 1 = limit := by omega
      rw [hlimit.2, hlimit.1, limit_middle] at heq
      linarith

theorem bits_infinity (negative : Bool) : (infinity negative).bits = limit :=
  bits_ofMagnitude negative limit_lt

theorem isNearest_infinity (h : overflow ≤ |x|) (hsign : negative = decide (x < 0)) :
    IsNearest x (infinity negative) where
  isFinite_iff := iff_of_false (by rw [Double.isFinite_iff, bits_infinity]; exact lt_irrefl _) h.not_gt
  not_nan := by cases negative <;> decide
  negative_eq _ := (negative_ofMagnitude negative limit_lt).trans hsign
  closest hlt := absurd hlt h.not_gt
  even_of_tie hlt := absurd hlt h.not_gt

theorem bits_of_not_finite (hfinite : ¬ d.isFinite) (hnan : d.isNaN = false) : d.bits = limit := by
  have hlt := d.bits_lt
  have hlimit : limit = 2047 * 4503599627370496 := by decide
  rw [Double.isFinite_iff, hlimit] at hfinite
  have hpow : Nat.pow 2 52 = 4503599627370496 ∧ Nat.pow 2 63 = 9223372036854775808 := by decide
  unfold isNaN at hnan
  rw [decide_eq_false_iff_not, exponentField_eq, fraction_eq, hpow.1] at hnan
  rw [hpow.2] at hlt
  omega

theorem IsNearest.unique (h : IsNearest x c) (h' : IsNearest x d) (hsign : c.negative = d.negative) :
    c = d := by
  refine ext_bits hsign ?_
  by_cases hx : |x| < overflow
  · exact (h.reaches (h.isFinite_iff.2 hx)).unique magnitude_strictMono
      (h'.reaches (h'.isFinite_iff.2 hx))
  · rw [bits_of_not_finite (fun hc => hx (h.isFinite_iff.1 hc)) h.not_nan,
      bits_of_not_finite (fun hd => hx (h'.isFinite_iff.1 hd)) h'.not_nan]

theorem IsNearest.eq_iff (h : IsNearest x d) (hx : x ≠ 0) : IsNearest x c ↔ c = d :=
  ⟨fun h' => h'.unique h (by rw [h.negative_eq hx, h'.negative_eq hx]), fun heq => heq ▸ h⟩

end Reaching

end Double

end LingoSource
