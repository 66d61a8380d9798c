import LingoSource.Number.Shortest
import LingoSource.Proofs.Number.Nearest

/-!
The shortest decimal of a number. A decimal is one of a word if it lies between the middles to the words
next to it. Of the decimals with a given number of digits one of the two around the number is such a one if
any is, and with seventeen digits there always is one, since the grid is finer there than the words are.
-/
set_option autoImplicit false

namespace LingoSource

open Grid (Reaches)

def Decimal.value (x : Decimal) : ℚ :=
  x.digits * 10 ^ x.exponent

section Comparing

variable {c x : ℕ} {t p : ℤ}

theorem zpow_mul_pow_toNat {b : ℚ} (hb : b ≠ 0) (t : ℤ) : b ^ t * b ^ (-t).toNat = b ^ t.toNat := by
  rw [← zpow_natCast, ← zpow_natCast, ← zpow_add₀ hb]
  congr 1
  omega

theorem zpow_natCast_add (n : ℕ) (t : ℤ) : (10 : ℚ) ^ ((n : ℤ) + t) = (10 ^ n : ℕ) * 10 ^ t := by
  rw [zpow_add₀ (by norm_num), zpow_natCast, Nat.cast_pow, Nat.cast_ofNat]

theorem compareScaled_eq (c : ℕ) (t : ℤ) (x : ℕ) (p : ℤ) :
    compareScaled c t x p = compare ((c : ℚ) * 10 ^ t) (x * 2 ^ p) := by
  have hpos : (0 : ℚ) < 10 ^ (-t).toNat * 2 ^ (-p).toNat := by positivity
  have hleft : ((c * Nat.pow 10 t.toNat * Nat.pow 2 (-p).toNat : ℕ) : ℚ) =
      c * 10 ^ t * (10 ^ (-t).toNat * 2 ^ (-p).toNat) := by
    rw [show c * Nat.pow 10 t.toNat * Nat.pow 2 (-p).toNat = c * 10 ^ t.toNat * 2 ^ (-p).toNat from rfl]
    push_cast
    rw [← zpow_mul_pow_toNat (by norm_num : (10 : ℚ) ≠ 0) t]
    ring
  have hright : ((x * Nat.pow 2 p.toNat * Nat.pow 10 (-t).toNat : ℕ) : ℚ) =
      x * 2 ^ p * (10 ^ (-t).toNat * 2 ^ (-p).toNat) := by
    rw [show x * Nat.pow 2 p.toNat * Nat.pow 10 (-t).toNat = x * 2 ^ p.toNat * 10 ^ (-t).toNat from rfl]
    push_cast
    rw [← zpow_mul_pow_toNat (by norm_num : (2 : ℚ) ≠ 0) p]
    ring
  have hlt {a b : ℕ} {y z : ℚ} (ha : (a : ℚ) = y * (10 ^ (-t).toNat * 2 ^ (-p).toNat))
      (hb : (b : ℚ) = z * (10 ^ (-t).toNat * 2 ^ (-p).toNat)) : a < b ↔ y < z := by
    rw [← mul_lt_mul_iff_of_pos_right hpos, ← ha, ← hb, Nat.cast_lt]
  unfold compareScaled
  rcases lt_trichotomy ((c : ℚ) * 10 ^ t) (x * 2 ^ p) with h | h | h
  · rw [compare_lt_iff_lt.2 h, compare_lt_iff_lt, hlt hleft hright]
    exact h
  · rw [compare_eq_iff_eq.2 h, compare_eq_iff_eq, ← @Nat.cast_inj ℚ, hleft, hright, h]
  · rw [compare_gt_iff_gt.2 h, compare_gt_iff_gt]
    exact (hlt hright hleft).2 h

end Comparing

section Digits

variable {n num den : ℕ}

theorem decimalDigits_pos (n : ℕ) : 0 < decimalDigits n :=
  Nat.length_toDigits_pos

theorem decimalDigits_le_iff {k : ℕ} (hk : 0 < k) : decimalDigits n ≤ k ↔ n < 10 ^ k :=
  Nat.length_toDigits_le_iff (by decide) hk

theorem lt_pow_decimalDigits (n : ℕ) : n < 10 ^ decimalDigits n :=
  (decimalDigits_le_iff (decimalDigits_pos n)).1 le_rfl

theorem pow_decimalDigits_le (hn : 0 < n) : 10 ^ (decimalDigits n - 1) ≤ n := by
  rcases Nat.eq_zero_or_pos (decimalDigits n - 1) with hzero | hpos
  · rw [hzero]
    exact hn
  · by_contra hlt
    have hle := (decimalDigits_le_iff hpos).2 (not_le.1 hlt)
    omega

theorem leadingExponent_spec (hnum : 0 < num) (hden : 0 < den) :
    (10 : ℚ) ^ leadingExponent num den ≤ num / den ∧
      (num : ℚ) / den < 10 ^ (leadingExponent num den + 1) := by
  have hden' : (0 : ℚ) < den := Nat.cast_pos.2 hden
  have hnum' : (0 : ℚ) < num := Nat.cast_pos.2 hnum
  rw [le_div_iff₀ hden', div_lt_iff₀ hden']
  unfold leadingExponent
  split
  · rename_i hle
    have hpos := decimalDigits_pos (num / den)
    have hlow : 10 ^ (decimalDigits (num / den) - 1) * den ≤ num :=
      (Nat.le_div_iff_mul_le hden).1 (pow_decimalDigits_le (Nat.div_pos hle hden))
    have hhigh : num < 10 ^ decimalDigits (num / den) * den :=
      (Nat.div_lt_iff_lt_mul hden).1 (lt_pow_decimalDigits _)
    rw [sub_add_cancel, show (decimalDigits (num / den) : ℤ) - 1 = (decimalDigits (num / den) - 1 : ℕ) by
      omega, zpow_natCast, zpow_natCast]
    exact ⟨by exact_mod_cast hlow, by exact_mod_cast hhigh⟩
  · rename_i hlt
    have hpos := decimalDigits_pos ((den - 1) / num)
    have hlow : 10 ^ (decimalDigits ((den - 1) / num) - 1) * num < den := by
      have hle := (Nat.le_div_iff_mul_le hnum).1
        (pow_decimalDigits_le (Nat.div_pos (show num ≤ den - 1 by omega) hnum))
      omega
    have hhigh : den ≤ 10 ^ decimalDigits ((den - 1) / num) * num := by
      have hlt := (Nat.div_lt_iff_lt_mul hnum).1 (lt_pow_decimalDigits ((den - 1) / num))
      omega
    generalize decimalDigits ((den - 1) / num) = k at *
    have hsucc : -(k : ℤ) + 1 = -((k - 1 : ℕ) : ℤ) := by omega
    rw [hsucc, zpow_neg, zpow_neg, zpow_natCast, zpow_natCast, inv_mul_le_iff₀ (by positivity),
      lt_inv_mul_iff₀ (by positivity)]
    exact ⟨by exact_mod_cast hhigh, by exact_mod_cast hlow⟩

end Digits

namespace Double

variable {d : Double}

/-- The place below is narrower right above a power of two. -/
theorem scaleOf_pred (h : 0 < d.significand) :
    scaleOf (d.bits - 1) = if d.narrowBelow then d.scale - 1 else d.scale := by
  have hbits : d.bits ≠ 0 := by
    intro heq
    rw [significand_eq, heq] at h
    exact absurd h (by decide)
  rw [scale_eq]
  unfold scaleOf narrowBelow
  rw [exponentField_eq, fraction_eq]
  simp only [Bool.decide_and, Bool.and_eq_true, decide_eq_true_eq]
  show ((max ((d.bits - 1) / 4503599627370496) 1 : ℕ) : ℤ) - 1075 =
    if d.bits % 4503599627370496 = 0 ∧ 1 < d.bits / 4503599627370496 then
      ((max (d.bits / 4503599627370496) 1 : ℕ) : ℤ) - 1075 - 1
    else ((max (d.bits / 4503599627370496) 1 : ℕ) : ℤ) - 1075
  split <;> omega

theorem magnitude_pred {b : ℕ} (hb : 0 < b) : magnitude (b - 1) = magnitude b - 2 ^ scaleOf (b - 1) := by
  have hsucc := magnitude_succ (b - 1)
  rw [Nat.sub_add_cancel hb] at hsucc
  linarith

theorem bits_pos (h : 0 < d.significand) : 0 < d.bits := by
  refine Nat.pos_of_ne_zero fun heq => ?_
  rw [significand_eq, heq] at h
  exact absurd h (by decide)

theorem middle_below (h : 0 < d.significand) :
    magnitude (d.bits - 1) + magnitude d.bits =
      2 * ((4 * d.significand - if d.narrowBelow then 1 else 2 : ℕ) * 2 ^ (d.scale - 2)) := by
  have hvalue : magnitude d.bits = d.significand * 2 ^ d.scale := by
    rw [magnitude, significand_eq, scale_eq]
  rw [magnitude_pred (bits_pos h), scaleOf_pred h, hvalue]
  cases d.narrowBelow
  · rw [if_neg Bool.false_ne_true, if_neg Bool.false_ne_true, Nat.cast_sub (by omega),
      zpow_sub₀ two_ne_zero]
    push_cast
    ring
  · rw [if_pos rfl, if_pos rfl, Nat.cast_sub (by omega), zpow_sub₀ two_ne_zero, zpow_sub₀ two_ne_zero]
    push_cast
    ring

theorem middle_above (d : Double) :
    magnitude d.bits + magnitude (d.bits + 1) =
      2 * ((4 * d.significand + 2 : ℕ) * 2 ^ (d.scale - 2)) := by
  have hvalue : magnitude d.bits = d.significand * 2 ^ d.scale := by
    rw [magnitude, significand_eq, scale_eq]
  rw [magnitude_succ, ← scale_eq, hvalue, zpow_sub₀ two_ne_zero]
  push_cast
  ring

theorem owns_iff (h : 0 < d.significand) (x : Decimal) :
    d.owns x = true ↔ Reaches magnitude d.bits x.value := by
  have hparity : d.significand % 2 = d.bits % 2 := by rw [significand_eq, significandOf_mod_two]
  have hbelow := middle_below h
  have habove := d.middle_above
  have hpos := bits_pos h
  unfold owns
  simp only [compareScaled_eq]
  change (if d.significand % 2 = 0 then _ else _) = true ↔ _
  rw [hparity]
  generalize ((4 * d.significand - if d.narrowBelow then 1 else 2 : ℕ) : ℚ) * 2 ^ (d.scale - 2) = low
    at hbelow ⊢
  generalize ((4 * d.significand + 2 : ℕ) : ℚ) * 2 ^ (d.scale - 2) = high at habove ⊢
  change (if d.bits % 2 = 0 then compare x.value low != .lt && compare x.value high != .gt
    else compare x.value low == .gt && compare x.value high == .lt) = true ↔ _
  split
  · rename_i heven
    simp only [Bool.and_eq_true, bne_iff_ne, ne_eq, compare_lt_iff_lt, compare_gt_iff_gt, not_lt]
    constructor
    · rintro ⟨hle, hge⟩
      exact ⟨fun _ => by linarith, by linarith, fun hodd => by omega, fun hodd => by omega⟩
    · intro hreach
      exact ⟨by linarith [hreach.below hpos], by linarith [hreach.above]⟩
  · rename_i hodd
    simp only [Bool.and_eq_true, beq_iff_eq, compare_lt_iff_lt, compare_gt_iff_gt]
    constructor
    · rintro ⟨hlt, hgt⟩
      exact ⟨fun _ => by linarith, by linarith, fun _ => by linarith, fun _ => by linarith⟩
    · intro hreach
      have hone : d.bits % 2 = 1 := by omega
      have hlt := lt_of_le_of_ne (hreach.below hpos) (hreach.apart_below hone)
      have hgt := lt_of_le_of_ne hreach.above (hreach.apart_above hone)
      exact ⟨by linarith, by linarith⟩

theorem leadingDigit_spec (h : 0 < d.significand) :
    (10 : ℚ) ^ d.leadingDigit ≤ magnitude d.bits ∧ magnitude d.bits < 10 ^ (d.leadingDigit + 1) := by
  have hvalue : magnitude d.bits = ((d.significand * Nat.pow 2 d.scale.toNat : ℕ) : ℚ) /
      (Nat.pow 2 (-d.scale).toNat : ℕ) := by
    have hpos : (0 : ℚ) < 2 ^ (-d.scale).toNat := by positivity
    rw [magnitude, ← significand_eq, ← scale_eq, Nat.cast_mul,
      show ((Nat.pow 2 d.scale.toNat : ℕ) : ℚ) = 2 ^ d.scale.toNat from Nat.cast_pow _ _,
      show ((Nat.pow 2 (-d.scale).toNat : ℕ) : ℚ) = 2 ^ (-d.scale).toNat from Nat.cast_pow _ _,
      eq_div_iff hpos.ne', mul_assoc, zpow_mul_pow_toNat two_ne_zero]
  rw [hvalue]
  exact leadingExponent_spec (Nat.mul_pos h (Nat.pow_pos (by decide))) (Nat.pow_pos (by decide))

def placesIn (d : Double) (t : ℤ) : ℕ :=
  d.significand * Nat.pow 2 d.scale.toNat * Nat.pow 10 (-t).toNat /
    (Nat.pow 2 (-d.scale).toNat * Nat.pow 10 t.toNat)

theorem placesIn_spec (d : Double) (t : ℤ) :
    (d.placesIn t : ℚ) * 10 ^ t ≤ magnitude d.bits ∧
      magnitude d.bits < ((d.placesIn t + 1 : ℕ) : ℚ) * 10 ^ t := by
  have hden : 0 < Nat.pow 2 (-d.scale).toNat * Nat.pow 10 t.toNat :=
    Nat.mul_pos (Nat.pow_pos (by decide)) (Nat.pow_pos (by decide))
  have hscale : (0 : ℚ) < 2 ^ (-d.scale).toNat * 10 ^ (-t).toNat := by positivity
  have hnum : ((d.significand * Nat.pow 2 d.scale.toNat * Nat.pow 10 (-t).toNat : ℕ) : ℚ) =
      magnitude d.bits * (2 ^ (-d.scale).toNat * 10 ^ (-t).toNat) := by
    rw [magnitude, ← significand_eq, ← scale_eq, show d.significand * Nat.pow 2 d.scale.toNat *
      Nat.pow 10 (-t).toNat = d.significand * 2 ^ d.scale.toNat * 10 ^ (-t).toNat from rfl]
    push_cast
    rw [← zpow_mul_pow_toNat (by norm_num : (2 : ℚ) ≠ 0) d.scale]
    ring
  have hplaces (c : ℕ) : ((c * (Nat.pow 2 (-d.scale).toNat * Nat.pow 10 t.toNat) : ℕ) : ℚ) =
      c * 10 ^ t * (2 ^ (-d.scale).toNat * 10 ^ (-t).toNat) := by
    rw [show c * (Nat.pow 2 (-d.scale).toNat * Nat.pow 10 t.toNat) =
      c * (2 ^ (-d.scale).toNat * 10 ^ t.toNat) from rfl]
    push_cast
    rw [← zpow_mul_pow_toNat (by norm_num : (10 : ℚ) ≠ 0) t]
    ring
  constructor
  · rw [← mul_le_mul_iff_of_pos_right hscale, ← hnum, ← hplaces, Nat.cast_le]
    exact Nat.div_mul_le_self _ _
  · rw [← mul_lt_mul_iff_of_pos_right hscale, ← hnum, ← hplaces, Nat.cast_lt]
    exact Nat.lt_mul_of_div_lt (Nat.lt_succ_self _) hden

section Count

variable {count : ℕ}

def lastPlace (d : Double) (count : ℕ) : ℤ :=
  d.leadingDigit - count + 1

theorem pow_leadingDigit (d : Double) (hcount : 0 < count) :
    (10 : ℚ) ^ d.leadingDigit = (10 ^ (count - 1) : ℕ) * 10 ^ d.lastPlace count := by
  rw [← zpow_natCast_add, lastPlace]
  congr 1
  omega

theorem pow_leadingDigit_succ (d : Double) (count : ℕ) :
    (10 : ℚ) ^ (d.leadingDigit + 1) = (10 ^ count : ℕ) * 10 ^ d.lastPlace count := by
  rw [← zpow_natCast_add, lastPlace]
  congr 1
  omega

theorem placesIn_bounds (h : 0 < d.significand) (hcount : 0 < count) :
    10 ^ (count - 1) ≤ d.placesIn (d.lastPlace count) ∧ d.placesIn (d.lastPlace count) < 10 ^ count := by
  obtain ⟨hlow, hhigh⟩ := d.placesIn_spec (d.lastPlace count)
  obtain ⟨hlead, hlead'⟩ := leadingDigit_spec h
  have hpos : (0 : ℚ) < 10 ^ d.lastPlace count := by positivity
  rw [d.pow_leadingDigit hcount] at hlead
  rw [d.pow_leadingDigit_succ count] at hlead'
  constructor
  · have hlt := lt_of_mul_lt_mul_right (hlead.trans_lt hhigh) hpos.le
    exact Nat.lt_succ_iff.1 (by exact_mod_cast hlt)
  · have hlt := lt_of_mul_lt_mul_right (hlow.trans_lt hlead') hpos.le
    exact_mod_cast hlt

/-- One of the two decimals around a word is chosen, and one that is the word's, if any is. -/
theorem shortestWith_spec (d : Double) (count : ℕ) :
    (∀ x, d.shortestWith count = some x → d.owns x = true ∧ x.exponent = d.lastPlace count ∧
      (x.digits = d.placesIn (d.lastPlace count) ∨ x.digits = d.placesIn (d.lastPlace count) + 1)) ∧
    (d.shortestWith count = none →
      d.owns ⟨d.placesIn (d.lastPlace count), d.lastPlace count⟩ = false ∧
        d.owns ⟨d.placesIn (d.lastPlace count) + 1, d.lastPlace count⟩ = false) := by
  have hunfold : d.shortestWith count =
      (if d.owns ⟨d.placesIn (d.lastPlace count), d.lastPlace count⟩ then
        if d.owns ⟨d.placesIn (d.lastPlace count) + 1, d.lastPlace count⟩ &&
          compareScaled (2 * d.placesIn (d.lastPlace count) + 1) (d.lastPlace count)
            (2 * d.significand) d.scale != .gt then
          some ⟨d.placesIn (d.lastPlace count) + 1, d.lastPlace count⟩
        else some ⟨d.placesIn (d.lastPlace count), d.lastPlace count⟩
      else if d.owns ⟨d.placesIn (d.lastPlace count) + 1, d.lastPlace count⟩ then
        some ⟨d.placesIn (d.lastPlace count) + 1, d.lastPlace count⟩
      else none) := rfl
  rw [hunfold]
  generalize d.placesIn (d.lastPlace count) = c
  generalize d.lastPlace count = t
  split
  · rename_i hlower
    split
    · rename_i hupper
      rw [Bool.and_eq_true] at hupper
      refine ⟨fun x hx => ?_, nofun⟩
      cases hx
      exact ⟨hupper.1, rfl, .inr rfl⟩
    · refine ⟨fun x hx => ?_, nofun⟩
      cases hx
      exact ⟨hlower, rfl, .inl rfl⟩
  · rename_i hlower
    split
    · rename_i hupper
      refine ⟨fun x hx => ?_, nofun⟩
      cases hx
      exact ⟨hupper, rfl, .inr rfl⟩
    · rename_i hupper
      exact ⟨nofun,
        fun _ => ⟨Bool.eq_false_iff.2 hlower, Bool.eq_false_iff.2 hupper⟩⟩

theorem shortestWith_ne_none (h : 0 < d.significand) (hcount : 0 < count) {c : ℕ} {t : ℤ}
    (hc : c < 10 ^ count) (hreach : Reaches magnitude d.bits (c * 10 ^ t)) :
    d.shortestWith count ≠ none := by
  intro hnone
  obtain ⟨hlower, hupper⟩ := (d.shortestWith_spec count).2 hnone
  have hself := reaches_self (bits_pos h)
  obtain ⟨hlow, hhigh⟩ := d.placesIn_spec (d.lastPlace count)
  have hpos : (0 : ℚ) < 10 ^ d.lastPlace count := by positivity
  -- A decimal below the word is below the lower one, or that itself.
  have hfrom (hle : (c : ℚ) * 10 ^ t ≤ d.placesIn (d.lastPlace count) * 10 ^ d.lastPlace count) : False := by
    have howns := (owns_iff h ⟨d.placesIn (d.lastPlace count), d.lastPlace count⟩).2
      (hreach.between hself hle hlow)
    rw [hlower] at howns
    cases howns
  obtain ⟨hplaces, -⟩ := placesIn_bounds h hcount
  by_cases hplace : d.lastPlace count ≤ t
  · obtain ⟨n, hn⟩ : ∃ n : ℕ, (c : ℚ) * 10 ^ t = n * 10 ^ d.lastPlace count := by
      refine ⟨c * 10 ^ (t - d.lastPlace count).toNat, ?_⟩
      rw [Nat.cast_mul, Nat.cast_pow, Nat.cast_ofNat, ← zpow_natCast, Int.toNat_of_nonneg (by omega),
        mul_assoc, ← zpow_add₀ (by norm_num), sub_add_cancel]
    rcases Nat.lt_or_ge (d.placesIn (d.lastPlace count)) n with hlt | hge
    · have hle : ((d.placesIn (d.lastPlace count) + 1 : ℕ) : ℚ) * 10 ^ d.lastPlace count ≤ c * 10 ^ t := by
        rw [hn, mul_le_mul_iff_of_pos_right hpos, Nat.cast_le]
        exact hlt
      have howns := (owns_iff h ⟨d.placesIn (d.lastPlace count) + 1, d.lastPlace count⟩).2
        (hself.between hreach hhigh.le hle)
      rw [hupper] at howns
      cases howns
    · exact hfrom (by rw [hn, mul_le_mul_iff_of_pos_right hpos, Nat.cast_le]; exact hge)
  · -- With a last place below that of the grid it has fewer digits before it than the word.
    refine hfrom ?_
    have hexponent : count + t ≤ ((count - 1 : ℕ) : ℤ) + d.lastPlace count := by omega
    calc (c : ℚ) * 10 ^ t ≤ (10 ^ count : ℕ) * 10 ^ t :=
          mul_le_mul_of_nonneg_right (Nat.cast_le.2 hc.le) (by positivity)
      _ = 10 ^ (count + t) := (zpow_natCast_add _ _).symm
      _ ≤ 10 ^ (((count - 1 : ℕ) : ℤ) + d.lastPlace count) := zpow_le_zpow_right₀ (by norm_num) hexponent
      _ = (10 ^ (count - 1) : ℕ) * 10 ^ d.lastPlace count := zpow_natCast_add _ _
      _ ≤ d.placesIn (d.lastPlace count) * 10 ^ d.lastPlace count :=
          mul_le_mul_of_nonneg_right (Nat.cast_le.2 hplaces) hpos.le

/-- The last place of seventeen digits is smaller than the step from a word to the one below. -/
theorem lastPlace_lt_step (h : 0 < d.significand) :
    (10 : ℚ) ^ d.lastPlace 17 < 2 ^ scaleOf (d.bits - 1) := by
  obtain ⟨hlead, -⟩ := leadingDigit_spec h
  obtain ⟨k, s, hb, hs, hk, -, hscale⟩ := bits_split (d.bits - 1)
  have hpos : (0 : ℚ) < 2 ^ scaleOf (d.bits - 1) := zpow_pos two_pos _
  have hpow : Nat.pow 2 53 = 9007199254740992 := by decide
  have hmagnitude : magnitude d.bits ≤ 9007199254740992 * 2 ^ scaleOf (d.bits - 1) := by
    have hsucc := magnitude_succ (d.bits - 1)
    have hvalue := magnitude_eq hs.le hk
    rw [← hb, hscale] at hvalue
    rw [Nat.sub_add_cancel (bits_pos h), hvalue, ← add_one_mul] at hsucc
    rw [hsucc, mul_le_mul_iff_of_pos_right hpos]
    exact_mod_cast hpow ▸ hs
  rw [d.pow_leadingDigit (show 0 < 17 by decide)] at hlead
  push_cast at hlead
  linarith

theorem shortestWith_seventeen (h : 0 < d.significand) : d.shortestWith 17 ≠ none := by
  intro hnone
  obtain ⟨hlower, hupper⟩ := (d.shortestWith_spec 17).2 hnone
  obtain ⟨hlow, hhigh⟩ := d.placesIn_spec (d.lastPlace 17)
  have hstep := lastPlace_lt_step h
  have hbelow := magnitude_pred (bits_pos h)
  have habove := magnitude_succ d.bits
  have hmono : (2 : ℚ) ^ scaleOf (d.bits - 1) ≤ 2 ^ scaleOf d.bits := by
    refine zpow_le_zpow_right₀ (by norm_num) ?_
    unfold scaleOf
    have hle := Nat.div_le_div_right (c := Nat.pow 2 52) (Nat.sub_le d.bits 1)
    omega
  have hpos : (0 : ℚ) < 10 ^ d.lastPlace 17 := by positivity
  rw [Nat.cast_succ, add_one_mul] at hhigh
  -- The closer of the two decimals is at most half a step away.
  rcases le_or_gt (2 * ((d.placesIn (d.lastPlace 17) : ℚ) * 10 ^ d.lastPlace 17 + 10 ^ d.lastPlace 17))
    (2 * magnitude d.bits + 10 ^ d.lastPlace 17) with hclose | hclose
  · have hreach : Reaches magnitude d.bits
        (Decimal.value ⟨d.placesIn (d.lastPlace 17) + 1, d.lastPlace 17⟩) := by
      rw [Decimal.value, Nat.cast_succ, add_one_mul]
      constructor <;> intros <;> linarith
    rw [(owns_iff h _).2 hreach] at hupper
    cases hupper
  · have hreach : Reaches magnitude d.bits
        (Decimal.value ⟨d.placesIn (d.lastPlace 17), d.lastPlace 17⟩) := by
      rw [Decimal.value]
      constructor <;> intros <;> linarith
    rw [(owns_iff h _).2 hreach] at hlower
    cases hlower

/-- The shortest decimal is found with some number of digits, and no decimal of fewer is one of the word. -/
theorem exists_shortest (h : 0 < d.significand) :
    ∃ count, 0 < count ∧ d.shortestWith count = some d.shortest ∧
      ∀ k, 0 < k → k < count → d.shortestWith k = none := by
  obtain ⟨x, hx⟩ : ∃ x, (List.range' 1 17).findSome? d.shortestWith = some x := by
    rw [← Option.isSome_iff_exists, List.findSome?_isSome_iff]
    exact ⟨17, by decide, Option.isSome_iff_ne_none.2 (shortestWith_seventeen h)⟩
  obtain ⟨before, count, after, hsplit, hfound, hnone⟩ := List.findSome?_eq_some_iff.1 hx
  have hcount : count = 1 + before.length := by
    have hget := congrArg (·[before.length]?) hsplit
    simp only [List.getElem?_append_right le_rfl, Nat.sub_self, List.getElem?_cons_zero] at hget
    have hlt : before.length < 17 := by
      have hlength := congrArg List.length hsplit
      simp at hlength
      omega
    rw [List.getElem?_range' hlt] at hget
    have heq := Option.some.inj hget
    omega
  refine ⟨count, by omega, ?_, fun k hk hlt => ?_⟩
  · rw [hfound, shortest, hx]
    rfl
  · refine hnone k (List.mem_of_getElem? (i := k - 1) ?_)
    have hget := congrArg (·[k - 1]?) hsplit
    simp only [List.getElem?_append_left (show k - 1 < before.length by omega)] at hget
    have hlength := congrArg List.length hsplit
    simp at hlength
    rw [← hget, List.getElem?_range' (by omega)]
    congr 1
    omega

/-- What is known of the shortest decimal of a number: it is rounded to the number, its digits are no more
than those of any other such decimal, and it starts where the number does or is the next power of ten. -/
structure IsShortest (d : Double) (x : Decimal) (count : ℕ) : Prop where
  reaches : Reaches magnitude d.bits x.value
  digits_pos : 0 < x.digits
  digits_le : x.digits ≤ 10 ^ count
  count_pos : 0 < count
  count_le : ∀ {k c : ℕ} {t : ℤ}, c < 10 ^ k → 0 < k → Reaches magnitude d.bits (c * 10 ^ t) → count ≤ k
  value_ge : 10 ^ d.leadingDigit ≤ x.value
  value_le : x.value ≤ 10 ^ (d.leadingDigit + 1)

theorem exists_isShortest (h : 0 < d.significand) : ∃ count, IsShortest d d.shortest count := by
  obtain ⟨count, hcount, hfound, hnone⟩ := exists_shortest h
  obtain ⟨howns, hexponent, hdigits⟩ := (d.shortestWith_spec count).1 _ hfound
  obtain ⟨hlow, hhigh⟩ := placesIn_bounds h hcount
  have hpos : (0 : ℚ) < 10 ^ d.lastPlace count := by positivity
  have hpower : 0 < 10 ^ (count - 1) := by positivity
  refine ⟨count, (owns_iff h _).1 howns, by omega, by omega, hcount, fun hc hk hreach => ?_, ?_, ?_⟩
  · by_contra hlt
    exact shortestWith_ne_none h hk hc hreach (hnone _ hk (not_le.1 hlt))
  · rw [Decimal.value, hexponent, d.pow_leadingDigit hcount, mul_le_mul_iff_of_pos_right hpos, Nat.cast_le]
    omega
  · rw [Decimal.value, hexponent, d.pow_leadingDigit_succ count, mul_le_mul_iff_of_pos_right hpos, Nat.cast_le]
    omega

end Count

end Double

end LingoSource
