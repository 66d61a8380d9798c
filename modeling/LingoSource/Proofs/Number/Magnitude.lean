import LingoSource.Proofs.Number.Extended
import Mathlib

/-!
The numbers that words stand for. Without their signs the words count through their numbers in order, each
by one last place more than the one before, so the word nearest to a number is the one between whose two
middles it lies.
-/
set_option autoImplicit false

namespace LingoSource

namespace Grid

variable {f : ℕ → ℚ} {b c : ℕ} {y : ℚ}

/-- Whether a number belongs to a point of a grid: it lies between the middles to both neighbours, and on
one of them only if the point is even. -/
structure Reaches (f : ℕ → ℚ) (b : ℕ) (y : ℚ) : Prop where
  below : 0 < b → f (b - 1) + f b ≤ 2 * y
  above : 2 * y ≤ f b + f (b + 1)
  apart_below : b % 2 = 1 → f (b - 1) + f b ≠ 2 * y
  apart_above : b % 2 = 1 → 2 * y ≠ f b + f (b + 1)

theorem abs_sub_le_abs_sub_iff {p q : ℚ} (h : p < q) : |p - y| ≤ |q - y| ↔ 2 * y ≤ p + q := by
  rw [← sq_le_sq]
  constructor <;> intro hle <;> nlinarith

theorem abs_sub_le_abs_sub_iff' {p q : ℚ} (h : p < q) : |q - y| ≤ |p - y| ↔ p + q ≤ 2 * y := by
  rw [← sq_le_sq]
  constructor <;> intro hle <;> nlinarith

theorem Reaches.le (h : Reaches f b y) (hf : StrictMono f) (c : ℕ) : |f b - y| ≤ |f c - y| := by
  rcases lt_trichotomy c b with hc | rfl | hc
  · have hstep : f c ≤ f (b - 1) := hf.monotone (by omega)
    exact (abs_sub_le_abs_sub_iff' (hf hc)).2 (by linarith [h.below (by omega)])
  · exact le_rfl
  · have hstep : f (b + 1) ≤ f c := hf.monotone hc
    exact (abs_sub_le_abs_sub_iff (hf hc)).2 (by linarith [h.above])

theorem Reaches.lt (h : Reaches f b y) (hf : StrictMono f) (hodd : b % 2 = 1) (hc : c ≠ b) :
    |f b - y| < |f c - y| := by
  rw [← not_le]
  intro hle
  rcases lt_or_gt_of_ne hc with hc | hc
  · have hstep : f c ≤ f (b - 1) := hf.monotone (by omega)
    have hmiddle := (abs_sub_le_abs_sub_iff (hf hc)).1 hle
    exact h.apart_below hodd (le_antisymm (h.below (by omega)) (by linarith))
  · have hstep : f (b + 1) ≤ f c := hf.monotone hc
    have hmiddle := (abs_sub_le_abs_sub_iff' (hf hc)).1 hle
    exact h.apart_above hodd (le_antisymm h.above (by linarith))

theorem Reaches.unique (h : Reaches f b y) (hf : StrictMono f) (h' : Reaches f c y) : b = c := by
  -- One of two points next to each other is odd, so the middle between them belongs to one only.
  have hnot {b c : ℕ} (h : Reaches f b y) (h' : Reaches f c y) : ¬ b < c := by
    intro hlt
    have hstep : f (b + 1) ≤ f c := hf.monotone hlt
    have hstep' : f b ≤ f (c - 1) := hf.monotone (by omega)
    have hbelow := h'.below (by omega)
    have habove := h.above
    have hmiddle : 2 * y = f b + f (b + 1) := by linarith
    have hmiddle' : f (c - 1) + f c = 2 * y := by linarith
    have hnext : c = b + 1 := hf.injective (by linarith)
    have heven : ¬ b % 2 = 1 := fun hodd => h.apart_above hodd hmiddle
    exact h'.apart_below (by omega) hmiddle'
  exact le_antisymm (not_lt.1 (hnot h' h)) (not_lt.1 (hnot h h'))

theorem Reaches.between {x z : ℚ} (hx : Reaches f b x) (hz : Reaches f b z) (hxy : x ≤ y)
    (hyz : y ≤ z) : Reaches f b y where
  below hb := by linarith [hx.below hb]
  above := by linarith [hz.above]
  apart_below hodd heq :=
    hx.apart_below hodd (le_antisymm (hx.below (by omega)) (by linarith))
  apart_above hodd heq :=
    hz.apart_above hodd (le_antisymm hz.above (by linarith))

end Grid

namespace Double

def bits (d : Double) : ℕ :=
  d.word.toNat % Nat.pow 2 63

def limit : ℕ :=
  2047 * Nat.pow 2 52

def significandOf (bits : ℕ) : ℕ :=
  if bits / Nat.pow 2 52 = 0 then bits % Nat.pow 2 52 else Nat.pow 2 52 + bits % Nat.pow 2 52

def scaleOf (bits : ℕ) : ℤ :=
  (max (bits / Nat.pow 2 52) 1 : ℕ) - 1075

/-- The number of the word with these bits and no sign. Past the limit the numbers go on as they would with
more bits. -/
def magnitude (bits : ℕ) : ℚ :=
  significandOf bits * 2 ^ scaleOf bits

def signum (negative : Bool) : ℚ :=
  if negative then -1 else 1

def value (d : Double) : ℚ :=
  signum d.negative * (d.significand * 2 ^ d.scale)

section Fields

variable (d : Double)

theorem exponentField_eq : d.exponentField = d.bits / Nat.pow 2 52 := by
  show d.word.toNat / 4503599627370496 % 2048 =
    d.word.toNat % 9223372036854775808 / 4503599627370496
  omega

theorem fraction_eq : d.fraction = d.bits % Nat.pow 2 52 := by
  show d.word.toNat % 4503599627370496 =
    d.word.toNat % 9223372036854775808 % 4503599627370496
  omega

theorem significand_eq : d.significand = significandOf d.bits := by
  unfold significand significandOf
  rw [exponentField_eq, fraction_eq]

theorem scale_eq : d.scale = scaleOf d.bits := by
  unfold scale scaleOf
  rw [exponentField_eq]

theorem bits_lt : d.bits < Nat.pow 2 63 :=
  Nat.mod_lt _ (by decide)

theorem isFinite_iff : d.isFinite ↔ d.bits < limit := by
  have hbits : d.bits < 9223372036854775808 := d.bits_lt
  unfold isFinite
  rw [exponentField_eq, decide_eq_true_eq]
  show d.bits / 4503599627370496 ≠ 2047 ↔ d.bits < 2047 * 4503599627370496
  omega

theorem value_eq : d.value = signum d.negative * magnitude d.bits := by
  rw [value, significand_eq, scale_eq, magnitude]

end Fields

theorem ext_bits {c d : Double} (hsign : c.negative = d.negative) (hbits : c.bits = d.bits) : c = d := by
  rw [← ofMagnitude_fields c, ← ofMagnitude_fields d, exponentField_eq, exponentField_eq, fraction_eq,
    fraction_eq, hsign, hbits]

section OfMagnitude

variable {b : ℕ} (negative : Bool)

theorem toNat_ofMagnitude (hb : b < Nat.pow 2 63) :
    (ofMagnitude negative b).word.toNat = (if negative then Nat.pow 2 63 else 0) + b := by
  have hpow : Nat.pow 2 63 = 9223372036854775808 := by decide
  unfold ofMagnitude
  rw [UInt64.toNat_ofNat', Nat.mod_eq_of_lt hb]
  cases negative <;> simp <;> omega

theorem bits_ofMagnitude (hb : b < Nat.pow 2 63) : (ofMagnitude negative b).bits = b := by
  unfold bits
  rw [toNat_ofMagnitude negative hb]
  cases negative
  · simp [Nat.mod_eq_of_lt hb]
  · simpa using Nat.mod_eq_of_lt hb

theorem negative_ofMagnitude (hb : b < Nat.pow 2 63) : (ofMagnitude negative b).negative = negative := by
  have hpow : Nat.pow 2 63 = 9223372036854775808 := by decide
  unfold Double.negative
  rw [toNat_ofMagnitude negative hb]
  cases negative <;> simp <;> omega

end OfMagnitude

section Magnitude

variable {b k s : ℕ}

theorem limit_lt : limit < Nat.pow 2 63 := by decide

/-- The number of a word whose significand may be as large as that of the next exponent. -/
theorem magnitude_eq (hs : s ≤ Nat.pow 2 53) (hk : k = 0 ∨ Nat.pow 2 52 ≤ s) :
    magnitude (k * Nat.pow 2 52 + s) = s * 2 ^ ((k : ℤ) - 1074) := by
  have hpow : Nat.pow 2 52 = 4503599627370496 ∧ Nat.pow 2 53 = 9007199254740992 := by decide
  rw [hpow.1] at hk ⊢
  rw [hpow.2] at hs
  unfold magnitude significandOf scaleOf
  rw [hpow.1]
  rcases Nat.lt_or_ge s 4503599627370496 with hless | hge
  · obtain rfl : k = 0 := by omega
    have hfield : (0 * 4503599627370496 + s) / 4503599627370496 = 0 := by omega
    have hrest : (0 * 4503599627370496 + s) % 4503599627370496 = s := by omega
    rw [hfield, if_pos rfl, hrest]
    norm_num
  rcases Nat.lt_or_ge s 9007199254740992 with hless | hge'
  · have hfield : (k * 4503599627370496 + s) / 4503599627370496 = k + 1 := by omega
    have hrest : 4503599627370496 + (k * 4503599627370496 + s) % 4503599627370496 = s := by omega
    have hscale : ((max (k + 1) 1 : ℕ) : ℤ) - 1075 = k - 1074 := by omega
    rw [hfield, if_neg (Nat.succ_ne_zero k), hrest, hscale]
  · obtain rfl : s = 9007199254740992 := by omega
    have hfield : (k * 4503599627370496 + 9007199254740992) / 4503599627370496 = k + 2 := by omega
    have hrest : (k * 4503599627370496 + 9007199254740992) % 4503599627370496 = 0 := by omega
    have hscale : ((max (k + 2) 1 : ℕ) : ℤ) - 1075 = (k - 1074) + 1 := by omega
    rw [hfield, if_neg (Nat.succ_ne_zero (k + 1)), hrest, hscale, zpow_add_one₀ (by norm_num)]
    push_cast
    ring

theorem bits_split (b : ℕ) : ∃ k s, b = k * Nat.pow 2 52 + s ∧ s < Nat.pow 2 53 ∧
    (k = 0 ∨ Nat.pow 2 52 ≤ s) ∧ s = significandOf b ∧ (k : ℤ) - 1074 = scaleOf b := by
  have hpow : Nat.pow 2 52 = 4503599627370496 ∧ Nat.pow 2 53 = 9007199254740992 := by decide
  refine ⟨b / Nat.pow 2 52 - 1, significandOf b, ?_⟩
  unfold significandOf scaleOf
  rw [hpow.1, hpow.2]
  split <;> omega

theorem magnitude_succ (b : ℕ) : magnitude (b + 1) = magnitude b + 2 ^ scaleOf b := by
  obtain ⟨k, s, hb, hs, hk, -, hscale⟩ := bits_split b
  rw [← hscale, hb, Nat.add_assoc, magnitude_eq hs (by omega), magnitude_eq (by omega) hk]
  push_cast
  ring

theorem magnitude_strictMono : StrictMono magnitude := by
  refine strictMono_nat_of_lt_succ fun b => ?_
  rw [magnitude_succ]
  exact lt_add_of_pos_right _ (zpow_pos (by norm_num) _)

theorem magnitude_nonneg (b : ℕ) : 0 ≤ magnitude b :=
  mul_nonneg (Nat.cast_nonneg _) (zpow_nonneg (by norm_num) _)

theorem magnitude_zero : magnitude 0 = 0 := by
  simp [magnitude, significandOf]

theorem magnitude_eq_zero_iff : magnitude b = 0 ↔ b = 0 := by
  rw [← magnitude_zero]
  exact magnitude_strictMono.injective.eq_iff

theorem reaches_zero : Grid.Reaches magnitude 0 0 where
  below h := absurd h (lt_irrefl 0)
  above := by
    rw [mul_zero]
    exact add_nonneg (magnitude_nonneg _) (magnitude_nonneg _)
  apart_below h := absurd h (by decide)
  apart_above h := absurd h (by decide)

theorem reaches_self (hb : 0 < b) : Grid.Reaches magnitude b (magnitude b) := by
  have hbelow : magnitude (b - 1) < magnitude b := magnitude_strictMono (by omega)
  have habove : magnitude b < magnitude (b + 1) := magnitude_strictMono (by omega)
  constructor <;> intros <;> linarith

theorem significandOf_mod_two (b : ℕ) : significandOf b % 2 = b % 2 := by
  have hpow : Nat.pow 2 52 = 4503599627370496 := by decide
  unfold significandOf
  rw [hpow]
  split <;> omega

end Magnitude

theorem abs_signum_mul (negative : Bool) (x : ℚ) : |signum negative * x| = |x| := by
  cases negative <;> simp [signum]

theorem abs_value (d : Double) : |d.value| = magnitude d.bits := by
  rw [value_eq, abs_signum_mul, abs_of_nonneg (magnitude_nonneg _)]

end Double

end LingoSource
