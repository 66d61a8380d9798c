import LingoSource.Proofs.Number.Shortest
import LingoSource.Number.Layout

set_option autoImplicit false

namespace LingoSource

structure Digits where
  chars : List Char
  ne_nil : chars ≠ []
  isDigit : ∀ c ∈ chars, c.isDigit = true

namespace Digits

def toNat (ds : Digits) : ℕ :=
  Nat.ofDigitChars 10 ds.chars 0

theorem eq_of_chars {a b : Digits} (h : a.chars = b.chars) : a = b := by
  cases a
  cases b
  cases h
  rfl

end Digits

structure Numeral where
  negative : Bool
  whole : Digits
  /-- The digits behind the point, if there is one. -/
  fraction : Option Digits
  /-- Whether the exponent has a minus sign, and its digits, if there is one. -/
  exponent : Option (Bool × Digits)

namespace Numeral

def fractionChars (n : Numeral) : List Char :=
  (n.fraction.map Digits.chars).getD []

def digits (n : Numeral) : List Char :=
  n.whole.chars ++ n.fractionChars

def power (n : Numeral) : ℤ :=
  (n.exponent.map fun e => if e.1 then -(e.2.toNat : ℤ) else e.2.toNat).getD 0

def value (n : Numeral) : ℚ :=
  Double.signum n.negative *
    (Nat.ofDigitChars 10 n.digits 0 * 10 ^ (n.power - n.fractionChars.length))

def pointed (n : Numeral) : List Char :=
  (n.fraction.map fun ds => '.' :: ds.chars).getD []

def scaled (n : Numeral) : List Char :=
  (n.exponent.map fun e => 'e' :: (if e.1 then '-' else '+') :: e.2.chars).getD []

def text (n : Numeral) : List Char :=
  (if n.negative then ['-'] else []) ++ (n.whole.chars ++ (n.pointed ++ n.scaled))

/-- The digits that count: those between the zeros at both ends. -/
def significant (n : Numeral) : List Char :=
  (((n.digits.dropWhile (· = '0')).reverse).dropWhile (· = '0')).reverse

end Numeral

section Reading

variable {a b r s : List Char}

def Stops (r : List Char) : Prop :=
  ∀ c ∈ r.head?, c.isDigit = false

theorem takeWhile_isDigit_append (ha : ∀ c ∈ a, c.isDigit = true) (hr : Stops r) :
    (a ++ r).takeWhile Char.isDigit = a := by
  rw [List.takeWhile_append_of_pos ha]
  cases r with
  | nil => simp
  | cons c r => simp [hr c rfl]

theorem digits_append_inj (ha : ∀ c ∈ a, c.isDigit = true) (hb : ∀ c ∈ b, c.isDigit = true)
    (hr : Stops r) (hs : Stops s) (h : a ++ r = b ++ s) : a = b ∧ r = s := by
  have heq := congrArg (List.takeWhile Char.isDigit) h
  rw [takeWhile_isDigit_append ha hr, takeWhile_isDigit_append hb hs] at heq
  subst heq
  exact ⟨rfl, List.append_cancel_left h⟩

namespace Numeral

theorem stops_scaled (n : Numeral) : Stops n.scaled := by
  unfold scaled
  cases n.exponent with
  | none => exact fun c hc => by cases hc
  | some e => exact fun c hc => by cases hc; rfl

theorem stops_pointed_append (n : Numeral) : Stops (n.pointed ++ n.scaled) := by
  have hscaled := n.stops_scaled
  unfold pointed
  cases n.fraction with
  | none => exact hscaled
  | some ds => exact fun c hc => by cases hc; rfl

theorem scaled_injective {m n : Numeral} (h : m.scaled = n.scaled) : m.exponent = n.exponent := by
  unfold scaled at h
  cases hm : m.exponent with
  | none =>
    cases hn : n.exponent with
    | none => rfl
    | some e => simp [hm, hn] at h
  | some e =>
    cases hn : n.exponent with
    | none => simp [hm, hn] at h
    | some e' =>
      simp only [hm, hn, Option.map_some, Option.getD_some, List.cons.injEq, true_and] at h
      obtain ⟨hsign, hdigits⟩ := h
      have hnegative : e.1 = e'.1 := by
        cases he : e.1 <;> cases he' : e'.1 <;> simp [he, he'] at hsign <;> rfl
      rw [Prod.ext hnegative (Digits.eq_of_chars hdigits)]

theorem pointed_injective {m n : Numeral} (h : m.pointed ++ m.scaled = n.pointed ++ n.scaled) :
    m.fraction = n.fraction ∧ m.scaled = n.scaled := by
  -- What stands behind the digits starts with an `e`, if there is anything.
  have hpoint (k : Numeral) : k.scaled.head? ≠ some '.' := by
    unfold scaled
    cases k.exponent <;> simp
  unfold pointed at h
  cases hm : m.fraction with
  | none =>
    cases hn : n.fraction with
    | none => exact ⟨rfl, by simpa [hm, hn] using h⟩
    | some ds => exact absurd (by simp_all) (hpoint m)
  | some ds =>
    cases hn : n.fraction with
    | none => exact absurd (by simp [hm, hn] at h; simp [← h]) (hpoint n)
    | some ds' =>
      simp only [hm, hn, Option.map_some, Option.getD_some, List.cons_append, List.cons.injEq,
        true_and] at h
      obtain ⟨hdigits, hscaled⟩ :=
        digits_append_inj ds.isDigit ds'.isDigit m.stops_scaled n.stops_scaled h
      exact ⟨congrArg some (Digits.eq_of_chars hdigits), hscaled⟩

theorem text_injective {m n : Numeral} (h : m.text = n.text) : m = n := by
  -- A digit is no minus sign, so the sign can be told from what follows.
  have hhead (k : Numeral) (t : List Char) : (k.whole.chars ++ t).head? ≠ some '-' := by
    obtain ⟨c, rest, hchars⟩ := List.exists_cons_of_ne_nil k.whole.ne_nil
    have hc := k.whole.isDigit c (by simp [hchars])
    have hminus : c ≠ '-' := by
      rintro rfl
      cases hc
    simp [hchars, hminus]
  unfold text at h
  have hsign : m.negative = n.negative := by
    cases hm : m.negative <;> cases hn : n.negative <;> rw [hm, hn] at h
    · exact absurd (congrArg List.head? h) (hhead m _)
    · exact absurd (congrArg List.head? h).symm (hhead n _)
  rw [hsign, List.append_cancel_left_eq] at h
  obtain ⟨hwhole, hrest⟩ := digits_append_inj m.whole.isDigit n.whole.isDigit
    m.stops_pointed_append n.stops_pointed_append h
  obtain ⟨hfraction, hscaled⟩ := pointed_injective hrest
  have hexponent := scaled_injective hscaled
  cases m
  cases n
  cases hsign
  cases Digits.eq_of_chars hwhole
  cases hfraction
  cases hexponent
  rfl

end Numeral

end Reading

section Significance

variable {l : List Char}

theorem ofDigitChars_append_zeros (l : List Char) (k : ℕ) :
    Nat.ofDigitChars 10 (l ++ List.replicate k '0') 0 = 10 ^ k * Nat.ofDigitChars 10 l 0 := by
  rw [Nat.ofDigitChars_append, Nat.ofDigitChars_replicate_zero]

theorem ofDigitChars_zeros_append (k : ℕ) (l : List Char) :
    Nat.ofDigitChars 10 (List.replicate k '0' ++ l) 0 = Nat.ofDigitChars 10 l 0 := by
  rw [Nat.ofDigitChars_append, Nat.ofDigitChars_replicate_zero, Nat.mul_zero]

theorem ofDigitChars_lt (h : ∀ c ∈ l, c.isDigit = true) : Nat.ofDigitChars 10 l 0 < 10 ^ l.length := by
  induction l using List.reverseRecOn with
  | nil => decide
  | append_singleton l c ih =>
    have hl := ih fun c hc => h c (by simp [hc])
    have hc : c.toNat - '0'.toNat < 10 := by
      have hdigit := h c (by simp)
      simp only [Char.isDigit, Bool.and_eq_true, decide_eq_true_eq] at hdigit
      have hle : c.toNat ≤ 57 := hdigit.2
      show c.toNat - 48 < 10
      omega
    rw [Nat.ofDigitChars_append, Nat.ofDigitChars_cons, Nat.ofDigitChars_nil, List.length_append,
      List.length_singleton, pow_succ]
    omega

theorem exists_replicate_dropWhile (l : List Char) :
    ∃ k, l = List.replicate k '0' ++ l.dropWhile (· = '0') := by
  refine ⟨(l.takeWhile (· = '0')).length, ?_⟩
  have hzeros : l.takeWhile (· = '0') = List.replicate (l.takeWhile (· = '0')).length '0' :=
    List.eq_replicate_iff.2 ⟨rfl, fun c hc => by simpa using List.mem_takeWhile_imp hc⟩
  rw [← hzeros, List.takeWhile_append_dropWhile]

theorem exists_dropWhile_replicate (l : List Char) :
    ∃ k, l = (l.reverse.dropWhile (· = '0')).reverse ++ List.replicate k '0' := by
  obtain ⟨k, hk⟩ := exists_replicate_dropWhile l.reverse
  refine ⟨k, ?_⟩
  have hreverse := congrArg List.reverse hk
  rwa [List.reverse_reverse, List.reverse_append, List.reverse_replicate] at hreverse

theorem length_dropWhile_le (p : Char → Bool) (l : List Char) : (l.dropWhile p).length ≤ l.length :=
  (List.dropWhile_sublist p).length_le

namespace Numeral

/-- The significant digits of a numeral, as a whole number, give its value by a power of ten. -/
theorem exists_abs_value_eq (n : Numeral) :
    ∃ (c : ℕ) (t : ℤ), c < 10 ^ n.significant.length ∧ |n.value| = c * 10 ^ t := by
  obtain ⟨a, ha⟩ := exists_replicate_dropWhile n.digits
  obtain ⟨b, hb⟩ := exists_dropWhile_replicate (n.digits.dropWhile (· = '0'))
  have hdigits : n.digits = List.replicate a '0' ++ (n.significant ++ List.replicate b '0') := by
    rw [significant, ← hb]
    exact ha
  have hvalue : Nat.ofDigitChars 10 n.digits 0 = 10 ^ b * Nat.ofDigitChars 10 n.significant 0 := by
    conv_lhs => rw [hdigits]
    rw [ofDigitChars_zeros_append, ofDigitChars_append_zeros]
  refine ⟨Nat.ofDigitChars 10 n.significant 0, b + (n.power - n.fractionChars.length),
    ofDigitChars_lt fun c hc => ?_, ?_⟩
  · have hmem : c ∈ n.digits := by
      rw [hdigits]
      simp [hc]
    rcases List.mem_append.1 hmem with hc | hc
    · exact n.whole.isDigit c hc
    · unfold fractionChars at hc
      cases hfraction : n.fraction with
      | none => simp [hfraction] at hc
      | some ds => exact ds.isDigit c (by simpa [hfraction] using hc)
  · rw [value, Double.abs_signum_mul, abs_of_nonneg (by positivity), hvalue, zpow_natCast_add]
    push_cast
    ring

theorem value_of_padded {n : Numeral} {s : List Char} {a b : ℕ} {t : ℤ}
    (hdigits : n.digits = List.replicate a '0' ++ (s ++ List.replicate b '0'))
    (hpower : b + (n.power - n.fractionChars.length) = t) :
    n.value = Double.signum n.negative * (Nat.ofDigitChars 10 s 0 * 10 ^ t) ∧
      n.significant.length ≤ s.length := by
  constructor
  · rw [value, hdigits, ofDigitChars_zeros_append, ofDigitChars_append_zeros, ← hpower,
      zpow_natCast_add]
    push_cast
    ring
  · have hzero (k : ℕ) (l : List Char) :
        (List.replicate k '0' ++ l).dropWhile (· = '0') = l.dropWhile (· = '0') :=
      List.dropWhile_append_of_pos fun c hc => by simp [List.eq_of_mem_replicate hc]
    unfold significant
    rw [hdigits, hzero, List.length_reverse, List.dropWhile_append]
    split
    · rename_i hempty
      have hnone : (List.replicate b '0').dropWhile (· = '0') = [] := by
        simp
      simp [hnone]
    · rw [List.reverse_append, List.reverse_replicate, hzero]
      exact (length_dropWhile_le _ _).trans (by simpa using length_dropWhile_le _ s)

end Numeral

end Significance

end LingoSource
