import LingoSource.Proofs.Chunk.Constant
import LingoSource.Proofs.Number.Numeral

/-!
The text of a float is a numeral. Its digits are those of the shortest decimal without the zeros at their
end, and in both layouts they are written with the power of ten that gives the decimal's number. The layout is
chosen by the exponent of the decimal's first digit. Where the decimal is a power of ten this can be one more
than the exponent of the float, but not at the ends of the positional range.
-/
set_option autoImplicit false

namespace LingoSource

open Grid (Reaches)

namespace NumberLayout

section SignificantDigits

variable {n count : ℕ}

theorem exists_toDigits_eq (n : ℕ) :
    ∃ k, Nat.toDigits 10 n = significantDigits n ++ List.replicate k '0' :=
  exists_dropWhile_replicate _

theorem significantDigits_ne_nil (hn : 0 < n) : significantDigits n ≠ [] := by
  intro hnil
  obtain ⟨k, hk⟩ := exists_toDigits_eq n
  have hvalue := Nat.ofDigitChars_toDigits (b := 10) (n := n) (by decide) (by decide)
  rw [hk, hnil, List.nil_append, Nat.ofDigitChars_replicate_zero, Nat.mul_zero] at hvalue
  exact hn.ne hvalue

theorem significantDigits_mul_ten (hn : 0 < n) : significantDigits (10 * n) = significantDigits n := by
  have hdigits : Nat.toDigits 10 (10 * n) = Nat.toDigits 10 n ++ ['0'] :=
    (Nat.toDigits_append_toDigits (d := 0) (by decide) hn (by decide)).symm
  simp [significantDigits, hdigits]

theorem significantDigits_pow (k : ℕ) : significantDigits (10 ^ k) = ['1'] := by
  induction k with
  | zero => decide
  | succ k ih => rw [pow_succ', significantDigits_mul_ten (by positivity), ih]

theorem length_significantDigits_le (hcount : 0 < count) (h : n ≤ 10 ^ count) :
    (significantDigits n).length ≤ count := by
  rcases h.lt_or_eq with hlt | rfl
  · obtain ⟨k, hk⟩ := exists_toDigits_eq n
    have hlength : (Nat.toDigits 10 n).length ≤ count := (decimalDigits_le_iff hcount).2 hlt
    rw [hk, List.length_append] at hlength
    omega
  · rw [significantDigits_pow]
    exact hcount

def leadingOf (x : Decimal) : ℤ :=
  x.exponent + decimalDigits x.digits - 1

theorem value_eq_significantDigits (x : Decimal) :
    x.value = Nat.ofDigitChars 10 (significantDigits x.digits) 0 *
      10 ^ (leadingOf x + 1 - (significantDigits x.digits).length) := by
  obtain ⟨k, hk⟩ := exists_toDigits_eq x.digits
  have hvalue := Nat.ofDigitChars_toDigits (b := 10) (n := x.digits) (by decide) (by decide)
  have hexponent : leadingOf x + 1 - (significantDigits x.digits).length = k + x.exponent := by
    rw [leadingOf, decimalDigits, hk, List.length_append, List.length_replicate]
    omega
  rw [hk, ofDigitChars_append_zeros] at hvalue
  rw [hexponent, zpow_natCast_add, Decimal.value]
  conv_lhs => rw [← hvalue]
  push_cast
  ring

theorem value_bounds {x : Decimal} (hx : 0 < x.digits) :
    10 ^ leadingOf x ≤ x.value ∧ x.value < 10 ^ (leadingOf x + 1) := by
  have hpos := decimalDigits_pos x.digits
  have hpower : (0 : ℚ) < 10 ^ x.exponent := by positivity
  have hlow : (10 : ℚ) ^ leadingOf x = (10 ^ (decimalDigits x.digits - 1) : ℕ) * 10 ^ x.exponent := by
    rw [← zpow_natCast_add, leadingOf]
    congr 1
    omega
  have hhigh : (10 : ℚ) ^ (leadingOf x + 1) = (10 ^ decimalDigits x.digits : ℕ) * 10 ^ x.exponent := by
    rw [← zpow_natCast_add, leadingOf]
    congr 1
    omega
  rw [hlow, hhigh, Decimal.value, mul_le_mul_iff_of_pos_right hpower, mul_lt_mul_iff_of_pos_right hpower,
    Nat.cast_le, Nat.cast_lt]
  exact ⟨pow_decimalDigits_le hx, lt_pow_decimalDigits _⟩

end SignificantDigits

end NumberLayout

namespace Numeral

/-- Whether a numeral writes some digits, perhaps with zeros around them, so that the exponent of the first
is `leading`. -/
def Writes (n : Numeral) (s : List Char) (leading : ℤ) : Prop :=
  ∃ a b : ℕ, n.digits = List.replicate a '0' ++ (s ++ List.replicate b '0') ∧
    b + (n.power - n.fractionChars.length) = leading + 1 - s.length

theorem Writes.value_eq {n : Numeral} {s : List Char} {leading : ℤ} (h : n.Writes s leading) :
    n.value = Double.signum n.negative *
      (Nat.ofDigitChars 10 s 0 * 10 ^ (leading + 1 - s.length)) := by
  obtain ⟨a, b, hdigits, hpower⟩ := h
  exact (value_of_padded hdigits hpower).1

theorem Writes.significant_le {n : Numeral} {s : List Char} {leading : ℤ} (h : n.Writes s leading) :
    n.significant.length ≤ s.length := by
  obtain ⟨a, b, hdigits, hpower⟩ := h
  exact (value_of_padded hdigits hpower).2

end Numeral

namespace NumberLayout

section Layouts

variable {s : List Char} (hdigit : ∀ c ∈ s, c.isDigit = true)
include hdigit

theorem isDigit_of_mem_padded {a b : ℕ} {c : Char}
    (hc : c ∈ List.replicate a '0' ++ (s ++ List.replicate b '0')) : c.isDigit = true := by
  have hzeros (k : ℕ) (hc : c ∈ List.replicate k '0') : c.isDigit = true := by
    rw [List.eq_of_mem_replicate hc]
    rfl
  simp only [List.mem_append] at hc
  rcases hc with hc | hc | hc
  · exact hzeros a hc
  · exact hdigit c hc
  · exact hzeros b hc

theorem exists_numeral_pointed (negative : Bool) {whole fraction : List Char} {a b : ℕ} {leading : ℤ}
    (hwhole : whole ≠ []) (hfraction : fraction ≠ [])
    (hdigits : whole ++ fraction = List.replicate a '0' ++ (s ++ List.replicate b '0'))
    (hplaces : (b : ℤ) - fraction.length = leading + 1 - s.length) :
    ∃ n : Numeral, n.text = (if negative then ['-'] else []) ++ (whole ++ '.' :: fraction) ∧
      n.negative = negative ∧ n.fraction.isSome ∧ n.exponent = none ∧ n.Writes s leading := by
  have hall {c : Char} (hc : c ∈ whole ++ fraction) : c.isDigit = true := by
    rw [hdigits] at hc
    exact isDigit_of_mem_padded hdigit hc
  refine ⟨⟨negative, ⟨whole, hwhole, fun c hc => hall (List.mem_append_left _ hc)⟩,
    some ⟨fraction, hfraction, fun c hc => hall (List.mem_append_right _ hc)⟩, none⟩,
    by simp [Numeral.text, Numeral.pointed, Numeral.scaled], rfl, rfl, rfl, a, b, hdigits, ?_⟩
  simp only [Numeral.power, Numeral.fractionChars, Option.map_none, Option.getD_none, Option.map_some,
    Option.getD_some]
  omega

theorem exists_numeral_positional (hs : s ≠ []) (negative : Bool) (leading : ℤ) :
    ∃ n : Numeral, n.text = (if negative then ['-'] else []) ++ positional s leading ∧
      n.negative = negative ∧ n.fraction.isSome ∧ n.exponent = none ∧ n.Writes s leading := by
  have hlength := List.length_pos_of_ne_nil hs
  by_cases hneg : leading < 0
  · have htext : positional s leading =
        ['0'] ++ '.' :: (List.replicate (-leading - 1).toNat '0' ++ s) := by
      rw [positional, if_pos hneg]
      rfl
    have hdigits : ['0'] ++ (List.replicate (-leading - 1).toNat '0' ++ s) =
        List.replicate ((-leading - 1).toNat + 1) '0' ++ (s ++ List.replicate 0 '0') := by
      simp [List.replicate_succ]
    rw [htext]
    refine exists_numeral_pointed hdigit negative (List.cons_ne_nil _ _) (by simp [hs]) hdigits ?_
    rw [List.length_append, List.length_replicate]
    omega
  have hwhole : s.take (leading.toNat + 1) ++ List.replicate (leading.toNat + 1 - s.length) '0' ≠ [] := by
    simp [hs]
  rcases Nat.lt_or_ge (leading.toNat + 1) s.length with hlong | hshort
  · have hrest : s.drop (leading.toNat + 1) ≠ [] := by simpa using hlong
    have htext : positional s leading = s.take (leading.toNat + 1) ++
        List.replicate (leading.toNat + 1 - s.length) '0' ++ '.' :: s.drop (leading.toNat + 1) := by
      rw [positional, if_neg hneg]
      simp [hlong]
    have hdigits : s.take (leading.toNat + 1) ++ List.replicate (leading.toNat + 1 - s.length) '0' ++
        s.drop (leading.toNat + 1) = List.replicate 0 '0' ++ (s ++ List.replicate 0 '0') := by
      rw [Nat.sub_eq_zero_of_le hlong.le]
      simp
    rw [htext]
    refine exists_numeral_pointed hdigit negative hwhole hrest hdigits ?_
    rw [List.length_drop]
    omega
  · have htext : positional s leading = s.take (leading.toNat + 1) ++
        List.replicate (leading.toNat + 1 - s.length) '0' ++ '.' :: ['0'] := by
      rw [positional, if_neg hneg]
      simp [hshort]
    have hdigits : s.take (leading.toNat + 1) ++ List.replicate (leading.toNat + 1 - s.length) '0' ++
        ['0'] = List.replicate 0 '0' ++
          (s ++ List.replicate (leading.toNat + 1 - s.length + 1) '0') := by
      simp [List.take_of_length_le hshort, List.replicate_succ']
    rw [htext]
    refine exists_numeral_pointed hdigit negative hwhole (List.cons_ne_nil _ _) hdigits ?_
    rw [List.length_singleton]
    omega

theorem exists_numeral_scientific (hs : s ≠ []) (negative : Bool) (exponentWidth : ℕ) (leading : ℤ) :
    ∃ (n : Numeral) (sign : Bool) (ds : Digits),
      n.text = (if negative then ['-'] else []) ++ scientific exponentWidth s leading ∧
      n.negative = negative ∧ n.exponent = some (sign, ds) ∧ exponentWidth ≤ ds.chars.length ∧
      n.Writes s leading := by
  obtain ⟨d, rest, rfl⟩ := List.exists_cons_of_ne_nil hs
  have hexponent : ∀ c ∈ List.replicate
      (exponentWidth - (Nat.toDigits 10 leading.natAbs).length) '0' ++ Nat.toDigits 10 leading.natAbs,
      c.isDigit = true := fun c hc =>
    isDigit_of_mem_padded (s := Nat.toDigits 10 leading.natAbs) (b := 0)
      (fun _ => Nat.isDigit_of_mem_toDigits (by decide) (by decide)) (by simpa using hc)
  have hfirst : ∀ c ∈ [d], c.isDigit = true := fun c hc => hdigit c (by simp_all)
  let whole : Digits := ⟨[d], by simp, hfirst⟩
  let ds : Digits := ⟨_, by simp [Nat.toDigits_ne_nil], hexponent⟩
  have hwidth : exponentWidth ≤ ds.chars.length := by
    simp only [ds, List.length_append, List.length_replicate]
    omega
  have hpower : (if decide (leading < 0) then -(ds.toNat : ℤ) else ds.toNat) = leading := by
    have hvalue : ds.toNat = leading.natAbs := by
      simp only [ds, Digits.toNat, ofDigitChars_zeros_append]
      exact Nat.ofDigitChars_toDigits (by decide) (by decide)
    simp only [hvalue, decide_eq_true_eq]
    split <;> omega
  cases rest with
  | nil =>
    refine ⟨⟨negative, whole, none, some (decide (leading < 0), ds)⟩, _, ds, ?_, rfl, rfl, hwidth, 0, 0,
      ?_, ?_⟩
    · simp [Numeral.text, Numeral.pointed, Numeral.scaled, scientific, whole, ds]
    · simp [Numeral.digits, Numeral.fractionChars, whole]
    · simp only [Numeral.power, Option.map_some, Option.getD_some, hpower]
      simp [Numeral.fractionChars]
  | cons d' rest =>
    refine ⟨⟨negative, whole,
      some ⟨d' :: rest, by simp, fun c hc => hdigit c (List.mem_cons_of_mem _ hc)⟩,
      some (decide (leading < 0), ds)⟩, _, ds, ?_, rfl, rfl, hwidth, 0, 0, ?_, ?_⟩
    · simp [Numeral.text, Numeral.pointed, Numeral.scaled, scientific, whole, ds]
    · simp [Numeral.digits, Numeral.fractionChars, whole]
    · simp only [Numeral.power, Option.map_some, Option.getD_some, hpower]
      simp [Numeral.fractionChars]

end Layouts

end NumberLayout

def HasLeading (x : ℚ) (k : ℤ) : Prop :=
  10 ^ k ≤ |x| ∧ |x| < 10 ^ (k + 1)

theorem lt_of_zpow_lt {j k : ℤ} (h : (10 : ℚ) ^ j < 10 ^ k) : j < k :=
  (zpow_lt_zpow_iff_right₀ (by norm_num)).1 h

theorem HasLeading.unique {x : ℚ} {j k : ℤ} (hj : HasLeading x j) (hk : HasLeading x k) : j = k := by
  have hlt := lt_of_zpow_lt (hj.1.trans_lt hk.2)
  have hgt := lt_of_zpow_lt (hk.1.trans_lt hj.2)
  omega

namespace Double

section Leading

variable {c d : Double} {x : Decimal} {count : ℕ}

theorem hasLeading_value (hd : 0 < d.significand) : HasLeading d.value d.leadingDigit := by
  rw [HasLeading, abs_value]
  exact leadingDigit_spec hd

/-- A power of ten that belongs to a word no smaller than itself belongs to no smaller word. -/
theorem le_leadingDigit_of_owns {k : ℤ} (hc : 0 < c.significand) (howns : c.owns ⟨1, k⟩ = true)
    (hlead : c.leadingDigit = k) (hd : 0 < d.significand) (h : Reaches magnitude d.bits (10 ^ k)) :
    k ≤ d.leadingDigit := by
  have hreach : Reaches magnitude c.bits (10 ^ k) := by
    have hvalue := (owns_iff hc _).1 howns
    rwa [Decimal.value, Nat.cast_one, one_mul] at hvalue
  have hle := (leadingDigit_spec hc).1
  rw [hlead, hreach.unique magnitude_strictMono h] at hle
  have hlt := lt_of_zpow_lt (hle.trans_lt (leadingDigit_spec hd).2)
  omega

/-- The shortest decimal starts with the same exponent as the word, or is the next power of ten. -/
theorem IsShortest.leadingOf_cases (h : IsShortest d x count) :
    NumberLayout.leadingOf x = d.leadingDigit ∨
      NumberLayout.leadingOf x = d.leadingDigit + 1 ∧
        Reaches magnitude d.bits (10 ^ (d.leadingDigit + 1)) := by
  obtain ⟨hlow, hhigh⟩ := NumberLayout.value_bounds h.digits_pos
  have hge := lt_of_zpow_lt (h.value_ge.trans_lt hhigh)
  have hle := (zpow_le_zpow_iff_right₀ (by norm_num : (1 : ℚ) < 10)).1 (hlow.trans h.value_le)
  rcases hle.lt_or_eq with hlt | heq
  · exact .inl (by omega)
  · rw [heq] at hlow
    have hreach := h.reaches
    rw [le_antisymm h.value_le hlow] at hreach
    exact .inr ⟨heq, hreach⟩

/-- Neither end of the positional range is a power of ten that a smaller word has as its shortest decimal. -/
theorem IsShortest.positional_iff (hd : 0 < d.significand) (h : IsShortest d x count) :
    (-4 ≤ NumberLayout.leadingOf x ∧ NumberLayout.leadingOf x < 16) ↔
      ∃ k, -4 ≤ k ∧ k ≤ 15 ∧ HasLeading d.value k := by
  have hleading := hasLeading_value hd
  have hrange : (∃ k, -4 ≤ k ∧ k ≤ 15 ∧ HasLeading d.value k) ↔
      -4 ≤ d.leadingDigit ∧ d.leadingDigit ≤ 15 := by
    constructor
    · rintro ⟨k, hlow, hhigh, hk⟩
      rw [hleading.unique hk]
      exact ⟨hlow, hhigh⟩
    · rintro ⟨hlow, hhigh⟩
      exact ⟨_, hlow, hhigh, hleading⟩
  rw [hrange]
  rcases h.leadingOf_cases with heq | ⟨heq, hreach⟩
  · omega
  · have hlow : d.leadingDigit ≠ -5 := fun hlead => by
      rw [hlead, show (-5 : ℤ) + 1 = -4 from rfl] at hreach
      -- The word of this number is not below it.
      have hle := le_leadingDigit_of_owns (c := ⟨0x3F1A36E2EB1C432D⟩) (k := -4) (by decide)
        (by decide +kernel) (by decide +kernel) hd hreach
      omega
    have hhigh : d.leadingDigit ≠ 15 := fun hlead => by
      rw [hlead, show (15 : ℤ) + 1 = 16 from rfl] at hreach
      have hle := le_leadingDigit_of_owns (c := ⟨0x4341C37937E08000⟩) (k := 16) (by decide)
        (by decide +kernel) (by decide +kernel) hd hreach
      omega
    omega

theorem IsShortest.count_le_significant (hfinite : d.isFinite) (hd : 0 < d.significand)
    (h : IsShortest d x count) {m : Numeral} (hm : IsNearest m.value d) : count ≤ m.significant.length := by
  obtain ⟨c, t, hc, habs⟩ := m.exists_abs_value_eq
  have hreach := hm.reaches hfinite
  rw [habs] at hreach
  refine h.count_le hc (Nat.pos_of_ne_zero fun hnone => ?_) hreach
  -- A numeral without significant digits is zero, which is not rounded to a word that is not.
  rw [hnone, pow_zero, Nat.lt_one_iff] at hc
  rw [hc, Nat.cast_zero, zero_mul] at hreach
  exact (bits_pos hd).ne (reaches_zero.unique magnitude_strictMono hreach)

end Leading

end Double

/-- What the text of a float says: a numeral with a point or an exponent that is rounded to the float and has
its sign, as few digits as any that is rounded to it, and an exponent only where the float is neither zero nor
near the point. -/
structure Numeral.Denotes (n : Numeral) (d : Double) : Prop where
  marked : n.fraction.isSome ∨ n.exponent.isSome
  nearest : Double.IsNearest n.value d
  negative_eq : n.negative = d.negative
  shortest : ∀ m : Numeral, Double.IsNearest m.value d → n.significant.length ≤ m.significant.length
  positional_iff : n.exponent = none ↔ d.value = 0 ∨ ∃ k, -4 ≤ k ∧ k ≤ 15 ∧ HasLeading d.value k
  exponent_digits : ∀ sign ds, n.exponent = some (sign, ds) → 2 ≤ ds.chars.length

namespace Literal

open NumberLayout

variable {d : Double}

theorem source_float (hfinite : d.isFinite) :
    source (.float d) = String.ofList ((if d.negative then ['-'] else []) ++
      if d.significand = 0 then ['0', '.', '0'] else floatLayout.decimal d.shortest) := by
  have hfield : d.exponentField ≠ 2047 := by simpa [Double.isFinite] using hfinite
  have hnan : d.isNaN = false := by simp [Double.isNaN, hfield]
  have hinfinite : d.isInfinite = false := by simp [Double.isInfinite, hfield]
  have hsign : (if d.negative then "-" else "") = String.ofList (if d.negative then ['-'] else []) := by
    cases d.negative <;> rfl
  unfold source text
  dsimp only
  rw [hnan, hinfinite, if_neg Bool.false_ne_true, if_neg Bool.false_ne_true, hsign, String.ofList_append]
  split <;> rfl

theorem exists_denotes_zero (hfinite : d.isFinite) (hd : d.significand = 0) :
    ∃ n : Numeral, source (.float d) = String.ofList n.text ∧ n.Denotes d := by
  have hmagnitude : Double.magnitude d.bits = 0 := by
    rw [Double.magnitude, ← Double.significand_eq, hd, Nat.cast_zero, zero_mul]
  have hbits := Double.magnitude_eq_zero_iff.1 hmagnitude
  let n : Numeral := ⟨d.negative, ⟨['0'], by simp, by simp⟩, some ⟨['0'], by simp, by simp⟩, none⟩
  have hvalue : n.value = 0 := by
    have hdigits : Nat.ofDigitChars 10 n.digits 0 = 0 := rfl
    rw [Numeral.value, hdigits, Nat.cast_zero, zero_mul, mul_zero]
  refine ⟨n, ?_, .inl rfl, ?_, rfl, fun m _ => Nat.zero_le _, iff_of_true rfl (.inl ?_),
    fun sign ds h => by cases h⟩
  · rw [source_float hfinite, if_pos hd]
    rfl
  · refine Double.isNearest_of_reaches hfinite ?_ (absurd hvalue)
    rw [hbits, hvalue, abs_zero]
    exact Double.reaches_zero
  · rw [Double.value_eq, hmagnitude, mul_zero]

theorem exists_numeral_decimal {x : Decimal} (hx : 0 < x.digits) (negative : Bool) :
    ∃ n : Numeral, n.text = (if negative then ['-'] else []) ++ floatLayout.decimal x ∧
      n.negative = negative ∧ (n.fraction.isSome ∨ n.exponent.isSome) ∧
      (n.exponent = none ↔ -4 ≤ leadingOf x ∧ leadingOf x < 16) ∧
      (∀ sign ds, n.exponent = some (sign, ds) → 2 ≤ ds.chars.length) ∧
      n.Writes (significantDigits x.digits) (leadingOf x) := by
  have hs := significantDigits_ne_nil hx
  have hdigit (c : Char) := isDigit_of_mem_significantDigits (n := x.digits) (c := c)
  have hdecimal : floatLayout.decimal x = if -4 ≤ leadingOf x ∧ leadingOf x < 16 then
      positional (significantDigits x.digits) (leadingOf x)
    else scientific 2 (significantDigits x.digits) (leadingOf x) := rfl
  by_cases hrange : -4 ≤ leadingOf x ∧ leadingOf x < 16
  · obtain ⟨n, htext, hnegative, hfraction, hexponent, hwrites⟩ :=
      exists_numeral_positional hdigit hs negative (leadingOf x)
    refine ⟨n, ?_, hnegative, .inl hfraction, iff_of_true hexponent hrange, fun sign ds h => ?_, hwrites⟩
    · rw [htext, hdecimal, if_pos hrange]
    · rw [hexponent] at h
      cases h
  · obtain ⟨n, sign, ds, htext, hnegative, hexponent, hwidth, hwrites⟩ :=
      exists_numeral_scientific hdigit hs negative 2 (leadingOf x)
    refine ⟨n, ?_, hnegative, .inr (by rw [hexponent]; rfl), iff_of_false (by rw [hexponent]; nofun) hrange,
      fun sign ds h => ?_, hwrites⟩
    · rw [htext, hdecimal, if_neg hrange]
    · rw [hexponent] at h
      cases h
      exact hwidth

theorem exists_denotes_decimal (hfinite : d.isFinite) (hd : 0 < d.significand) :
    ∃ n : Numeral, source (.float d) = String.ofList n.text ∧ n.Denotes d := by
  obtain ⟨count, hshortest⟩ := Double.exists_isShortest hd
  obtain ⟨n, htext, hnegative, hmarked, hexponent, hwidth, hwrites⟩ :=
    exists_numeral_decimal hshortest.digits_pos d.negative
  have hpos : 0 < d.shortest.value := lt_of_lt_of_le (by positivity) hshortest.value_ge
  have hvalue : n.value = Double.signum d.negative * d.shortest.value := by
    rw [hwrites.value_eq, hnegative, value_eq_significantDigits]
  have hnonzero : d.value ≠ 0 := by
    rw [← abs_pos, Double.abs_value, ← Double.magnitude_zero]
    exact Double.magnitude_strictMono (Double.bits_pos hd)
  refine ⟨n, ?_, hmarked, ?_, hnegative, fun m hm => ?_, ?_, hwidth⟩
  · rw [source_float hfinite, if_neg hd.ne', htext]
  · refine Double.isNearest_of_reaches hfinite ?_ fun _ => ?_
    · rw [hvalue, Double.abs_signum_mul, abs_of_pos hpos]
      exact hshortest.reaches
    · rw [hvalue]
      cases d.negative <;> simp [Double.signum, hpos, hpos.le]
  · calc n.significant.length ≤ (significantDigits d.shortest.digits).length := hwrites.significant_le
      _ ≤ count := length_significantDigits_le hshortest.count_pos hshortest.digits_le
      _ ≤ m.significant.length := hshortest.count_le_significant hfinite hd hm
  · rw [hexponent, hshortest.positional_iff hd, or_iff_right hnonzero]

theorem exists_denotes (hfinite : d.isFinite) :
    ∃ n : Numeral, source (.float d) = String.ofList n.text ∧ n.Denotes d := by
  rcases Nat.eq_zero_or_pos d.significand with hzero | hpos
  · exact exists_denotes_zero hfinite hzero
  · exact exists_denotes_decimal hfinite hpos

/-- The text of a finite float is a numeral that denotes it, so no other finite float has this text. -/
theorem denotes_source (hd : d.isFinite) :
    (∃ n : Numeral, source (.float d) = String.ofList n.text ∧ n.Denotes d) ∧
      ∀ c : Double, c.isFinite → source (.float c) = source (.float d) → c = d := by
  refine ⟨exists_denotes hd, fun c hc htext => ?_⟩
  obtain ⟨m, hm, hdenotes⟩ := exists_denotes hc
  obtain ⟨n, hn, hdenotes'⟩ := exists_denotes hd
  have hsame : m = n := Numeral.text_injective (String.ofList_injective (hm.symm.trans (htext.trans hn)))
  subst hsame
  exact hdenotes.nearest.unique hdenotes'.nearest (hdenotes.negative_eq.symm.trans hdenotes'.negative_eq)

theorem denotes_source_smallest :
    (∃ n : Numeral, "5e-324" = String.ofList n.text ∧ n.Denotes ⟨1⟩) ∧
      ∀ c : Double, c.isFinite → source (.float c) = "5e-324" → c = ⟨1⟩ := by
  have htext : source (.float ⟨1⟩) = "5e-324" := by decide +kernel
  rw [← htext]
  exact denotes_source (by decide)

end Literal

end LingoSource
