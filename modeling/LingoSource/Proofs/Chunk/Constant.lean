import LingoSource.Proofs.JavaScript.Literal
import LingoSource.Proofs.Text.Comment

/-!
The texts of constants as Lingo reads them. A number has a minus sign at most in front of digits, so it can
be read on its own; a string can if it has no double quote in it, which would stand for itself.
-/
set_option autoImplicit false

namespace LingoSource

open Text

namespace Text

variable {s t : String} {chars : List Char}

theorem startsWith_minus_of_isPlain (h : isPlain t = true) : startsWith t "-" = false := by
  unfold isPlain at h
  unfold startsWith
  cases hchars : t.toList with
  | nil => rfl
  | cons c rest =>
    have hc : c ≠ '-' := by
      rw [hchars] at h
      simpa using fun heq => by simp [heq] at h
    simpa [List.isPrefixOf] using Ne.symm hc

theorem steady_minus_append (h : Steady t) (hstart : startsWith t "-" = false) : Steady ("-" ++ t) :=
  ⟨closes_minus_append h.1, by simp [commented_minus_append, hstart, h.2]⟩

theorem isPlain_ofList (h : ∀ c ∈ chars, c.isDigit = true ∨ c = '.' ∨ c = 'e') :
    isPlain (String.ofList chars) = true := by
  have hplain (c : Char) (hc : c.isDigit = true ∨ c = '.' ∨ c = 'e') : c ≠ '"' ∧ c ≠ '-' := by
    constructor <;> rintro rfl <;> revert hc <;> decide
  simpa [isPlain] using fun c hc => hplain c (h c hc)

end Text

theorem isPlain_repr (n : Nat) : isPlain (Nat.repr n) = true :=
  isPlain_ofList fun _ h => .inl (Nat.isDigit_of_mem_toDigits (by decide) (by decide) h)

theorem steady_toString (n : Int) : Steady (toString n) := by
  cases n with
  | ofNat n => exact (quiet_of_isPlain (isPlain_repr n)).steady
  | negSucc n =>
    have hplain := isPlain_repr (n + 1)
    exact steady_minus_append (quiet_of_isPlain hplain).steady (startsWith_minus_of_isPlain hplain)

theorem foldl_string {chars : List Char} (h : '"' ∉ chars) :
    chars.foldl Reading.next .string = .string := by
  induction chars with
  | nil => rfl
  | cons c chars ih =>
    obtain ⟨hc, hrest⟩ := List.ne_and_not_mem_of_not_mem_cons h
    rw [List.foldl_cons, Reading.next, if_neg hc.symm]
    exact ih hrest

theorem quiet_source_string {v : String} (h : '"' ∉ v.toList) : Quiet (Literal.source (.string v)) := by
  have hinside := foldl_string (JavaScript.not_mem_flatMap_encode (by decide) h)
  unfold Quiet Reading.after
  rw [JavaScript.toList_source, List.foldl_append, List.foldl_cons]
  exact congrArg (fun r => List.foldl Reading.next r ['"']) hinside

def Unsigned (t : String) : Prop :=
  Steady t ∧ startsWith t "-" = false

theorem Unsigned.of_isPlain {t : String} (h : isPlain t = true) : Unsigned t :=
  ⟨(quiet_of_isPlain h).steady, startsWith_minus_of_isPlain h⟩

namespace NumberLayout

theorem unsigned_exponent {mantissa exponent : List Char}
    (hmantissa : ∀ c ∈ mantissa, c.isDigit = true ∨ c = '.' ∨ c = 'e')
    (hexponent : ∀ c ∈ exponent, c.isDigit = true) (negative : Prop) [Decidable negative] :
    Unsigned (String.ofList
      (mantissa ++ 'e' :: (if negative then '-' else '+') :: exponent)) := by
  have hfront : isPlain (String.ofList (mantissa ++ ['e'])) = true :=
    isPlain_ofList (List.forall_mem_append.2 ⟨hmantissa, by simp⟩)
  have hbehind : isPlain (String.ofList exponent) = true :=
    isPlain_ofList fun c hc => .inl (hexponent c hc)
  have hsigned : Steady (String.ofList ((if negative then '-' else '+') :: exponent)) := by
    have hcons (c : Char) :
        String.ofList (c :: exponent) = String.ofList [c] ++ String.ofList exponent := by
      rw [← String.ofList_append, List.singleton_append]
    split
    · rw [hcons]
      exact steady_minus_append (quiet_of_isPlain hbehind).steady (startsWith_minus_of_isPlain hbehind)
    · rw [hcons]
      exact (Quiet.append (s := "+") (by decide) (quiet_of_isPlain hbehind)).steady
  have htext : String.ofList (mantissa ++ 'e' :: (if negative then '-' else '+') :: exponent) =
      String.ofList (mantissa ++ ['e']) ++
        String.ofList ((if negative then '-' else '+') :: exponent) := by
    simp [← String.toList_inj]
  have hquiet := quiet_of_isPlain hfront
  rw [htext]
  refine ⟨⟨hquiet.closes_append.2 hsigned.1, mt hquiet.commented_append.1 hsigned.2⟩, ?_⟩
  rw [startsWith_minus_append (by simp [← String.toList_inj])]
  exact startsWith_minus_of_isPlain hfront

section Digits

variable {digits : List Char} (h : ∀ c ∈ digits, c.isDigit = true)
include h

theorem unsigned_positional (leading : Int) :
    Unsigned (String.ofList (positional digits leading)) := by
  have hzero : '0'.isDigit = true := rfl
  refine .of_isPlain (isPlain_ofList fun c hc => ?_)
  unfold positional at hc
  split at hc
  · simp only [List.mem_cons, List.mem_append, List.mem_replicate] at hc
    rcases hc with rfl | rfl | ⟨-, rfl⟩ | hc
    · exact .inl hzero
    · exact .inr (.inl rfl)
    · exact .inl hzero
    · exact .inl (h c hc)
  · simp only [List.mem_cons, List.mem_append, List.mem_replicate] at hc
    rcases hc with (hc | ⟨-, rfl⟩) | rfl | hc
    · exact .inl (h c (List.mem_of_mem_take hc))
    · exact .inl hzero
    · exact .inr (.inl rfl)
    · split at hc
      · obtain rfl := List.mem_singleton.1 hc
        exact .inl hzero
      · exact .inl (h c (List.mem_of_mem_drop hc))

theorem unsigned_scientific (exponentWidth : Nat) (leading : Int) :
    Unsigned (String.ofList (scientific exponentWidth digits leading)) := by
  have hexponent : ∀ c ∈ List.replicate
      (exponentWidth - (Nat.toDigits 10 leading.natAbs).length) '0' ++ Nat.toDigits 10 leading.natAbs,
      c.isDigit = true := by
    refine List.forall_mem_append.2 ⟨fun c hc => ?_, fun c hc => ?_⟩
    · obtain rfl := List.eq_of_mem_replicate hc
      rfl
    · exact Nat.isDigit_of_mem_toDigits (by decide) (by decide) hc
  unfold scientific
  dsimp only
  refine unsigned_exponent (fun c hc => ?_) hexponent _
  split at hc
  · cases hc
  · exact .inl (h c hc)
  · rcases List.mem_cons.1 hc with rfl | hc
    · exact .inl (h _ (List.mem_cons_self ..))
    · rcases List.mem_cons.1 hc with rfl | hc
      · exact .inr (.inl rfl)
      · exact .inl (h c (List.mem_cons_of_mem _ hc))

end Digits

theorem isDigit_of_mem_significantDigits {n : Nat} {c : Char} (h : c ∈ significantDigits n) :
    c.isDigit = true := by
  unfold significantDigits at h
  have hmem := (List.dropWhile_sublist _).subset (List.mem_reverse.1 h)
  exact Nat.isDigit_of_mem_toDigits (by decide) (by decide) (List.mem_reverse.1 hmem)

variable (layout : NumberLayout)

theorem unsigned_decimal (x : Decimal) : Unsigned (String.ofList (layout.decimal x)) := by
  have hdigits := fun c => isDigit_of_mem_significantDigits (n := x.digits) (c := c)
  unfold decimal
  dsimp only
  split
  · exact unsigned_positional hdigits _
  · exact unsigned_scientific hdigits _ _

/-- Whatever number a float is, its text can be read on its own. -/
theorem steady_text (hnan : isPlain layout.nanText = true) (hinfinity : isPlain layout.infinityText = true)
    (d : Double) : Steady (layout.text d) := by
  have hsigned (t : String) (h : Unsigned t) : Steady ((if d.negative then "-" else "") ++ t) := by
    split
    · exact steady_minus_append h.1 h.2
    · simpa using h.1
  unfold text
  dsimp only
  split
  · exact (quiet_of_isPlain hnan).steady
  split
  · exact hsigned _ (.of_isPlain hinfinity)
  split
  · exact hsigned _ (.of_isPlain (by decide))
  · exact hsigned _ (layout.unsigned_decimal _)

end NumberLayout

theorem Literal.steady_source {l : Literal} (h : ∀ v, l = .string v → '"' ∉ v.toList) :
    Steady l.source := by
  cases l with
  | string v => exact (quiet_source_string (h v rfl)).steady
  | int n => exact steady_toString n
  | float d =>
    rw [source]
    exact NumberLayout.steady_text _ (by decide) (by decide) d

end LingoSource
