import LingoSource.Lingo.Expression
import LingoSource.Proofs.JavaScript.Literal

/-!
String literals can be read back. A double quote stands for itself, but the outer quotes are the first and
the last character, and what is between them is a sequence of codes none of which starts another; so every
text has a literal of its own. The words that Lingo has for some texts are looked up by their literals, and
by that stand for those texts only.
-/
set_option autoImplicit false

namespace LingoSource

open JavaScript (hexPair_reads lt_of_isCoded toList_source)

namespace Escaped

/-- Undoes the codes; what is no code stands for itself. -/
def decode : List Char → Option (List Char)
  | [] => some []
  | '\\' :: '\\' :: rest => (decode rest).map ('\\' :: ·)
  | '\\' :: 't' :: rest => (decode rest).map ('\t' :: ·)
  | '\\' :: 'n' :: rest => (decode rest).map ('\n' :: ·)
  | '\\' :: 'r' :: rest => (decode rest).map ('\r' :: ·)
  | '\\' :: 'x' :: a :: b :: rest =>
    if isHexDigit a && isHexDigit b then (decode rest).map (Char.ofNat (numberOf 16 [a, b]) :: ·)
    else none
  | '\\' :: _ => none
  | c :: rest => (decode rest).map (c :: ·)

theorem decode_encode_append (c : Char) (rest : List Char) :
    decode (encode c ++ rest) = (decode rest).map (c :: ·) := by
  by_cases hslash : c = '\\'
  · subst hslash
    rfl
  by_cases htab : c = '\t'
  · subst htab
    rfl
  by_cases hline : c = '\n'
  · subst hline
    rfl
  by_cases hreturn : c = '\r'
  · subst hreturn
    rfl
  rw [encode, if_neg hslash, if_neg htab, if_neg hline, if_neg hreturn]
  split
  · rename_i hcoded
    obtain ⟨hhigh, hlow, hnumber, -⟩ := hexPair_reads c.toNat (lt_of_isCoded hcoded)
    rw [hexPair] at hnumber ⊢
    simp [decode, hhigh, hlow, hnumber]
  · rw [List.singleton_append, decode]
    all_goals simp [hslash]

theorem decode_flatMap_encode (s : List Char) : decode (s.flatMap encode) = some s := by
  induction s with
  | nil => rfl
  | cons c s ih => rw [List.flatMap_cons, decode_encode_append, ih, Option.map_some]

def Printable (c : Char) : Prop :=
  0x20 ≤ c.toNat ∧ c.toNat ≤ 0x7e

instance : DecidablePred Printable := fun c =>
  inferInstanceAs (Decidable (0x20 ≤ c.toNat ∧ c.toNat ≤ 0x7e))

theorem printable_of_mem_codeCharacters {c : Char} (h : c ∈ JavaScript.codeCharacters) :
    Printable c := by
  have hall : JavaScript.codeCharacters.all (Printable ·) = true := by decide
  exact of_decide_eq_true (List.all_eq_true.1 hall c h)

theorem isCoded_of_encode_eq {c : Char} (h : encode c = [c]) : isCoded c = false := by
  cases hcoded : isCoded c with
  | false => rfl
  | true =>
    have hlength : (encode c).length ≠ 1 := by
      unfold encode
      rw [hcoded]
      grind
    simp [h] at hlength

theorem printable_of_mem_encode {c d : Char} (h : c.toNat ≤ 0xff) (hd : d ∈ encode c) :
    Printable d := by
  rcases JavaScript.encode_eq c with hc | ⟨code, hc, hcode⟩
  · have hcoded := isCoded_of_encode_eq hc
    obtain rfl : d = c := List.mem_singleton.1 (hc ▸ hd)
    simp [isCoded] at hcoded
    exact ⟨by omega, by omega⟩
  · rw [hc] at hd
    rcases List.mem_cons.1 hd with rfl | hd
    · decide
    · exact printable_of_mem_codeCharacters (hcode d hd)

end Escaped

/-- The text that a literal stands for: what is between the first and the last character, both of them
double quotes, with its codes undone. -/
def unescaped? (literal : String) : Option String :=
  match literal.toList with
  | '"' :: rest =>
    if rest.getLast? = some '"' then (Escaped.decode rest.dropLast).map String.ofList else none
  | _ => none

theorem unescaped?_escaped (s : String) : unescaped? (escaped s) = some s := by
  simp [unescaped?, escaped, Escaped.decode_flatMap_encode]

theorem escaped_inj {s t : String} : escaped s = escaped t ↔ s = t := by
  refine ⟨fun h => ?_, fun h => h ▸ rfl⟩
  have hread : unescaped? (escaped s) = unescaped? (escaped t) := congrArg unescaped? h
  rw [unescaped?_escaped, unescaped?_escaped] at hread
  exact Option.some.inj hread

theorem printable_of_mem_escaped {s : String} (h : ∀ c ∈ s.toList, c.toNat ≤ 0xff) {d : Char}
    (hd : d ∈ (escaped s).toList) : Escaped.Printable d := by
  have hquote : Escaped.Printable '"' := by decide
  simp only [escaped, String.toList_ofList, List.cons_append, List.mem_cons, List.mem_append,
    List.mem_flatMap, List.not_mem_nil, or_false] at hd
  rcases hd with rfl | ⟨c, hc, hd⟩ | rfl
  · exact hquote
  · exact Escaped.printable_of_mem_encode (h c hc) hd
  · exact hquote

def namedTexts : List (String × String) :=
  [("", "EMPTY"), ("\"", "QUOTE"), ("\r", "RETURN"), ("\t", "TAB"), ("\x03", "ENTER"),
    ("\x08", "BACKSPACE")]

theorem namedLiterals_eq :
    Vocabulary.namedLiterals = namedTexts.map fun named => (escaped named.1, named.2) := by
  decide +kernel

theorem lookup_map_escaped (s : String) (entries : List (String × String)) :
    (entries.map fun named => (escaped named.1, named.2)).lookup (escaped s) = entries.lookup s := by
  induction entries with
  | nil => rfl
  | cons named entries ih =>
    have hkey : (escaped s == escaped named.1) = (s == named.1) := by
      rw [Bool.eq_iff_iff, beq_iff_eq, beq_iff_eq, escaped_inj]
    rw [List.map_cons, List.lookup_cons, List.lookup_cons, hkey, ih]

theorem expression_string (s : String) (position : Nat) :
    Lingo.expression (.leaf .constant (Literal.string s).source position) =
      (namedTexts.lookup s).getD (escaped s) := by
  show (Vocabulary.namedLiterals.lookup (escaped s)).getD (escaped s) = _
  rw [namedLiterals_eq, lookup_map_escaped]

theorem escaped_ne_word {s : String} {named : String × String} (h : named ∈ namedTexts) :
    escaped s ≠ named.2 := by
  intro heq
  have hwords : ∀ named ∈ namedTexts, named.2.toList.head? ≠ some '"' := by decide
  refine hwords named h ?_
  rw [← heq]
  simp [escaped]

theorem getD_lookup_eq_word_iff {s : String} {named : String × String} (h : named ∈ namedTexts) :
    (namedTexts.lookup s).getD (escaped s) = named.2 ↔ s = named.1 := by
  have hwords : ∀ a ∈ namedTexts, ∀ b ∈ namedTexts, a.2 = b.2 → a = b := by decide
  have hfound : ∀ named ∈ namedTexts, namedTexts.lookup named.1 = some named.2 := by decide
  constructor
  · intro heq
    cases hlookup : namedTexts.lookup s with
    | none => exact absurd (by simpa [hlookup] using heq) (escaped_ne_word h)
    | some word =>
      obtain ⟨before, after, hsplit, -⟩ := List.lookup_eq_some_iff.1 hlookup
      have hmem : (s, word) ∈ namedTexts := by simp [hsplit]
      have hword : word = named.2 := by simpa [hlookup] using heq
      exact congrArg Prod.fst (hwords _ hmem named h hword)
  · rintro rfl
    simp [hfound named h]

namespace Literal

/-- The literal of a string can be read back, so it is the literal of no other string; it is printable if
the string is one of ISO-8859-1. Where a constant is written by a word, it is the string that the word is
for, and every other constant is written as its literal. -/
theorem faithful_source_string (s : String) (position : Nat) :
    unescaped? (source (.string s)) = some s ∧
      (∀ t, source (.string t) = source (.string s) → t = s) ∧
      ((∀ c ∈ s.toList, c.toNat ≤ 0xff) →
        ∀ c ∈ (source (.string s)).toList, Escaped.Printable c) ∧
      (∀ named ∈ namedTexts,
        Lingo.expression (.leaf .constant (source (.string s)) position) = named.2 ↔ s = named.1) ∧
      ((∀ named ∈ namedTexts, s ≠ named.1) →
        Lingo.expression (.leaf .constant (source (.string s)) position) = source (.string s)) := by
  rw [expression_string]
  refine ⟨unescaped?_escaped s, fun t h => escaped_inj.1 h, fun h c => printable_of_mem_escaped h,
    fun named h => getD_lookup_eq_word_iff h, fun h => ?_⟩
  have hlookup : namedTexts.lookup s = none := by
    rw [List.lookup_eq_none_iff]
    exact fun named hnamed => by simpa using h named hnamed
  rw [hlookup]
  rfl

/-- A literal with a letter of its own code and a quote inside, and the literal of the key that Lingo calls
`ENTER`. -/
theorem faithful_source_string_accented :
    unescaped? "\"caf\\xe9\"\"" = some "café\"" ∧
      (∀ c ∈ "\"caf\\xe9\"\"".toList, Escaped.Printable c) ∧
      Lingo.expression (.leaf .constant (source (.string "café\"")) 7) = "\"caf\\xe9\"\"" ∧
      Lingo.expression (.leaf .constant (source (.string "\x03")) 7) = "ENTER" := by
  have hsource : source (.string "café\"") = "\"caf\\xe9\"\"" := by decide +kernel
  obtain ⟨hread, -, hprintable, -, hliteral⟩ := faithful_source_string "café\"" 7
  obtain ⟨-, -, -, hword, -⟩ := faithful_source_string "\x03" 7
  rw [hsource] at hread hprintable hliteral
  have hlatin : "café\"".toList.all (·.toNat ≤ 0xff) = true := by decide
  have hcodes : ∀ c ∈ "café\"".toList, c.toNat ≤ 0xff := fun c hc =>
    of_decide_eq_true (List.all_eq_true.1 hlatin c hc)
  exact ⟨hread, hprintable hcodes, hsource ▸ hliteral (by decide),
    (hword ("\x03", "ENTER") (by decide)).2 rfl⟩

end Literal

end LingoSource
