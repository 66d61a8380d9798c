import LingoSource.Chunk.Literal
import LingoSource.Proofs.Text.Search

set_option autoImplicit false

namespace LingoSource.JavaScript

def readInside : List Char → Option (List Char × List Char)
  | [] => none
  | '"' :: rest => some ([], rest)
  | '\\' :: '\\' :: rest => (readInside rest).map fun r => ('\\' :: r.1, r.2)
  | '\\' :: 't' :: rest => (readInside rest).map fun r => ('\t' :: r.1, r.2)
  | '\\' :: 'n' :: rest => (readInside rest).map fun r => ('\n' :: r.1, r.2)
  | '\\' :: 'r' :: rest => (readInside rest).map fun r => ('\r' :: r.1, r.2)
  | '\\' :: 'x' :: a :: b :: rest =>
    if isHexDigit a && isHexDigit b then
      (readInside rest).map fun r => (Char.ofNat (numberOf 16 [a, b]) :: r.1, r.2)
    else none
  | '\\' :: _ => none
  | c :: rest =>
    if c = '\n' || c = '\r' then none else (readInside rest).map fun r => (c :: r.1, r.2)

/-- What the string literal denotes that a text starts with, and what comes behind it. -/
def readLiteral (text : String) : Option (String × String) :=
  match text.toList with
  | '"' :: rest => (readInside rest).map fun r => (String.ofList r.1, String.ofList r.2)
  | _ => none

variable {c : Char} {s rest : List Char}

def codeCharacters : List Char :=
  ['\\', 't', 'n', 'r', 'x', '0', '1', '2', '3', '4', '5', '6', '7', '8', '9', 'a', 'b', 'c', 'd', 'e',
    'f']

theorem hexPair_reads : ∀ n < 256, isHexDigit (hexDigit (n / 16)) = true ∧
    isHexDigit (hexDigit (n % 16)) = true ∧ numberOf 16 (hexPair n) = n ∧
    (hexPair n).all codeCharacters.contains = true := by
  decide +kernel

theorem lt_of_isCoded (h : Escaped.isCoded c = true) : c.toNat < 256 := by
  simp [Escaped.isCoded] at h
  omega

theorem readInside_encode (h : c ≠ '"') (rest : List Char) :
    readInside (Escaped.encode c ++ rest) = (readInside rest).map fun r => (c :: r.1, r.2) := by
  by_cases hslash : c = '\\'
  · subst hslash
    rfl
  by_cases htab : c = '\t'
  · subst htab
    rfl
  by_cases hline : c = '\n'
  · subst hline
    rfl
  by_cases hreturn : c = '\r'
  · subst hreturn
    rfl
  rw [Escaped.encode, if_neg hslash, if_neg htab, if_neg hline, if_neg hreturn]
  split
  · rename_i hcoded
    obtain ⟨hhigh, hlow, hnumber, -⟩ := hexPair_reads c.toNat (lt_of_isCoded hcoded)
    rw [hexPair] at hnumber ⊢
    simp [readInside, hhigh, hlow, hnumber]
  · rw [List.singleton_append, readInside]
    · simp [hline, hreturn]
    all_goals simp [h, hslash]

theorem readInside_flatMap (h : '"' ∉ s) (rest : List Char) :
    readInside (s.flatMap Escaped.encode ++ '"' :: rest) = some (s, rest) := by
  induction s with
  | nil => rfl
  | cons c s ih =>
    obtain ⟨hc, hs⟩ : c ≠ '"' ∧ '"' ∉ s := by
      simpa [eq_comm] using h
    rw [List.flatMap_cons, List.append_assoc, readInside_encode hc, ih hs]
    rfl

theorem toList_source (v : String) :
    (Literal.source (.string v)).toList = '"' :: v.toList.flatMap Escaped.encode ++ ['"'] := by
  simp [Literal.source, escaped]

theorem readLiteral_source (v after : String) :
    readLiteral (Literal.source (.string v) ++ after) =
      (readInside (v.toList.flatMap Escaped.encode ++ '"' :: after.toList)).map fun r =>
        (String.ofList r.1, String.ofList r.2) := by
  have htext : (Literal.source (.string v) ++ after).toList =
      '"' :: (v.toList.flatMap Escaped.encode ++ '"' :: after.toList) := by
    simp [toList_source]
  rw [readLiteral, htext]
  rfl

/-- A literal ends at its own closing quote, and then denotes its text, exactly if that has no double
quote. -/
theorem readLiteral_source_iff (v after : String) :
    readLiteral (Literal.source (.string v) ++ after) = some (v, after) ↔ '"' ∉ v.toList := by
  rw [readLiteral_source]
  constructor
  · intro h hquote
    obtain ⟨before, behind, hsplit, hbefore⟩ := List.eq_append_cons_of_mem hquote
    have hfirst : Escaped.encode '"' = ['"'] := by decide
    rw [hsplit, List.flatMap_append, List.flatMap_cons, List.append_assoc, hfirst,
      List.singleton_append, List.cons_append, readInside_flatMap hbefore] at h
    -- What was read is a part of the text only.
    have hv : String.ofList before = v := congrArg Prod.fst (Option.some.inj h)
    rw [← hv] at hsplit
    simp at hsplit
  · intro h
    rw [readInside_flatMap h]
    simp

def partReference : List Char := ['g', 'e', 't', 'P', 'r', 'o', 'p', 'R', 'e', 'f']

theorem toList_getPropRef : "getPropRef".toList = partReference := by simp [partReference]

theorem encode_eq (c : Char) :
    Escaped.encode c = [c] ∨
      ∃ code, Escaped.encode c = '\\' :: code ∧ ∀ d ∈ code, d ∈ codeCharacters := by
  unfold Escaped.encode
  split
  · exact .inr ⟨['\\'], rfl, by simp [codeCharacters]⟩
  split
  · exact .inr ⟨['t'], rfl, by simp [codeCharacters]⟩
  split
  · exact .inr ⟨['n'], rfl, by simp [codeCharacters]⟩
  split
  · exact .inr ⟨['r'], rfl, by simp [codeCharacters]⟩
  split
  · rename_i hcoded
    obtain ⟨-, -, -, hdigits⟩ := hexPair_reads c.toNat (lt_of_isCoded hcoded)
    refine .inr ⟨'x' :: hexPair c.toNat, rfl, List.forall_mem_cons.2 ⟨by decide, ?_⟩⟩
    simpa using hdigits
  · exact .inl rfl

theorem eq_of_mem_encode {d : Char} (hd : d ∉ codeCharacters) (h : d ∈ Escaped.encode c) : c = d := by
  rcases encode_eq c with hc | ⟨code, hc, hcode⟩ <;> rw [hc] at h
  · exact (List.mem_singleton.1 h).symm
  · rcases List.mem_cons.1 h with rfl | h
    · exact absurd (by decide) hd
    · exact absurd (hcode d h) hd

theorem not_mem_flatMap_encode {d : Char} (hd : d ∉ codeCharacters) (h : d ∉ s) :
    d ∉ s.flatMap Escaped.encode := by
  intro hmem
  obtain ⟨c, hc, hcode⟩ := List.mem_flatMap.1 hmem
  exact h (eq_of_mem_encode hd hcode ▸ hc)

theorem prefix_of_prefix_flatMap {p : List Char} (hp : '\\' ∉ p)
    (h : p <+: s.flatMap Escaped.encode) : p <+: s := by
  induction p generalizing s with
  | nil => exact List.nil_prefix
  | cons d p ih =>
    obtain ⟨hd, hp⟩ : '\\' ≠ d ∧ '\\' ∉ p := by simpa using hp
    cases s with
    | nil => simp at h
    | cons c s =>
      rw [List.flatMap_cons] at h
      rcases encode_eq c with hc | ⟨code, hc, -⟩ <;> rw [hc, List.cons_append] at h
      · obtain ⟨rfl, hrest⟩ := List.cons_prefix_cons.1 h
        exact List.cons_prefix_cons.2 ⟨rfl, ih hp hrest⟩
      · exact absurd (List.cons_prefix_cons.1 h).1.symm hd

/-- A reference to a part of a text that stands in an escaped text stands in the text itself. -/
theorem infix_of_infix_flatMap (h : partReference <:+: s.flatMap Escaped.encode) :
    partReference <:+: s := by
  induction s with
  | nil => simp [partReference] at h
  | cons c s ih =>
    rw [List.flatMap_cons] at h
    by_cases hc : 'g' ∈ Escaped.encode c
    · obtain rfl := eq_of_mem_encode (by decide) hc
      rcases List.infix_cons_iff.1 h with h | h
      · exact (prefix_of_prefix_flatMap (s := 'g' :: s) (by decide) h).isInfix
      · exact List.infix_cons (ih h)
    · exact List.infix_cons (ih (Text.infix_of_infix_append h hc))

def quoted (v : String) : String :=
  "new LingoString(" ++ Literal.source (.string v) ++ ")"

theorem toList_quoted (v : String) :
    (quoted v).toList = "new LingoString(".toList ++
      '"' :: (v.toList.flatMap Escaped.encode ++ '"' :: [')']) := by
  unfold quoted
  rw [String.toList_append, String.toList_append, toList_source]
  simp only [List.append_assoc, List.cons_append, List.nil_append]
  rfl

theorem partReference_not_infix_quoted {v : String} (h : ¬ partReference <:+: v.toList) :
    ¬ partReference <:+: (quoted v).toList := by
  intro hquoted
  have hquote : '"' ∉ partReference := by decide
  rw [toList_quoted] at hquoted
  rcases Text.infix_of_infix_append_cons hquoted hquote with hname | hrest
  · have hmem : 'P' ∈ "new LingoString(".toList := hname.subset (by decide)
    simp at hmem
  · rcases Text.infix_of_infix_append_cons hrest hquote with hinside | hend
    · exact h (infix_of_infix_flatMap hinside)
    · exact absurd (hend.subset (show 'P' ∈ partReference by decide)) (by decide)

end LingoSource.JavaScript
