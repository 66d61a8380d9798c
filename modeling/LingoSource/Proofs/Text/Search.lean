import LingoSource.Text.Search

set_option autoImplicit false

namespace LingoSource.Text

variable {p s t before after : List Char} {c : Char}

theorem splitBehind_eq_map (p seen s : List Char) :
    splitBehind p seen s =
      (splitBehind p [] s).map fun found => (seen.reverse ++ found.1, found.2) := by
  induction s generalizing seen with
  | nil => rfl
  | cons c s ih =>
    unfold splitBehind
    split
    · simp
    · rw [ih, ih [c], Option.map_map]
      simp [Function.comp_def]

theorem splitFirst_cons (p : List Char) (c : Char) (s : List Char) :
    splitFirst p (c :: s) =
      if p.isPrefixOf (c :: s) then some ([], (c :: s).drop p.length)
      else (splitFirst p s).map fun found => (c :: found.1, found.2) := by
  unfold splitFirst
  conv => lhs; unfold splitBehind
  split
  · rfl
  · rw [splitBehind_eq_map]
    rfl

theorem prefix_of_prefix_append_cons (h : p <+: s ++ c :: t) (hc : c ∉ p) : p <+: s := by
  rcases List.prefix_or_prefix_of_prefix h (List.prefix_append s (c :: t)) with h' | ⟨q, rfl⟩
  · exact h'
  · cases q with
    | nil => simp
    | cons d q =>
      obtain ⟨rfl, -⟩ := List.cons_prefix_cons.1 ((List.prefix_append_right_inj s).1 h)
      simp at hc

theorem infix_of_infix_append (h : c :: p <:+: s ++ t) (hc : c ∉ s) : c :: p <:+: t := by
  induction s with
  | nil => exact h
  | cons d s ih =>
    obtain ⟨hd, hs⟩ : c ≠ d ∧ c ∉ s := by simpa using hc
    rcases List.infix_cons_iff.1 h with h | h
    · exact absurd (List.cons_prefix_cons.1 h).1 hd
    · exact ih h hs

theorem infix_of_infix_append_cons (h : p <:+: s ++ c :: t) (hc : c ∉ p) : p <:+: s ∨ p <:+: t := by
  induction s with
  | nil =>
    rcases List.infix_cons_iff.1 h with h | h
    · exact .inl (prefix_of_prefix_append_cons (s := []) h hc).isInfix
    · exact .inr h
  | cons d s ih =>
    rcases List.infix_cons_iff.1 h with h | h
    · exact .inl (prefix_of_prefix_append_cons (s := d :: s) h hc).isInfix
    · exact (ih h).imp (fun h => List.infix_cons h) id

/-- Putting another text in the place of one leaves what shares neither end with it and does not hold
it. -/
theorem infix_of_infix_replaced {x q : List Char} (hfirst : ∀ c ∈ x.head?, c ∉ p)
    (hlast : ∀ c ∈ x.getLast?, c ∉ p) (hx : ¬ p <:+: x) (h : x <:+: before ++ p ++ after) :
    x <:+: before ++ q ++ after := by
  have hsplit : x <:+: before ∨ x <:+: after := by
    obtain ⟨u, w, heq⟩ := h
    rw [List.append_assoc, List.append_assoc] at heq
    rcases List.append_eq_append_iff.1 heq with ⟨a, rfl, hxw⟩ | ⟨a, rfl, hafter⟩
    · rcases List.append_eq_append_iff.1 hxw with ⟨b, rfl, -⟩ | ⟨b, rfl, hpb⟩
      · exact .inl ⟨u, b, by simp⟩
      · rcases List.append_eq_append_iff.1 hpb with ⟨d, rfl, -⟩ | ⟨d, rfl, -⟩
        · exact absurd ⟨a, d, by simp⟩ hx
        · cases hb : b.getLast? with
          | none =>
            obtain rfl := List.getLast?_eq_none_iff.1 hb
            exact .inl ⟨u, [], by simp⟩
          | some c =>
            exact absurd (List.mem_append_left d (List.mem_of_getLast? hb)) (hlast c (by simp [hb]))
    · rcases List.append_eq_append_iff.1 hafter with ⟨b, rfl, rfl⟩ | ⟨b, rfl, hxw⟩
      · exact .inr ⟨b, w, by simp⟩
      · cases x with
        | nil => exact .inr List.nil_infix
        | cons c x =>
          cases b with
          | nil => exact .inr ⟨[], w, by simpa using hxw⟩
          | cons d b =>
            obtain ⟨rfl, -⟩ := List.cons.inj hxw
            exact absurd (by simp) (hfirst c rfl)
  rcases hsplit with h | h
  · exact (h.trans (List.prefix_append _ _).isInfix).trans (List.prefix_append _ _).isInfix
  · exact h.trans (List.suffix_append _ _).isInfix

theorem splitFirst_append_of_some (h : splitFirst p s = some (before, after)) (t : List Char) :
    splitFirst p (s ++ t) = some (before, after ++ t) := by
  induction s generalizing before with
  | nil => cases h
  | cons c s ih =>
    rw [splitFirst_cons] at h
    rw [List.cons_append, splitFirst_cons]
    split at h
    · rename_i hp
      have hprefix := List.isPrefixOf_iff_prefix.1 hp
      cases h
      have hlong : p <+: c :: (s ++ t) := hprefix.trans (List.prefix_append (c :: s) t)
      rw [if_pos (List.isPrefixOf_iff_prefix.2 hlong), ← List.cons_append,
        List.drop_append_of_le_length hprefix.length_le]
    · rename_i hp
      obtain ⟨⟨before', after'⟩, hs, heq⟩ := Option.map_eq_some_iff.1 h
      cases heq
      -- An occurrence that starts earlier would end earlier, too.
      have hlength : p.length ≤ (c :: s).length := by
        have := congrArg List.length (splitFirst_eq hs)
        simp only [List.length_append, List.length_cons] at this ⊢
        omega
      have hnone : ¬ p.isPrefixOf (c :: (s ++ t)) := fun hlong => hp <|
        List.isPrefixOf_iff_prefix.2 <| List.prefix_of_prefix_length_le
          (List.isPrefixOf_iff_prefix.1 hlong) (List.prefix_append (c :: s) t) hlength
      rw [if_neg hnone, ih hs]
      rfl

theorem splitFirst_append_of_none (hp : p ≠ []) (hc : c ∉ p) (h : splitFirst p s = none)
    (t : List Char) :
    splitFirst p (s ++ c :: t) =
      (splitFirst p t).map fun found => (s ++ c :: found.1, found.2) := by
  induction s with
  | nil =>
    have hnone : ¬ p.isPrefixOf (c :: t) := fun hprefix => hp <| List.prefix_nil.1 <|
      prefix_of_prefix_append_cons (List.isPrefixOf_iff_prefix.1 hprefix) hc
    rw [List.nil_append, splitFirst_cons, if_neg hnone]
    rfl
  | cons d s ih =>
    rw [splitFirst_cons] at h
    split at h
    · cases h
    · rename_i hd
      have hnone : ¬ p.isPrefixOf (d :: (s ++ c :: t)) := fun hprefix => hd <|
        List.isPrefixOf_iff_prefix.2 <|
          prefix_of_prefix_append_cons (s := d :: s) (List.isPrefixOf_iff_prefix.1 hprefix) hc
      rw [List.cons_append, splitFirst_cons, if_neg hnone, ih (Option.map_eq_none_iff.1 h),
        Option.map_map]
      rfl

theorem splitLast_append_of_some (h : splitLast p t = some (before, after)) (s : List Char) :
    splitLast p (s ++ t) = some (s ++ before, after) := by
  obtain ⟨⟨a, b⟩, ht, heq⟩ := Option.map_eq_some_iff.1 h
  cases heq
  rw [splitLast, List.reverse_append, splitFirst_append_of_some ht]
  simp

theorem splitLast_append_of_none (hp : p ≠ []) (hc : c ∉ p) (h : splitLast p t = none)
    (s : List Char) :
    splitLast p (s ++ c :: t) =
      (splitLast p s).map fun found => (found.1, found.2 ++ c :: t) := by
  have ht : splitFirst p.reverse t.reverse = none := Option.map_eq_none_iff.1 h
  rw [splitLast, List.reverse_append, List.reverse_cons, List.append_assoc, List.singleton_append,
    splitFirst_append_of_none (by simpa using hp) (by simpa using hc) ht, splitLast, Option.map_map,
    Option.map_map]
  simp [Function.comp_def]

theorem splitLast_nil (p : List Char) : splitLast p [] = none := rfl

theorem splitLast_cons (hp : p ≠ []) (hc : c ∉ p) (t : List Char) :
    splitLast p (c :: t) = (splitLast p t).map fun found => (c :: found.1, found.2) := by
  cases h : splitLast p t with
  | none => simpa [splitLast_nil] using splitLast_append_of_none hp hc h []
  | some found => simpa using splitLast_append_of_some h [c]

end LingoSource.Text
