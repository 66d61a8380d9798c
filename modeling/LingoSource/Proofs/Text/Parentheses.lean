import LingoSource.Proofs.Text.Words

set_option autoImplicit false

namespace LingoSource.Text

/-- What is left of a text behind the parenthesis that closes the innermost one around its start, if
`depth` more are open inside that one. -/
def behindClosing : (depth : Nat) → List Char → Option (List Char)
  | _, [] => none
  | depth, c :: s =>
    if c = '(' then behindClosing (depth + 1) s
    else if c = ')' then if depth = 0 then some s else behindClosing (depth - 1) s
    else behindClosing depth s

def isGroup (t : String) : Bool :=
  match t.toList with
  | '(' :: s => behindClosing 0 s = some []
  | _ => false

def unbracketed (t : String) : Bool :=
  t.toList.all (!isParenthesis ·)

def Balanced (s : List Char) : Prop :=
  ∀ depth rest, behindClosing depth (s ++ rest) = behindClosing depth rest

namespace Balanced

variable {s t : List Char} {c : Char}

theorem nil : Balanced [] := fun _ _ => rfl

theorem append (hs : Balanced s) (ht : Balanced t) : Balanced (s ++ t) := by
  intro depth rest
  rw [List.append_assoc, hs, ht]

theorem cons (hc : isParenthesis c = false) (hs : Balanced s) : Balanced (c :: s) := by
  intro depth rest
  obtain ⟨hopen, hclose⟩ : c ≠ '(' ∧ c ≠ ')' := by simpa [isParenthesis] using hc
  rw [List.cons_append, behindClosing, if_neg hopen, if_neg hclose, hs]

theorem of_unbracketed {t : String} (h : unbracketed t = true) : Balanced t.toList := by
  have hall : ∀ c ∈ t.toList, isParenthesis c = false := by simpa [unbracketed] using h
  generalize t.toList = s at hall
  induction s with
  | nil => exact nil
  | cons c s ih =>
    obtain ⟨hc, hs⟩ := List.forall_mem_cons.1 hall
    exact (ih hs).cons hc

theorem behindClosing_zero (hs : Balanced s) (rest : List Char) :
    behindClosing 0 (s ++ ')' :: rest) = some rest := by
  rw [hs]
  rfl

theorem isGroup_iff {t inner tail : String} (h : Balanced inner.toList)
    (ht : t = "(" ++ inner ++ ")" ++ tail) : isGroup t = true ↔ tail = "" := by
  have htext : t.toList = '(' :: (inner.toList ++ ')' :: tail.toList) := by
    rw [ht]
    simp
  unfold isGroup
  rw [htext]
  simp [h.behindClosing_zero]

end Balanced

theorem not_startsWith_of_unbracketed {t : String} (h : unbracketed t = true) :
    startsWith t "(" = false := by
  have hall : ∀ c ∈ t.toList, isParenthesis c = false := by simpa [unbracketed] using h
  cases htext : t.toList with
  | nil => simp [startsWith, htext]
  | cons c s =>
    have hc : c ≠ '(' := by
      rintro rfl
      have hopen := hall '(' (by simp [htext])
      simp [isParenthesis] at hopen
    simp [startsWith, htext, List.isPrefixOf, Ne.symm hc]

end LingoSource.Text
