import LingoSource.Text.Search

set_option autoImplicit false

namespace LingoSource.Text

def isParenthesis (c : Char) : Bool :=
  c = '(' || c = ')'

def endsWord (c : Char) : Bool :=
  c = ' ' || isParenthesis c

def isWord (word : String) : Bool :=
  !word.toList.isEmpty && word.toList.all (!endsWord ·)

def finished (seen : List Char) : List String :=
  if seen.isEmpty then [] else [String.ofList seen]

def wordsBehind (seen : List Char) : List Char → List String
  | [] => finished seen
  | c :: s =>
    if isParenthesis c then finished seen ++ String.ofList [c] :: wordsBehind [] s
    else if c = ' ' then finished seen ++ wordsBehind [] s
    else wordsBehind (seen ++ [c]) s

def words (s : String) : List String :=
  wordsBehind [] s.toList

variable {w t t' : String} {ws ws' : List String} {s rest : List Char}

theorem wordsBehind_append (h : ∀ c ∈ s, endsWord c = false) (seen rest : List Char) :
    wordsBehind seen (s ++ rest) = wordsBehind (seen ++ s) rest := by
  induction s generalizing seen with
  | nil => simp
  | cons c s ih =>
    obtain ⟨hc, hs⟩ := List.forall_mem_cons.1 h
    obtain ⟨hspace, hparenthesis⟩ : c ≠ ' ' ∧ isParenthesis c = false := by
      simpa [endsWord] using hc
    rw [List.cons_append, wordsBehind, if_neg (by simp [hparenthesis]), if_neg hspace, ih hs]
    simp

theorem wordsBehind_parenthesis {c : Char} (h : isParenthesis c = true) (s : List Char) :
    wordsBehind [] (c :: s) = String.ofList [c] :: wordsBehind [] s := by
  rw [wordsBehind, if_pos h]
  rfl

theorem exists_wordsBehind {seen : List Char} (h : seen ≠ []) (s : List Char) :
    ∃ w ws, wordsBehind seen s = w :: ws ∧ seen <+: w.toList := by
  have hfinished : finished seen = [String.ofList seen] := by simp [finished, h]
  have hseen : seen <+: (String.ofList seen).toList := by simp
  induction s generalizing seen with
  | nil => exact ⟨_, [], hfinished, hseen⟩
  | cons c s ih =>
    unfold wordsBehind
    split
    · exact ⟨_, _, by rw [hfinished]; rfl, hseen⟩
    split
    · exact ⟨_, _, by rw [hfinished]; rfl, hseen⟩
    · obtain ⟨w, ws, hwords, hw⟩ := @ih (seen ++ [c]) (by simp) (by simp [finished]) (by simp)
      exact ⟨w, ws, hwords, (List.prefix_append seen [c]).trans hw⟩

def Ended (rest : List Char) : Prop :=
  ∀ c ∈ rest.head?, endsWord c = true

theorem wordsBehind_ended (h : Ended rest) (seen : List Char) :
    wordsBehind seen rest = finished seen ++ wordsBehind [] rest := by
  cases rest with
  | nil => simp [wordsBehind, finished]
  | cons c rest =>
    have hc : endsWord c = true := h c rfl
    rw [wordsBehind, wordsBehind]
    cases hparenthesis : isParenthesis c with
    | true => simp [finished]
    | false =>
      have hspace : c = ' ' := by simpa [endsWord, hparenthesis] using hc
      simp [hspace, finished]

/-- A text has these words, whatever comes behind its last one. -/
def Spells (ws : List String) (t : String) : Prop :=
  ∀ rest, Ended rest → wordsBehind [] (t.toList ++ rest) = ws ++ wordsBehind [] rest

namespace Spells

theorem words_eq (h : Spells ws t) : words t = ws := by
  have hwords := h [] (by simp [Ended])
  simpa [words, wordsBehind, finished] using hwords

theorem word (h : isWord w = true) : Spells [w] w := by
  obtain ⟨hw, hall⟩ : w.toList ≠ [] ∧ ∀ c ∈ w.toList, endsWord c = false := by
    simpa [isWord] using h
  intro rest hrest
  rw [wordsBehind_append hall, wordsBehind_ended hrest]
  simp [finished, hw]

theorem space (h : Spells ws t) (h' : Spells ws' t') : Spells (ws ++ ws') (t ++ " " ++ t') := by
  intro rest hrest
  have hspace : (t ++ " " ++ t').toList ++ rest = t.toList ++ ' ' :: (t'.toList ++ rest) := by
    simp
  rw [hspace, h _ (by simp [Ended, endsWord]), List.append_assoc, ← h' rest hrest]
  rfl

theorem behind (h : Spells ws t) (w start : String) (hw : isWord w = true)
    (hstart : start = w ++ " ") : Spells (w :: ws) (start ++ t) := by
  rw [hstart]
  exact (word hw).space h

theorem between (h : Spells ws t) (h' : Spells ws' t') (w middle : String) (hw : isWord w = true)
    (hmiddle : middle = " " ++ w ++ " ") : Spells (ws ++ w :: ws') (t ++ middle ++ t') := by
  have hspaces : t ++ middle ++ t' = t ++ " " ++ (w ++ " " ++ t') := by
    rw [hmiddle]
    simp only [String.append_assoc]
  rw [hspaces]
  exact h.space ((word hw).space h')

theorem parenthesized (h : Spells ws t) : Spells ("(" :: (ws ++ [")"])) ("(" ++ t ++ ")") := by
  intro rest hrest
  have htext : ("(" ++ t ++ ")").toList ++ rest = '(' :: (t.toList ++ ')' :: rest) := by
    simp
  rw [htext, wordsBehind_parenthesis rfl, h _ (by simp [Ended, endsWord, isParenthesis]),
    wordsBehind_parenthesis rfl]
  simp

end Spells

end LingoSource.Text
