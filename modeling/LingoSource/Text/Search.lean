set_option autoImplicit false

namespace LingoSource.Text

def startsWith (s p : String) : Bool :=
  p.toList.isPrefixOf s.toList

def endsWith (s : String) (c : Char) : Bool :=
  s.toList.getLast? = some c

/-- Looks for `p` in `s` behind the characters `seen`, which are kept in reverse. -/
def splitBehind (p seen : List Char) : List Char → Option (List Char × List Char)
  | [] => none
  | c :: s =>
    if p.isPrefixOf (c :: s) then some (seen.reverse, (c :: s).drop p.length)
    else splitBehind p (c :: seen) s

def splitFirst (p s : List Char) : Option (List Char × List Char) :=
  splitBehind p [] s

def splitLast (p s : List Char) : Option (List Char × List Char) :=
  (splitFirst p.reverse s.reverse).map fun (after, before) => (before.reverse, after.reverse)

theorem splitBehind_eq {p seen s before after : List Char}
    (h : splitBehind p seen s = some (before, after)) :
    seen.reverse ++ s = before ++ p ++ after := by
  induction s generalizing seen with
  | nil => simp [splitBehind] at h
  | cons c s ih =>
    unfold splitBehind at h
    split at h
    · rename_i hp
      obtain ⟨rfl, rfl⟩ : seen.reverse = before ∧ (c :: s).drop p.length = after := by simpa using h
      have := List.prefix_iff_eq_append.1 (List.isPrefixOf_iff_prefix.1 hp)
      rw [List.append_assoc, this]
    · simpa using ih h

theorem splitFirst_eq {p s before after : List Char}
    (h : splitFirst p s = some (before, after)) : s = before ++ p ++ after := by
  simpa using splitBehind_eq h

theorem splitLast_eq {p s before after : List Char}
    (h : splitLast p s = some (before, after)) : s = before ++ p ++ after := by
  obtain ⟨⟨a, b⟩, hs, he⟩ := Option.map_eq_some_iff.1 h
  obtain ⟨rfl, rfl⟩ : b.reverse = before ∧ a.reverse = after := by simpa using he
  have := congrArg List.reverse (splitFirst_eq hs)
  simpa using this

/-- The pieces of a text between the marks `c`, which are in none of them. -/
def pieces (c : Char) : List Char → List (List Char)
  | [] => [[]]
  | d :: s =>
    if d = c then [] :: pieces c s
    else
      match pieces c s with
      | [] => [[d]]
      | piece :: rest => (d :: piece) :: rest

end LingoSource.Text
