import LingoSource.Layout.Arguments
import LingoSource.Text.Search
import Mathlib.Data.List.Induction

set_option autoImplicit false

namespace LingoSource.Text

/-- Where a reader of Lingo stands. Behind a minus sign, another one starts a comment. -/
inductive Reading
  | code
  | minus
  | string
  | comment
  deriving DecidableEq, Repr

namespace Reading

def next : Reading → Char → Reading
  | .code, c => if c = '"' then .string else if c = '-' then .minus else .code
  | .minus, c => if c = '"' then .string else if c = '-' then .comment else .code
  | .string, c => if c = '"' then .code else .string
  | .comment, _ => .comment

def after (r : Reading) (t : String) : Reading :=
  t.toList.foldl next r

theorem after_append (r : Reading) (a b : String) : r.after (a ++ b) = (r.after a).after b := by
  simp [after]

theorem after_comment (t : String) : comment.after t = .comment := by
  unfold after
  induction t.toList with
  | nil => rfl
  | cons c s ih => exact ih

end Reading

open Reading

def Closes (t : String) : Prop :=
  code.after t ≠ .string

instance (t : String) : Decidable (Closes t) :=
  inferInstanceAs (Decidable (_ ≠ _))

/-- Two minus signs follow each other outside of the strings in the text, and so start a comment. -/
def Commented (t : String) : Prop :=
  ∃ front behind, t = front ++ ("--" ++ behind) ∧ Closes front

theorem exists_of_foldl_eq_minus {chars : List Char} (h : chars.foldl next .code = .minus) :
    ∃ front, chars = front ++ ['-'] ∧ front.foldl next .code = .code := by
  rcases List.eq_nil_or_concat chars with rfl | ⟨front, c, rfl⟩
  · cases h
  · rw [List.concat_eq_append, List.foldl_append, List.foldl_cons, List.foldl_nil] at h
    refine ⟨front, ?_⟩
    cases hfront : front.foldl next .code <;> rw [hfront] at h <;> unfold next at h <;> grind

theorem exists_of_foldl_eq_comment {chars : List Char} (h : chars.foldl next .code = .comment) :
    ∃ front behind, chars = front ++ ('-' :: '-' :: behind) ∧ front.foldl next .code = .code := by
  induction chars using List.reverseRecOn with
  | nil => cases h
  | append_singleton chars c ih =>
    rw [List.foldl_append, List.foldl_cons, List.foldl_nil] at h
    cases hchars : chars.foldl next .code with
    | comment =>
      obtain ⟨front, behind, rfl, hfront⟩ := ih hchars
      exact ⟨front, behind ++ [c], by simp, hfront⟩
    | minus =>
      obtain ⟨front, rfl, hfront⟩ := exists_of_foldl_eq_minus hchars
      have hc : c = '-' := by
        rw [hchars] at h
        unfold next at h
        grind
      exact ⟨front, [], by simp [hc], hfront⟩
    | code | string =>
      rw [hchars] at h
      unfold next at h
      grind

theorem commented_iff_after {t : String} : Commented t ↔ code.after t = .comment := by
  constructor
  · rintro ⟨front, behind, rfl, hcloses⟩
    rw [after_append, after_append]
    cases h : code.after front with
    | string => exact absurd h hcloses
    | _ => exact after_comment behind
  · intro h
    obtain ⟨front, behind, hchars, hfront⟩ := exists_of_foldl_eq_comment h
    refine ⟨String.ofList front, String.ofList behind, String.toList_inj.1 (by simpa using hchars), ?_⟩
    unfold Closes after
    rw [String.toList_ofList, hfront]
    exact Reading.noConfusion

instance (t : String) : Decidable (Commented t) :=
  decidable_of_iff _ commented_iff_after.symm

def Steady (t : String) : Prop :=
  Closes t ∧ ¬Commented t

instance (t : String) : Decidable (Steady t) :=
  inferInstanceAs (Decidable (_ ∧ _))

def Quiet (t : String) : Prop :=
  code.after t = .code

instance (t : String) : Decidable (Quiet t) :=
  inferInstanceAs (Decidable (_ = _))

/-- The text keeps what stands in front of it apart from what comes behind. -/
def Gap (t : String) : Prop :=
  Quiet t ∧ t ≠ "" ∧ startsWith t "-" = false

instance (t : String) : Decidable (Gap t) :=
  inferInstanceAs (Decidable (_ ∧ _))

def isPlain (t : String) : Bool :=
  t.toList.all fun c => c != '"' && c != '-'

variable {s t w : String} {ws ws' : List String}

theorem Quiet.append (hs : Quiet s) (ht : Quiet t) : Quiet (s ++ t) := by
  unfold Quiet
  rw [after_append, hs, ht]

theorem startsWith_minus_append (hs : s ≠ "") (t : String) :
    startsWith (s ++ t) "-" = startsWith s "-" := by
  unfold startsWith
  rw [String.toList_append]
  cases hchars : s.toList with
  | nil => exact absurd (by simpa using hchars) hs
  | cons c rest => simp [List.isPrefixOf]

theorem Gap.append (hs : Gap s) (ht : Quiet t) : Gap (s ++ t) := by
  obtain ⟨hquiet, hne, hstart⟩ := hs
  exact ⟨hquiet.append ht, by simp [hne], (startsWith_minus_append hne t).trans hstart⟩

theorem Quiet.steady (h : Quiet t) : Steady t := by
  rw [Steady, Closes, commented_iff_after, h]
  exact ⟨Reading.noConfusion, Reading.noConfusion⟩

theorem quiet_of_isPlain (h : isPlain t = true) : Quiet t := by
  unfold isPlain at h
  unfold Quiet after
  generalize t.toList = s at h
  induction s with
  | nil => rfl
  | cons c s ih =>
    rw [List.all_cons, Bool.and_eq_true] at h
    obtain ⟨hquote, hminus⟩ : c ≠ '"' ∧ c ≠ '-' := by simpa using h.1
    rw [List.foldl_cons, next, if_neg hquote, if_neg hminus]
    exact ih h.2

/-- Behind a minus sign a text is read as in code, unless it starts with another one. -/
theorem minus_after (t : String) :
    minus.after t =
      if startsWith t "-" then .comment else if t = "" then .minus else code.after t := by
  have hempty : t = "" ↔ t.toList = [] := by simp
  have hcomment : comment.after t = .comment := after_comment t
  simp only [startsWith, hempty, after] at hcomment ⊢
  cases hs : t.toList with
  | nil => rfl
  | cons c s =>
    rw [hs] at hcomment
    by_cases hc : c = '-'
    · subst hc
      simpa [next, List.isPrefixOf] using hcomment
    · simp [next, List.isPrefixOf, hc, Ne.symm hc]

theorem commented_minus_append (t : String) :
    Commented ("-" ++ t) ↔ startsWith t "-" = true ∨ Commented t := by
  have hminus : code.after ("-" ++ t) = minus.after t := after_append _ _ _
  rw [commented_iff_after, commented_iff_after, hminus, minus_after]
  split
  · rename_i h
    simp [h]
  · split
    · rename_i h _
      subst_vars
      simp [h, after]
    · rename_i h _
      simp [h]

theorem closes_minus_append (h : Closes t) : Closes ("-" ++ t) := by
  have hminus : code.after ("-" ++ t) = minus.after t := after_append _ _ _
  unfold Closes
  rw [hminus, minus_after]
  split
  · exact Reading.noConfusion
  · split
    · exact Reading.noConfusion
    · exact h

theorem Commented.append (h : Commented w) (t : String) : Commented (w ++ t) := by
  obtain ⟨front, behind, rfl, hcloses⟩ := h
  exact ⟨front, behind ++ t, by simp only [String.append_assoc], hcloses⟩

theorem commented_append_char_iff {c : Char} (hc : c ≠ '-') :
    Commented (t ++ String.ofList [c]) ↔ Commented t := by
  have hafter : code.after (t ++ String.ofList [c]) = next (code.after t) c := by
    simp [after]
  rw [commented_iff_after, commented_iff_after, hafter]
  cases code.after t with
  | code | string => by_cases hquote : c = '"' <;> simp [next, hquote, hc]
  | minus => by_cases hquote : c = '"' <;> simp [next, hquote, hc]
  | comment => simp [next]

theorem Commented.closes (h : Commented t) : Closes t := by
  unfold Closes
  rw [commented_iff_after.1 h]
  exact Reading.noConfusion

theorem Quiet.commented_append (h : Quiet s) : Commented (s ++ t) ↔ Commented t := by
  rw [commented_iff_after, commented_iff_after, after_append, h]

theorem Quiet.closes_append (h : Quiet s) : Closes (s ++ t) ↔ Closes t := by
  unfold Closes
  rw [after_append, h]

theorem Steady.quiet_append (hw : Steady w) (hs : Gap s) : Quiet (w ++ s) := by
  obtain ⟨hquiet, hne, hstart⟩ := hs
  unfold Quiet
  rw [after_append]
  cases h : code.after w with
  | code => exact hquiet
  | minus =>
    rw [minus_after, hstart, if_neg hne]
    exact hquiet
  | string => exact absurd h hw.1
  | comment => exact absurd (commented_iff_after.2 h) hw.2

/-- The text is put together of these texts, in any order, with other text between each two that leaves
nothing behind. -/
inductive Joins : List String → String → Prop
  | quiet {s : String} (h : Quiet s) : Joins [] s
  | word (w : String) : Joins [w] w
  | behind {s t : String} {ws : List String} (hs : Quiet s) (h : Joins ws t) : Joins ws (s ++ t)
  | before {w s t : String} {ws : List String} (hs : Gap s) (h : Joins ws t) :
      Joins (w :: ws) (w ++ (s ++ t))
  | perm {t : String} {ws ws' : List String} (h : Joins ws t) (hperm : ws.Perm ws') : Joins ws' t

namespace Joins

theorem append (h : Joins ws t) (hs : Gap s) {t' : String} (h' : Joins ws' t') :
    Joins (ws ++ ws') (t ++ (s ++ t')) := by
  induction h with
  | quiet h => exact .behind h (.behind hs.1 h')
  | word w => exact .before hs h'
  | behind hs' _ ih => simpa only [String.append_assoc] using behind hs' ih
  | before hs' _ ih => simpa only [List.cons_append, String.append_assoc] using before hs' ih
  | perm _ hperm ih => exact ih.perm (hperm.append_right _)

theorem append_gap (h : Joins ws t) (hs : Gap s) : Joins ws (t ++ s) := by
  simpa using h.append hs (.quiet (s := "") rfl)

theorem closes (h : Joins ws t) (hws : ∀ w ∈ ws, Closes w) : Closes t := by
  induction h with
  | quiet h => exact h.steady.1
  | word w => exact hws w (List.mem_singleton_self w)
  | behind hs _ ih => exact hs.closes_append.2 (ih hws)
  | @before w s t ws hs _ ih =>
    obtain ⟨hw, hrest⟩ := List.forall_mem_cons.1 hws
    by_cases hcommented : Commented w
    · exact (hcommented.append _).closes
    · rw [← String.append_assoc]
      exact (Steady.quiet_append ⟨hw, hcommented⟩ hs).closes_append.2 (ih hrest)
  | perm _ hperm ih => exact ih fun w hw => hws w (hperm.mem_iff.1 hw)

theorem commented_iff (h : Joins ws t) (hws : ∀ w ∈ ws, Closes w) :
    Commented t ↔ ∃ w ∈ ws, Commented w := by
  induction h with
  | quiet h => simpa using h.steady.2
  | word w => simp
  | behind hs _ ih => rw [hs.commented_append, ih hws]
  | @before w s t ws hs _ ih =>
    obtain ⟨hw, hrest⟩ := List.forall_mem_cons.1 hws
    simp only [List.mem_cons, exists_eq_or_imp]
    by_cases hcommented : Commented w
    · exact iff_of_true (hcommented.append _) (.inl hcommented)
    · rw [← String.append_assoc, (Steady.quiet_append ⟨hw, hcommented⟩ hs).commented_append, ih hrest]
      exact ⟨.inr, fun h => h.resolve_left hcommented⟩
  | perm _ hperm ih =>
    simp only [hperm.mem_iff] at ih
    exact ih hws

theorem commas_cons (h : Joins ws t) {ts : List String} (hrest : Joins ws' (commas ts))
    (hnil : ts = [] → ws' = []) : Joins (ws ++ ws') (commas (t :: ts)) := by
  cases ts with
  | nil =>
    rw [hnil rfl, List.append_nil]
    simpa [LingoSource.commas] using h
  | cons t' ts =>
    have hcons : LingoSource.commas (t :: t' :: ts) = t ++ (", " ++ LingoSource.commas (t' :: ts)) := by
      simp [LingoSource.commas, String.intercalate_cons_cons, String.append_assoc]
    rw [hcons]
    exact h.append (by decide) hrest

theorem commas (ws : List String) : Joins ws (commas ws) := by
  induction ws with
  | nil => exact .quiet (by decide)
  | cons w rest ih => exact commas_cons (.word w) ih id

end Joins

end LingoSource.Text
