import LingoSource.Proofs.JavaScript.Literal
import LingoSource.Proofs.JavaScript.Reading

/-!
Quoted texts in other texts. The passes over the text of a finished statement know nothing of string
literals, and still leave a quoted text that names no reference to a part: what they change shares
neither of its ends.
-/
set_option autoImplicit false

namespace LingoSource

def Text.Within (x text : String) : Prop :=
  x.toList <:+: text.toList

namespace Text.Within

variable {x a b : String}

theorem refl (x : String) : Within x x := List.infix_refl _

theorem trans (h : Within x a) (h' : Within a b) : Within x b := List.IsInfix.trans h h'

theorem before (h : Within x a) (b : String) : Within x (a ++ b) := by
  unfold Within
  rw [String.toList_append]
  exact List.IsInfix.trans h (List.prefix_append _ _).isInfix

theorem behind (a : String) (h : Within x b) : Within x (a ++ b) := by
  unfold Within
  rw [String.toList_append]
  exact List.IsInfix.trans h (List.suffix_append _ _).isInfix

theorem exists_eq (h : Within x a) : ∃ before after, a = before ++ x ++ after := by
  obtain ⟨before, after, h⟩ := h
  refine ⟨String.ofList before, String.ofList after, ?_⟩
  rw [← String.toList_inj, ← h]
  simp

theorem ne_empty (h : Within x a) (hx : x ≠ "") : a ≠ "" := by
  rintro rfl
  exact hx (by simpa [Within] using h)

theorem commas {texts : List String} (h : a ∈ texts) (hx : Within x a) :
    Within x (commas texts) := by
  unfold LingoSource.commas
  induction texts with
  | nil => cases h
  | cons first rest ih =>
    cases rest with
    | nil =>
      obtain rfl := List.mem_singleton.1 h
      simpa using hx
    | cons next rest =>
      rw [String.intercalate_cons_cons]
      rcases List.mem_cons.1 h with rfl | h
      · exact (hx.before _).before _
      · exact (ih h).behind _

end Text.Within

open Text

namespace JavaScript

variable {v a b text : String}

theorem head?_quoted (v : String) : (quoted v).toList.head? = some 'n' := by
  rw [toList_quoted]
  rfl

theorem toList_quoted_concat (v : String) :
    (quoted v).toList = ("new LingoString(" ++ Literal.source (.string v)).toList ++ [')'] := by
  unfold quoted
  rw [String.toList_append]
  rfl

theorem getLast?_quoted (v : String) : (quoted v).toList.getLast? = some ')' := by
  rw [toList_quoted_concat, List.getLast?_concat]

theorem space_mem_quoted (v : String) : ' ' ∈ (quoted v).toList := by
  rw [toList_quoted]
  simp

theorem quoted_ne_empty (v : String) : quoted v ≠ "" := by
  intro h
  have hhead := head?_quoted v
  rw [h] at hhead
  cases hhead

theorem ReadsParts.within_quoted (hv : ¬ partReference <:+: v.toList) (h : ReadsParts a b)
    (ha : Within (quoted v) a) : Within (quoted v) b := by
  induction h with
  | refl => exact ha
  | tail _ hstep ih =>
    obtain ⟨before, after⟩ := hstep
    unfold Within at ih ⊢
    rw [String.toList_append, String.toList_append, toList_getPropRef] at ih
    rw [String.toList_append, String.toList_append]
    refine infix_of_infix_replaced ?_ ?_ (partReference_not_infix_quoted hv) ih
    · rw [head?_quoted]
      rintro c ⟨⟩
      decide
    · rw [getLast?_quoted]
      rintro c ⟨⟩
      decide

theorem within_finish (hv : ¬ partReference <:+: v.toList) (h : Within (quoted v) text) :
    Within (quoted v) (finish text) := by
  have hread := (readsParts_readParts text).within_quoted hv h
  unfold finish
  dsimp only
  split
  · exact hread
  · exact hread.before _

/-- A count that is kept ends at the first closing parenthesis. -/
def Due (counted : Option Nat) (s : List Char) : Prop :=
  ∀ n, counted = some n → ∃ m, n = m + 1 ∧ s.idxOf? ')' = some m

variable {counted : Option Nat} {c : Char} {l s : List Char}

theorem due_none (s : List Char) : Due none s := nofun

theorem due_some {m : Nat} (h : s.idxOf? ')' = some m) : Due (some (m + 1)) s := by
  rintro n ⟨⟩
  exact ⟨m, rfl, h⟩

/-- Every character keeps its place, and only a closing parenthesis gets something behind it. -/
theorem fieldTextFrom_cons (h : Due counted (c :: s)) :
    (c = ')' ∧ fieldTextFrom counted (c :: s) = c :: (".text".toList ++ fieldTextFrom none s)) ∨
      ∃ next, Due next s ∧ fieldTextFrom counted (c :: s) = c :: fieldTextFrom next s := by
  cases counted with
  | some n =>
    obtain ⟨m, rfl, hm⟩ := h n rfl
    rw [fieldTextFrom]
    rw [List.idxOf?_cons] at hm
    split at hm
    · rename_i hc
      cases hm
      exact .inl ⟨by simpa using hc, if_pos rfl⟩
    · obtain ⟨m, hs, rfl⟩ := Option.map_eq_some_iff.1 hm
      exact .inr ⟨some (m + 1), due_some hs, if_neg (by simp)⟩
  | none =>
    rw [fieldTextFrom]
    split
    · rename_i hopen
      split
      · rename_i n hn
        obtain ⟨rest, hrest⟩ := List.isPrefixOf_iff_prefix.1 hopen
        obtain ⟨rfl, rfl⟩ : 'f' = c ∧ 'i' :: 'e' :: 'l' :: 'd' :: '(' :: rest = s := by
          simpa using hrest
        refine .inr ⟨some (n + 7), due_some ?_, rfl⟩
        rw [show List.drop 5 ('i' :: 'e' :: 'l' :: 'd' :: '(' :: rest) = rest from rfl] at hn
        simp [List.idxOf?_cons, hn]
      · exact .inr ⟨none, due_none s, rfl⟩
    · exact .inr ⟨none, due_none s, rfl⟩

theorem prefix_fieldTextFrom (hl : ')' ∉ l) (h : Due counted s) (hstart : l ++ [')'] <+: s) :
    l ++ [')'] <+: fieldTextFrom counted s := by
  induction l generalizing counted s with
  | nil =>
    obtain ⟨rest, rfl⟩ := hstart
    rcases fieldTextFrom_cons h with ⟨-, heq⟩ | ⟨_, -, heq⟩
    · exact ⟨_, heq.symm⟩
    · exact ⟨_, heq.symm⟩
  | cons d l ih =>
    obtain ⟨hd, hl⟩ : ')' ≠ d ∧ ')' ∉ l := by simpa using hl
    cases s with
    | nil => simp at hstart
    | cons c s =>
      obtain ⟨rfl, hrest⟩ := List.cons_prefix_cons.1 hstart
      rcases fieldTextFrom_cons h with ⟨hc, -⟩ | ⟨next, hnext, heq⟩
      · exact absurd hc.symm hd
      · rw [heq]
        exact List.cons_prefix_cons.2 ⟨rfl, ih hl hnext hrest⟩

theorem infix_fieldTextFrom (hl : ')' ∉ l) (h : Due counted s) (hinside : l ++ [')'] <:+: s) :
    l ++ [')'] <:+: fieldTextFrom counted s := by
  induction s generalizing counted with
  | nil => simp at hinside
  | cons c s ih =>
    rcases List.infix_cons_iff.1 hinside with hstart | hinside
    · exact (prefix_fieldTextFrom hl h hstart).isInfix
    · rcases fieldTextFrom_cons h with ⟨-, heq⟩ | ⟨next, hnext, heq⟩ <;> rw [heq]
      · exact List.infix_cons ((ih (due_none s) hinside).trans (List.suffix_append _ _).isInfix)
      · exact List.infix_cons (ih hnext hinside)

theorem within_fieldText (hv : ')' ∉ v.toList) (h : Within (quoted v) text) :
    Within (quoted v) (fieldText text) := by
  have hl : ')' ∉ ("new LingoString(" ++ Literal.source (.string v)).toList := by
    rw [String.toList_append, toList_source]
    simp [not_mem_flatMap_encode (by decide) hv]
  unfold Within at h ⊢
  rw [toList_quoted_concat] at h ⊢
  rw [fieldText, String.toList_ofList]
  exact infix_fieldTextFrom hl (due_none _) h

end JavaScript

end LingoSource
