import Mathlib.Logic.Relation
import LingoSource.JavaScript.Expression

set_option autoImplicit false

namespace LingoSource.JavaScript

inductive ReadsPart : String → String → Prop
  | intro (before after : String) :
    ReadsPart (before ++ "getPropRef" ++ after) (before ++ "getProp" ++ after)

def ReadsParts : String → String → Prop :=
  Relation.ReflTransGen ReadsPart

/-- The last reference to a part of a text becomes a reading, unless an equals sign follows. -/
def readLast (text : String) : String :=
  match Text.splitLast "getPropRef".toList text.toList with
  | some (before, after) =>
    if '=' ∈ after then text else String.ofList (before ++ "getProp".toList ++ after)
  | none => text

def LastAssigned (text : String) : Prop :=
  ∀ before after, Text.splitLast "getPropRef".toList text.toList = some (before, after) →
    '=' ∈ after

variable {a b c d text : String}

namespace ReadsPart

theorem length_eq (h : ReadsPart a b) : a.length = b.length + 3 := by
  obtain ⟨before, after⟩ := h
  simp only [String.length_append, show "getPropRef".length = 10 from rfl,
    show "getProp".length = 7 from rfl]
  omega

theorem append_left (c : String) (h : ReadsPart a b) : ReadsPart (c ++ a) (c ++ b) := by
  obtain ⟨before, after⟩ := h
  simpa [String.append_assoc] using ReadsPart.intro (c ++ before) after

theorem append_right (c : String) (h : ReadsPart a b) : ReadsPart (a ++ c) (b ++ c) := by
  obtain ⟨before, after⟩ := h
  simpa [String.append_assoc] using ReadsPart.intro before (after ++ c)

end ReadsPart

namespace ReadsParts

theorem refl (a : String) : ReadsParts a a :=
  Relation.ReflTransGen.refl

theorem trans (hab : ReadsParts a b) (hbc : ReadsParts b c) : ReadsParts a c :=
  Relation.ReflTransGen.trans hab hbc

theorem append (hab : ReadsParts a b) (hcd : ReadsParts c d) : ReadsParts (a ++ c) (b ++ d) :=
  trans (hab.lift (· ++ c) fun _ _ h => ReadsPart.append_right c h)
    (hcd.lift (b ++ ·) fun _ _ h => ReadsPart.append_left b h)

theorem length_le (h : ReadsParts a b) : b.length ≤ a.length := by
  induction h with
  | refl => exact Nat.le_refl _
  | tail _ hstep ih => exact Nat.le_trans (by omega) (hstep.length_eq ▸ ih)

theorem eq_of_length_le (h : ReadsParts a b) (hle : a.length ≤ b.length) : a = b := by
  cases h with
  | refl => rfl
  | tail hfirst hlast =>
    have hlength := hlast.length_eq
    have hshorter := length_le hfirst
    omega

theorem append_eq_iff (hab : ReadsParts a b) (hcd : ReadsParts c d) :
    a ++ c = b ++ d ↔ a = b ∧ c = d := by
  refine ⟨fun h => ?_, fun ⟨h₁, h₂⟩ => h₁ ▸ h₂ ▸ rfl⟩
  have hlength : a.length + c.length = b.length + d.length := by
    simpa using congrArg String.length h
  have hb := hab.length_le
  have hd := hcd.length_le
  exact ⟨hab.eq_of_length_le (by omega), hcd.eq_of_length_le (by omega)⟩

end ReadsParts

theorem readParts_eq (text : String) :
    readParts text = if Text.startsWith text "delete(" then text else readLast text := by
  unfold readParts readLast
  cases Text.splitLast "getPropRef".toList text.toList with
  | none => simp
  | some found => cases Text.startsWith text "delete(" <;> simp

theorem readsParts_readLast (text : String) : ReadsParts text (readLast text) := by
  unfold readLast
  split
  · rename_i before after hsplit
    split
    · exact .refl text
    · have htext : text = String.ofList before ++ "getPropRef" ++ String.ofList after := by
        rw [← String.toList_inj]
        simpa using Text.splitLast_eq hsplit
      have hread : String.ofList (before ++ "getProp".toList ++ after) =
          String.ofList before ++ "getProp" ++ String.ofList after := by
        simp [← String.toList_inj]
      rw [hread]
      conv => arg 1; rw [htext]
      exact Relation.ReflTransGen.single (.intro _ _)
  · exact .refl text

theorem readsParts_readParts (text : String) : ReadsParts text (readParts text) := by
  rw [readParts_eq]
  split
  · exact .refl text
  · exact readsParts_readLast text

/-- A text that deletes nothing stays as it is exactly if its last reference is assigned. -/
theorem readParts_eq_self_iff (h : Text.startsWith text "delete(" = false) :
    readParts text = text ↔ LastAssigned text := by
  unfold readParts LastAssigned
  split
  · rename_i before after hsplit
    rw [h, Bool.false_or]
    by_cases hmem : '=' ∈ after
    · rw [if_pos (decide_eq_true hmem)]
      refine ⟨fun _ before' after' hsplit' => ?_, fun _ => rfl⟩
      obtain ⟨-, rfl⟩ := Prod.mk.inj (Option.some.inj (hsplit.symm.trans hsplit'))
      exact hmem
    · rw [if_neg (by simpa using hmem)]
      refine ⟨fun heq => ?_, fun hlast => absurd (hlast before after hsplit) hmem⟩
      have hlength := congrArg List.length (Text.splitLast_eq hsplit)
      rw [← heq] at hlength
      simp at hlength
  · rename_i hsplit
    exact ⟨fun _ _ _ hsplit' => (nomatch hsplit.symm.trans hsplit'), fun _ => rfl⟩

theorem endsWith_readParts (h : Text.endsWith text '\x7d' = true) :
    Text.endsWith (readParts text) '\x7d' = true := by
  unfold readParts
  split
  · rename_i before after hsplit
    split
    · exact h
    · unfold Text.endsWith at h ⊢
      rw [Text.splitLast_eq hsplit] at h
      -- The reference itself ends in another letter, so something comes behind it.
      cases after with
      | nil => simp at h
      | cons c rest => simpa using h
  · exact h

theorem finish_of_endsWith (h : Text.endsWith text '\x7d' = true) : finish text = readParts text := by
  unfold finish
  exact if_pos (endsWith_readParts h)

theorem finish_ne_empty (text : String) : finish text ≠ "" := by
  unfold finish
  dsimp only
  split
  · rename_i h
    intro hempty
    rw [hempty] at h
    simp [Text.endsWith] at h
  · simp

end LingoSource.JavaScript
