import LingoSource.Proofs.Flow.Trace
import LingoSource.Recovery.Exit

/-!
What the tree of a jump program does. The recovery moves what lies behind a conditional jump into a
branch as far as the list goes that it works on, so a jump out of the block that it stands in is
taken as a jump to the end of that block. The tree has the trace of the program whose addresses are
cut in this way, and that is the trace of the program itself as long as no jump leaves a block.
-/
set_option autoImplicit false

namespace LingoSource

open Statement

/-- Statements are kept or made branches of. `tail` is what follows them in their list. -/
inductive Lifts : (tail statements lifted : List Statement) → Prop
  | nil (tail : List Statement) : Lifts tail [] []
  | keep {tail rest lifted : List Statement} (s : Statement) (h : Lifts tail rest lifted) :
      Lifts tail (s :: rest) (s :: lifted)
  | oneWay {tail thenPart thenBody rest lifted : List Statement}
      {position origin address : Nat} {condition : Node} (hthen : Below address thenPart)
      (hrest : From address (rest ++ tail)) (h₁ : Lifts [] thenPart thenBody)
      (h₂ : Lifts tail rest lifted) :
      Lifts tail (⟨position, .jumpUnless origin condition address⟩ :: (thenPart ++ rest))
        (⟨position, .branch origin condition thenBody []⟩ :: lifted)
  | twoWay {tail thenPart thenBody elsePart elseBody rest lifted : List Statement}
      {position origin address passed passedOrigin target : Nat} {condition : Node}
      (hthen : Below address (thenPart ++ [⟨passed, .jump passedOrigin target⟩]))
      (hfrom : From address (elsePart ++ (rest ++ tail))) (helse : Below target elsePart)
      (hrest : From target (rest ++ tail))
      (h₁ : Lifts [⟨passed, .jump passedOrigin target⟩] thenPart thenBody)
      (h₂ : Lifts [] elsePart elseBody) (h₃ : Lifts tail rest lifted) :
      Lifts tail
        (⟨position, .jumpUnless origin condition address⟩ ::
          (thenPart ++ ⟨passed, .jump passedOrigin target⟩ :: (elsePart ++ rest)))
        (⟨position, .branch origin condition thenBody elseBody⟩ :: lifted)

namespace Lifts

theorem keepAll {lifted rest : List Statement} (kept : List Statement) (h : Lifts [] rest lifted) :
    Lifts [] (kept ++ rest) (kept ++ lifted) := by
  induction kept with
  | nil => exact h
  | cons s kept ih => exact .keep s ih

theorem eq_nil {tail statements : List Statement} (h : Lifts tail statements []) :
    statements = [] := by
  cases h
  rfl

theorem concat {tail statements lifted : List Statement} {position origin address : Nat}
    (h : Lifts tail statements (lifted ++ [⟨position, .jump origin address⟩])) :
    ∃ before, statements = before ++ [⟨position, .jump origin address⟩] ∧
      Lifts (⟨position, .jump origin address⟩ :: tail) before lifted := by
  generalize hresult : lifted ++ [⟨position, .jump origin address⟩] = result at h
  induction h generalizing lifted with
  | nil tail => simp at hresult
  | keep s h ih =>
    cases lifted with
    | nil =>
      obtain ⟨rfl, rfl⟩ := List.cons.inj hresult
      exact ⟨[], by rw [h.eq_nil, List.nil_append], .nil _⟩
    | cons t lifted =>
      obtain ⟨rfl, hrest⟩ := List.cons.inj hresult
      obtain ⟨before, rfl, hbefore⟩ := ih hrest
      exact ⟨t :: before, rfl, .keep t hbefore⟩
  | oneWay hthen hrest h₁ h₂ ih₁ ih₂ =>
    cases lifted with
    | nil => simp at hresult
    | cons t lifted =>
      obtain ⟨rfl, hlifted⟩ := List.cons.inj hresult
      obtain ⟨before, rfl, hbefore⟩ := ih₂ hlifted
      exact ⟨_ :: (_ ++ before), by simp, .oneWay hthen (by simpa using hrest) h₁ hbefore⟩
  | twoWay hthen hfrom helse hrest h₁ h₂ h₃ ih₁ ih₂ ih₃ =>
    cases lifted with
    | nil => simp at hresult
    | cons t lifted =>
      obtain ⟨rfl, hlifted⟩ := List.cons.inj hresult
      obtain ⟨before, rfl, hbefore⟩ := ih₃ hlifted
      exact ⟨_ :: (_ ++ _ :: (_ ++ before)), by simp,
        .twoWay hthen (by simpa using hfrom) helse (by simpa using hrest) h₁ h₂ hbefore⟩

end Lifts

namespace Condition

theorem breakBeforeLast_none (statements : List Statement) :
    breakBeforeLast none statements = statements := by
  fun_induction breakBeforeLast none statements with
  | case1 | case2 | case4 | case5 => rfl
  | case3 s t origin address hs h => cases h
  | case6 s rest _ _ ih => rw [ih]

theorem map_inside_of_forward {recover : Option Nat → List Statement → List Statement}
    {loopEnd? : Option Nat} {statements : List Statement} (h : ∀ s ∈ statements, s.Forward) :
    statements.map (inside recover loopEnd?) = statements := by
  rw [List.map_congr_left (g := id), List.map_id]
  intro s hs
  have hforward := h s hs
  unfold Forward at hforward
  unfold inside
  split <;> simp_all

theorem unpassed_append {address : Nat} {elsePart behind : List Statement}
    (helse : Below address elsePart) (hbehind : From address behind) :
    ∃ passed, behind = passed ++ unpassed (some address) (elsePart ++ behind) := by
  cases elsePart with
  | nil => exact unpassed_suffix (some address) behind
  | cons s elsePart =>
    refine ⟨[], ?_⟩
    rw [List.cons_append, unpassed, dropWhile_append_of_below (below_cons.1 helse).2 hbehind,
      List.nil_append]

/-- The branches behind the first one are made in what the scan has not passed. -/
theorem foldl_heads_behind {position : Nat} {branch : Node} {passed rest : List Statement}
    (hfirst : From (position + 1) (passed ++ rest)) (hinc : Increasing (passed ++ rest)) :
    (heads none {} rest).foldl (lift (recover none) none) (⟨position, branch⟩ :: (passed ++ rest)) =
      ⟨position, branch⟩ :: (passed ++ branches none rest) := by
  refine foldl_heads_append none (⟨position, branch⟩ :: passed) fun s hs t ht => ?_
  rcases List.mem_cons.1 hs with rfl | hs
  · exact hfirst t (by simp [ht])
  · exact (List.pairwise_append.1 hinc).2.2 s hs t ht

theorem lifts_head {position origin address : Nat} {condition : Node}
    {thenPart behind : List Statement}
    (hinc : Increasing (⟨position, .jumpUnless origin condition address⟩ :: (thenPart ++ behind)))
    (hthen : Below address thenPart) (hbehind : From address behind)
    (hparts : ∀ part, part.Sublist (thenPart ++ behind) →
      Lifts [] part (recover none part) ∧ recover none part = branches none part) :
    Lifts [] (⟨position, .jumpUnless origin condition address⟩ :: (thenPart ++ behind))
      (branches none (⟨position, .jumpUnless origin condition address⟩ :: (thenPart ++ behind))) := by
  obtain ⟨hposition, hincParts⟩ := List.pairwise_cons.1 hinc
  have hincBehind : Increasing behind := (List.pairwise_append.1 hincParts).2.1
  have hfirst : From (position + 1) behind := fun s hs => hposition s (by simp [hs])
  have hbody := (hparts thenPart (List.sublist_append_left _ _)).1
  rw [branches_head rfl hthen hbehind hinc]
  cases hjump : lastJump? (recover none thenPart) with
  | none =>
    rw [lift_then rfl hthen hbehind (by rw [breakBeforeLast_none, hjump]), breakBeforeLast_none]
    obtain ⟨passed, hpassed⟩ := unpassed_suffix (endJump? thenPart) behind
    generalize unpassed (endJump? thenPart) behind = rest at hpassed
    subst hpassed
    obtain ⟨hrest, heq⟩ := hparts rest
      ((List.sublist_append_right _ _).trans (List.sublist_append_right _ _))
    rw [foldl_heads_behind hfirst hincBehind, ← heq]
    exact .oneWay hthen (by simpa using hbehind) hbody (.keepAll passed hrest)
  | some found =>
    obtain ⟨jump, target⟩ := found
    obtain ⟨thenBody, place, jumpOrigin, rfl, hlast⟩ := eq_of_lastJump? hjump
    rw [hlast] at hbody
    obtain ⟨thenPart, rfl, hinner⟩ := hbody.concat
    obtain ⟨elsePart, behind, rfl, helse, htarget⟩ := Increasing.split hincBehind target
    have helseBody := (hparts elsePart
      ((List.sublist_append_left _ _).trans (List.sublist_append_right _ _))).1
    rw [lift_then_else rfl hthen hbehind (by rw [breakBeforeLast_none, hjump]) rfl rfl helse htarget,
      breakBeforeLast_none, breakBeforeLast_none, hlast, List.dropLast_concat,
      endJump?_concat_jump]
    obtain ⟨passed, hpassed⟩ := unpassed_append helse htarget
    generalize unpassed (some target) (elsePart ++ behind) = rest at hpassed
    subst hpassed
    obtain ⟨hrest, heq⟩ := hparts rest
      ((List.sublist_append_right _ _).trans
        ((List.sublist_append_right _ _).trans (List.sublist_append_right _ _)))
    rw [foldl_heads_behind (from_append.1 hfirst).2 (List.pairwise_append.1 hincBehind).2.1, ← heq,
      List.append_assoc]
    change Lifts [] (_ :: (thenPart ++ (_ :: (elsePart ++ (passed ++ rest))))) _
    exact .twoWay hthen (by simpa using hbehind) helse (by simpa using htarget) hinner helseBody
      (.keepAll passed hrest)

/-- The recovery of conditions outside of loops keeps statements or makes branches of them. -/
theorem lifts_recover (statements : List Statement) (hinc : Increasing statements)
    (hforward : ∀ s ∈ statements, s.Forward) : Lifts [] statements (recover none statements) := by
  induction hn : statements.length using Nat.strongRecOn generalizing statements with
  | ind n ih =>
    subst hn
    -- no statement has a body, so recovery is the making of branches
    have heq {part : List Statement} (hpart : part ⊆ statements) :
        recover none part = branches none part := by
      rw [recover_eq_branches, map_inside_of_forward fun s hs => hforward s (hpart hs)]
    rw [heq (List.Subset.refl _)]
    cases statements with
    | nil => exact .nil []
    | cons s rest =>
      have hincRest : Increasing rest := (List.pairwise_cons.1 hinc).2
      have hparts (part : List Statement) (hpart : part.Sublist rest) :
          Lifts [] part (recover none part) ∧ recover none part = branches none part := by
        have hsub : part ⊆ s :: rest := (hpart.cons s).subset
        have hlt : part.length < (s :: rest).length := by
          have := hpart.length_le
          simp only [List.length_cons]
          omega
        exact ⟨ih _ hlt part (List.Pairwise.sublist hpart hincRest)
          (fun t ht => hforward t (hsub ht)) rfl, heq hsub⟩
      by_cases hjump : ∃ origin condition address, s.node = .jumpUnless origin condition address
      · obtain ⟨position, node⟩ := s
        obtain ⟨origin, condition, address, rfl⟩ := hjump
        obtain ⟨thenPart, behind, rfl, hthen, hbehind⟩ := Increasing.split hincRest address
        exact lifts_head hinc hthen hbehind hparts
      · rw [branches_cons none hinc fun origin condition address h =>
          hjump ⟨origin, condition, address, h⟩]
        obtain ⟨hrest, hbranches⟩ := hparts rest (List.Sublist.refl _)
        exact .keep s (hbranches ▸ hrest)

end Condition

end LingoSource
