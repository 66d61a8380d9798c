import LingoSource.Recovery.Condition
import Mathlib.Data.List.TakeDrop

/-!
The recovery of conditions by its own equation. The fuel of the definition is the weight of the
statements. No step makes statements heavier, and what is left for a deeper call is lighter, so any
fuel from the weight on gives the same result, and the recovery calls itself.
-/
set_option autoImplicit false

namespace LingoSource

namespace Statement

theorem weightAll_cons (s : Statement) (rest : List Statement) :
    weightAll (s :: rest) = s.node.weight + weightAll rest := by
  obtain ⟨position, node⟩ := s
  rw [weightAll]

theorem weightAll_append (a b : List Statement) :
    weightAll (a ++ b) = weightAll a + weightAll b := by
  induction a with
  | nil => simp [weightAll]
  | cons s a ih => simp [weightAll_cons, ih, Nat.add_assoc]

theorem weightAll_le_of_sublist {part statements : List Statement} (h : part.Sublist statements) :
    weightAll part ≤ weightAll statements := by
  induction h with
  | slnil => exact Nat.le_refl _
  | cons s _ ih | cons_cons s _ ih =>
    simp only [weightAll_cons]
    omega

theorem eq_nil_of_weightAll {statements : List Statement} (h : weightAll statements = 0) :
    statements = [] := by
  have := length_le_weightAll statements
  exact List.eq_nil_of_length_eq_zero (by omega)

end Statement

namespace Condition

open Statement

theorem weightAll_breakBeforeLast (loopEnd? : Option Nat) (statements : List Statement) :
    weightAll (breakBeforeLast loopEnd? statements) = weightAll statements := by
  fun_induction breakBeforeLast loopEnd? statements with
  | case1 => rfl
  | case2 => rfl
  | case3 s t origin address hs h => simp [weightAll_cons, hs, Node.weight]
  | case4 => rfl
  | case5 => rfl
  | case6 s rest _ _ ih => simp [weightAll_cons, ih]

theorem eq_of_splitAtHead {position origin address : Nat} {condition : Node}
    {statements before after : List Statement}
    (h : splitAtHead position statements = some (before, origin, condition, address, after)) :
    statements = before ++ ⟨position, .jumpUnless origin condition address⟩ :: after := by
  fun_induction splitAtHead position statements generalizing before with
  | case1 => cases h
  | case2 => cases h; rfl
  | case3 p o c a rest hp ih =>
    simp only [Option.map_eq_some_iff, Prod.exists] at h
    obtain ⟨before', _, _, _, _, hfound, heq⟩ := h
    cases heq
    simp [ih hfound]
  | case4 s rest hs ih =>
    simp only [Option.map_eq_some_iff, Prod.exists] at h
    obtain ⟨before', _, _, _, _, hfound, heq⟩ := h
    cases heq
    simp [ih hfound]

theorem append_splitAtAddress (address : Nat) (statements : List Statement) :
    (splitAtAddress address statements).1 ++ (splitAtAddress address statements).2 =
      statements := by
  rw [splitAtAddress, List.span_eq_takeWhile_dropWhile]
  exact List.takeWhile_append_dropWhile

theorem weightAll_splitAtAddress (address : Nat) (statements : List Statement) :
    weightAll (splitAtAddress address statements).1 +
      weightAll (splitAtAddress address statements).2 = weightAll statements := by
  rw [← weightAll_append, append_splitAtAddress]

theorem getLast?_of_lastJump? {statements : List Statement} {jump : Statement} {address : Nat}
    (h : lastJump? statements = some (jump, address)) : statements.getLast? = some jump := by
  unfold lastJump? at h
  split at h
  · rename_i s hs
    split at h
    · cases h
      exact hs
    · cases h
  · cases h

theorem eq_of_lastJump? {statements : List Statement} {jump : Statement} {address : Nat}
    (h : lastJump? statements = some (jump, address)) :
    ∃ before position origin, jump = ⟨position, .jump origin address⟩ ∧
      statements = before ++ [jump] := by
  obtain ⟨before, rfl⟩ := List.getLast?_eq_some_iff.1 (getLast?_of_lastJump? h)
  obtain ⟨position, node⟩ := jump
  simp only [lastJump?, List.getLast?_concat] at h
  split at h
  · cases h
    exact ⟨before, position, _, rfl, rfl⟩
  · cases h

theorem weightAll_dropLast_lt {statements : List Statement} {jump : Statement} {address : Nat}
    (h : lastJump? statements = some (jump, address)) :
    weightAll statements.dropLast + 1 ≤ weightAll statements := by
  have hlast := getLast?_of_lastJump? h
  obtain ⟨before, rfl⟩ := List.getLast?_eq_some_iff.1 hlast
  have := jump.node.weight_pos
  simp only [List.dropLast_concat, weightAll_append, weightAll_cons, weightAll]
  omega

/-- A way to treat the parts of a branch that makes none of them heavier. -/
def Light (recover : List Statement → List Statement) : Prop :=
  ∀ statements, weightAll (recover statements) ≤ weightAll statements

theorem weightAll_lift_le {recover : List Statement → List Statement} (h : Light recover)
    (loopEnd? : Option Nat) (statements : List Statement) (position : Nat) :
    weightAll (lift recover loopEnd? statements position) ≤ weightAll statements := by
  unfold lift
  split
  · exact Nat.le_refl _
  · rename_i before origin condition address after hsplit
    rw [eq_of_splitAtHead hsplit]
    split
    · simp only [weightAll_append, weightAll, Node.weight]
      omega
    · have hthen := weightAll_splitAtAddress address after
      have hrec := h (breakBeforeLast loopEnd? (splitAtAddress address after).1)
      rw [weightAll_breakBeforeLast] at hrec
      simp only [weightAll_append, weightAll_cons, Node.weight]
      split
      · simp only [weightAll_append, weightAll, Node.weight]
        omega
      · rename_i jump elseEnd hjump
        have hdrop := weightAll_dropLast_lt hjump
        split
        · simp only [weightAll_append, weightAll, Node.weight]
          omega
        · have helse := weightAll_splitAtAddress elseEnd (splitAtAddress address after).2
          have hrec' := h (breakBeforeLast loopEnd?
            (splitAtAddress elseEnd (splitAtAddress address after).2).1)
          rw [weightAll_breakBeforeLast] at hrec'
          simp only [weightAll_append, weightAll_cons, Node.weight]
          omega

theorem weightAll_foldl_lift_le {recover : List Statement → List Statement} (h : Light recover)
    (loopEnd? : Option Nat) (positions : List Nat) (statements : List Statement) :
    weightAll (positions.foldl (lift recover loopEnd?) statements) ≤ weightAll statements := by
  induction positions generalizing statements with
  | nil => exact Nat.le_refl _
  | cons position positions ih =>
    exact Nat.le_trans (ih _) (weightAll_lift_le h loopEnd? statements position)

theorem weight_inside_le {recover : Option Nat → List Statement → List Statement}
    (h : ∀ loopEnd?, Light (recover loopEnd?)) (loopEnd? : Option Nat) (s : Statement) :
    (inside recover loopEnd? s).node.weight ≤ s.node.weight := by
  unfold inside
  split
  · rename_i stop _ _ body hs
    have := h (some stop) body
    simp only [hs, Node.weight]
    omega
  · rename_i body hs
    have := h loopEnd? body
    simp only [hs, Node.weight]
    omega
  · exact Nat.le_refl _

theorem weightAll_map_inside_le {recover : Option Nat → List Statement → List Statement}
    (h : ∀ loopEnd?, Light (recover loopEnd?)) (loopEnd? : Option Nat)
    (statements : List Statement) :
    weightAll (statements.map (inside recover loopEnd?)) ≤ weightAll statements := by
  induction statements with
  | nil => exact Nat.le_refl _
  | cons s rest ih =>
    have := weight_inside_le h loopEnd? s
    simp only [List.map_cons, weightAll_cons]
    omega

theorem light_recoverWithin (fuel : Nat) (loopEnd? : Option Nat) :
    Light (recoverWithin fuel loopEnd?) := by
  induction fuel generalizing loopEnd? with
  | zero => exact fun _ => Nat.le_refl _
  | succ fuel ih =>
    intro statements
    exact Nat.le_trans (weightAll_foldl_lift_le (ih loopEnd?) _ _ _)
      (weightAll_map_inside_le ih loopEnd? statements)

/-- The parts of a branch are lighter than the statements that it is made from. -/
theorem lift_congr {f g : List Statement → List Statement} {statements : List Statement}
    (h : ∀ part, weightAll part < weightAll statements → f part = g part) (loopEnd? : Option Nat)
    (position : Nat) :
    lift f loopEnd? statements position = lift g loopEnd? statements position := by
  unfold lift
  split
  · rfl
  · rename_i before origin condition address after hsplit
    have hw := congrArg weightAll (eq_of_splitAtHead hsplit)
    simp only [weightAll_append, weightAll_cons, Node.weight] at hw
    have hthen := weightAll_splitAtAddress address after
    simp only [h (breakBeforeLast loopEnd? (splitAtAddress address after).1)
      (by rw [weightAll_breakBeforeLast]; omega)]
    split
    · rfl
    · split
      · rfl
      · rename_i elseEnd _
        have helse := weightAll_splitAtAddress elseEnd (splitAtAddress address after).2
        simp only [h (breakBeforeLast loopEnd?
          (splitAtAddress elseEnd (splitAtAddress address after).2).1)
          (by rw [weightAll_breakBeforeLast]; omega)]

theorem foldl_lift_congr {f g : List Statement → List Statement} {bound : Nat}
    (h : ∀ part, weightAll part < bound → f part = g part) (hf : Light f) (loopEnd? : Option Nat)
    (positions : List Nat) {statements : List Statement} (hw : weightAll statements ≤ bound) :
    positions.foldl (lift f loopEnd?) statements =
      positions.foldl (lift g loopEnd?) statements := by
  induction positions generalizing statements with
  | nil => rfl
  | cons position positions ih =>
    have hstep := lift_congr (fun part hp => h part (Nat.lt_of_lt_of_le hp hw)) loopEnd? position
    rw [List.foldl_cons, List.foldl_cons, ← hstep]
    exact ih (Nat.le_trans (weightAll_lift_le hf loopEnd? statements position) hw)

theorem map_inside_congr {f g : Option Nat → List Statement → List Statement} {bound : Nat}
    (h : ∀ loopEnd? part, weightAll part < bound → f loopEnd? part = g loopEnd? part)
    (loopEnd? : Option Nat) {statements : List Statement} (hw : weightAll statements ≤ bound) :
    statements.map (inside f loopEnd?) = statements.map (inside g loopEnd?) := by
  induction statements with
  | nil => rfl
  | cons s rest ih =>
    simp only [weightAll_cons] at hw
    have hs : inside f loopEnd? s = inside g loopEnd? s := by
      unfold inside
      split
      · rename_i hs
        rw [hs, Node.weight] at hw
        rw [h _ _ (by omega)]
      · rename_i hs
        rw [hs, Node.weight] at hw
        rw [h _ _ (by omega)]
      · rfl
    rw [List.map_cons, List.map_cons, hs, ih (by omega)]

theorem recoverWithin_nil (fuel : Nat) (loopEnd? : Option Nat) :
    recoverWithin fuel loopEnd? [] = [] := by
  cases fuel <;> rfl

/-- Any fuel from the weight on gives the same result. -/
theorem recoverWithin_eq_of_weight_le (fuel fuel' : Nat) (loopEnd? : Option Nat)
    {statements : List Statement} (h : weightAll statements ≤ fuel)
    (h' : weightAll statements ≤ fuel') :
    recoverWithin fuel loopEnd? statements = recoverWithin fuel' loopEnd? statements := by
  induction fuel generalizing fuel' loopEnd? statements with
  | zero =>
    obtain rfl := eq_nil_of_weightAll (by omega : weightAll statements = 0)
    rw [recoverWithin_nil, recoverWithin_nil]
  | succ fuel ih =>
    cases fuel' with
    | zero =>
      obtain rfl := eq_nil_of_weightAll (by omega : weightAll statements = 0)
      rw [recoverWithin_nil, recoverWithin_nil]
    | succ fuel' =>
      have hparts : ∀ loopEnd? part, weightAll part < weightAll statements →
          recoverWithin fuel loopEnd? part = recoverWithin fuel' loopEnd? part :=
        fun loopEnd? part hp => ih fuel' loopEnd? (by omega) (by omega)
      have hmap := weightAll_map_inside_le (light_recoverWithin fuel') loopEnd? statements
      simp only [recoverWithin]
      rw [map_inside_congr hparts loopEnd? (Nat.le_refl _)]
      exact foldl_lift_congr (hparts loopEnd?) (light_recoverWithin fuel loopEnd?) loopEnd? _ hmap

/-- Recovery goes through the bodies first and then makes branches from the front to the end. -/
theorem recover_eq (loopEnd? : Option Nat) (statements : List Statement) :
    recover loopEnd? statements =
      (heads loopEnd? {} (statements.map (inside recover loopEnd?))).foldl
        (lift (recover loopEnd?) loopEnd?) (statements.map (inside recover loopEnd?)) := by
  have hparts : ∀ loopEnd? part, weightAll part < weightAll statements →
      recoverWithin (weightAll statements) loopEnd? part = recover loopEnd? part :=
    fun loopEnd? part hp => recoverWithin_eq_of_weight_le _ _ loopEnd? (by omega) (Nat.le_refl _)
  have hlight := light_recoverWithin (weightAll statements)
  have hmap := weightAll_map_inside_le hlight loopEnd? statements
  rw [recover, recoverWithin_eq_of_weight_le _ (weightAll statements + 1) loopEnd?
    (Nat.le_refl _) (by omega), recoverWithin,
    foldl_lift_congr (hparts loopEnd?) (hlight loopEnd?) loopEnd? _ hmap,
    map_inside_congr hparts loopEnd? (Nat.le_refl _)]

end Condition

end LingoSource
