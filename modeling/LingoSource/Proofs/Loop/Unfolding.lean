import LingoSource.Proofs.Condition.Unfolding
import LingoSource.Recovery.Loop

set_option autoImplicit false

namespace LingoSource.Loop

open Statement

theorem weightAll_whileCondition_le (s : Shape) :
    weightAll (whileCondition s).body ≤ weightAll s.body := by
  unfold whileCondition
  split
  · rename_i hbody
    simp only [hbody, weightAll_cons]
    omega
  · exact Nat.le_refl _

theorem weightAll_counted_le (previous? : Option Statement) (s : Shape) :
    weightAll (counted previous? s).1.body ≤ weightAll s.body := by
  unfold counted
  split
  · exact weightAll_le_of_sublist (List.dropLast_sublist s.body)
  · exact Nat.le_refl _

theorem weightAll_eachElement_le (s : Shape) :
    weightAll (eachElement s).body ≤ weightAll s.body := by
  unfold eachElement
  split
  · rename_i hbody
    split
    · split
      · simp only [hbody, weightAll_cons]
        omega
      · exact Nat.le_refl _
    · exact Nat.le_refl _
  · exact Nat.le_refl _

theorem inside_congr {f g : List Statement → List Statement} {s : Statement}
    (h : ∀ part, weightAll part < s.node.weight → f part = g part)
    (previous? : Option Statement) : inside f previous? s = inside g previous? s := by
  unfold inside
  split
  · rename_i kind condition body hs
    rw [hs, Node.weight] at h
    have hwhile := weightAll_whileCondition_le ⟨kind, condition, body⟩
    have hcounted := weightAll_counted_le previous? (whileCondition ⟨kind, condition, body⟩)
    have heach := weightAll_eachElement_le
      (counted previous? (whileCondition ⟨kind, condition, body⟩)).1
    simp only at hwhile ⊢
    rw [h _ (by omega)]
  · rename_i hs
    rw [hs, Node.weight] at h
    rw [h _ (by omega), h _ (by omega)]
  · rename_i hs
    rw [hs, Node.weight] at h
    rw [h _ (by omega)]
  · rfl

theorem through_congr {f g : List Statement → List Statement} {statements : List Statement}
    (h : ∀ part, weightAll part < weightAll statements → f part = g part)
    (previous? : Option Statement) :
    through f previous? statements = through g previous? statements := by
  induction statements generalizing previous? with
  | nil => rfl
  | cons s rest ih =>
    rw [weightAll_cons] at h
    have := s.node.weight_pos
    simp only [through]
    rw [inside_congr (fun part hp => h part (by omega)) previous?,
      ih (fun part hp => h part (by omega))]

theorem recoverWithin_nil (fuel : Nat) : recoverWithin fuel [] = [] := by
  cases fuel <;> rfl

theorem recoverWithin_eq_of_weight_le (fuel fuel' : Nat) {statements : List Statement}
    (h : weightAll statements ≤ fuel) (h' : weightAll statements ≤ fuel') :
    recoverWithin fuel statements = recoverWithin fuel' statements := by
  induction fuel generalizing fuel' statements with
  | zero =>
    obtain rfl := eq_nil_of_weightAll (by omega : weightAll statements = 0)
    rw [recoverWithin_nil, recoverWithin_nil]
  | succ fuel ih =>
    cases fuel' with
    | zero =>
      obtain rfl := eq_nil_of_weightAll (by omega : weightAll statements = 0)
      rw [recoverWithin_nil, recoverWithin_nil]
    | succ fuel' =>
      exact through_congr (fun part hp => ih fuel' (by omega) (by omega)) none

theorem recover_eq (statements : List Statement) :
    recover statements = through recover none statements := by
  rw [recover, recoverWithin_eq_of_weight_le _ (weightAll statements + 1) (Nat.le_refl _)
    (by omega), recoverWithin]
  exact through_congr (fun part hp => recoverWithin_eq_of_weight_le _ _ (by omega) (Nat.le_refl _))
    none

/-- Whatever stands before the statement is no part of a loop in it. -/
def Apart (s : Statement) : Prop :=
  ∀ previous?, inside recover previous? s = ((inside recover none s).1, false)

theorem apart_of_not_loop {s : Statement}
    (h : ∀ origin start stop kind condition body,
      s.node ≠ .loop origin start stop kind condition body) : Apart s := by
  obtain ⟨position, node⟩ := s
  intro previous?
  cases node
  case loop => exact absurd rfl (h _ _ _ _ _ _)
  all_goals rfl

theorem through_apart {s : Statement} (h : Apart s) (previous? : Option Statement)
    (rest : List Statement) :
    through recover previous? (s :: rest) = previous?.toList ++ recover (s :: rest) := by
  rw [recover_eq, through, through, h previous?, h none]
  simp

/-- A list falls apart in front of such a statement. -/
theorem recover_append {a b : List Statement} (h : ∀ s ∈ b.head?, Apart s) :
    recover (a ++ b) = recover a ++ recover b := by
  have hall (previous? : Option Statement) :
      through recover previous? (a ++ b) = through recover previous? a ++ recover b := by
    induction a generalizing previous? with
    | nil =>
      cases b with
      | nil => simp [through, recover_eq]
      | cons s b => exact through_apart (h s rfl) previous? b
    | cons s a ih => simp [through, ih]
  rw [recover_eq (a ++ b), hall, recover_eq a]

theorem recover_singleton (s : Statement) : recover [s] = [(inside recover none s).1] := by
  simp [recover_eq [s], through]

theorem recover_pair {s t t' : Statement} (hs : inside recover none s = (s, false))
    (ht : inside recover (some s) t = (t', true)) : recover [s, t] = [t'] := by
  simp [recover_eq [s, t], through, hs, ht]

end LingoSource.Loop
