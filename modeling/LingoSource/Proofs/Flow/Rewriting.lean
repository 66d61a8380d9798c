import LingoSource.Proofs.Condition.Unfolding
import LingoSource.Recovery.Exit

/-!
The passes over jumps as rewritings. Each of them takes a jump for an exit of its loop or puts a
branch in the place of a conditional jump and of the statements that it jumps over, here and inside
of blocks; it does nothing else. What every single rewriting keeps is kept by all of these passes.
-/
set_option autoImplicit false

namespace LingoSource

inductive Statement.Rewrites : Option Nat → List Statement → List Statement → Prop
  | refl (loopEnd? : Option Nat) (statements : List Statement) :
      Rewrites loopEnd? statements statements
  | trans {loopEnd? : Option Nat} {a b c : List Statement} (h : Rewrites loopEnd? a b)
      (h' : Rewrites loopEnd? b c) : Rewrites loopEnd? a c
  | append {loopEnd? : Option Nat} {a a' b b' : List Statement} (h : Rewrites loopEnd? a a')
      (h' : Rewrites loopEnd? b b') : Rewrites loopEnd? (a ++ b) (a' ++ b')
  | loop {loopEnd? : Option Nat} (position origin start stop : Nat) (kind : LoopKind)
      (condition : Node) {body body' : List Statement} (h : Rewrites (some stop) body body') :
      Rewrites loopEnd? [⟨position, .loop origin start stop kind condition body⟩]
        [⟨position, .loop origin start stop kind condition body'⟩]
  | tell {loopEnd? : Option Nat} (position origin : Nat) (target : Node)
      {body body' : List Statement} (h : Rewrites loopEnd? body body') :
      Rewrites loopEnd? [⟨position, .tell origin target body⟩]
        [⟨position, .tell origin target body'⟩]
  | branch {loopEnd? : Option Nat} (position origin : Nat) (condition : Node)
      {a a' b b' : List Statement} (h : Rewrites loopEnd? a a') (h' : Rewrites loopEnd? b b') :
      Rewrites loopEnd? [⟨position, .branch origin condition a b⟩]
        [⟨position, .branch origin condition a' b'⟩]
  | exit {loopEnd? : Option Nat} {address : Nat} (position origin newOrigin : Nat)
      (h : leavesLoop loopEnd? address = true) :
      Rewrites loopEnd? [⟨position, .jump origin address⟩] [⟨position, .exitLoop newOrigin⟩]
  | exitUnless {loopEnd? : Option Nat} {address : Nat} (position origin : Nat) (condition : Node)
      (h : leavesLoop loopEnd? address = true) :
      Rewrites loopEnd? [⟨position, .jumpUnless origin condition address⟩]
        [⟨position, .branch origin (.unary origin .not condition)
          [⟨position, .exitLoop origin⟩] []⟩]
  | oneWay (loopEnd? : Option Nat) (position origin : Nat) (condition : Node) (address : Nat)
      (thenBody : List Statement) :
      Rewrites loopEnd? (⟨position, .jumpUnless origin condition address⟩ :: thenBody)
        [⟨position, .branch origin condition thenBody []⟩]
  | twoWay (loopEnd? : Option Nat) (position origin : Nat) (condition : Node)
      (address passed passedOrigin target : Nat) (thenBody elseBody : List Statement) :
      Rewrites loopEnd? (⟨position, .jumpUnless origin condition address⟩ ::
          (thenBody ++ ⟨passed, .jump passedOrigin target⟩ :: elseBody))
        [⟨position, .branch origin condition thenBody elseBody⟩]

namespace Statement.Rewrites

variable {loopEnd? : Option Nat} {a a' b b' : List Statement}

theorem append_left (before : List Statement) (h : Rewrites loopEnd? b b') :
    Rewrites loopEnd? (before ++ b) (before ++ b') :=
  .append (.refl _ _) h

theorem append_right (after : List Statement) (h : Rewrites loopEnd? a a') :
    Rewrites loopEnd? (a ++ after) (a' ++ after) :=
  .append h (.refl _ _)

theorem cons (s : Statement) (h : Rewrites loopEnd? a a') : Rewrites loopEnd? (s :: a) (s :: a') :=
  append_left [s] h

theorem cons_cons {s s' : Statement} (hs : Rewrites loopEnd? [s] [s'])
    (h : Rewrites loopEnd? a a') : Rewrites loopEnd? (s :: a) (s' :: a') :=
  .append hs h

end Statement.Rewrites

open Statement

namespace Condition

variable {loopEnd? : Option Nat} {treat : List Statement → List Statement}

theorem rewrites_breakBeforeLast (loopEnd? : Option Nat) (statements : List Statement) :
    Rewrites loopEnd? statements (breakBeforeLast loopEnd? statements) := by
  fun_induction breakBeforeLast loopEnd? statements with
  | case1 | case2 | case4 | case5 => exact .refl _ _
  | case3 s t origin address hs h =>
    obtain ⟨position, node⟩ := s
    obtain rfl : node = .jump origin address := hs
    exact .cons_cons (.exit _ _ _ h) (.refl _ _)
  | case6 s rest _ _ ih => exact .cons s ih

theorem rewrites_part (h : ∀ part, Rewrites loopEnd? part (treat part))
    (part : List Statement) : Rewrites loopEnd? part (treat (breakBeforeLast loopEnd? part)) :=
  .trans (rewrites_breakBeforeLast _ _) (h _)

theorem rewrites_lift (h : ∀ part, Rewrites loopEnd? part (treat part))
    (statements : List Statement) (position : Nat) :
    Rewrites loopEnd? statements (lift treat loopEnd? statements position) := by
  unfold lift
  split
  · exact .refl _ _
  · rename_i before origin condition address after hsplit
    rw [eq_of_splitAtHead hsplit]
    split
    · rename_i hleaves
      exact .append_left _ (.append_right after (.exitUnless _ _ _ hleaves))
    · rcases hthen : splitAtAddress address after with ⟨thenPart, rest⟩
      obtain rfl : thenPart ++ rest = after := by
        have := append_splitAtAddress address after
        rwa [hthen] at this
      have hpart := rewrites_part h thenPart
      dsimp only
      split
      · exact .append_left _ (.append_right rest (.trans (.cons _ hpart) (.oneWay ..)))
      · rename_i jump target hjump
        obtain ⟨thenBody, passed, passedOrigin, rfl, heq⟩ := eq_of_lastJump? hjump
        rw [heq] at hpart ⊢
        rw [List.dropLast_concat]
        split
        · rename_i hleaves
          have hexit :=
            hpart.trans (.append_left thenBody (.exit passed passedOrigin passed hleaves))
          exact .append_left _ (.append_right rest (.trans (.cons _ hexit) (.oneWay ..)))
        · rcases helse : splitAtAddress target rest with ⟨elsePart, behind⟩
          obtain rfl : elsePart ++ behind = rest := by
            have := append_splitAtAddress target rest
            rwa [helse] at this
          have hparts := hpart.append (rewrites_part h elsePart)
          rw [List.append_assoc] at hparts
          have hbranch := (Rewrites.cons ⟨position, .jumpUnless origin condition address⟩
            hparts).trans (.twoWay ..)
          have hall := (hbranch.append_right behind).append_left before
          simpa using hall

theorem rewrites_inside {treat : Option Nat → List Statement → List Statement}
    (h : ∀ loopEnd? part, Rewrites loopEnd? part (treat loopEnd? part))
    (loopEnd? : Option Nat) (s : Statement) : Rewrites loopEnd? [s] [inside treat loopEnd? s] := by
  obtain ⟨position, node⟩ := s
  cases node with
  | loop origin start stop kind condition body => exact .loop _ _ _ _ _ _ (h _ body)
  | tell origin target body => exact .tell _ _ _ (h _ body)
  | _ => exact .refl _ _

theorem rewrites_recoverWithin (fuel : Nat) (loopEnd? : Option Nat)
    (statements : List Statement) :
    Rewrites loopEnd? statements (recoverWithin fuel loopEnd? statements) := by
  induction fuel generalizing loopEnd? statements with
  | zero => exact .refl _ _
  | succ fuel ih =>
    rw [recoverWithin]
    generalize heads loopEnd? {} _ = positions
    have hmap : Rewrites loopEnd? statements
        (statements.map (inside (recoverWithin fuel) loopEnd?)) := by
      induction statements with
      | nil => exact .refl _ _
      | cons s rest ihrest => exact .cons_cons (rewrites_inside ih loopEnd? s) ihrest
    refine hmap.trans ?_
    generalize statements.map _ = lifted
    induction positions generalizing lifted with
    | nil => exact .refl _ _
    | cons position positions ihrest => exact (rewrites_lift (ih loopEnd?) _ _).trans (ihrest _)

theorem rewrites_recover (loopEnd? : Option Nat) (statements : List Statement) :
    Rewrites loopEnd? statements (recover loopEnd? statements) :=
  rewrites_recoverWithin _ _ _

end Condition

namespace Exit

mutual

theorem rewrites_recoverNode (loopEnd? : Option Nat) (position : Nat) :
    (node : Node) → Rewrites loopEnd? [⟨position, node⟩] [⟨position, recoverNode loopEnd? node⟩]
  | .jump origin address => by
    rw [recoverNode]
    split
    · rename_i hleaves
      exact .exit _ _ _ hleaves
    · exact .refl _ _
  | .loop origin start stop kind condition body => by
    rw [recoverNode]
    exact .loop _ _ _ _ _ _ (rewrites_recover (some stop) body)
  | .branch origin condition thenBody elseBody => by
    rw [recoverNode]
    exact .branch _ _ _ (rewrites_recover _ thenBody) (rewrites_recover _ elseBody)
  | .tell origin target body => by
    rw [recoverNode]
    exact .tell _ _ _ (rewrites_recover _ body)
  | .leaf .. | .unary .. | .binary .. | .assign .. | .put .. | .chunk .. | .chunkRange ..
  | .aspect .. | .property .. | .builtinProperty .. | .menuItemOf .. | .menuItemsOf ..
  | .arguments .. | .list .. | .propertyList .. | .call .. | .methodCall .. | .jumpUnless ..
  | .exitLoop .. => .refl _ _

theorem rewrites_recover (loopEnd? : Option Nat) :
    (statements : List Statement) → Rewrites loopEnd? statements (recover loopEnd? statements)
  | [] => .refl _ _
  | ⟨position, node⟩ :: rest => by
    rw [recover]
    exact .cons_cons (rewrites_recoverNode loopEnd? position node) (rewrites_recover loopEnd? rest)

end

end Exit

theorem Statement.recoverFlow_eq_ok_iff {statements tree : List Statement} :
    recoverFlow statements = .ok tree ↔
      tree = structured statements ∧ Exit.firstJump? (structured statements) = none := by
  unfold recoverFlow Exit.check
  cases hjump : Exit.firstJump? (structured statements) with
  | none =>
    simp only [hjump, and_true]
    change Except.ok (structured statements) = .ok tree ↔ _
    rw [Except.ok.injEq, eq_comm]
  | some jump =>
    simp only [hjump, reduceCtorEq, and_false, iff_false]
    rintro ⟨⟩

end LingoSource
