import LingoSource.Proofs.Loop.Unfolding
import LingoSource.Proofs.Program.Pass
import LingoSource.Recovery.Exit

set_option autoImplicit false

namespace LingoSource

open Statement

def Scope.Named (s : Scope) : Prop :=
  ∀ v ∈ s.locals, v.word?.isSome

theorem Scope.Named.word?_localNode {s : Scope} (h : s.Named) {index : Nat}
    (hindex : index < s.locals.length) : (s.localNode index).word? = some (s.localName index) := by
  have hmem : s.localNode index ∈ s.locals := List.mem_of_getElem? (getElem?_locals hindex)
  obtain ⟨name, hname⟩ := Option.isSome_iff_exists.1 (h _ hmem)
  rw [localName, hname, Option.getD_some]

namespace Exit

variable {loopEnd? : Option Nat}

theorem recover_append (a b : List Statement) :
    recover loopEnd? (a ++ b) = recover loopEnd? a ++ recover loopEnd? b := by
  induction a with
  | nil => simp [recover]
  | cons s a ih =>
    obtain ⟨position, node⟩ := s
    simp [recover, ih]

theorem firstJump?_append (a b : List Statement) :
    firstJump? (a ++ b) = (firstJump? a).or (firstJump? b) := by
  induction a with
  | nil => simp [firstJump?]
  | cons s a ih =>
    obtain ⟨position, node⟩ := s
    simp [firstJump?, ih, Option.or_assoc]

end Exit

namespace Statement

def finish (loopEnd? : Option Nat) (statements : List Statement) : List Statement :=
  Exit.recover loopEnd? (Loop.recover statements)

variable {loopEnd? : Option Nat} {a b : List Statement}

theorem structured_eq (statements : List Statement) :
    structured statements = finish none (Condition.recover none statements) := rfl

@[simp] theorem finish_nil : finish loopEnd? [] = [] := rfl

theorem finish_append (h : ∀ s ∈ b.head?, Loop.Apart s) :
    finish loopEnd? (a ++ b) = finish loopEnd? a ++ finish loopEnd? b := by
  rw [finish, Loop.recover_append h, Exit.recover_append, finish, finish]

theorem finish_branch (position origin : Nat) (condition : Node) (thenBody elseBody : List Statement) :
    finish loopEnd? [⟨position, .branch origin condition thenBody elseBody⟩] =
      [⟨position, .branch origin condition (finish loopEnd? thenBody)
        (finish loopEnd? elseBody)⟩] := by
  rw [finish, Loop.recover_singleton]
  rfl

theorem finish_tell (position origin : Nat) (target : Node) (body : List Statement) :
    finish loopEnd? [⟨position, .tell origin target body⟩] =
      [⟨position, .tell origin target (finish loopEnd? body)⟩] := by
  rw [finish, Loop.recover_singleton]
  rfl

theorem finish_jumpUnless (loopEnd? : Option Nat) (position origin : Nat) (condition : Node)
    (address : Nat) (rest : List Statement) :
    ∃ after, finish loopEnd? (⟨position, .jumpUnless origin condition address⟩ :: rest) =
      ⟨position, .jumpUnless origin condition address⟩ :: after := by
  have hkept (t : Statement) : (Loop.inside Loop.recover
      (some ⟨position, .jumpUnless origin condition address⟩) t).2 = false := by
    obtain ⟨position', node⟩ := t
    cases node <;> rfl
  rw [finish, Loop.recover_eq]
  cases rest with
  | nil => exact ⟨[], rfl⟩
  | cons t rest =>
    have hself : Loop.inside Loop.recover none ⟨position, .jumpUnless origin condition address⟩ =
      (⟨position, .jumpUnless origin condition address⟩, false) := rfl
    simp only [Loop.through, hself, hkept, Bool.false_eq_true, if_false, Option.toList,
      List.cons_append, List.nil_append]
    exact ⟨_, rfl⟩

/-- It does not matter when the exit at the end of a part is placed. -/
theorem finish_settleLast {inLoop : Bool} {behind : Nat} {statements : List Statement}
    (h : EndsTo inLoop behind statements) (hleaves : inLoop = true → leavesLoop loopEnd? behind = true) :
    finish loopEnd? (settleLast statements) = finish loopEnd? statements := by
  unfold settleLast
  cases hjump : Condition.lastJump? statements with
  | none => rfl
  | some found =>
    obtain ⟨jump, target⟩ := found
    obtain ⟨before, position, origin, rfl, rfl⟩ := Condition.eq_of_lastJump? hjump
    obtain ⟨hloop, htarget, rfl⟩ := (h ⟨position, .jump origin target⟩ (by simp)).1 origin target rfl
    have hleave := hleaves hloop
    rw [← htarget] at hleave
    have hexit : finish loopEnd? [⟨origin, .exitLoop origin⟩] =
        finish loopEnd? [⟨origin, .jump origin target⟩] := by
      simp [finish, Loop.recover_singleton, Loop.inside, Exit.recover, Exit.recoverNode, hleave]
    simp only [List.dropLast_concat]
    rw [finish_append, finish_append, hexit]
    all_goals simpa using Loop.apart_of_not_loop (by simp)

end Statement

namespace Block

section Loops

variable (s : Scope) (visits start stop test behind index : Nat)

/-- A loop whose body does not end with an assignment takes no assignment in front of it. -/
theorem counted_of_endsTo {inLoop : Bool} {address : Nat} {kind : LoopKind} {condition : Node}
    {body : List Statement} (h : EndsTo inLoop address body) (previous? : Option Statement) :
    Loop.counted previous? ⟨kind, condition, body⟩ = (⟨kind, condition, body⟩, false) := by
  have hnone (previous : Statement) : Loop.countedRange? previous ⟨kind, condition, body⟩ = none := by
    unfold Loop.countedRange?
    split
    · rename_i hlast
      obtain ⟨x, hx, hnode⟩ := Option.map_eq_some_iff.1 hlast
      exact absurd hnode ((h x hx).2 _ _ _)
    · rfl
  cases previous? <;> simp [Loop.counted, hnone]

theorem eachElement_testNode (kind : LoopKind) (compared : BinaryOp) (bound : UInt8)
    (body : List Statement) :
    Loop.eachElement ⟨kind, testNode s start index compared bound, body⟩ =
      ⟨kind, testNode s start index compared bound, body⟩ := by
  simp [Loop.eachElement, testNode, Push.node]

theorem inside_whileLess (bound : UInt8) {inLoop : Bool} {address : Nat} {body : List Statement}
    (h : EndsTo inLoop address body) (previous? : Option Statement) :
    Loop.inside Loop.recover previous? (loopStatement start stop
        (testStatement (visits + 1) test (testNode s start index .lt bound) behind :: body)) =
      (⟨stop, .loop stop start stop .whileTrue (testNode s start index .lt bound)
        (Loop.recover body)⟩, false) := by
  have hwhile : Loop.whileCondition ⟨.whileTrue, .leaf .constant "TRUE" start,
      testStatement (visits + 1) test (testNode s start index .lt bound) behind :: body⟩ =
        ⟨.whileTrue, testNode s start index .lt bound, body⟩ := rfl
  simp only [Loop.inside, loopStatement, hwhile, counted_of_endsTo h, eachElement_testNode]

theorem isConstant_increment (up : Bool) (offset : Nat) :
    ((Push.byte (increment up)).node offset).isConstant "-1" = !up := by
  cases up <;> rfl

theorem inside_counted (hnamed : s.Named) (hindex : index < s.locals.length) (first last : UInt8)
    (up : Bool) (offset steps : Nat) (body : List Statement) :
    Loop.inside Loop.recover
        (some ⟨offset + 2, .assign (offset + 2) (s.localNode index) ((Push.byte first).node offset)⟩)
        (loopStatement start stop
          (testStatement (visits + 1) test (testNode s start index (comparison up) last) behind ::
            (body ++ [stepStatement s steps index up]))) =
      (⟨stop, .loop stop start stop (.counted (s.localName index) ((Push.byte first).node offset)
        ((Push.byte last).node (start + 2)) up) (testNode s start index (comparison up) last)
          (Loop.recover body)⟩, true) := by
  have hwhile : Loop.whileCondition ⟨.whileTrue, .leaf .constant "TRUE" start,
      testStatement (visits + 1) test (testNode s start index (comparison up) last) behind ::
        (body ++ [stepStatement s steps index up])⟩ =
      ⟨.whileTrue, testNode s start index (comparison up) last,
        body ++ [stepStatement s steps index up]⟩ := rfl
  have hword := hnamed.word?_localNode hindex
  have hrange : Loop.countedRange?
      ⟨offset + 2, .assign (offset + 2) (s.localNode index) ((Push.byte first).node offset)⟩
      ⟨.whileTrue, testNode s start index (comparison up) last,
        body ++ [stepStatement s steps index up]⟩ =
      some (.counted (s.localName index) ((Push.byte first).node offset)
        ((Push.byte last).node (start + 2)) up) := by
    simp [Loop.countedRange?, testNode, stepStatement, hword, isConstant_increment]
  simp only [Loop.inside, loopStatement, hwhile, Loop.counted, Option.bind_some, hrange,
    List.dropLast_concat, eachElement_testNode]

end Loops

mutual

/-- Whether all branches of a block are made, in a list that is gone through `passes` times. The
parts of a branch are gone through once, the body of a loop as often as the loop is visited. -/
def made (earlier passes segment : Nat) : Block → Bool
  | call _ | exitLoop => true
  | ifThen _ thenPart => segment ≤ passes && madeAll true (earlier + segment) 1 1 thenPart
  | ifElse _ thenPart elsePart =>
    segment ≤ passes && (madeAll false (earlier + segment) 1 1 thenPart &&
      madeAll true (earlier + segment) 1 1 elsePart)
  | tell _ body | whileLess _ _ body | counted _ _ _ _ body =>
    madeAll false 0 (earlier + passes) 1 body

def madeAll (next : Bool) (earlier passes segment : Nat) : List Block → Bool
  | [] => true
  | b :: rest =>
    b.made earlier passes segment &&
      madeAll next earlier passes (b.nextSegment next segment rest) rest

end

mutual

theorem endsWithExit_of_exitFree : (b : Block) → b.ExitFree → b.endsWithExit = false
  | ifThen _ thenPart, h => endsWithExitAll_of_exitFreeAll thenPart h
  | ifElse _ _ elsePart, h => endsWithExitAll_of_exitFreeAll elsePart h.2
  | call _, _ | tell _ _, _ | whileLess _ _ _, _ | counted _ _ _ _ _, _ => rfl

theorem endsWithExitAll_of_exitFreeAll :
    (blocks : List Block) → ExitFreeAll blocks → endsWithExitAll blocks = false
  | [], _ => rfl
  | b :: rest, h => by
    rw [endsWithExitAll, endsWithExit_of_exitFree b h.1, endsWithExitAll_of_exitFreeAll rest h.2,
      ite_self]

end

theorem nextSegment_of_exitFree (next : Bool) (segment : Nat) {b : Block} (h : b.ExitFree)
    (rest : List Block) : b.nextSegment next segment rest = segment := by
  have hends : b.endsSegment next rest = false := by
    cases b with
    | ifThen condition thenPart => simp [endsSegment, endsWithExitAll_of_exitFreeAll thenPart h]
    | _ => rfl
  simp [nextSegment, hends]

mutual

/-- Without exits a list is one segment, and all branches are made at the first time. -/
theorem made_of_exitFree (earlier passes : Nat) (hpasses : 0 < passes) :
    (b : Block) → b.ExitFree → b.made earlier passes 1 = true
  | call _, _ => rfl
  | ifThen _ thenPart, h => by
    have hle : 1 ≤ passes := hpasses
    simp [made, hle, madeAll_of_exitFreeAll true (earlier + 1) 1 Nat.one_pos thenPart h]
  | ifElse _ thenPart elsePart, h => by
    have hle : 1 ≤ passes := hpasses
    simp [made, hle, madeAll_of_exitFreeAll false (earlier + 1) 1 Nat.one_pos thenPart h.1,
      madeAll_of_exitFreeAll true (earlier + 1) 1 Nat.one_pos elsePart h.2]
  | tell _ body, h | whileLess _ _ body, h | counted _ _ _ _ body, h =>
    madeAll_of_exitFreeAll false 0 (earlier + passes) (by omega) body h

theorem madeAll_of_exitFreeAll (next : Bool) (earlier passes : Nat) (hpasses : 0 < passes) :
    (blocks : List Block) → ExitFreeAll blocks → madeAll next earlier passes 1 blocks = true
  | [], _ => rfl
  | b :: rest, h => by
    rw [madeAll, nextSegment_of_exitFree next 1 h.1, made_of_exitFree earlier passes hpasses b h.1,
      madeAll_of_exitFreeAll next earlier passes hpasses rest h.2]
    rfl

end

structure Outcome (made : Bool) (result tree : List Statement) : Prop where
  of_made : made = true → Exit.firstJump? result = none ∧ forgetAll result = tree
  of_not_made : made = false → (Exit.firstJump? result).isSome

namespace Outcome

variable {m n : Bool} {a b tree treeElse : List Statement} (position origin : Nat)

theorem nil : Outcome true [] [] :=
  ⟨fun _ => ⟨rfl, rfl⟩, fun h => Bool.noConfusion h⟩

theorem append (ha : Outcome m a tree) (hb : Outcome n b treeElse) :
    Outcome (m && n) (a ++ b) (tree ++ treeElse) where
  of_made h := by
    obtain ⟨hm, hn⟩ := Bool.and_eq_true_iff.1 h
    rw [Exit.firstJump?_append, forgetAll_append, (ha.of_made hm).1, (ha.of_made hm).2,
      (hb.of_made hn).1, (hb.of_made hn).2]
    exact ⟨rfl, rfl⟩
  of_not_made h := by
    rw [Exit.firstJump?_append, Option.isSome_or, Bool.or_eq_true]
    exact (Bool.and_eq_false_iff.1 h).imp ha.of_not_made hb.of_not_made

theorem jumpUnless (loopEnd? : Option Nat) (condition : Node) (address : Nat)
    (rest tree : List Statement) :
    Outcome false (finish loopEnd? (⟨position, .jumpUnless origin condition address⟩ :: rest))
      tree where
  of_made h := Bool.noConfusion h
  of_not_made _ := by
    obtain ⟨after, hafter⟩ := finish_jumpUnless loopEnd? position origin condition address rest
    simp [hafter, Exit.firstJump?, Exit.jumpIn?]

theorem branch (condition : Node) (ha : Outcome m a tree) (hb : Outcome n b treeElse) :
    Outcome (m && n) [⟨position, .branch origin condition a b⟩]
      [⟨0, .branch 0 condition.forget tree treeElse⟩] where
  of_made h := by
    obtain ⟨hm, hn⟩ := Bool.and_eq_true_iff.1 h
    simp [Exit.firstJump?, Exit.jumpIn?, forgetAll, Node.forget, ha.of_made hm, hb.of_made hn]
  of_not_made h := by
    have hab := (ha.append hb).of_not_made h
    rw [Exit.firstJump?_append] at hab
    simpa [Exit.firstJump?, Exit.jumpIn?] using hab

theorem tell (target : Node) (h : Outcome m a tree) :
    Outcome m [⟨position, .tell origin target a⟩] [⟨0, .tell 0 target.forget tree⟩] where
  of_made hm := by
    simp [Exit.firstJump?, Exit.jumpIn?, forgetAll, Node.forget, h.of_made hm]
  of_not_made hm := by
    simpa [Exit.firstJump?, Exit.jumpIn?] using h.of_not_made hm

theorem loop (start stop : Nat) (kind : LoopKind) (condition : Node) (h : Outcome m a tree) :
    Outcome m [⟨position, .loop origin start stop kind condition a⟩]
      [⟨0, .loop 0 0 0 kind.forget condition.forget tree⟩] where
  of_made hm := by
    simp [Exit.firstJump?, Exit.jumpIn?, forgetAll, Node.forget, h.of_made hm]
  of_not_made hm := by
    simpa [Exit.firstJump?, Exit.jumpIn?] using h.of_not_made hm

end Outcome

variable {s : Scope} {loopEnd? : Option Nat} {inLoop : Bool} {behind : Nat}

theorem apart_head_state (p : Placed) (earlier passes visits segment offset : Nat)
    (hvisits : 0 < visits) (b : Block) (hwf : b.WellFormed inLoop) :
    ∀ x ∈ (b.state s behind p earlier passes visits segment offset).head?, Loop.Apart x := by
  have happart {x : Statement} (h : ∀ origin start stop kind condition body,
      x.node ≠ .loop origin start stop kind condition body) : ∀ y ∈ some x, Loop.Apart y := by
    simpa using Loop.apart_of_not_loop h
  cases b with
  | call name => exact happart (by simp)
  | exitLoop => cases hlast : p.last <;> exact happart (by simp [hlast])
  | ifThen condition thenPart =>
    simp only [state]
    split <;> exact happart (by simp)
  | ifElse condition thenPart elsePart =>
    simp only [state]
    split <;> exact happart (by simp)
  | tell target body => exact happart (by simp)
  | whileLess index bound body =>
    obtain ⟨visits, rfl⟩ := Nat.exists_eq_add_one_of_ne_zero (Nat.ne_of_gt hvisits)
    have hends := endsTo_stateAll s (offset + 8 + sizeAll body + 2) {} 0 (visits + 1) (visits + 1) 1
      (offset + 8) body hwf
    simp only [state, List.head?_cons, Option.mem_some_iff, forall_eq']
    intro previous?
    rw [inside_whileLess s visits offset _ _ _ index bound hends,
      inside_whileLess s visits offset _ _ _ index bound hends]
  | counted index first last up body => exact happart (by simp)

theorem apart_head_stateAll (p : Placed) (earlier passes visits segment offset : Nat)
    (hvisits : 0 < visits) {blocks : List Block} (hwf : WellFormedAll inLoop blocks) :
    ∀ x ∈ (stateAll s behind p earlier passes visits segment offset blocks).head?,
      Loop.Apart x := by
  cases blocks with
  | nil => simp [stateAll]
  | cons b rest =>
    rw [stateAll, List.head?_append, Option.or_of_isSome (by simp [state_ne_nil])]
    exact apart_head_state _ earlier passes visits segment offset hvisits b hwf.1

mutual

/-- What recovery of loops and exits makes of the statements of a block. -/
theorem outcome_state (hnamed : s.Named) {loopEnd? : Option Nat} {inLoop : Bool} {behind : Nat}
    (hleaves : inLoop = true → leavesLoop loopEnd? behind = true) (p : Placed)
    (earlier passes visits segment offset : Nat) (hvisits : earlier + passes = visits)
    (hpos : 0 < visits) :
    (b : Block) → b.WellFormed inLoop → b.Declared s →
      Outcome (b.made earlier passes segment)
        (finish loopEnd? (b.state s behind p earlier passes visits segment offset)) [b.tree s]
  | call name, _, _ => by
    rw [finish, state, Loop.recover_singleton]
    exact ⟨fun _ => ⟨rfl, rfl⟩, fun h => Bool.noConfusion h⟩
  | exitLoop, hwf, _ => by
    rw [finish, state, Loop.recover_singleton]
    cases hlast : p.last <;>
      exact ⟨fun _ => by simp [Loop.inside, Exit.recover, Exit.recoverNode, hleaves hwf,
        Exit.firstJump?, Exit.jumpIn?, forgetAll, Node.forget, tree], fun h => Bool.noConfusion h⟩
  | ifThen condition thenPart, hwf, hdeclared => by
    have hthen := outcome_stateAll hnamed hleaves ⟨p.last, true⟩ (earlier + segment) 1
      (earlier + segment + 1) 1 (offset + condition.size + 3) rfl (Nat.succ_pos _) thenPart hwf
      hdeclared
    have hends := endsTo_stateAll s behind ⟨p.last, true⟩ (earlier + segment) 1
      (earlier + segment + 1) 1 (offset + condition.size + 3) thenPart hwf
    by_cases h : segment ≤ passes
    · have hbranch := hthen.branch (offset + condition.size) (offset + condition.size)
        (condition.node offset) Outcome.nil
      simp only [state, made, h, if_true, decide_true, Bool.true_and, finish_branch, finish_nil,
        finish_settleLast hends hleaves]
      rw [Bool.and_true] at hbranch
      exact hbranch
    · simp only [state, made, h, if_false, decide_false, Bool.false_and]
      exact .jumpUnless _ _ _ _ _ _ _
  | ifElse condition thenPart elsePart, hwf, hdeclared => by
    have hthen := outcome_stateAll hnamed hleaves ⟨true, false⟩ (earlier + segment) 1
      (earlier + segment + 1) 1 (offset + condition.size + 3) rfl (Nat.succ_pos _) thenPart hwf.2.1
      hdeclared.1
    have helse := outcome_stateAll hnamed hleaves ⟨p.last, true⟩ (earlier + segment) 1
      (earlier + segment + 1) 1 (offset + condition.size + 3 + sizeAll thenPart + 3) rfl
      (Nat.succ_pos _) elsePart hwf.2.2 hdeclared.2
    by_cases h : segment ≤ passes
    · simp only [state, made, h, if_true, decide_true, Bool.true_and, finish_branch]
      exact hthen.branch _ _ (condition.node offset) helse
    · simp only [state, made, h, if_false, decide_false, Bool.false_and]
      exact .jumpUnless _ _ _ _ _ _ _
  | tell target body, hwf, hdeclared => by
    have hbody := outcome_stateAll hnamed hleaves {} 0 visits visits 1 (offset + 3) (Nat.zero_add _)
      hpos body hwf hdeclared.2
    rw [state, finish_tell, made, hvisits]
    exact hbody.tell _ _ _
  | whileLess index bound body, hwf, hdeclared => by
    obtain ⟨visits, rfl⟩ := Nat.exists_eq_add_one_of_ne_zero (Nat.ne_of_gt hpos)
    have hends := endsTo_stateAll s (offset + 8 + sizeAll body + 2) {} 0 (visits + 1) (visits + 1) 1
      (offset + 8) body hwf
    have hbody := outcome_stateAll hnamed (region_loop (offset + 8 + sizeAll body)).leaves {} 0
      (visits + 1) (visits + 1) 1 (offset + 8) (Nat.zero_add _) hpos body hwf hdeclared.2
    have hloop := inside_whileLess s visits offset (offset + 8 + sizeAll body) (offset + 5)
      (offset + 8 + sizeAll body + 2) index bound hends none
    rw [made, hvisits, state, finish, Loop.recover_singleton, hloop]
    exact hbody.loop _ _ _ _ _ _
  | counted index first last up body, hwf, hdeclared => by
    obtain ⟨visits, rfl⟩ := Nat.exists_eq_add_one_of_ne_zero (Nat.ne_of_gt hpos)
    generalize hsteps : offset + 4 + 8 + sizeAll body = steps
    have hbody := outcome_stateAll hnamed (region_loop (steps + 7)).leaves {} 0
      (visits + 1) (visits + 1) 1 (offset + 4 + 8) (Nat.zero_add _) hpos body hwf hdeclared.2
    have hloop := inside_counted s visits (offset + 4) (steps + 7) (offset + 4 + 5) (steps + 7 + 2) index
      hnamed hdeclared.1 first last up offset steps
      (stateAll s (steps + 7 + 2) {} 0 (visits + 1) (visits + 1) 1 (offset + 4 + 8) body)
    rw [made, hvisits, state]
    simp only [hsteps]
    rw [finish, Loop.recover_pair rfl hloop]
    exact hbody.loop _ _ _ _ _ _

theorem outcome_stateAll (hnamed : s.Named) {loopEnd? : Option Nat} {inLoop : Bool} {behind : Nat}
    (hleaves : inLoop = true → leavesLoop loopEnd? behind = true) (p : Placed)
    (earlier passes visits segment offset : Nat) (hvisits : earlier + passes = visits)
    (hpos : 0 < visits) :
    (blocks : List Block) → WellFormedAll inLoop blocks → DeclaredAll s blocks →
      Outcome (madeAll p.next earlier passes segment blocks)
        (finish loopEnd? (stateAll s behind p earlier passes visits segment offset blocks))
        (treeAll s blocks)
  | [], _, _ => .nil
  | b :: rest, hwf, hdeclared => by
    have hb := outcome_state hnamed hleaves (p.before (flatAll rest)) earlier passes visits segment
      offset hvisits hpos b hwf.1 hdeclared.1
    have hrest := outcome_stateAll hnamed hleaves p earlier passes visits
      (b.nextSegment p.next segment rest) (offset + b.size) hvisits hpos rest hwf.2 hdeclared.2
    rw [stateAll, finish_append (apart_head_stateAll _ _ _ _ _ _ hpos hwf.2)]
    exact hb.append hrest

end

end Block

end LingoSource
