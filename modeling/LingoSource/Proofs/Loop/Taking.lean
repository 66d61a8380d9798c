import LingoSource.Proofs.Loop.Variable
import LingoSource.Proofs.Program.Block
import LingoSource.Proofs.Program.Outcome
import LingoSource.Proofs.Tree.Blocks

/-!
Statements that are neither blocks nor jumps, which all passes over control flow leave as they are, and
among them a loop that takes an element before its calls. Whatever its test and the element are, the
passes change the loop alone, and into what is recognized in its test and its first assignment.
-/
set_option autoImplicit false

namespace LingoSource

open Statement

def Statement.Simple (statements : List Statement) : Prop :=
  ∀ s ∈ statements, s.node.isBlock = false ∧ s.node.isJump = false

namespace Statement.Simple

variable {statements : List Statement} (h : Simple statements)
include h

theorem isConditional_eq : ∀ s ∈ statements, s.node.isConditional = false := by
  intro s hs
  obtain ⟨-, hjump⟩ := h s hs
  obtain ⟨position, node⟩ := s
  cases node <;> first | rfl | cases hjump

theorem map_inside (loopEnd? : Option Nat) :
    statements.map (Condition.inside Condition.recover loopEnd?) = statements := by
  refine List.map_congr_left (fun s hs => ?_) |>.trans (List.map_id _)
  obtain ⟨hblock, -⟩ := h s hs
  obtain ⟨position, node⟩ := s
  cases node <;> first | rfl | cases hblock

theorem apart : ∀ s ∈ statements.head?, Loop.Apart s := by
  intro s hs
  obtain ⟨hblock, -⟩ := h s (List.mem_of_mem_head? hs)
  refine Loop.apart_of_not_loop fun _ _ _ _ _ _ heq => ?_
  rw [heq] at hblock
  cases hblock

theorem loop_recover : Loop.recover statements = statements := by
  rw [Loop.recover_eq]
  suffices hall : ∀ previous?, Loop.through Loop.recover previous? statements =
      previous?.toList ++ statements from hall none
  induction statements with
  | nil => exact fun previous? => (List.append_nil _).symm
  | cons s rest ih =>
    intro previous?
    have hs : Loop.inside Loop.recover previous? s = (s, false) := by
      obtain ⟨hblock, -⟩ := h s (by simp)
      obtain ⟨position, node⟩ := s
      cases node <;> first | rfl | cases hblock
    simp [Loop.through, hs, ih (fun t ht => h t (by simp [ht]))]

theorem exit_recover (loopEnd? : Option Nat) : Exit.recover loopEnd? statements = statements := by
  induction statements with
  | nil => rfl
  | cons s rest ih =>
    obtain ⟨hblock, hjump⟩ := h s (by simp)
    obtain ⟨position, node⟩ := s
    rw [Exit.recover, ih fun t ht => h t (by simp [ht])]
    cases node <;> simp_all [Node.isBlock, Node.isJump, Exit.recoverNode]

theorem firstJump?_eq : Exit.firstJump? statements = none := by
  induction statements with
  | nil => rfl
  | cons s rest ih =>
    obtain ⟨hblock, hjump⟩ := h s (by simp)
    obtain ⟨position, node⟩ := s
    rw [Exit.firstJump?, ih fun t ht => h t (by simp [ht])]
    cases node <;> simp_all [Node.isBlock, Node.isJump, Exit.jumpIn?]

end Statement.Simple

theorem Node.sameReference_self (node : Node) : node.sameReference node = true := by
  cases node with
  | leaf kind name position => cases kind <;> simp [sameReference]
  | _ => simp [sameReference, origin?]

def Node.isCall (node : Node) : Bool :=
  node.callArguments?.isSome

theorem Statement.simple_of_isCall {statements : List Statement}
    (h : ∀ s ∈ statements, s.node.isCall = true) : Simple statements := by
  intro s hs
  have hcall := h s hs
  obtain ⟨position, node⟩ := s
  cases node <;> first | exact ⟨rfl, rfl⟩ | cases hcall

/-- A loop that is left unless a test holds, and then sets a variable and calls functions. -/
structure TakingLoop where
  start : Nat
  back : Nat
  /-- Where the loop is left, and for which address. -/
  leaves : Nat
  address : Nat
  /-- Where the variable is set. -/
  takes : Nat
  test : Node
  element : Node
  value : Node
  calls : List Statement

namespace TakingLoop

variable (l : TakingLoop)

def leaving : Statement :=
  ⟨l.leaves, .jumpUnless l.leaves l.test l.address⟩

def taken : List Statement :=
  ⟨l.takes, .assign l.takes l.element l.value⟩ :: l.calls

def emitted : Statement :=
  Block.loopStatement l.start l.back (l.leaving :: l.taken)

def shape : Loop.Shape :=
  Loop.eachElement ⟨.whileTrue, l.test, l.taken⟩

def recovered : Statement :=
  ⟨l.back, .loop l.back l.start l.back l.shape.kind l.shape.condition l.shape.body⟩

theorem from_start {l : TakingLoop} (hstart : l.start ≤ l.leaves)
    (hincreasing : Increasing (l.leaving :: l.taken)) : From l.start (l.leaving :: l.taken) :=
  from_cons.2 ⟨hstart, fun s hs =>
    Nat.le_trans hstart (Nat.le_of_lt ((List.pairwise_cons.1 hincreasing).1 s hs))⟩

/-- The loop is left for what lies behind it, and there are only calls in it beside the assignment, which
takes the value of one. -/
structure Calls : Prop where
  address_gt : l.back < l.address
  increasing : Increasing (l.leaving :: l.taken)
  value : l.value.isCall = true
  calls : ∀ s ∈ l.calls, s.node.isCall = true

variable {l} {before after : List Statement} (h : l.Calls)
include h

theorem simple_taken : Simple l.taken :=
  List.forall_mem_cons.2 ⟨⟨rfl, rfl⟩, simple_of_isCall h.calls⟩

theorem simple_shape : Simple l.shape.body :=
  fun s hs => simple_taken h s ((Loop.body_eachElement_sublist _).subset hs)

def conditioned (l : TakingLoop) : Statement :=
  Block.loopStatement l.start l.back (⟨l.leaves, .branch l.leaves (.unary l.leaves .not l.test)
    [⟨l.leaves, .exitLoop l.leaves⟩] []⟩ :: l.taken)

theorem condition_recover_emitted (hbefore : Simple before) (hafter : Simple after) :
    Condition.recover none (before ++ l.emitted :: after) = before ++ l.conditioned :: after := by
  have hleaves : leavesLoop (some l.back) l.address = true := by
    simpa [leavesLoop] using h.address_gt
  have hbody : Condition.recover (some l.back) (l.leaving :: l.taken) =
      ⟨l.leaves, .branch l.leaves (.unary l.leaves .not l.test)
        [⟨l.leaves, .exitLoop l.leaves⟩] []⟩ :: l.taken := by
    rw [Condition.recover_eq_branches, List.map_cons, (simple_taken h).map_inside]
    refine (Condition.branches_leaving hleaves h.increasing).trans ?_
    rw [Condition.branches_of_not_conditional (simple_taken h).isConditional_eq]
  have hinside : Condition.inside Condition.recover none l.emitted = l.conditioned := by
    simp only [emitted, Block.loopStatement, Condition.inside, hbody]
    rfl
  rw [Condition.recover_eq_branches, List.map_append, List.map_cons, hbefore.map_inside,
    hafter.map_inside, hinside]
  refine Condition.branches_of_not_conditional fun s hs => ?_
  rcases List.mem_append.1 hs with hs | hs
  · exact hbefore.isConditional_eq s hs
  · rcases List.mem_cons.1 hs with rfl | hs
    · rfl
    · exact hafter.isConditional_eq s hs

/-- The last statement is no sum, so no assignment in front of the loop is taken for the start of a
count. -/
theorem counted_eq (previous? : Option Statement) :
    Loop.counted previous? ⟨.whileTrue, l.test, l.taken⟩ = (⟨.whileTrue, l.test, l.taken⟩, false) := by
  have hnone (previous : Statement) :
      Loop.countedRange? previous ⟨.whileTrue, l.test, l.taken⟩ = none := by
    unfold Loop.countedRange?
    split
    · rename_i hlast
      obtain ⟨s, hs, hnode⟩ := Option.map_eq_some_iff.1 hlast
      rcases List.mem_cons.1 (List.mem_of_getLast? hs) with rfl | hs
      · obtain ⟨-, -, hvalue⟩ := Node.assign.inj hnode
        have hcall := h.value
        rw [hvalue] at hcall
        cases hcall
      · have hcall := h.calls s hs
        rw [hnode] at hcall
        cases hcall
    · rfl
  unfold Loop.counted
  cases previous? with
  | none => rfl
  | some previous => simp [hnone]

theorem loop_recover_conditioned (hbefore : Simple before) (hafter : Simple after) :
    Loop.recover (before ++ l.conditioned :: after) = before ++ l.recovered :: after := by
  have hinside (previous? : Option Statement) :
      Loop.inside Loop.recover previous? l.conditioned = (l.recovered, false) := by
    have hwhile : Loop.whileCondition ⟨.whileTrue, .leaf .constant "TRUE" l.start,
        ⟨l.leaves, .branch l.leaves (.unary l.leaves .not l.test)
          [⟨l.leaves, .exitLoop l.leaves⟩] []⟩ :: l.taken⟩ = ⟨.whileTrue, l.test, l.taken⟩ := rfl
    simp only [Loop.inside, conditioned, Block.loopStatement, hwhile, counted_eq h previous?]
    rw [← shape, (simple_shape h).loop_recover]
    rfl
  have happart : Loop.Apart l.conditioned := fun previous? => by
    rw [hinside, hinside]
  rw [Loop.recover_append (by simpa using happart), ← List.singleton_append,
    Loop.recover_append hafter.apart, Loop.recover_singleton, hinside, hbefore.loop_recover,
    hafter.loop_recover]
  rfl

theorem recoverFlow_emitted (hbefore : Simple before) (hafter : Simple after) :
    recoverFlow (before ++ l.emitted :: after) = .ok (before ++ l.recovered :: after) := by
  have hsimple := simple_shape h
  have hstructured : structured (before ++ l.emitted :: after) = before ++ l.recovered :: after := by
    rw [structured, condition_recover_emitted h hbefore hafter,
      loop_recover_conditioned h hbefore hafter, Exit.recover_append, hbefore.exit_recover, recovered,
      Exit.recover, Exit.recoverNode, hsimple.exit_recover, hafter.exit_recover]
  refine recoverFlow_eq_ok_iff.2 ⟨hstructured.symm, ?_⟩
  rw [hstructured, Exit.firstJump?_append, hbefore.firstJump?_eq, recovered, Exit.firstJump?,
    Exit.jumpIn?, hsimple.firstJump?_eq, hafter.firstJump?_eq]
  rfl

end TakingLoop

end LingoSource
