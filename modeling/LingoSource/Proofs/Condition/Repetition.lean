import LingoSource.Proofs.Condition.Settled
import LingoSource.Proofs.Tree.Blocks

/-!
Going through statements once more. The bodies in a branch are gone through again for every branch
around them, so what comes out of one time should stay. A conditional jump is left over when the scan
passes it but no branch takes it: behind a first part that ends with a jump the scan always passes what
that jump jumps over, but the branch takes it only if the jump is still there when the part has been gone
through, and stays in the loop. This is all that can go wrong.
-/
set_option autoImplicit false

namespace LingoSource

/-- The bodies of a node that the recovery goes through, and where the loop around each of them ends. -/
def Node.parts (loopEnd? : Option Nat) : Node → List (Option Nat × List Statement)
  | .loop _ _ stop _ _ body => [(some stop, body)]
  | .tell _ _ body => [(loopEnd?, body)]
  | _ => []

theorem Node.mem_bodies_of_mem_parts {loopEnd? : Option Nat} {node : Node}
    {part : Option Nat × List Statement} (h : part ∈ node.parts loopEnd?) : part.2 ∈ node.bodies := by
  cases node <;> simp_all [parts, bodies]

theorem Node.weightAll_part_lt {loopEnd? : Option Nat} {node : Node}
    {part : Option Nat × List Statement} (h : part ∈ node.parts loopEnd?) :
    Statement.weightAll part.2 < node.weight := by
  cases node <;> simp_all [parts, weight]

inductive Statement.IncreasingAll : List Statement → Prop
  | intro {statements : List Statement} (h : Increasing statements)
      (hbodies : ∀ s ∈ statements, ∀ body ∈ s.node.bodies, IncreasingAll body) :
      IncreasingAll statements

namespace Statement

theorem IncreasingAll.increasing {statements : List Statement} (h : IncreasingAll statements) :
    Increasing statements := by
  obtain ⟨h, -⟩ := h
  exact h

theorem IncreasingAll.sublist {statements part : List Statement} (h : IncreasingAll statements)
    (hpart : part.Sublist statements) : IncreasingAll part := by
  obtain ⟨h, hbodies⟩ := h
  exact ⟨h.sublist hpart, fun s hs => hbodies s (hpart.subset hs)⟩

theorem IncreasingAll.part {statements : List Statement} (h : IncreasingAll statements)
    {s : Statement} (hs : s ∈ statements) {loopEnd? : Option Nat}
    {part : Option Nat × List Statement} (hpart : part ∈ s.node.parts loopEnd?) :
    IncreasingAll part.2 := by
  obtain ⟨-, hbodies⟩ := h
  exact hbodies s hs part.2 (Node.mem_bodies_of_mem_parts hpart)

theorem Increasing.map {statements : List Statement} (h : Increasing statements)
    {f : Statement → Statement} (hf : ∀ s, (f s).position = s.position) :
    Increasing (statements.map f) := by
  refine List.pairwise_map.2 (h.imp fun {s t} hlt => ?_)
  rw [hf, hf]
  exact hlt

end Statement

namespace Condition

open Statement

variable {loopEnd? : Option Nat} {statements : List Statement}

@[simp] theorem position_inside (recover : Option Nat → List Statement → List Statement)
    (loopEnd? : Option Nat) (s : Statement) : (inside recover loopEnd? s).position = s.position := by
  obtain ⟨position, node⟩ := s
  cases node <;> rfl

section Last

/-! The recovery adds no jump to the end of a list. -/

theorem lastJump?_map_inside (recover : Option Nat → List Statement → List Statement)
    (loopEnd? : Option Nat) (statements : List Statement) :
    lastJump? (statements.map (inside recover loopEnd?)) = lastJump? statements := by
  rcases List.eq_nil_or_concat statements with rfl | ⟨before, s, rfl⟩
  · rfl
  · obtain ⟨position, node⟩ := s
    simp only [lastJump?, List.concat_eq_append, List.map_append, List.map_cons, List.map_nil,
      List.getLast?_concat]
    cases node <;> rfl

theorem lastJump?_breakBeforeLast (loopEnd? : Option Nat) (statements : List Statement) :
    lastJump? (breakBeforeLast loopEnd? statements) = lastJump? statements := by
  have hlast : (breakBeforeLast loopEnd? statements).getLast? = statements.getLast? := by
    fun_induction breakBeforeLast loopEnd? statements with
    | case1 | case2 | case3 | case4 | case5 => rfl
    | case6 s rest _ _ ih => simp [List.getLast?_cons, ih]
  rw [lastJump?, lastJump?, hlast]

theorem lastJump?_concat (before : List Statement) (s : Statement) :
    lastJump? (before ++ [s]) = lastJump? [s] := by
  simp [lastJump?]

theorem isJump_of_lastJump? {s : Statement} {jump : Statement × Nat} (h : lastJump? [s] = some jump) :
    s.node.isJump = true := by
  obtain ⟨jump, address⟩ := jump
  obtain ⟨before, position, origin, rfl, -⟩ := eq_of_lastJump? h
  have hlast := getLast?_of_lastJump? h
  obtain rfl : s = _ := by simpa using hlast
  rfl

theorem lastJump?_lift {treat : List Statement → List Statement} {position : Nat}
    {jump : Statement × Nat} (h : lastJump? (lift treat loopEnd? statements position) = some jump) :
    lastJump? statements = some jump := by
  cases hsplit : splitAtHead position statements with
  | none =>
    unfold lift at h
    simpa [hsplit] using h
  | some found =>
    obtain ⟨before, origin, condition, address, after⟩ := found
    obtain ⟨branch, hbranch, taken, behind, rfl, hlift⟩ := lift_of_splitAtHead treat loopEnd? hsplit
    rw [hlift] at h
    rw [eq_of_splitAtHead hsplit]
    rcases List.eq_nil_or_concat behind with rfl | ⟨between, s, rfl⟩
    · -- the list would end with the branch
      rw [lastJump?_concat] at h
      rw [isJump_of_lastJump? h] at hbranch
      cases hbranch
    · simp only [List.concat_eq_append, ← List.append_assoc, ← List.cons_append, lastJump?_concat]
        at h ⊢
      exact h

theorem lastJump?_foldl_lift {treat : List Statement → List Statement} {positions : List Nat}
    {jump : Statement × Nat}
    (h : lastJump? (positions.foldl (lift treat loopEnd?) statements) = some jump) :
    lastJump? statements = some jump := by
  induction positions generalizing statements with
  | nil => exact h
  | cons position positions ih => exact lastJump?_lift (ih h)

theorem endJump?_map_inside (loopEnd? : Option Nat) (statements : List Statement) :
    endJump? (statements.map (inside recover loopEnd?)) = endJump? statements := by
  have hjump : ∀ s, jumpAddress? (inside recover loopEnd? s) = jumpAddress? s := fun s => by
    obtain ⟨position, node⟩ := s
    cases node <;> rfl
  rw [endJump?, endJump?, List.getLast?_map, Option.bind_map]
  exact congrArg statements.getLast?.bind (funext hjump)

theorem endJump?_of_recover {jump : Statement} {address : Nat}
    (h : lastJump? (recover loopEnd? (breakBeforeLast loopEnd? statements)) = some (jump, address)) :
    endJump? statements = some address := by
  rw [recover_eq] at h
  have hlast := lastJump?_foldl_lift h
  rw [lastJump?_map_inside, lastJump?_breakBeforeLast] at hlast
  obtain ⟨before, position, origin, rfl, rfl⟩ := eq_of_lastJump? hlast
  exact endJump?_concat_jump before position origin address

end Last

def elseEnd? (loopEnd? : Option Nat) (thenPart : List Statement) : Option Nat :=
  match lastJump? (recover loopEnd? (breakBeforeLast loopEnd? thenPart)) with
  | some (_, address) => if leavesLoop loopEnd? address then none else some address
  | none => none

/-- What the scan passes and the branch does not take. -/
def missed (loopEnd? : Option Nat) (thenPart behind : List Statement) : List Statement :=
  match elseEnd? loopEnd? thenPart with
  | none => passed (endJump? thenPart) behind
  | some address => (passed (endJump? thenPart) behind).dropWhile (·.position < address)

theorem passed_map {f : Statement → Statement} (hf : ∀ s, (f s).position = s.position)
    (jump? : Option Nat) (statements : List Statement) :
    passed jump? (statements.map f) = (passed jump? statements).map f := by
  cases jump? <;> cases statements <;>
    simp [passed, List.takeWhile_map, Function.comp_def, hf]

theorem unpassed_map {f : Statement → Statement} (hf : ∀ s, (f s).position = s.position)
    (jump? : Option Nat) (statements : List Statement) :
    unpassed jump? (statements.map f) = (unpassed jump? statements).map f := by
  cases jump? <;> cases statements <;>
    simp [unpassed, List.dropWhile_map, Function.comp_def, hf]

theorem missed_map {f : Statement → Statement} (hf : ∀ s, (f s).position = s.position)
    (loopEnd? : Option Nat) (thenPart behind : List Statement) :
    missed loopEnd? thenPart (behind.map f) = (missed loopEnd? thenPart behind).map f := by
  unfold missed
  split <;> simp [passed_map hf, List.dropWhile_map, Function.comp_def, hf]

theorem missed_sublist (loopEnd? : Option Nat) (thenPart behind : List Statement) :
    (missed loopEnd? thenPart behind).Sublist (passed (endJump? thenPart) behind) := by
  unfold missed
  split
  · exact List.Sublist.refl _
  · exact List.dropWhile_sublist _

/-- Behind the second part, at most one statement is passed that is not in it. -/
theorem dropWhile_passed {address : Nat} {elsePart behind : List Statement}
    (helse : Below address elsePart) (hbehind : From address behind) :
    (passed (some address) (elsePart ++ behind)).dropWhile (·.position < address) ++
      unpassed (some address) (elsePart ++ behind) = behind := by
  cases elsePart with
  | cons s elsePart =>
    rw [unpassed_append_of_ne_nil (by simp) helse hbehind, List.cons_append, passed,
      takeWhile_append_of_below (below_cons.1 helse).2 hbehind]
    have hdrop := dropWhile_append_of_below helse from_nil
    rw [List.append_nil] at hdrop
    rw [hdrop, List.nil_append]
  | nil =>
    cases behind with
    | nil => rfl
    | cons s behind =>
      obtain ⟨hs, hrest⟩ := from_cons.1 hbehind
      have htake := takeWhile_append_of_below below_nil hrest
      have hdrop := dropWhile_append_of_below below_nil hrest
      rw [List.nil_append] at htake hdrop
      rw [List.nil_append, passed, unpassed, htake, hdrop,
        List.dropWhile_cons_of_neg (by simpa using hs)]
      rfl

section Head

variable {address : Nat} {thenPart rest : List Statement}

theorem lift_eq_missed (position origin : Nat) (condition : Node) (h : leavesLoop loopEnd? address = false)
    (hthen : Below address thenPart) (hrest : From address rest) (hinc : Increasing rest) :
    ∃ thenBody elseBody,
      lift (recover loopEnd?) loopEnd?
          (⟨position, .jumpUnless origin condition address⟩ :: (thenPart ++ rest)) position =
        ⟨position, .branch origin condition thenBody elseBody⟩ ::
          (missed loopEnd? thenPart rest ++ unpassed (endJump? thenPart) rest) := by
  cases hjump : lastJump? (recover loopEnd? (breakBeforeLast loopEnd? thenPart)) with
  | none =>
    have hmissed : missed loopEnd? thenPart rest = passed (endJump? thenPart) rest := by
      simp [missed, elseEnd?, hjump]
    rw [hmissed, passed_append_unpassed]
    exact ⟨_, _, lift_then h hthen hrest hjump⟩
  | some found =>
    obtain ⟨jump, target⟩ := found
    by_cases htarget : leavesLoop loopEnd? target = true
    · have hmissed : missed loopEnd? thenPart rest = passed (endJump? thenPart) rest := by
        simp [missed, elseEnd?, hjump, htarget]
      rw [hmissed, passed_append_unpassed]
      exact ⟨_, _, lift_then_exit h hthen hrest hjump htarget⟩
    · rw [Bool.not_eq_true] at htarget
      obtain ⟨elsePart, behind, rfl, helse, hbehind⟩ := hinc.split target
      have hmissed : missed loopEnd? thenPart (elsePart ++ behind) =
          (passed (some target) (elsePart ++ behind)).dropWhile (·.position < target) := by
        simp [missed, elseEnd?, hjump, htarget, endJump?_of_recover hjump]
      rw [hmissed, endJump?_of_recover hjump, dropWhile_passed helse hbehind]
      exact ⟨_, _, lift_then_else h hthen hrest hjump htarget rfl helse hbehind⟩

theorem branches_eq_missed {position origin : Nat} {condition : Node}
    (h : leavesLoop loopEnd? address = false) (hthen : Below address thenPart)
    (hrest : From address rest)
    (hinc : Increasing (⟨position, .jumpUnless origin condition address⟩ :: (thenPart ++ rest))) :
    ∃ thenBody elseBody,
      branches loopEnd? (⟨position, .jumpUnless origin condition address⟩ :: (thenPart ++ rest)) =
        ⟨position, .branch origin condition thenBody elseBody⟩ ::
          (missed loopEnd? thenPart rest ++
            branches loopEnd? (unpassed (endJump? thenPart) rest)) := by
  obtain ⟨hhead, hparts⟩ := List.pairwise_cons.1 hinc
  obtain ⟨-, hincRest, -⟩ := List.pairwise_append.1 hparts
  have hmissed := missed_sublist loopEnd? thenPart rest
  have hsplit := passed_append_unpassed (endJump? thenPart) rest
  obtain ⟨thenBody, elseBody, hlift⟩ :=
    lift_eq_missed position origin condition h hthen hrest hincRest
  refine ⟨thenBody, elseBody, ?_⟩
  rw [branches_head h hthen hrest hinc, hlift, ← List.cons_append]
  refine foldl_heads_append loopEnd? (_ :: missed loopEnd? thenPart rest) fun s hs t ht => ?_
  rcases List.mem_cons.1 hs with rfl | hs
  · refine hhead t (List.mem_append_right _ ?_)
    rw [← hsplit]
    exact List.mem_append_right _ ht
  · rw [← hsplit] at hincRest
    exact (List.pairwise_append.1 hincRest).2.2 s (hmissed.subset hs) t ht

end Head

section Recover

/-! The recovery of a list, by its first statement. -/

theorem recover_cons {s : Statement} {rest : List Statement} (h : Increasing (s :: rest))
    (hs : s.node.isConditional = false) :
    recover loopEnd? (s :: rest) = inside recover loopEnd? s :: recover loopEnd? rest := by
  rw [recover_eq_branches, recover_eq_branches loopEnd? rest, List.map_cons]
  refine branches_cons loopEnd? (h.map (position_inside recover loopEnd?)) fun _ _ _ hnode => ?_
  rw [← isConditional_inside recover loopEnd? s, hnode] at hs
  cases hs

theorem recover_cons_leaving {position origin address : Nat} {condition : Node} {rest : List Statement}
    (h : leavesLoop loopEnd? address = true)
    (hinc : Increasing (⟨position, .jumpUnless origin condition address⟩ :: rest)) :
    recover loopEnd? (⟨position, .jumpUnless origin condition address⟩ :: rest) =
      ⟨position, .branch origin (.unary origin .not condition) [⟨position, .exitLoop origin⟩] []⟩ ::
        recover loopEnd? rest := by
  rw [recover_eq_branches, recover_eq_branches loopEnd? rest]
  exact branches_leaving h (hinc.map (position_inside recover loopEnd?))

theorem recover_cons_staying {position origin address : Nat} {condition : Node}
    {thenPart rest : List Statement} (h : leavesLoop loopEnd? address = false)
    (hthen : Below address thenPart) (hrest : From address rest)
    (hinc : Increasing (⟨position, .jumpUnless origin condition address⟩ :: (thenPart ++ rest))) :
    ∃ thenBody elseBody,
      recover loopEnd? (⟨position, .jumpUnless origin condition address⟩ :: (thenPart ++ rest)) =
        ⟨position, .branch origin condition thenBody elseBody⟩ ::
          ((missed loopEnd? (thenPart.map (inside recover loopEnd?)) rest).map
              (inside recover loopEnd?) ++
            recover loopEnd? (unpassed (endJump? thenPart) rest)) := by
  have hposition := position_inside recover loopEnd?
  have hthen' : Below address (thenPart.map (inside recover loopEnd?)) := by
    simpa [Below] using hthen
  have hrest' : From address (rest.map (inside recover loopEnd?)) := by simpa [From] using hrest
  have hinc' := hinc.map hposition
  rw [List.map_cons, List.map_append] at hinc'
  obtain ⟨thenBody, elseBody, hbranches⟩ := branches_eq_missed h hthen' hrest' hinc'
  refine ⟨thenBody, elseBody, ?_⟩
  rw [recover_eq_branches, recover_eq_branches loopEnd? (unpassed _ _), List.map_cons,
    List.map_append, ← missed_map hposition, ← unpassed_map hposition, ← endJump?_map_inside loopEnd?]
  exact hbranches

end Recover

section Settled

/-! When nothing is left over, by the first statement of a list. -/

theorem settled_inside_iff {s : Statement} :
    (inside recover loopEnd? s).node.Settled ↔ s.node.isConditional = false ∧
      ∀ part ∈ s.node.parts loopEnd?, SettledAll (recover part.1 part.2) := by
  obtain ⟨position, node⟩ := s
  cases node <;> simp [inside, Node.Settled, Node.parts, Node.isConditional]

theorem settledAll_cons_iff {s : Statement} {rest : List Statement} (h : Increasing (s :: rest))
    (hs : s.node.isConditional = false) :
    SettledAll (recover loopEnd? (s :: rest)) ↔
      (∀ part ∈ s.node.parts loopEnd?, SettledAll (recover part.1 part.2)) ∧
        SettledAll (recover loopEnd? rest) := by
  rw [recover_cons h hs, settledAll_cons, settled_inside_iff]
  simp [hs]

theorem settledAll_leaving_iff {position origin address : Nat} {condition : Node}
    {rest : List Statement} (h : leavesLoop loopEnd? address = true)
    (hinc : Increasing (⟨position, .jumpUnless origin condition address⟩ :: rest)) :
    SettledAll (recover loopEnd? (⟨position, .jumpUnless origin condition address⟩ :: rest)) ↔
      SettledAll (recover loopEnd? rest) := by
  rw [recover_cons_leaving h hinc, settledAll_cons]
  simp [Node.Settled]

theorem settledAll_staying_iff {position origin address : Nat} {condition : Node}
    {thenPart rest : List Statement} (h : leavesLoop loopEnd? address = false)
    (hthen : Below address thenPart) (hrest : From address rest)
    (hinc : Increasing (⟨position, .jumpUnless origin condition address⟩ :: (thenPart ++ rest))) :
    SettledAll (recover loopEnd?
        (⟨position, .jumpUnless origin condition address⟩ :: (thenPart ++ rest))) ↔
      (∀ s ∈ missed loopEnd? (thenPart.map (inside recover loopEnd?)) rest,
        s.node.isConditional = false ∧
          ∀ part ∈ s.node.parts loopEnd?, SettledAll (recover part.1 part.2)) ∧
        SettledAll (recover loopEnd? (unpassed (endJump? thenPart) rest)) := by
  obtain ⟨thenBody, elseBody, heq⟩ := recover_cons_staying h hthen hrest hinc
  rw [heq, settledAll_cons, settledAll_append, settledAll_iff, List.forall_mem_map]
  simp only [settled_inside_iff, Node.Settled, true_and]

end Settled

/-- No conditional jump of these statements is left over: none is among the statements that the scan
passes and no branch takes. The bodies in a branch do not count, a body in anything else does. -/
inductive Clears : Option Nat → List Statement → Prop
  | nil (loopEnd? : Option Nat) : Clears loopEnd? []
  | keep {loopEnd? : Option Nat} {s : Statement} {rest : List Statement}
      (h : s.node.isConditional = false)
      (hparts : ∀ part ∈ s.node.parts loopEnd?, Clears part.1 part.2)
      (hrest : Clears loopEnd? rest) : Clears loopEnd? (s :: rest)
  | leaving {loopEnd? : Option Nat} {position origin address : Nat} {condition : Node}
      {rest : List Statement} (h : leavesLoop loopEnd? address = true)
      (hrest : Clears loopEnd? rest) :
      Clears loopEnd? (⟨position, .jumpUnless origin condition address⟩ :: rest)
  | staying {loopEnd? : Option Nat} {position origin address : Nat} {condition : Node}
      {thenPart rest : List Statement} (h : leavesLoop loopEnd? address = false)
      (hthen : Below address thenPart) (hrest : From address rest)
      (hmissed : ∀ s ∈ missed loopEnd? (thenPart.map (inside recover loopEnd?)) rest,
        s.node.isConditional = false)
      (hparts : ∀ s ∈ missed loopEnd? (thenPart.map (inside recover loopEnd?)) rest,
        ∀ part ∈ s.node.parts loopEnd?, Clears part.1 part.2)
      (hbehind : Clears loopEnd? (unpassed (endJump? thenPart) rest)) :
      Clears loopEnd? (⟨position, .jumpUnless origin condition address⟩ :: (thenPart ++ rest))

theorem missed_subset (loopEnd? : Option Nat) (thenPart behind : List Statement) :
    missed loopEnd? thenPart behind ⊆ behind := by
  conv => rhs; rw [← passed_append_unpassed (endJump? thenPart) behind]
  exact List.Subset.trans (missed_sublist loopEnd? thenPart behind).subset
    (List.subset_append_left _ _)

theorem unpassed_sublist (jump? : Option Nat) (statements : List Statement) :
    (unpassed jump? statements).Sublist statements := by
  conv => rhs; rw [← passed_append_unpassed jump? statements]
  exact List.sublist_append_right _ _

theorem settledAll_of_clears {statements : List Statement} (h : Clears loopEnd? statements)
    (hinc : IncreasingAll statements) : SettledAll (recover loopEnd? statements) := by
  induction h with
  | nil loopEnd? => exact (recover_eq_branches loopEnd? []).symm ▸ trivial
  | @keep loopEnd? s rest hs _ _ ihparts ihrest =>
    rw [settledAll_cons_iff hinc.increasing hs]
    exact ⟨fun part hpart => ihparts part hpart (hinc.part (by simp) hpart),
      ihrest (hinc.sublist (List.sublist_cons_self ..))⟩
  | leaving h _ ih =>
    rw [settledAll_leaving_iff h hinc.increasing]
    exact ih (hinc.sublist (List.sublist_cons_self ..))
  | @staying loopEnd? _ _ _ _ thenPart rest h hthen hrest hmissed _ _ ihparts ihbehind =>
    rw [settledAll_staying_iff h hthen hrest hinc.increasing]
    have hincRest : IncreasingAll rest := hinc.sublist ((List.sublist_append_right ..).cons _)
    refine ⟨fun s hs => ⟨hmissed s hs, fun part hpart => ?_⟩,
      ihbehind (hincRest.sublist (unpassed_sublist ..))⟩
    exact ihparts s hs part hpart (hincRest.part (missed_subset _ _ _ hs) hpart)

theorem weightAll_part_lt {s : Statement} (hs : s ∈ statements) {part : Option Nat × List Statement}
    (hpart : part ∈ s.node.parts loopEnd?) : weightAll part.2 < weightAll statements := by
  have hle := weightAll_le_of_sublist (List.singleton_sublist.2 hs)
  have hlt := Node.weightAll_part_lt hpart
  simp only [weightAll_cons] at hle
  omega

theorem clears_of_settledAll (hinc : IncreasingAll statements)
    (h : SettledAll (recover loopEnd? statements)) : Clears loopEnd? statements := by
  -- bodies and what is left behind a branch are lighter, but no part of the list by its constructors
  induction hn : weightAll statements using Nat.strongRecOn generalizing loopEnd? statements with
  | ind n ih =>
    have hlighter : ∀ {loopEnd? : Option Nat} {part : List Statement}, weightAll part < n →
        IncreasingAll part → SettledAll (recover loopEnd? part) → Clears loopEnd? part :=
      fun hlt hinc h => ih _ hlt hinc h rfl
    subst hn
    cases statements with
    | nil => exact .nil loopEnd?
    | cons s rest =>
      have hincRest : IncreasingAll rest := hinc.sublist (List.sublist_cons_self ..)
      have hlt : weightAll rest < weightAll (s :: rest) := by
        have := s.node.weight_pos
        rw [weightAll_cons]
        omega
      cases hs : s.node.isConditional with
      | false =>
        rw [settledAll_cons_iff hinc.increasing hs] at h
        refine .keep hs (fun part hpart => ?_) (hlighter hlt hincRest h.2)
        exact hlighter (weightAll_part_lt (by simp) hpart) (hinc.part (by simp) hpart) (h.1 part hpart)
      | true =>
        obtain ⟨origin, condition, address, heq⟩ := eq_of_isConditional hs
        generalize s.position = position at heq
        subst heq
        cases hleaves : leavesLoop loopEnd? address with
        | true =>
          rw [settledAll_leaving_iff hleaves hinc.increasing] at h
          exact .leaving hleaves (hlighter hlt hincRest h)
        | false =>
          obtain ⟨thenPart, behind, rfl, hthen, hbehind⟩ := hincRest.increasing.split address
          rw [settledAll_staying_iff hleaves hthen hbehind hinc.increasing] at h
          obtain ⟨hmissed, hunpassed⟩ := h
          have hsublist : behind.Sublist (thenPart ++ behind) := List.sublist_append_right ..
          have hincBehind := hincRest.sublist hsublist
          have hle := Nat.lt_of_le_of_lt (weightAll_le_of_sublist hsublist) hlt
          refine .staying hleaves hthen hbehind (fun s hs => (hmissed s hs).1)
            (fun s hs part hpart => ?_) ?_
          · have hmem := missed_subset _ _ _ hs
            exact hlighter (Nat.lt_trans (weightAll_part_lt hmem hpart) hle)
              (hincBehind.part hmem hpart) ((hmissed s hs).2 part hpart)
          · have hpart := unpassed_sublist (endJump? thenPart) behind
            exact hlighter (Nat.lt_of_le_of_lt (weightAll_le_of_sublist hpart) hle)
              (hincBehind.sublist hpart) hunpassed

theorem settledAll_recover_iff (h : IncreasingAll statements) :
    SettledAll (recover loopEnd? statements) ↔ Clears loopEnd? statements :=
  ⟨clears_of_settledAll h, fun hclears => settledAll_of_clears hclears h⟩

/-- Going through statements again changes nothing if and only if nothing is left over the first time.
Then no number of visits does more than one. -/
theorem recover_again_iff (loopEnd? : Option Nat) (h : IncreasingAll statements) :
    (recover loopEnd? (recover loopEnd? statements) = recover loopEnd? statements ↔
        Clears loopEnd? statements) ∧
      ((∀ visits, (recover loopEnd?)^[visits + 1] statements = recover loopEnd? statements) ↔
        Clears loopEnd? statements) := by
  have hagain : recover loopEnd? (recover loopEnd? statements) = recover loopEnd? statements ↔
      Clears loopEnd? statements := recover_eq_self_iff.trans (settledAll_recover_iff h)
  refine ⟨hagain, fun hvisits => hagain.1 (hvisits 1), fun hclears visits => ?_⟩
  rw [Function.iterate_succ_apply]
  exact Function.iterate_fixed (hagain.2 hclears) visits

def exitAhead : List Statement :=
  [⟨10, .jumpUnless 10 (.leaf .localVariable "a" 0) 20⟩,
    ⟨14, .call 14 "first" .argListNoRet [] false⟩, ⟨17, .jump 17 60⟩,
    ⟨20, .jumpUnless 20 (.leaf .localVariable "b" 0) 30⟩, ⟨24, .call 24 "second" .argListNoRet [] false⟩]

/-- The second condition is left over the first time and becomes a branch the second time. -/
theorem recover_again_exitAhead :
    ¬ Clears (some 50) exitAhead ∧
      ((recover (some 50) exitAhead).map (·.node.isConditional) = [false, true, false]) ∧
      (recover (some 50) (recover (some 50) exitAhead)).map (·.node.isConditional) =
        [false, false] := by
  have hinc : IncreasingAll exitAhead :=
    ⟨by simp [Increasing, exitAhead], by simp [exitAhead, Node.bodies]⟩
  have honce : (recover (some 50) exitAhead).map (·.node.isConditional) = [false, true, false] := by
    decide +kernel
  have htwice : (recover (some 50) (recover (some 50) exitAhead)).map (·.node.isConditional) =
      [false, false] := by
    decide +kernel
  refine ⟨fun hclears => ?_, honce, htwice⟩
  rw [(recover_again_iff (some 50) hinc).1.2 hclears, honce] at htwice
  cases htwice

end Condition

end LingoSource
