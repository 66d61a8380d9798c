import LingoSource.Proofs.Instruction.Success

/-!
How deep the stack is. An operation that only works on the stack needs so many nodes on it, takes them and
gives others, whatever the nodes are; so the depths at which a sequence of such operations starts tell
whether it runs through, how deep the stack is then, and at which operation it stops else.
-/
set_option autoImplicit false

namespace LingoSource

open Operation Instruction

/-- The operations that do nothing but work on the stack. -/
inductive StackOperation
  | zero
  | int8 (byte : Nat)
  | int16 (word : Nat)
  | binary (op : BinaryOp)
  | unary (op : PrefixOp)
  | list (kind : ListKind) (wide : Bool) (count : Nat)
  | peek (depth : Nat)
  | pop (count : Nat)

namespace StackOperation

def operation : StackOperation → Operation
  | .zero => ⟨.pushZero, 0⟩
  | .int8 byte => ⟨.pushInt8, byte⟩
  | .int16 word => ⟨.pushInt16, word⟩
  | .binary op => ⟨op.opcode, 0⟩
  | .unary op => ⟨op.opcode, 0⟩
  | .list .argListNoRet false count => ⟨.pushArgListNoRet, count⟩
  | .list .argListNoRet true count => ⟨.pushArgListNoRet16, count⟩
  | .list .argList false count => ⟨.pushArgList, count⟩
  | .list .argList true count => ⟨.pushArgList16, count⟩
  | .peek depth => ⟨.peek, depth⟩
  | .pop count => ⟨.pop, count⟩

def needs : StackOperation → Nat
  | .zero | .int8 _ | .int16 _ => 0
  | .binary _ => 2
  | .unary _ => 1
  | .list _ _ count => count
  | .peek depth => depth + 1
  | .pop count => count

def gives : StackOperation → Nat
  | .zero | .int8 _ | .int16 _ | .binary _ | .unary _ | .list .. => 1
  | .peek depth => depth + 2
  | .pop _ => 0

def depthAfter (depth : Nat) (op : StackOperation) : Nat :=
  depth - op.needs + op.gives

def depthAfterAll (depth : Nat) (ops : List StackOperation) : Nat :=
  ops.foldl depthAfter depth

def Suffices : Nat → List StackOperation → Prop
  | _, [] => True
  | depth, op :: rest => op.needs ≤ depth ∧ Suffices (op.depthAfter depth) rest

/-- What is raised where the stack is too short: a copy is looked up in the stack, all else is popped. -/
def shortage (offset : Nat) (op : StackOperation) : RecoveryError :=
  match op with
  | .peek depth => .indexOutOfRange offset Opcode.peek.byte .stack depth
  | op => .stackUnderflow offset op.operation.opcode.byte

def instruction (offset : Nat) (op : StackOperation) : Instruction :=
  ⟨offset, op.operation.opcode, op.operation.operand⟩

section Step

variable (offset : Nat) {m : Machine} {count : Nat}

theorem run_bind_of_error {α β : Type} {x : Recovering α} {f : α → Recovering β} {m' : Machine}
    {e : RecoveryError} (h : x.run m = .error e m') : (x >>= f).run m = .error e m' := by
  change EStateM.bind x f m = _
  unfold EStateM.bind
  rw [show x m = .error e m' from h]

theorem run_popMany_take (i : Instruction) (h : count ≤ m.stack.length) :
    (i.popMany count).run m =
      .ok (m.stack.take count).reverse { m with stack := m.stack.drop count } :=
  if_pos h

theorem run_popMany_short (i : Instruction) (h : ¬ count ≤ m.stack.length) :
    (i.popMany count).run m = .error (.stackUnderflow i.offset i.opcode.byte) m :=
  if_neg h

theorem step_list (kind : ListKind) (wide : Bool) :
    (instruction offset (.list kind wide count)).step =
      (instruction offset (.list kind wide count)).loadArguments kind count := by
  cases kind <;> cases wide <;> rfl

/-- An operation that has what it needs puts what it gives in its place, and does nothing else. -/
theorem step_of_needs_le {op : StackOperation} (h : op.needs ≤ m.stack.length) :
    ∃ stack, stack.length = op.depthAfter m.stack.length ∧
      (op.instruction offset).step.run m = .ok () { m with stack } := by
  cases op with
  | zero => exact ⟨_ :: m.stack, by simp [depthAfter, needs, gives], rfl⟩
  | int8 byte => exact ⟨_ :: m.stack, by simp [depthAfter, needs, gives], rfl⟩
  | int16 word => exact ⟨_ :: m.stack, by simp [depthAfter, needs, gives], rfl⟩
  | binary op =>
    obtain ⟨right, left, stack, hstack⟩ : ∃ right left stack, m.stack = right :: left :: stack := by
      match hstack : m.stack with
      | [] | [_] => simp [hstack, needs] at h
      | right :: left :: stack => exact ⟨right, left, stack, rfl⟩
    refine ⟨_ :: stack, ?_, step_binary offset op hstack⟩
    simp [hstack, depthAfter, needs, gives]
  | unary op =>
    obtain ⟨node, stack, hstack⟩ := List.exists_cons_of_length_pos (Nat.lt_of_succ_le h)
    refine ⟨_ :: stack, ?_, step_unary offset op hstack⟩
    simp [hstack, depthAfter, needs, gives]
  | list kind wide count =>
    let node : Node := .arguments offset kind (m.stack.take count).reverse
    refine ⟨node :: m.stack.drop count, by simp [depthAfter, needs, gives], ?_⟩
    rw [step_list]
    exact run_bind_eq_ok_iff.2 ⟨_, _, run_popMany_take _ h, rfl⟩
  | peek depth =>
    have hnode : m.stack[depth]? = some m.stack[depth] := List.getElem?_eq_getElem h
    refine ⟨m.stack[depth] :: m.stack, ?_, ?_⟩
    · simp only [depthAfter, needs, gives, List.length_cons] at h ⊢
      omega
    · exact run_bind_eq_ok_iff.2 ⟨m, m, rfl,
        run_bind_eq_ok_iff.2 ⟨_, m, run_lookUp _ .stack hnode m, rfl⟩⟩
  | pop count =>
    refine ⟨m.stack.drop count, by simp [depthAfter, needs, gives], ?_⟩
    exact run_bind_eq_ok_iff.2 ⟨_, _, run_popMany_take _ h, rfl⟩

theorem step_of_lt_needs {op : StackOperation} (h : m.stack.length < op.needs) :
    ∃ m', (op.instruction offset).step.run m = .error (op.shortage offset) m' := by
  have hshort : ¬ op.needs ≤ m.stack.length := Nat.not_le.2 h
  cases op with
  | zero | int8 _ | int16 _ => exact absurd h (Nat.not_lt_zero _)
  | binary op =>
    obtain ⟨context, function, stack⟩ := m
    match stack with
    | [] | [_] => exact ⟨_, by cases op <;> rfl⟩
    | _ :: _ :: rest => exact absurd (Nat.le_add_left 2 rest.length) hshort
  | unary op =>
    obtain ⟨context, function, stack⟩ := m
    obtain rfl : stack = [] := List.length_eq_zero_iff.1 (Nat.lt_one_iff.1 h)
    exact ⟨_, by cases op <;> rfl⟩
  | list kind wide count =>
    rw [step_list]
    exact ⟨m, run_bind_of_error (run_popMany_short _ hshort)⟩
  | peek depth =>
    have hnone : m.stack[depth]? = none := List.getElem?_eq_none (Nat.le_of_lt_succ h)
    have hlook : (lookUp (instruction offset (.peek depth)) .stack m.stack depth).run m =
        .error (.indexOutOfRange offset Opcode.peek.byte .stack depth) m := by
      simp [lookUp, hnone]
      rfl
    refine ⟨m, ?_⟩
    change (lookUp (instruction offset (.peek depth)) .stack m.stack depth >>= push).run m = _
    exact run_bind_of_error hlook
  | pop count => exact ⟨m, run_bind_of_error (run_popMany_short _ hshort)⟩

end Step

theorem run_assemble_eq {ops : List Operation} (h : ∀ op ∈ ops, op.Fits) (offset : Nat) (m : Machine) :
    (run offset (assemble ops)).run m = ((place offset ops).forM step).run m := by
  unfold run
  rw [decode_assemble h]
  change EStateM.bind _ _ m = _
  unfold EStateM.bind
  cases hrun : (place offset ops).forM step m <;> exact hrun.symm

variable {ops : List StackOperation} {m : Machine}

theorem place_map_cons (offset : Nat) (op : StackOperation) (rest : List StackOperation) :
    place offset ((op :: rest).map operation) =
      op.instruction offset :: place (offset + op.operation.size) (rest.map operation) :=
  rfl

theorem steps_of_suffices (offset : Nat) (h : Suffices m.stack.length ops) :
    ∃ stack, stack.length = depthAfterAll m.stack.length ops ∧
      Steps (place offset (ops.map operation)) m { m with stack } := by
  induction ops generalizing offset m with
  | nil => exact ⟨m.stack, rfl, .nil m⟩
  | cons op rest ih =>
    obtain ⟨hop, hrest⟩ := h
    obtain ⟨stack, hlength, hstep⟩ := step_of_needs_le offset hop
    rw [← hlength] at hrest
    obtain ⟨stack', hlength', hsteps⟩ := ih _ (m := { m with stack }) hrest
    refine ⟨stack', ?_, .cons hstep hsteps⟩
    rw [hlength', hlength]
    rfl

theorem error_of_not_suffices (offset : Nat) (h : ¬ Suffices m.stack.length ops) :
    ∃ before op after m', ops = before ++ op :: after ∧ Suffices m.stack.length before ∧
      depthAfterAll m.stack.length before < op.needs ∧
      ((place offset (ops.map operation)).forM step).run m =
        .error (op.shortage (offset + sizeAll (before.map operation))) m' := by
  induction ops generalizing offset m with
  | nil => exact absurd trivial h
  | cons op rest ih =>
    rw [place_map_cons, run_forM_cons]
    by_cases hop : op.needs ≤ m.stack.length
    · obtain ⟨stack, hlength, hstep⟩ := step_of_needs_le offset hop
      have hrest : ¬ Suffices stack.length rest := fun hrest => h ⟨hop, hlength ▸ hrest⟩
      obtain ⟨before, failing, after, m', rfl, hbefore, hneeds, herror⟩ :=
        ih _ (m := { m with stack }) hrest
      rw [hlength] at hbefore hneeds
      refine ⟨op :: before, failing, after, m', rfl, ⟨hop, hbefore⟩, hneeds, ?_⟩
      rw [hstep, List.map_cons, sizeAll, ← Nat.add_assoc]
      exact herror
    · obtain ⟨m', hstep⟩ := step_of_lt_needs offset (Nat.not_le.1 hop)
      refine ⟨[], op, rest, m', rfl, trivial, Nat.not_le.1 hop, ?_⟩
      rw [hstep]
      rfl

/-- A sequence of such operations runs through exactly if none of them needs more than there is. Then the
stack has the depth that follows from theirs, and nothing else has changed. If not, the first that needs
more fails, and the error names it by its offset and its code. -/
theorem run_eq_ok_iff_suffices (hfits : ∀ op ∈ ops, op.operation.Fits) (offset : Nat) (m : Machine) :
    ((∃ m', (run offset (assemble (ops.map operation))).run m = .ok () m') ↔
        Suffices m.stack.length ops) ∧
      (∀ m', (run offset (assemble (ops.map operation))).run m = .ok () m' →
        m'.stack.length = depthAfterAll m.stack.length ops ∧ m' = { m with stack := m'.stack }) ∧
      (∀ e m', (run offset (assemble (ops.map operation))).run m = .error e m' →
        ∃ before op after, ops = before ++ op :: after ∧ Suffices m.stack.length before ∧
          depthAfterAll m.stack.length before < op.needs ∧
          e = op.shortage (offset + sizeAll (before.map operation))) := by
  have hall : ∀ op ∈ ops.map operation, op.Fits := by simpa using hfits
  have hrun := run_assemble_eq hall offset m
  by_cases h : Suffices m.stack.length ops
  · obtain ⟨stack, hlength, hsteps⟩ := steps_of_suffices offset h
    have hok := hrun.trans hsteps
    refine ⟨⟨fun _ => h, fun _ => ⟨_, hok⟩⟩, fun m' hm' => ?_, fun e m' hm' => ?_⟩
    · rw [hok] at hm'
      cases hm'
      exact ⟨hlength, rfl⟩
    · rw [hok] at hm'
      cases hm'
  · obtain ⟨before, op, after, m₁, hsplit, hbefore, hneeds, herror⟩ :=
      error_of_not_suffices offset h
    have hfail := hrun.trans herror
    refine ⟨⟨fun ⟨m', hm'⟩ => ?_, fun hs => absurd hs h⟩, fun m' hm' => ?_, fun e m' hm' => ?_⟩
    · rw [hfail] at hm'
      cases hm'
    · rw [hfail] at hm'
      cases hm'
    · rw [hfail] at hm'
      cases hm'
      exact ⟨before, op, after, hsplit, hbefore, hneeds, rfl⟩

/-- A list of a difference and its copy, and a copy of what is not there. -/
theorem run_eq_ok_iff_suffices_pair :
    let m : Machine := ⟨.create [] [] 6, { name := "f", position := 0 }, []⟩
    let pair : List StackOperation :=
      [.int8 255, .zero, .binary .sub, .peek 0, .list .argList true 2]
    let missing : List StackOperation := [.int16 300, .peek 1]
    (∃ m', (run 64 (assemble (pair.map operation))).run m = .ok () m' ∧ m'.stack.length = 1) ∧
      ¬ ∃ m', (run 64 (assemble (missing.map operation))).run m = .ok () m' := by
  intro m pair missing
  have hfits : ∀ op ∈ pair, op.operation.Fits := by decide
  have hfitsMissing : ∀ op ∈ missing, op.operation.Fits := by decide
  obtain ⟨hpair, hdepth, -⟩ := run_eq_ok_iff_suffices hfits 64 m
  obtain ⟨hmissing, -⟩ := run_eq_ok_iff_suffices hfitsMissing 64 m
  have hsuffices : Suffices m.stack.length pair := by
    simp [pair, m, Suffices, needs, gives, depthAfter]
  have hshort : ¬ Suffices m.stack.length missing := by
    simp [missing, m, Suffices, needs, gives, depthAfter]
  obtain ⟨m', hrun⟩ := hpair.2 hsuffices
  exact ⟨⟨m', hrun, (hdepth m' hrun).1⟩, fun h => hshort (hmissing.1 h)⟩

end StackOperation

end LingoSource
