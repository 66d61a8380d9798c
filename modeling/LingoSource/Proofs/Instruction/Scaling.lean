import LingoSource.Proofs.Instruction.Stability

/-!
Scaled operands of instructions. An instruction with such an operand first narrows the scale and then works
with one entry of a table. Nothing else touches the scale, so the scale that a run leaves comes from the
operands of its instructions alone.
-/
set_option autoImplicit false

namespace LingoSource

/-- How an operation that scales an index from the stack changes the local variable. -/
def PairOpcode.localMode? : PairOpcode → Option PutMode
  | .assignIntoLocal => some .into
  | .assignAfterLocal => some .after
  | .assignBeforeLocal => some .before
  | _ => none

namespace Instruction

def putAt (i : Instruction) (mode : PutMode) (index : Nat) : Recovering Unit := do
  let _ ← i.popIndex
  i.put mode (← i.localAt index)

def stepAt (i : Instruction) (index : Nat) : Recovering Unit := do
  match i.opcode with
  | .pushCons | .pushCons16 =>
    push (i.leaf .constant (← i.lookUp .constants (← get).context.constants index))
  | .getParam =>
    push (i.leaf .parameterName ((← i.parameterAt index).word?.getD Context.unnamed))
  | .getLocal => push (← i.localAt index)
  | .setParam => i.assign (← i.parameterAt index)
  | .setLocal => i.assign (← i.localAt index)
  | .assignMode | .putChunk | .deleteChunk | .get | .set =>
    match (PairOpcode.ofBytes? i.opcode.byte (UInt8.ofNat i.operand)).bind (·.localMode?) with
    | some mode => i.putAt mode index
    | none => pure ()
  | _ => pure ()

variable {i : Instruction} {m m' : Machine} {raw : Nat}

theorem run_popIndex (h : m.topIndex? = some raw) :
    ∃ stack, ∀ context, i.popIndex.run { m with context } = .ok raw { m with context, stack } := by
  obtain ⟨context₀, function, stack⟩ := m
  unfold Machine.topIndex? at h
  split at h
  · rename_i text position rest hstack
    obtain rfl := hstack
    refine ⟨rest, fun context => ?_⟩
    let m : Machine := ⟨context, function, .leaf .constant text position :: rest⟩
    have hpop : i.pop.run m = .ok (.leaf .constant text position) { m with stack := rest } := rfl
    simp [popIndex, m, hpop, h]
  · cases h

theorem run_putIntoLocal (mode : PutMode) (h : m.topIndex? = some raw) :
    (i.putIntoLocal mode).run m =
      (i.putAt mode (m.context.descale raw).1).run (m.descaled raw) := by
  obtain ⟨stack, hpop⟩ := run_popIndex (i := i) h
  have hm := hpop m.context
  have hdescaled := hpop (m.context.descale raw).2
  change EStateM.bind i.popIndex _ m = EStateM.bind i.popIndex _ (m.descaled raw)
  unfold EStateM.bind
  rw [show i.popIndex m = _ from hm, show i.popIndex (m.descaled raw) = _ from hdescaled]
  rfl

theorem run_stepPair {pair : PairOpcode} {mode : PutMode} (hmode : pair.localMode? = some mode)
    (h : m.topIndex? = some raw) :
    (i.stepPair pair).run m =
      (i.putAt mode (m.context.descale raw).1).run (m.descaled raw) := by
  cases pair with
  | assignIntoLocal | assignAfterLocal | assignBeforeLocal =>
    cases hmode
    exact run_putIntoLocal _ h
  | _ => cases hmode

theorem localMode?_of_scalesIndex {pair : PairOpcode} (h : pair.scalesIndex = true) :
    ∃ mode, pair.localMode? = some mode := by
  cases pair <;> first | exact ⟨_, rfl⟩ | cases h

theorem step_eq_stepAt (h : i.scaled? m = some raw) :
    i.step.run m = (i.stepAt (m.context.descale raw).1).run (m.descaled raw) := by
  obtain ⟨offset, opcode, operand⟩ := i
  cases opcode with
  | pushCons | pushCons16 | getParam | getLocal | setParam | setLocal =>
    cases h
    rfl
  | assignMode | putChunk | deleteChunk | get | set =>
    dsimp only [step, stepAt, scaled?] at h ⊢
    obtain ⟨pair, hpair, htop⟩ := Option.bind_eq_some_iff.1 h
    split at htop
    · rename_i hscales
      obtain ⟨mode, hmode⟩ := localMode?_of_scalesIndex hscales
      simp only [hpair, Option.bind_some, hmode]
      exact run_stepPair hmode htop
    · cases htop
  | _ => cases h

theorem keeps_stepAt {R : Machine → Machine → Prop} [i.Admits R] (index : Nat) :
    i.Keeps R (i.stepAt index) := by
  obtain ⟨offset, opcode, operand⟩ := i
  cases opcode with
  | pushCons | pushCons16 =>
    exact .bind .get fun _ => .bind (keeps_lookUp _ _ _) fun _ => keeps_push _
  | getParam => exact .bind (keeps_parameterAt _) fun _ => keeps_push _
  | getLocal => exact .bind (keeps_localAt _) fun _ => keeps_push _
  | setParam => exact .bind (keeps_parameterAt _) fun _ => keeps_assign _
  | setLocal => exact .bind (keeps_localAt _) fun _ => keeps_assign _
  | assignMode | putChunk | deleteChunk | get | set =>
    dsimp only [stepAt]
    split
    · exact .bind keeps_popIndex fun _ => .bind (keeps_localAt _) fun _ => keeps_put _ _
    · exact .pure _
  | _ => exact .pure _

theorem Ends.left {R : Machine → Machine → Prop} {result : EStateM.Result RecoveryError Machine Unit}
    (h : i.Ends R m result) : R m (Instruction.left result) := by
  cases h with
  | ok h => exact h
  | error h _ => exact h

/-- Only its own scaled operand narrows the scale that an instruction meets, whether it fails or not. -/
theorem scale_left_step (i : Instruction) (m : Machine) :
    (left (i.step.run m)).context.scale =
      (i.scaled? m).toList.foldl Context.narrowed m.context.scale := by
  cases hraw : i.scaled? m with
  | none =>
    have hends : i.Ends Machine.SameTables m (i.step.run m) := ends_step i fun _ h => by simp [hraw] at h
    exact hends.left.scale
  | some raw =>
    rw [step_eq_stepAt hraw]
    have hkeeps : i.Keeps Machine.SameTables (i.stepAt (m.context.descale raw).1) := keeps_stepAt _
    exact (hkeeps (m.descaled raw)).left.scale

/-- The operands that a run brings to scale, in order, as far as the run gets. -/
def operands : List Instruction → Machine → List Nat
  | [], _ => []
  | i :: rest, m =>
    (i.scaled? m).toList ++
      match i.step.run m with
      | .ok () m' => operands rest m'
      | .error _ _ => []

theorem scale_left_forM (instructions : List Instruction) (m : Machine) :
    (left ((instructions.forM step).run m)).context.scale =
      (operands instructions m).foldl Context.narrowed m.context.scale := by
  induction instructions generalizing m with
  | nil => rfl
  | cons i rest ih =>
    have hstep := scale_left_step i m
    rw [run_forM_cons, operands, List.foldl_append, ← hstep]
    cases i.step.run m with
    | ok _ m₁ => exact ih m₁
    | error e m₁ => rfl

theorem Steps.scale_eq {instructions : List Instruction} (h : Steps instructions m m') :
    m'.context.scale = (operands instructions m).foldl Context.narrowed m.context.scale := by
  rw [← scale_left_forM, h, left]

theorem scale_left_run (offset : Nat) (bytecode : List UInt8) (m : Machine) :
    (left ((run offset bytecode).run m)).context.scale =
      (operands (decode offset bytecode).1 m).foldl Context.narrowed m.context.scale := by
  unfold run
  rcases hdecode : decode offset bytecode with ⟨instructions, stop⟩
  rw [← scale_left_forM]
  change (left (EStateM.bind (instructions.forM step) _ m)).context.scale =
    (left (instructions.forM step m)).context.scale
  unfold EStateM.bind
  cases instructions.forM step m with
  | ok _ m₁ => cases stop <;> rfl
  | error e m₁ => rfl

end Instruction

end LingoSource
