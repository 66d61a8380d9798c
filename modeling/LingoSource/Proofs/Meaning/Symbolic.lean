import LingoSource.Proofs.Meaning.Value

set_option autoImplicit false

namespace LingoSource

theorem Node.variableName?_of_isSome {node : Node} (h : node.variableName?.isSome) :
    node.variableName? = some (node.word?.getD Context.unnamed) := by
  unfold variableName? at h ⊢
  split at h <;> simp_all [word?]

namespace Scope

def slotName (s : Scope) : Slot → String
  | .global number => s.name number
  | .parameter index => s.parameterName index
  | .localVariable index => s.localName index

def Variables (s : Scope) : Prop :=
  ∀ node ∈ s.parameters ++ s.locals, node.variableName?.isSome

variable {s : Scope} {index : Nat} {node : Node}

theorem Variables.parameter (hs : s.Variables) (h : s.parameters[index]? = some node) :
    node.variableName? = some (s.slotName (.parameter index)) := by
  have hmem : node ∈ s.parameters ++ s.locals := List.mem_append_left _ (List.mem_of_getElem? h)
  rw [Node.variableName?_of_isSome (hs node hmem), slotName, parameterName_of_getElem? h]

theorem Variables.localVariable (hs : s.Variables) (h : s.locals[index]? = some node) :
    node.variableName? = some (s.slotName (.localVariable index)) := by
  have hmem : node ∈ s.parameters ++ s.locals := List.mem_append_right _ (List.mem_of_getElem? h)
  simp [Node.variableName?_of_isSome (hs node hmem), slotName, localName, localNode, h]

theorem slotName_scale (s : Scope) (scale : Nat) : { s with scale }.slotName = s.slotName := by
  funext slot
  cases slot <;> rfl

end Scope

namespace Straight

inductive Builds (name : Slot → String) (offset : Nat) :
    Straight → List Node → List Node → List Statement → Prop
  | integer (value : Int) (stack : List Node) :
      Builds name offset (.integer value) stack
        (.leaf .constant (toString value) offset :: stack) []
  | unary (op : UnaryOp) (operand : Node) (stack : List Node) :
      Builds name offset (.unary op) (operand :: stack) (.unary offset op operand :: stack) []
  | binary (op : BinaryOp) (left right : Node) (stack : List Node) :
      Builds name offset (.binary op) (right :: left :: stack)
        (.binary offset op left right :: stack) []
  | read {slot : Slot} {node : Node} (h : node.variableName? = some (name slot))
      (stack : List Node) : Builds name offset (.read slot) stack (node :: stack) []
  | store {slot : Slot} {left : Node} (h : left.variableName? = some (name slot))
      (right : Node) (stack : List Node) :
      Builds name offset (.store slot) (right :: stack) stack
        [⟨offset, .assign offset left right⟩]
  | peek {depth : Nat} {node : Node} {stack : List Node} (h : stack[depth]? = some node) :
      Builds name offset (.peek depth) stack (node :: stack) []
  | pop {count : Nat} {stack : List Node} (h : count ≤ stack.length) :
      Builds name offset (.pop count) stack (stack.drop count) []

/-- What an instruction does to the machine, all that matters for straight-line code. -/
structure Performs (instruction : Straight) (offset scale : Nat) (m m' : Machine)
    (emitted : List Statement) : Prop where
  scope_eq : m'.scope = { m.scope with scale }
  builds : instruction.Builds m.scope.slotName offset m.stack m'.stack emitted
  statements_eq : m'.function.statements = m.function.statements ++ emitted

end Straight

structure Machine.Prepares (scale : Nat) (m m' : Machine) : Prop where
  scope_eq : m'.scope = { m.scope with scale }
  stack_eq : m'.stack = m.stack
  statements_eq : m'.function.statements = m.function.statements

namespace Instruction

variable {i : Instruction} {m m' : Machine}

theorem descale_eq_ok {raw index : Nat} (h : (descale raw).run m = .ok index m') :
    index = raw / Context.narrowed m.scope.scale raw ∧
      m.Prepares (Context.narrowed m.scope.scale raw) m' := by
  cases h
  exact ⟨rfl, rfl, rfl, rfl⟩

theorem declareGlobal_eq_ok {name : String} (h : (declareGlobal name).run m = .ok () m') :
    m.Prepares m.scope.scale m' := by
  cases h
  exact ⟨by simp [Machine.scope], rfl, by simp⟩

variable {scale : Nat} {slot : Slot} {node : Node}

theorem performs_integer {value : Int}
    (h : (push (i.leaf .constant (toString value))).run m = .ok () m') :
    (Straight.integer value).Performs i.offset m.scope.scale m m' [] := by
  cases h
  exact ⟨rfl, .integer _ _, (List.append_nil _).symm⟩

theorem performs_unary {op : UnaryOp} (h : (i.unary op).run m = .ok () m') :
    (Straight.unary op).Performs i.offset m.scope.scale m m' [] := by
  obtain ⟨operand, _, hpop, hpush⟩ := run_bind_eq_ok h
  obtain ⟨stack, hstack, rfl⟩ := pop_eq_ok hpop
  cases hpush
  exact ⟨rfl, hstack ▸ .unary op operand stack, (List.append_nil _).symm⟩

theorem performs_binary {op : BinaryOp} (h : (i.binary op).run m = .ok () m') :
    (Straight.binary op).Performs i.offset m.scope.scale m m' [] := by
  obtain ⟨right, _, hright, h⟩ := run_bind_eq_ok h
  obtain ⟨rest, hstack, rfl⟩ := pop_eq_ok hright
  obtain ⟨left, _, hleft, hpush⟩ := run_bind_eq_ok h
  obtain ⟨stack, rfl, rfl⟩ := pop_eq_ok hleft
  cases hpush
  exact ⟨rfl, hstack ▸ .binary op left right stack, (List.append_nil _).symm⟩

theorem performs_peek {depth : Nat} (h : (i.peek depth).run m = .ok () m') :
    (Straight.peek depth).Performs i.offset m.scope.scale m m' [] := by
  obtain ⟨_, _, hget, h⟩ := run_bind_eq_ok h
  cases hget
  obtain ⟨node, _, hlook, hpush⟩ := run_bind_eq_ok h
  obtain ⟨hnode, rfl⟩ := lookUp_eq_ok hlook
  cases hpush
  exact ⟨rfl, .peek hnode, (List.append_nil _).symm⟩

theorem performs_pop {count : Nat} {nodes : List Node}
    (h : (i.popMany count).run m = .ok nodes m') :
    (Straight.pop count).Performs i.offset m.scope.scale m m' [] := by
  obtain ⟨hcount, -, rfl⟩ := popMany_eq_ok h
  exact ⟨rfl, .pop hcount, (List.append_nil _).symm⟩

theorem performs_read {m₁ : Machine} (hprepares : m.Prepares scale m₁)
    (hnode : node.variableName? = some (m.scope.slotName slot))
    (h : (push node).run m₁ = .ok () m') :
    (Straight.read slot).Performs i.offset scale m m' [] := by
  cases h
  refine ⟨hprepares.scope_eq, ?_, ?_⟩
  · exact hprepares.stack_eq ▸ .read hnode _
  · rw [List.append_nil, ← hprepares.statements_eq]

theorem performs_store {m₁ : Machine} (hprepares : m.Prepares scale m₁)
    (hnode : node.variableName? = some (m.scope.slotName slot))
    (h : (i.assign node).run m₁ = .ok () m') :
    ∃ emitted, (Straight.store slot).Performs i.offset scale m m' emitted := by
  obtain ⟨right, _, hpop, hemit⟩ := run_bind_eq_ok h
  obtain ⟨stack, hstack, rfl⟩ := pop_eq_ok hpop
  cases hemit
  refine ⟨[⟨i.offset, .assign i.offset node right⟩], hprepares.scope_eq, ?_, ?_⟩
  · rw [← hprepares.stack_eq, hstack]
    exact .store hnode right stack
  · rw [← hprepares.statements_eq]

theorem step_eq_binary {op : BinaryOp} (h : i.opcode = op.opcode) : i.step = i.binary op := by
  obtain ⟨offset, opcode, operand⟩ := i
  subst h
  cases op <;> rfl

theorem step_performs {instruction : Straight} (hvariables : m.scope.Variables)
    (hi : i.straight? m.scope.scale = some (instruction, scale)) (h : i.step.run m = .ok () m') :
    ∃ emitted, instruction.Performs i.offset scale m m' emitted := by
  unfold straight? at hi
  split at hi <;> rename_i hopcode
  -- the binary operators, and then the opcodes that have a case of their own
  case h_14 =>
    obtain ⟨op, hop, heq⟩ := Option.map_eq_some_iff.1 hi
    cases heq
    rw [step_eq_binary (BinaryOp.ofOpcode?_eq_some_iff.1 hop)] at h
    exact ⟨_, performs_binary h⟩
  all_goals
    cases hi
    simp only [step, hopcode] at h
  -- integers, `minus` and `not`, `peek`, `pop`
  case h_1 | h_2 | h_3 => exact ⟨_, performs_integer h⟩
  case h_4 | h_5 => exact ⟨_, performs_unary h⟩
  case h_12 => exact ⟨_, performs_peek h⟩
  case h_13 =>
    obtain ⟨nodes, _, hpop, hpure⟩ := run_bind_eq_ok h
    cases hpure
    exact ⟨_, performs_pop hpop⟩
  -- reading and writing globals
  case h_6 =>
    obtain ⟨name, _, hname, h⟩ := run_bind_eq_ok h
    obtain ⟨rfl, rfl⟩ := nameAt_eq_ok hname
    obtain ⟨_, m₁, hdeclare, hpush⟩ := run_bind_eq_ok h
    exact ⟨_, performs_read (declareGlobal_eq_ok hdeclare) rfl hpush⟩
  case h_9 =>
    obtain ⟨name, _, hname, h⟩ := run_bind_eq_ok h
    obtain ⟨rfl, rfl⟩ := nameAt_eq_ok hname
    obtain ⟨_, m₁, hdeclare, hassign⟩ := run_bind_eq_ok h
    exact performs_store (declareGlobal_eq_ok hdeclare) rfl hassign
  -- parameters and locals have a scaled operand
  all_goals
    obtain ⟨_, m₁, hdescale, h⟩ := run_bind_eq_ok h
    obtain ⟨rfl, hprepares⟩ := descale_eq_ok hdescale
    obtain ⟨node, _, hnode, hrest⟩ := run_bind_eq_ok h
  case h_7 =>
    obtain ⟨hentry, rfl⟩ := parameterAt_eq_ok hnode
    rw [hprepares.scope_eq] at hentry
    refine ⟨_, performs_read hprepares ?_ hrest⟩
    exact congrArg some (Scope.parameterName_of_getElem? hentry).symm
  case h_10 =>
    obtain ⟨hentry, rfl⟩ := parameterAt_eq_ok hnode
    rw [hprepares.scope_eq] at hentry
    exact performs_store hprepares (hvariables.parameter hentry) hrest
  case h_8 =>
    obtain ⟨hentry, rfl⟩ := localAt_eq_ok hnode
    rw [hprepares.scope_eq] at hentry
    exact ⟨_, performs_read hprepares (hvariables.localVariable hentry) hrest⟩
  case h_11 =>
    obtain ⟨hentry, rfl⟩ := localAt_eq_ok hnode
    rw [hprepares.scope_eq] at hentry
    exact performs_store hprepares (hvariables.localVariable hentry) hrest

theorem straightLine?_cons {scale : Nat} {rest : List Instruction} {code : List Straight}
    (h : straightLine? scale (i :: rest) = some code) :
    ∃ instruction next tail, i.straight? scale = some (instruction, next) ∧
      straightLine? next rest = some tail ∧ code = instruction :: tail := by
  obtain ⟨⟨instruction, next⟩, hi, h⟩ := Option.bind_eq_some_iff.1 h
  obtain ⟨tail, htail, h⟩ := Option.bind_eq_some_iff.1 h
  exact ⟨instruction, next, tail, hi, htail, (Option.some.inj h).symm⟩

end Instruction

end LingoSource
