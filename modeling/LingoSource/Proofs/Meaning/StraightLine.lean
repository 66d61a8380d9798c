import LingoSource.Proofs.Meaning.Symbolic
import LingoSource.Proofs.Program.RoundTrip

/-!
Straight-line code keeps its meaning. The machine of the code computes values when it pushes them;
the statements that are recovered from it compute them when a store is reached. Both end in the same
store if no store changes a variable that an expression on the stack reads.
-/
set_option autoImplicit false

namespace LingoSource

open Instruction

/-- At no store does an expression that stays on the stack read the variable. -/
def Machine.StoresUnread (m : Machine) (instructions : List Instruction)
    (code : List Straight) : Prop :=
  ∀ n slot m₁, code[n]? = some (.store slot) → Steps (instructions.take n) m m₁ →
    ∀ node ∈ m₁.stack.tail, m.scope.slotName slot ∉ node.reads

/-- Two stores, by slot and by name, hold the same where they are used, and what they held at first
elsewhere. -/
structure SameStore {α : Type} (name : Slot → String) (used : List Slot) (ρ₀ ρ : Slot → α)
    (σ₀ σ : String → α) : Prop where
  same : ∀ slot ∈ used, ρ slot = σ (name slot)
  unused : ∀ slot ∉ used, ρ slot = ρ₀ slot
  others : ∀ n ∉ used.map name, σ n = σ₀ n

/-- The values on the stack of the machine are those of the nodes in the store of the names. -/
structure Simulates {α : Type} (I : Interpretation α) (name : Slot → String) (used : List Slot)
    (ρ₀ : Slot → α) (σ₀ : String → α) (k : StackMachine α) (σ : String → α)
    (stack : List Node) : Prop where
  stores : SameStore name used ρ₀ k.store σ₀ σ
  values : stack.map (·.value? I σ) = k.stack.map some

section

variable {α : Type} {I : Interpretation α} {name : Slot → String} {used : List Slot}
  {ρ₀ ρ : Slot → α} {σ₀ σ : String → α} {k : StackMachine α}

theorem SameStore.update (h : SameStore name used ρ₀ ρ σ₀ σ)
    (hnames : Set.InjOn name {slot | slot ∈ used}) {slot : Slot} (hslot : slot ∈ used) (a : α) :
    SameStore name used ρ₀ (Function.update ρ slot a) σ₀ (Function.update σ (name slot) a) where
  same t ht := by
    by_cases heq : t = slot
    · subst heq
      simp
    · rw [Function.update_of_ne heq, h.same t ht,
        Function.update_of_ne (fun hname => heq (hnames ht hslot hname))]
  unused t ht := by
    have hne : t ≠ slot := fun heq => ht (heq ▸ hslot)
    rw [Function.update_of_ne hne, h.unused t ht]
  others n hn := by
    have hne : n ≠ name slot := fun heq => hn (heq ▸ List.mem_map_of_mem hslot)
    rw [Function.update_of_ne hne, h.others n hn]

/-- What one instruction does on the stack of expressions is what it does on values. -/
theorem Straight.Builds.simulates {instruction : Straight} {offset : Nat} {stack stack' : List Node}
    {emitted : List Statement} (hbuilds : instruction.Builds name offset stack stack' emitted)
    (hnames : Set.InjOn name {slot | slot ∈ used})
    (hused : ∀ slot ∈ instruction.slot?, slot ∈ used)
    (hunread : ∀ slot, instruction = .store slot → ∀ node ∈ stack.tail, name slot ∉ node.reads)
    (h : Simulates I name used ρ₀ σ₀ k σ stack) :
    ∃ k' σ', k.step I instruction = some k' ∧ Statement.executeAll I σ emitted = some σ' ∧
      Simulates I name used ρ₀ σ₀ k' σ' stack' := by
  obtain ⟨hstores, hvalues⟩ := h
  obtain ⟨values, ρ⟩ := k
  cases hbuilds with
  | integer value =>
    refine ⟨_, σ, rfl, rfl, hstores, ?_⟩
    rw [List.map_cons, Node.value?_integer, hvalues, List.map_cons]
  | unary op operand stack =>
    obtain ⟨a, values, rfl, ha, hrest⟩ := List.map_eq_cons_iff.1 hvalues.symm
    refine ⟨_, σ, rfl, rfl, hstores, ?_⟩
    rw [List.map_cons, Node.value?_unary ha.symm, ← hrest, List.map_cons]
  | binary op left right stack =>
    obtain ⟨b, _, rfl, hb, hvalues⟩ := List.map_eq_cons_iff.1 hvalues.symm
    obtain ⟨a, values, rfl, ha, hrest⟩ := List.map_eq_cons_iff.1 hvalues
    refine ⟨_, σ, rfl, rfl, hstores, ?_⟩
    rw [List.map_cons, Node.value?_binary ha.symm hb.symm, ← hrest, List.map_cons]
  | @read slot node hnode =>
    refine ⟨_, σ, rfl, rfl, hstores, ?_⟩
    rw [List.map_cons, Node.value?_of_variableName? hnode, ← hstores.same slot (hused slot rfl),
      hvalues, List.map_cons]
  | @store slot left hleft right stack =>
    obtain ⟨a, values, rfl, ha, hrest⟩ := List.map_eq_cons_iff.1 hvalues.symm
    refine ⟨_, Function.update σ (name slot) a, rfl, ?_,
      hstores.update hnames (hused slot rfl) a, ?_⟩
    · simp [Statement.executeAll, Statement.execute_assign hleft ha.symm]
    · -- what is still on the stack does not read the variable
      rw [hrest]
      exact List.map_congr_left fun node hnode => Node.value?_update (hunread slot rfl node hnode) a
  | @peek depth node _ hnode =>
    have hentry : (values.map some)[depth]? = some (node.value? I σ) := by
      rw [← hvalues, List.getElem?_map, hnode, Option.map_some]
    obtain ⟨a, ha, hvalue⟩ := Option.map_eq_some_iff.1 (List.getElem?_map ▸ hentry)
    refine ⟨⟨a :: values, ρ⟩, σ, by simp [StackMachine.step, ha], rfl, hstores, ?_⟩
    rw [List.map_cons, ← hvalue, hvalues, List.map_cons]
  | @pop count _ hcount =>
    have hlength : stack.length = values.length := by simpa using congrArg List.length hvalues
    refine ⟨⟨values.drop count, ρ⟩, σ, ?_, rfl, hstores, ?_⟩
    · simp [StackMachine.step, ← hlength, hcount]
    · rw [List.map_drop, hvalues, List.map_drop]

theorem Machine.StoresUnread.rest {m m₁ : Machine} {i : Instruction}
    {instructions : List Instruction} {instruction : Straight} {code : List Straight} {scale : Nat}
    (h : m.StoresUnread (i :: instructions) (instruction :: code))
    (hi : i.step.run m = .ok () m₁) (hscope : m₁.scope = { m.scope with scale }) :
    m₁.StoresUnread instructions code := by
  intro n slot m₂ hn hsteps
  rw [hscope, Scope.slotName_scale]
  exact h (n + 1) slot m₂ hn (.cons hi hsteps)

theorem Instruction.Steps.simulates {instructions : List Instruction} {code : List Straight}
    {m m' : Machine} (hsteps : Steps instructions m m')
    (hcode : straightLine? m.scope.scale instructions = some code)
    (hvariables : m.scope.Variables) (hunread : m.StoresUnread instructions code)
    (hnames : Set.InjOn m.scope.slotName {slot | slot ∈ used})
    (hused : ∀ slot ∈ slots code, slot ∈ used)
    (h : Simulates I m.scope.slotName used ρ₀ σ₀ k σ m.stack) :
    ∃ k' σ' emitted, k.run I code = some k' ∧
      m'.function.statements = m.function.statements ++ emitted ∧
      Statement.executeAll I σ emitted = some σ' ∧
      Simulates I m.scope.slotName used ρ₀ σ₀ k' σ' m'.stack := by
  induction instructions generalizing m k σ code with
  | nil =>
    cases hsteps
    cases hcode
    exact ⟨k, σ, [], rfl, (List.append_nil _).symm, rfl, h⟩
  | cons i instructions ih =>
    obtain ⟨m₁, hi, hrest⟩ := hsteps.uncons
    obtain ⟨instruction, scale, code, hinstruction, hcode', rfl⟩ := straightLine?_cons hcode
    obtain ⟨emitted, hscope, hbuilds, hstatements⟩ := step_performs hvariables hinstruction hi
    have hslot : ∀ slot ∈ instruction.slot?, slot ∈ used := fun slot hslot =>
      hused slot (List.mem_filterMap.2 ⟨instruction, by simp, hslot⟩)
    have hslots : ∀ slot ∈ slots code, slot ∈ used := fun slot hslot =>
      hused slot (((List.sublist_cons_self _ _).filterMap _).subset hslot)
    have hhead : ∀ slot, instruction = .store slot →
        ∀ node ∈ m.stack.tail, m.scope.slotName slot ∉ node.reads :=
      fun slot heq => hunread 0 slot m (by simp [heq]) (.nil m)
    obtain ⟨k₁, σ₁, hk₁, hσ₁, h₁⟩ := hbuilds.simulates hnames hslot hhead h
    have hname : m₁.scope.slotName = m.scope.slotName := by rw [hscope, Scope.slotName_scale]
    have hscale : m₁.scope.scale = scale := by rw [hscope]
    have hvariables₁ : m₁.scope.Variables := by
      rw [hscope]
      exact hvariables
    obtain ⟨k', σ', emitted', hk', hstatements', hσ', h'⟩ := ih hrest (hscale ▸ hcode') hvariables₁
      (hunread.rest hi hscope) (hname ▸ hnames) hslots (hname ▸ h₁)
    refine ⟨k', σ', emitted ++ emitted', ?_, ?_, ?_, hname ▸ h'⟩
    · simp only [StackMachine.run, List.foldlM_cons, hk₁]
      exact hk'
    · rw [hstatements', hstatements, List.append_assoc]
    · rw [Statement.executeAll_append hσ₁, hσ']

end

namespace Handler

variable {c : Context} {h : Handler}

theorem scope_variables (c : Context) (h : Handler) : (h.scope c).Variables := by
  intro node hnode
  rcases List.mem_append.1 hnode with hnode | hnode
  all_goals
    obtain ⟨v, -, rfl⟩ := List.mem_map.1 hnode
    rfl

/-- Straight-line code keeps its meaning, whatever its operators mean and whatever its variables
hold at first: the statements that are recovered leave the variables as the code leaves them, and
the expressions that are still on the stack have the values that the code leaves there. -/
theorem executeAll_of_run {m : Machine} {code : List Straight} {α : Type} (I : Interpretation α)
    (ρ : Slot → α) (σ : String → α)
    (hrun : (Instruction.run h.record.codeOffset h.bytecode).run (h.start c) = .ok () m)
    (hcode : straightLine? c.scale (decode h.record.codeOffset h.bytecode).1 = some code)
    (hnames : Set.InjOn (h.scope c).slotName {slot | slot ∈ slots code})
    (hunread : (h.start c).StoresUnread (decode h.record.codeOffset h.bytecode).1 code)
    (hstore : ∀ slot ∈ slots code, ρ slot = σ ((h.scope c).slotName slot)) :
    ∃ k σ', StackMachine.run I ⟨[], ρ⟩ code = some k ∧
      Statement.executeAll I σ m.function.statements = some σ' ∧
      SameStore (h.scope c).slotName (slots code) ρ k.store σ σ' ∧
      m.stack.map (·.value? I σ') = k.stack.map some := by
  have hstart : Simulates I (h.start c).scope.slotName (slots code) ρ σ ⟨[], ρ⟩ σ [] :=
    ⟨⟨hstore, fun _ _ => rfl, fun _ _ => rfl⟩, rfl⟩
  obtain ⟨k, σ', emitted, hk, hstatements, hσ', hsame, hvalues⟩ :=
    (steps_of_run hrun).simulates hcode (scope_variables c h) hunread hnames
      (fun _ hslot => hslot) hstart
  rw [hstatements]
  exact ⟨k, σ', hk, hσ', hsame, hvalues⟩

def arithmetic : Interpretation Int where
  integer n := n
  unary
    | .minus, a => -a
    | _, a => a
  binary
    | .add, a, b => a + b
    | .mul, a, b => a * b
    | _, a, _ => a

def doublingContext : Context := .create ["run", "p", "x", "g"] [] 6

/-- `x = g + p`, `g = (g + p) * 2`, where the sum is computed once; a zero is dropped and `-x` stays
on the stack. -/
def doubling : Handler where
  record := ⟨0, 20, 92, 1, 112, 1, 114, 158⟩
  parameters := [⟨1, 112⟩]
  locals := [⟨2, 114⟩]
  bytecode := [0x49, 3, 0x4b, 0, 0x05, 0x64, 0, 0x52, 0, 0x41, 2, 0x04, 0x4f, 3, 0x4c, 0, 0x09, 0x03,
    0x65, 1]

def doublingCode : List Straight :=
  [.read (.global 3), .read (.parameter 0), .binary .add, .peek 0, .store (.localVariable 0),
    .integer 2, .binary .mul, .store (.global 3), .read (.localVariable 0), .unary .minus,
    .integer 0, .pop 1]

theorem doubling_unread : (doubling.start doublingContext).StoresUnread
    (decode doubling.record.codeOffset doubling.bytecode).1 doublingCode := by
  intro n slot m hn hsteps
  have hlt : n < 12 := (List.getElem?_eq_some_iff.1 hn).1
  interval_cases n <;> cases hn <;> cases hsteps <;> decide

theorem executeAll_of_run_doubling :
    ∃ m σ, (Instruction.run doubling.record.codeOffset doubling.bytecode).run
        (doubling.start doublingContext) = .ok () m ∧
      Statement.executeAll arithmetic (fun _ => 3) m.function.statements = some σ ∧
      σ "x" = 6 ∧ σ "g" = 12 ∧ m.stack.map (·.value? arithmetic σ) = [some (-6)] := by
  have hok : (match (Instruction.run doubling.record.codeOffset doubling.bytecode).run
      (doubling.start doublingContext) with
    | .ok _ _ => true
    | .error _ _ => false) = true := by decide +kernel
  have hnames : Set.InjOn (doubling.scope doublingContext).slotName
      {slot | slot ∈ slots doublingCode} := by
    have hdistinct : ∀ s ∈ slots doublingCode, ∀ t ∈ slots doublingCode,
        (doubling.scope doublingContext).slotName s =
          (doubling.scope doublingContext).slotName t → s = t := by decide
    exact fun s hs t ht => hdistinct s hs t ht
  have hcode : straightLine? doublingContext.scale
      (decode doubling.record.codeOffset doubling.bytecode).1 = some doublingCode := by decide
  generalize hrun : (Instruction.run doubling.record.codeOffset doubling.bytecode).run
    (doubling.start doublingContext) = result at hok ⊢
  cases result with
  | error => cases hok
  | ok _ m =>
    obtain ⟨k, σ, hk, hσ, hsame, hvalues⟩ := executeAll_of_run arithmetic (fun _ => 3)
      (fun _ => 3) hrun hcode hnames doubling_unread fun _ _ => rfl
    cases hk
    refine ⟨m, σ, rfl, hσ, ?_, ?_, hvalues⟩
    · exact (hsame.same (.localVariable 0) (by decide)).symm
    · exact (hsame.same (.global 3) (by decide)).symm

end Handler

end LingoSource
