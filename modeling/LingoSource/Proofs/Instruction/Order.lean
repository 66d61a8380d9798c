import LingoSource.Proofs.Condition.Scan
import LingoSource.Proofs.Instruction.Emission
import LingoSource.Proofs.Instruction.Starts

/-!
The order of emitted statements. A list of statements is flattened into the order in which its
instructions stand: a `tell` comes before its body, a loop, which is named by the jump back at its
end, behind it. No instruction reorders the statements that were emitted before it, whatever blocks
it closes.
-/
set_option autoImplicit false

namespace LingoSource

mutual

/-- The entries of a statement at a position; a block has one of its own, without its body. -/
def Node.entries (position : Nat) : Node → List Statement
  | .tell origin target body => ⟨position, .tell origin target []⟩ :: Statement.flatten body
  | .loop origin start stop kind condition body =>
    Statement.flatten body ++ [⟨position, .loop origin start stop kind condition []⟩]
  | node => [⟨position, node⟩]

def Statement.flatten : List Statement → List Statement
  | [] => []
  | ⟨position, node⟩ :: rest => node.entries position ++ Statement.flatten rest

end

mutual

/-- Positions increase along the lists in a node, and the body of a loop lies between its start and
its jump back. -/
def Node.Ordered : Node → Prop
  | .loop _ start stop _ _ body =>
    Statement.From start body ∧ Statement.Below stop body ∧ Statement.OrderedAll body
  | .tell _ _ body => Statement.OrderedAll body
  | .branch _ _ thenBody elseBody => Statement.OrderedAll thenBody ∧ Statement.OrderedAll elseBody
  | _ => True

def Statement.OrderedAll : List Statement → Prop
  | [] => True
  | ⟨position, node⟩ :: rest =>
    Statement.From (position + 1) rest ∧ node.Ordered ∧ Statement.OrderedAll rest

end

namespace Statement

variable {statements : List Statement} {bound : Nat}

theorem orderedAll_iff :
    OrderedAll statements ↔ Increasing statements ∧ ∀ s ∈ statements, s.node.Ordered := by
  induction statements with
  | nil => simp [OrderedAll, Increasing]
  | cons s rest ih =>
    obtain ⟨position, node⟩ := s
    simp only [OrderedAll, ih, Increasing, List.pairwise_cons, List.forall_mem_cons, From,
      Nat.succ_le_iff]
    tauto

theorem orderedAll_concat {s : Statement} (h : OrderedAll statements)
    (hbelow : Below s.position statements) (hs : s.node.Ordered) :
    OrderedAll (statements ++ [s]) := by
  obtain ⟨hincreasing, hnodes⟩ := orderedAll_iff.1 h
  have hlast : Increasing (statements ++ [s]) :=
    List.pairwise_append.2 ⟨hincreasing, by simp, by simpa [Below] using hbelow⟩
  refine orderedAll_iff.2 ⟨hlast, fun t ht => ?_⟩
  rcases List.mem_append.1 ht with ht | ht
  · exact hnodes t ht
  · rwa [List.mem_singleton.1 ht]

theorem OrderedAll.filter (h : OrderedAll statements) (p : Statement → Bool) :
    OrderedAll (statements.filter p) := by
  obtain ⟨hincreasing, hnodes⟩ := orderedAll_iff.1 h
  exact orderedAll_iff.2 ⟨hincreasing.filter p, fun s hs => hnodes s (List.mem_filter.1 hs).1⟩

theorem flatten_cons (s : Statement) (rest : List Statement) :
    flatten (s :: rest) = s.node.entries s.position ++ flatten rest := by
  obtain ⟨position, node⟩ := s
  rw [flatten]

theorem flatten_append (a b : List Statement) : flatten (a ++ b) = flatten a ++ flatten b := by
  induction a with
  | nil => simp [flatten]
  | cons s a ih => simp [flatten_cons, ih]

theorem flatten_emittable {P : Node → Prop} {node : Node} (h : node.Emittable P) (position : Nat) :
    flatten [⟨position, node⟩] = [⟨position, node⟩] := by
  cases h <;> simp [flatten, Node.entries]

theorem position_sublist_entries (position : Nat) (node : Node) :
    [position].Sublist ((node.entries position).map Statement.position) := by
  unfold Node.entries
  split <;> simp

theorem map_position_sublist (statements : List Statement) :
    (statements.map position).Sublist ((flatten statements).map position) := by
  induction statements with
  | nil => simp
  | cons s rest ih =>
    rw [flatten_cons, List.map_append, List.map_cons]
    exact (position_sublist_entries s.position s.node).append ih

theorem increasing_iff {statements : List Statement} :
    Increasing statements ↔ (statements.map position).Pairwise (· < ·) := by
  rw [Increasing, List.pairwise_map]

theorem increasing_of_flatten (h : Increasing (flatten statements)) : Increasing statements :=
  increasing_iff.2 ((increasing_iff.1 h).sublist (map_position_sublist statements))

theorem below_of_flatten (h : Below bound (flatten statements)) : Below bound statements := by
  intro s hs
  have hmem := (map_position_sublist statements).subset (List.mem_map_of_mem hs)
  obtain ⟨t, ht, heq⟩ := List.mem_map.1 hmem
  rw [← heq]
  exact h t ht

/-- Statements that were emitted below an offset, in the order of their instructions. -/
structure InOrder (bound : Nat) (statements : List Statement) : Prop where
  increasing : Increasing (flatten statements)
  below : Below bound (flatten statements)
  ordered : OrderedAll statements

theorem InOrder.mono {upper : Nat} (h : InOrder bound statements) (hle : bound ≤ upper) :
    InOrder upper statements :=
  ⟨h.increasing, h.below.mono hle, h.ordered⟩

theorem inOrder_nil (bound : Nat) : InOrder bound [] :=
  ⟨List.Pairwise.nil, below_nil, trivial⟩

theorem filter_append_filter_of_increasing (h : Increasing statements) (start : Nat) :
    statements.filter (·.position < start) ++ statements.filter (start ≤ ·.position) =
      statements := by
  obtain ⟨a, b, rfl, ha, hb⟩ := h.split start
  rw [List.filter_append, List.filter_append, List.filter_eq_self.2 (by simpa [Below] using ha),
    List.filter_eq_nil_iff.2 (by simpa [From] using hb),
    List.filter_eq_nil_iff.2 (by simpa [Below] using ha),
    List.filter_eq_self.2 (by simpa [From] using hb), List.append_nil, List.nil_append]

end Statement

open Statement

namespace Instruction

variable {P : Node → Prop} {offset : Nat} {statements result : List Statement}

/-- One instruction adds at most one entry, at its own offset, behind all entries. -/
theorem Emission.flatten_eq (h : Emission P offset statements result)
    (hs : InOrder offset statements) :
    flatten result = flatten statements ∨
      ∃ node, flatten result = flatten statements ++ [⟨offset, node⟩] := by
  cases h with
  | keep => exact .inl rfl
  | @emit _ node hnode =>
    refine .inr ⟨node, ?_⟩
    rw [flatten_append, flatten_emittable hnode]
  | @closeLoop _ start hle =>
    refine .inr ⟨.loop offset start offset .whileTrue (.leaf .constant "TRUE" start) [], ?_⟩
    have hsplit := filter_append_filter_of_increasing (increasing_of_flatten hs.increasing) start
    simp only [flatten_append, flatten, Node.entries, List.append_nil]
    rw [← List.append_assoc, ← flatten_append, hsplit]
  | closeTell before position origin target body after =>
    refine .inl ?_
    simp [flatten_append, flatten, Node.entries]

theorem ordered_of_emittable {node : Node} (h : node.Emittable P) : node.Ordered := by
  cases h <;> simp [Node.Ordered, OrderedAll]

theorem Emission.orderedAll (h : Emission P offset statements result)
    (hs : InOrder offset statements) : OrderedAll result := by
  have hbelow := below_of_flatten hs.below
  cases h with
  | keep => exact hs.ordered
  | emit _ hnode => exact orderedAll_concat hs.ordered hbelow (ordered_of_emittable hnode)
  | @closeLoop _ start hle =>
    have hfilter (p : Statement → Bool) : Below offset (statements.filter p) :=
      fun s h => hbelow s (List.mem_filter.1 h).1
    have hfrom : From start (statements.filter (start ≤ ·.position)) :=
      fun s h => by simpa using (List.mem_filter.1 h).2
    exact orderedAll_concat (hs.ordered.filter _) (hfilter _)
      ⟨hfrom, hfilter _, hs.ordered.filter _⟩
  | closeTell before position origin target body after =>
    obtain ⟨hincreasing, hnodes⟩ := orderedAll_iff.1 hs.ordered
    obtain ⟨hbefore, -, hposition⟩ := List.pairwise_append.1 hincreasing
    have hbody : OrderedAll body := hnodes ⟨position, .tell origin target body⟩ (by simp)
    -- the entries of the body and of what follows stand in one increasing list
    have hflat := hs.increasing
    rw [flatten_append, flatten_cons, Node.entries, List.cons_append, ← flatten_append] at hflat
    have hinner := increasing_of_flatten (List.pairwise_cons.1 (List.pairwise_append.1 hflat).2.1).2
    have hnew : OrderedAll (body ++ after) := by
      refine orderedAll_iff.2 ⟨hinner, fun s h => ?_⟩
      rcases List.mem_append.1 h with h | h
      · exact (orderedAll_iff.1 hbody).2 s h
      · exact hnodes s (by simp [h])
    exact orderedAll_concat (orderedAll_iff.2 ⟨hbefore, fun s h => hnodes s (by simp [h])⟩)
      (fun s h => hposition s h ⟨position, .tell origin target body⟩ (by simp)) hnew

theorem Emission.inOrder (h : Emission P offset statements result)
    (hs : InOrder offset statements) : InOrder (offset + 1) result := by
  have hordered := h.orderedAll hs
  rcases h.flatten_eq hs with heq | ⟨node, heq⟩
  · exact ⟨heq ▸ hs.increasing, heq ▸ hs.below.mono (Nat.le_succ _), hordered⟩
  · refine ⟨?_, ?_, hordered⟩
    · rw [heq]
      exact List.pairwise_append.2 ⟨hs.increasing, by simp, by simpa [Below] using hs.below⟩
    · rw [heq]
      exact below_append.2 ⟨hs.below.mono (Nat.le_succ _), by simp⟩

def Consecutive (offset : Nat) (instructions : List Instruction) : Prop :=
  instructions.Pairwise (·.offset < ·.offset) ∧ ∀ i ∈ instructions, offset ≤ i.offset

theorem Consecutive.cons {size : Nat} {opcode : Opcode} {operand : Nat} {rest : List Instruction}
    (h : Consecutive (offset + size) rest) (hsize : 0 < size) :
    Consecutive offset (⟨offset, opcode, operand⟩ :: rest) := by
  refine ⟨List.pairwise_cons.2 ⟨fun j hj => ?_, h.1⟩,
    List.forall_mem_cons.2 ⟨Nat.le_refl _, fun j hj => ?_⟩⟩
  · exact Nat.lt_of_lt_of_le (Nat.lt_add_of_pos_right hsize) (h.2 j hj)
  · exact Nat.le_trans (Nat.le_add_right _ _) (h.2 j hj)

theorem Decodes.consecutive {bytecode : List UInt8}
    {result : List Instruction × Option RecoveryError} (h : Decodes offset bytecode result) :
    Consecutive offset result.1 := by
  induction h with
  | finish | unknown | truncated => exact ⟨List.Pairwise.nil, by simp⟩
  | next _ _ ih => exact ih.cons (Nat.add_pos_left Nat.one_pos _)

theorem decode_consecutive (offset : Nat) (bytecode : List UInt8) :
    Consecutive offset (decode offset bytecode).1 :=
  (decodes_decode offset bytecode).consecutive

theorem Steps.inOrder {instructions : List Instruction} {m m' : Machine} {stop : Nat}
    (hsteps : Steps instructions m m') (hm : InOrder offset m.function.statements)
    (hle : offset ≤ stop) (hinstructions : Consecutive offset instructions)
    (hstop : ∀ i ∈ instructions, i.offset < stop) : InOrder stop m'.function.statements := by
  induction instructions generalizing m offset with
  | nil =>
    cases hsteps
    exact hm.mono hle
  | cons i rest ih =>
    obtain ⟨m₁, hi, hrest⟩ := hsteps.uncons
    have hoffset := hinstructions.2 i (by simp)
    obtain ⟨-, hemission⟩ := emits_step i Node.closed_true m m₁ m.within_true hi
    refine ih hrest (hemission.inOrder (hm.mono hoffset)) (hstop i (by simp)) ⟨?_, ?_⟩ ?_
    · exact (List.pairwise_cons.1 hinstructions.1).2
    · exact (List.pairwise_cons.1 hinstructions.1).1
    · exact fun j hj => hstop j (by simp [hj])

/-- Wherever a run from an empty list of statements stands, the next instruction leaves the entries
as they are or adds one behind them, at its own offset; so the entries and all lists of statements
increase, and the body of a loop lies between its start and its jump back. -/
theorem step_entries {m m₁ m₂ : Machine} {bytecode : List UInt8} {before after : List Instruction}
    {i : Instruction} (hm : m.function.statements = [])
    (hdecode : (decode offset bytecode).1 = before ++ i :: after) (hbefore : Steps before m m₁)
    (hstep : i.step.run m₁ = .ok () m₂) :
    (flatten m₂.function.statements = flatten m₁.function.statements ∨
      ∃ node, flatten m₂.function.statements =
        flatten m₁.function.statements ++ [⟨i.offset, node⟩]) ∧
      Increasing (flatten m₂.function.statements) ∧ OrderedAll m₂.function.statements := by
  obtain ⟨hpairwise, hoffset⟩ := decode_consecutive offset bytecode
  rw [hdecode] at hpairwise hoffset
  obtain ⟨hinner, -, hstop⟩ := List.pairwise_append.1 hpairwise
  have hconsecutive : Consecutive offset before :=
    ⟨hinner, fun j hj => hoffset j (List.mem_append_left _ hj)⟩
  have horder : InOrder i.offset m₁.function.statements :=
    hbefore.inOrder (hm ▸ inOrder_nil offset) (hoffset i (by simp)) hconsecutive
      fun j hj => hstop j hj i (by simp)
  obtain ⟨-, hemission⟩ := emits_step i Node.closed_true m₁ m₂ m₁.within_true hstep
  have hnext := hemission.inOrder horder
  exact ⟨hemission.flatten_eq horder, hnext.increasing, hnext.ordered⟩

/-- The jump back behind a `tell` with one call in it. -/
theorem step_entries_loopOverTell :
    let m : Machine := ⟨.create ["beep"] [] 1, { name := "f", position := 0 }, []⟩
    let before := (decode 0 [0x41, 7, 0x1c, 0x42, 0, 0x57, 0, 0x1d]).1
    let inner : List Statement :=
      [⟨2, .tell 2 (.leaf .constant "7" 0) [⟨5, .call 5 "beep" .argListNoRet [] false⟩]⟩]
    let outer : List Statement :=
      [⟨8, .loop 8 0 8 .whileTrue (.leaf .constant "TRUE" 0) inner⟩]
    let m₁ := { m with function.statements := inner }
    let m₂ := { m with function.statements := outer }
    (decode 0 [0x41, 7, 0x1c, 0x42, 0, 0x57, 0, 0x1d, 0x54, 8]).1 =
        before ++ [⟨8, .endRepeat, 8⟩] ∧
      Steps before m m₁ ∧ (step ⟨8, .endRepeat, 8⟩).run m₁ = .ok () m₂ ∧
      (flatten outer).map position = [2, 5, 8] ∧ OrderedAll outer := by
  intro m before inner outer m₁ m₂
  have hdecode : (decode 0 [0x41, 7, 0x1c, 0x42, 0, 0x57, 0, 0x1d, 0x54, 8]).1 =
      before ++ [⟨8, .endRepeat, 8⟩] := by decide
  have hbefore : Steps before m m₁ := rfl
  have hstep : (step ⟨8, .endRepeat, 8⟩).run m₁ = .ok () m₂ := rfl
  exact ⟨hdecode, hbefore, hstep, rfl, (step_entries rfl hdecode hbefore hstep).2.2⟩

end Instruction

end LingoSource
