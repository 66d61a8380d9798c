import LingoSource.Proofs.Program.Run
import LingoSource.Proofs.Recovery.Globals

/-!
The instructions that open and close `tell` blocks, as brackets. Between an opening and its closing all
other brackets are closed, so what happens there leaves the open blocks as they were; and as long as no
loop starts in front of the opening, it leaves the statements before the opening as they were.
-/
set_option autoImplicit false

namespace LingoSource

open Statement

namespace Instruction

def loopStart (i : Instruction) : Nat :=
  i.offset - i.operand

/-- Every block that is opened is closed, and none else. -/
inductive Balanced : List Instruction → Prop
  | nil : Balanced []
  | cons {i : Instruction} {rest : List Instruction} (hopens : i.opcode ≠ .startTell)
    (hcloses : i.opcode ≠ .endTell) (hrest : Balanced rest) : Balanced (i :: rest)
  | block {start stop : Instruction} {inner rest : List Instruction}
    (hstart : start.opcode = .startTell) (hinner : Balanced inner) (hstop : stop.opcode = .endTell)
    (hrest : Balanced rest) : Balanced (start :: (inner ++ stop :: rest))

theorem Balanced.append {a b : List Instruction} (ha : Balanced a) (hb : Balanced b) :
    Balanced (a ++ b) := by
  induction ha with
  | nil => exact hb
  | cons hopens hcloses _ ih => exact .cons hopens hcloses ih
  | @block start stop inner rest hstart hinner hstop _ _ ih =>
    have hblock := Balanced.block hstart hinner hstop ih
    simpa using hblock

/-- An instruction that opens a block which is still open at the end of a sequence of instructions, with
what comes before and after it. It is the innermost one, since all behind it is balanced. -/
structure OpenTell (instructions : List Instruction) where
  before : List Instruction
  start : Instruction
  since : List Instruction
  split : instructions = before ++ start :: since
  opens : start.opcode = .startTell
  balanced : Balanced since

structure TellPair (instructions : List Instruction) where
  before : List Instruction
  start : Instruction
  inner : List Instruction
  stop : Instruction
  after : List Instruction
  split : instructions = before ++ start :: (inner ++ stop :: after)
  opens : start.opcode = .startTell
  closes : stop.opcode = .endTell
  balanced : Balanced inner

/-- The blocks that are open when a machine has run instructions, innermost first: where each was opened,
and what lay on the stack then. -/
inductive Opened (m : Machine) : List Instruction → List (Nat × Node) → Prop
  | balanced {instructions : List Instruction} (h : Balanced instructions) : Opened m instructions []
  | tell {before since : List Instruction} {start : Instruction} {m₁ : Machine} {target : Node}
    {stack : List Node} {tells : List (Nat × Node)} (hbefore : Opened m before tells)
    (hsteps : Steps before m m₁) (hstack : m₁.stack = target :: stack)
    (hstart : start.opcode = .startTell) (hsince : Balanced since) :
    Opened m (before ++ start :: since) ((start.offset, target) :: tells)

inductive Moves (i : Instruction) (m m' : Machine) : Prop
  | emits {emitted : List Statement} (hopens : i.opcode ≠ .startTell) (hcloses : i.opcode ≠ .endTell)
    (hloops : i.opcode ≠ .endRepeat) (hposition : ∀ s ∈ emitted, s.position = i.offset)
    (hstatements : m'.function.statements = m.function.statements ++ emitted)
    (htells : m'.context.tells = m.context.tells)
  | opens {target : Node} {stack : List Node} (hopens : i.opcode = .startTell)
    (hstack : m.stack = target :: stack)
    (hstatements : m'.function.statements =
      m.function.statements ++ [⟨i.offset, .tell i.offset target []⟩])
    (htells : m'.context.tells = (i.offset, target) :: m.context.tells)
  | closes {position origin : Nat} {target node : Node} {before body after : List Statement}
    (hcloses : i.opcode = .endTell)
    (htells : m.context.tells = (position, target) :: m'.context.tells)
    (hsplit : m.function.statements = before ++ ⟨position, .tell origin node body⟩ :: after)
    (hstatements : m'.function.statements =
      before ++ [⟨position, .tell origin node (body ++ after)⟩])
  | loops (hloops : i.opcode = .endRepeat)
    (hstatements : m'.function.statements =
      m.function.statements.filter (·.position < i.loopStart) ++
        [Block.loopStatement i.loopStart i.offset
          (m.function.statements.filter (i.loopStart ≤ ·.position))])
    (htells : m'.context.tells = m.context.tells)

section Moves

variable {i : Instruction} {m m' : Machine}

theorem Change.tells_eq (h : i.Change m m') (hopens : i.opcode ≠ .startTell)
    (hcloses : i.opcode ≠ .endTell) : m'.context.tells = m.context.tells := by
  induction h with
  | trans _ _ ih ih' => exact ih'.trans ih
  | openTell h => exact absurd h hopens
  | closeTell h => exact absurd h hcloses
  | _ => rfl

theorem Change.statements_eq_append (h : i.Change m m') (hcloses : i.opcode ≠ .endTell)
    (hloops : i.opcode ≠ .endRepeat) :
    ∃ emitted, m'.function.statements = m.function.statements ++ emitted ∧
      ∀ s ∈ emitted, s.position = i.offset := by
  induction h with
  | trans _ _ ih ih' =>
    obtain ⟨emitted, heq, hposition⟩ := ih
    obtain ⟨emitted', heq', hposition'⟩ := ih'
    exact ⟨emitted ++ emitted', by rw [heq', heq, List.append_assoc],
      List.forall_mem_append.2 ⟨hposition, hposition'⟩⟩
  | emit m _ => exact ⟨[_], rfl, by simp⟩
  | declareGlobal m name => exact ⟨[], by simp, by simp⟩
  | fillTell h => exact absurd h hcloses
  | closeLoop h => exact absurd h hloops
  | _ => exact ⟨[], (List.append_nil _).symm, by simp⟩

theorem startTell_eq_ok (hopcode : i.opcode = .startTell) (h : i.step.run m = .ok () m') :
    ∃ target stack, m.stack = target :: stack ∧
      m'.function.statements = m.function.statements ++ [⟨i.offset, .tell i.offset target []⟩] ∧
      m'.context.tells = (i.offset, target) :: m.context.tells := by
  obtain ⟨offset, opcode, operand⟩ := i
  obtain rfl : opcode = .startTell := hopcode
  obtain ⟨target, m₁, hpop, hrest⟩ := run_bind_eq_ok h
  obtain ⟨stack, hstack, rfl⟩ := pop_eq_ok hpop
  cases hrest
  exact ⟨target, stack, hstack, rfl, rfl⟩

theorem closeTell_eq_ok (h : i.closeTell.run m = .ok () m') :
    ∃ position origin target node before body after,
      m.context.tells = (position, target) :: m'.context.tells ∧
      m.function.statements = before ++ ⟨position, .tell origin node body⟩ :: after ∧
      m'.function.statements = before ++ [⟨position, .tell origin node (body ++ after)⟩] := by
  unfold closeTell at h
  rw [run_modifyGet_bind, run_get_bind] at h
  dsimp only at h
  split at h
  · cases h
  · rename_i position before origin node body after hfound
    obtain ⟨place, hplace, hfound⟩ := Option.bind_eq_some_iff.1 hfound
    obtain ⟨_, hsplit, heq⟩ := Option.map_eq_some_iff.1 hfound
    cases heq
    cases h
    cases htells : m.context.tells with
    | nil => simp [Context.closeTell, htells] at hplace
    | cons tell tells =>
      obtain ⟨start, target⟩ := tell
      obtain rfl : start = position := by simpa [Context.closeTell, htells] using hplace
      have hrest : m.context.closeTell.2.tells = tells := by simp [Context.closeTell, htells]
      exact ⟨start, origin, target, node, before, body, after, by rw [← hrest],
        eq_of_splitAtTell hsplit, rfl⟩

theorem closeTell_append {position origin : Nat} {target node : Node} {tells : List (Nat × Node)}
    {before body after : List Statement} (htells : m.context.tells = (position, target) :: tells)
    (hm : m.function.statements = before ++ ⟨position, .tell origin node body⟩ :: after)
    (hafter : ∀ s ∈ after, s.position ≠ position) :
    i.closeTell.run m = .ok () { m with
      context := { m.context with tells }
      function.statements := before ++ [⟨position, .tell origin node (body ++ after)⟩] } := by
  unfold closeTell
  rw [run_modifyGet_bind, run_get_bind]
  simp [Context.closeTell, htells, hm, splitAtTell_append hafter]

/-- Without an open block, or if the statement of the innermost one is not there any more, there is nothing
to close. -/
theorem closeTell_eq_error_iff :
    (∃ m', i.closeTell.run m = .error (.unmatchedTellEnd i.offset) m') ↔
      ∀ tell ∈ m.context.tells.head?, splitAtTell tell.1 m.function.statements = none := by
  unfold closeTell
  rw [run_modifyGet_bind, run_get_bind]
  cases htells : m.context.tells with
  | nil => simp [Context.closeTell, htells]
  | cons tell tells =>
    cases hsplit : splitAtTell tell.1 m.function.statements with
    | none => simp [Context.closeTell, htells, hsplit]
    | some found => simp [Context.closeTell, htells, hsplit]

theorem step_of_endTell (h : i.opcode = .endTell) : i.step = i.closeTell := by
  obtain ⟨offset, opcode, operand⟩ := i
  obtain rfl : opcode = .endTell := h
  rfl

theorem splitAtTell_eq_none {position : Nat} {statements : List Statement}
    (h : ∀ s ∈ statements, s.position ≠ position) : splitAtTell position statements = none := by
  cases hsplit : splitAtTell position statements with
  | none => rfl
  | some found =>
    obtain ⟨before, origin, node, body, after⟩ := found
    have heq := eq_of_splitAtTell hsplit
    exact absurd rfl (h ⟨position, .tell origin node body⟩ (by simp [heq]))

theorem closeLoop_eq_ok (h : (i.closeLoop i.operand).run m = .ok () m') :
    m'.function.statements =
        m.function.statements.filter (·.position < i.loopStart) ++
          [Block.loopStatement i.loopStart i.offset
            (m.function.statements.filter (i.loopStart ≤ ·.position))] ∧
      m'.context.tells = m.context.tells := by
  simp only [closeLoop] at h
  split at h
  · obtain ⟨_, _, hthrow, -⟩ := run_bind_eq_ok h
    cases hthrow
  · cases h
    exact ⟨by simp only [partition_position]; rfl, rfl⟩

theorem moves_of_step (h : i.step.run m = .ok () m') : i.Moves m m' := by
  by_cases hopens : i.opcode = .startTell
  · obtain ⟨target, stack, hstack, hstatements, htells⟩ := startTell_eq_ok hopens h
    exact .opens hopens hstack hstatements htells
  by_cases hcloses : i.opcode = .endTell
  · rw [step_of_endTell hcloses] at h
    obtain ⟨position, origin, target, node, before, body, after, htells, hsplit, hstatements⟩ :=
      closeTell_eq_ok h
    exact .closes hcloses htells hsplit hstatements
  by_cases hloops : i.opcode = .endRepeat
  · have hclose : (i.closeLoop i.operand).run m = .ok () m' := by
      obtain ⟨offset, opcode, operand⟩ := i
      obtain rfl : opcode = .endRepeat := hloops
      exact h
    obtain ⟨hstatements, htells⟩ := closeLoop_eq_ok hclose
    exact .loops hloops hstatements htells
  · have hchange := change_of_run (respects_step i) h
    obtain ⟨emitted, hstatements, hposition⟩ := hchange.statements_eq_append hcloses hloops
    exact .emits hopens hcloses hloops hposition hstatements (hchange.tells_eq hopens hcloses)

end Moves

section Run

variable {instructions before since : List Instruction} {m m₁ m₂ m' : Machine}

theorem Steps.split {a b : List Instruction} (h : Steps (a ++ b) m m') :
    ∃ m₁, Steps a m m₁ ∧ Steps b m₁ m' := by
  induction a generalizing m with
  | nil => exact ⟨m, .nil m, h⟩
  | cons i a ih =>
    obtain ⟨m₁, hi, hrest⟩ := h.uncons
    obtain ⟨m₂, ha, hb⟩ := ih hrest
    exact ⟨m₂, .cons hi ha, hb⟩

theorem Steps.unique (h₁ : Steps instructions m m₁) (h₂ : Steps instructions m m₂) : m₁ = m₂ := by
  cases h₁.symm.trans h₂
  rfl

theorem Balanced.tells_eq (h : Balanced instructions) (hsteps : Steps instructions m m') :
    m'.context.tells = m.context.tells := by
  induction h generalizing m m' with
  | nil =>
    cases hsteps
    rfl
  | cons hopens hcloses _ ih =>
    obtain ⟨m₁, hi, hrest⟩ := hsteps.uncons
    exact (ih hrest).trans ((change_of_run (respects_step _) hi).tells_eq hopens hcloses)
  | block hstart _ hstop _ ihinner ihrest =>
    obtain ⟨m₁, hi, hblock⟩ := hsteps.uncons
    obtain ⟨m₂, hinner, hbehind⟩ := hblock.split
    obtain ⟨m₃, hj, hrest⟩ := hbehind.uncons
    obtain ⟨target, -, -, -, hopened⟩ := startTell_eq_ok hstart hi
    rw [ihrest hrest]
    cases moves_of_step hj with
    | emits _ hcloses => exact absurd hstop hcloses
    | opens hopens => simp [hstop] at hopens
    | loops hloops => simp [hstop] at hloops
    | closes _ htells =>
      rw [ihinner hinner, hopened] at htells
      exact (List.cons.inj htells).2.symm

theorem Moves.not_mem_positions {i : Instruction} {position : Nat} (h : i.Moves m m')
    (hi : i.offset ≠ position) (hm : ∀ s ∈ m.function.statements, s.position ≠ position) :
    ∀ s ∈ m'.function.statements, s.position ≠ position := by
  cases h with
  | emits _ _ _ hposition hstatements =>
    rw [hstatements]
    exact List.forall_mem_append.2 ⟨hm, fun s hs => hposition s hs ▸ hi⟩
  | opens _ _ hstatements =>
    rw [hstatements]
    exact List.forall_mem_append.2 ⟨hm, List.forall_mem_singleton.2 hi⟩
  | @closes place origin target node before body after _ _ hsplit hstatements =>
    rw [hsplit] at hm
    obtain ⟨hbefore, hbehind⟩ := List.forall_mem_append.1 hm
    rw [hstatements]
    exact List.forall_mem_append.2 ⟨hbefore,
      List.forall_mem_singleton.2 (hbehind ⟨place, .tell origin node body⟩ (by simp))⟩
  | loops _ hstatements =>
    rw [hstatements]
    exact List.forall_mem_append.2 ⟨fun s hs => hm s (List.mem_filter.1 hs).1,
      List.forall_mem_singleton.2 hi⟩

theorem Steps.keep_of_moves {R : Machine → Prop} (h : Steps instructions m m')
    (hR : ∀ i ∈ instructions, ∀ m m', i.Moves m m' → R m → R m') (hm : R m) : R m' := by
  induction instructions generalizing m with
  | nil =>
    cases h
    exact hm
  | cons i rest ih =>
    obtain ⟨m₁, hi, hrest⟩ := h.uncons
    obtain ⟨hfirst, hR⟩ := List.forall_mem_cons.1 hR
    exact ih hrest hR (hfirst m m₁ (moves_of_step hi) hm)

/-- A statement that is no longer in the list does not come back. -/
theorem Steps.not_mem_positions {position : Nat} (h : Steps instructions m m')
    (hoffset : ∀ i ∈ instructions, i.offset ≠ position)
    (hm : ∀ s ∈ m.function.statements, s.position ≠ position) :
    ∀ s ∈ m'.function.statements, s.position ≠ position :=
  h.keep_of_moves (R := fun m => ∀ s ∈ m.function.statements, s.position ≠ position)
    (fun i hi _ _ hmoves hm => hmoves.not_mem_positions (hoffset i hi) hm) hm

theorem Steps.not_mem_positions_of_loop {position : Nat} {r : Instruction}
    (h : Steps instructions m m') (hoffset : ∀ i ∈ instructions, position < i.offset)
    (hr : r ∈ instructions) (hloops : r.opcode = .endRepeat) (hstart : r.loopStart ≤ position) :
    ∀ s ∈ m'.function.statements, s.position ≠ position := by
  obtain ⟨a, b, rfl⟩ := List.append_of_mem hr
  obtain ⟨m₁, -, hbehind⟩ := h.split
  obtain ⟨m₂, hloop, hrest⟩ := hbehind.uncons
  have hafter : ∀ i ∈ b, position < i.offset := fun i hi => hoffset i (by simp [hi])
  refine hrest.not_mem_positions (fun i hi => Nat.ne_of_gt (hafter i hi)) ?_
  cases moves_of_step hloop with
  | emits _ _ hne => exact absurd hloops hne
  | opens hopens => simp [hloops] at hopens
  | closes hcloses => simp [hloops] at hcloses
  | loops _ hstatements =>
    rw [hstatements]
    refine List.forall_mem_append.2 ⟨fun s hs => ?_,
      List.forall_mem_singleton.2 (Nat.ne_of_gt (hoffset r hr))⟩
    have hlt : s.position < r.loopStart := by simpa using (List.mem_filter.1 hs).2
    omega

/-- What lies behind a position goes on behind it, and what lies in front stays as it is, unless a loop
starts there or a block is closed that was opened there. -/
theorem Moves.exists_append {i : Instruction} {position : Nat} {base own : List Statement}
    (h : i.Moves m m') (hi : position < i.offset)
    (hloops : i.opcode = .endRepeat → position < i.loopStart)
    (hcloses : i.opcode = .endTell → ∀ tell ∈ m.context.tells.head?, position < tell.1)
    (hm : m.function.statements = base ++ own) (hbase : Below (position + 1) base)
    (hown : From (position + 1) own) :
    ∃ own', m'.function.statements = base ++ own' ∧ From (position + 1) own' := by
  cases h with
  | @emits emitted _ _ _ hposition hstatements =>
    refine ⟨own ++ emitted, by rw [hstatements, hm, List.append_assoc], ?_⟩
    exact List.forall_mem_append.2 ⟨hown, fun s hs => hposition s hs ▸ hi⟩
  | @opens target _ _ _ hstatements =>
    refine ⟨own ++ [⟨i.offset, .tell i.offset target []⟩], by rw [hstatements, hm, List.append_assoc], ?_⟩
    exact List.forall_mem_append.2 ⟨hown, List.forall_mem_singleton.2 hi⟩
  | @closes place origin target node before body after hopcode htells hsplit hstatements =>
    have hplace : position < place := hcloses hopcode (place, target) (by simp [htells])
    rw [hm] at hsplit
    -- the closed block is none of those in front of the position
    rcases List.append_eq_append_iff.1 hsplit with ⟨front, rfl, rfl⟩ | ⟨front, rfl, hfront⟩
    · refine ⟨front ++ [⟨place, .tell origin node (body ++ after)⟩],
        by rw [hstatements, List.append_assoc], ?_⟩
      exact List.forall_mem_append.2 ⟨fun s hs => hown s (by simp [hs]),
        List.forall_mem_singleton.2 hplace⟩
    · cases front with
      | nil =>
        refine ⟨[⟨place, .tell origin node (body ++ after)⟩], by simpa using hstatements, ?_⟩
        exact List.forall_mem_singleton.2 hplace
      | cons s front =>
        obtain ⟨rfl, -⟩ := List.cons.inj hfront
        have hlt := hbase ⟨place, .tell origin node body⟩ (by simp)
        exact absurd hlt (Nat.not_lt.2 hplace)
  | loops hopcode hstatements =>
    have hstart := hloops hopcode
    have hkept : base.filter (·.position < i.loopStart) = base :=
      List.filter_eq_self.2 fun s hs => by simpa using Nat.lt_of_lt_of_le (hbase s hs) hstart
    refine ⟨own.filter (·.position < i.loopStart) ++ [Block.loopStatement i.loopStart i.offset
      (m.function.statements.filter (i.loopStart ≤ ·.position))], ?_, ?_⟩
    · rw [hstatements, ← List.append_assoc]
      refine congrArg (· ++ _) ?_
      rw [hm, List.filter_append, hkept]
    · refine List.forall_mem_append.2 ⟨fun s hs => hown s (List.mem_filter.1 hs).1, ?_⟩
      exact List.forall_mem_singleton.2 hi

theorem Balanced.exists_append {position : Nat} {base own : List Statement}
    (h : Balanced instructions) (hsteps : Steps instructions m m')
    (hoffset : ∀ i ∈ instructions, position < i.offset)
    (hloops : ∀ i ∈ instructions, i.opcode = .endRepeat → position < i.loopStart)
    (hm : m.function.statements = base ++ own) (hbase : Below (position + 1) base)
    (hown : From (position + 1) own) :
    ∃ own', m'.function.statements = base ++ own' ∧ From (position + 1) own' := by
  induction h generalizing m m' own with
  | nil =>
    cases hsteps
    exact ⟨own, hm, hown⟩
  | cons _ hcloses _ ih =>
    obtain ⟨m₁, hi, hrest⟩ := hsteps.uncons
    obtain ⟨hoffset, hoffsets⟩ := List.forall_mem_cons.1 hoffset
    obtain ⟨hloop, hloops⟩ := List.forall_mem_cons.1 hloops
    obtain ⟨own₁, hm₁, hown₁⟩ := (moves_of_step hi).exists_append hoffset hloop
      (fun h => absurd h hcloses) hm hbase hown
    exact ih hrest hoffsets hloops hm₁ hown₁
  | @block start stop inner rest hstart hinner hstop _ ihinner ihrest =>
    obtain ⟨m₁, hi, hblock⟩ := hsteps.uncons
    obtain ⟨m₂, hin, hbehind⟩ := hblock.split
    obtain ⟨m₃, hj, hrest⟩ := hbehind.uncons
    simp only [List.forall_mem_cons, List.forall_mem_append] at hoffset hloops
    obtain ⟨hoffset, hoffsetIn, hoffsetStop, hoffsets⟩ := hoffset
    obtain ⟨hloop, hloopsIn, hloopStop, hloops⟩ := hloops
    obtain ⟨target, -, -, -, hopened⟩ := startTell_eq_ok hstart hi
    obtain ⟨own₁, hm₁, hown₁⟩ := (moves_of_step hi).exists_append hoffset hloop
      (fun h => by simp [hstart] at h) hm hbase hown
    obtain ⟨own₂, hm₂, hown₂⟩ := ihinner hin hoffsetIn hloopsIn hm₁ hown₁
    have hinnermost : m₂.context.tells.head? = some (start.offset, target) := by
      rw [hinner.tells_eq hin, hopened]
      rfl
    obtain ⟨own₃, hm₃, hown₃⟩ := (moves_of_step hj).exists_append hoffsetStop hloopStop
      (fun _ tell htell => by rw [hinnermost] at htell; cases htell; exact hoffset) hm₂ hbase hown₂
    exact ihrest hrest hoffsets hloops hm₃ hown₃

end Run

end Instruction

end LingoSource
