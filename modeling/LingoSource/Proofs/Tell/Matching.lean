import LingoSource.Proofs.Instruction.Order
import LingoSource.Proofs.Recovery.Outcome
import LingoSource.Proofs.Tell.Brackets
import Mathlib.Data.List.Induction
import Mathlib.Data.List.Nodup

/-!
The `tell` blocks of a handler match like brackets. The context knows the blocks that are open and nothing
of earlier handlers; a block that is closed has what was emitted since its opening, and keeps it. A closing
finds no block exactly if none is open or if a loop has taken the statement of the innermost one.
-/
set_option autoImplicit false

namespace LingoSource

mutual

def Node.nested (position : Nat) : Node → List Statement
  | .tell origin target body => ⟨position, .tell origin target body⟩ :: Statement.nestedAll body
  | .loop origin start stop kind condition body =>
    Statement.nestedAll body ++ [⟨position, .loop origin start stop kind condition body⟩]
  | node => [⟨position, node⟩]

def Statement.nestedAll : List Statement → List Statement
  | [] => []
  | ⟨position, node⟩ :: rest => node.nested position ++ Statement.nestedAll rest

end

mutual

theorem Node.map_position_nested (position : Nat) (node : Node) :
    (node.nested position).map Statement.position = (node.entries position).map Statement.position := by
  cases node with
  | tell origin target body => simp [Node.nested, Node.entries, Statement.map_position_nestedAll body]
  | loop origin start stop kind condition body =>
    simp [Node.nested, Node.entries, Statement.map_position_nestedAll body]
  | _ => rfl

theorem Statement.map_position_nestedAll (statements : List Statement) :
    (Statement.nestedAll statements).map Statement.position =
      (Statement.flatten statements).map Statement.position := by
  cases statements with
  | nil => rfl
  | cons s rest =>
    obtain ⟨position, node⟩ := s
    rw [Statement.nestedAll, Statement.flatten, List.map_append, List.map_append,
      Node.map_position_nested position node, Statement.map_position_nestedAll rest]

end

namespace Statement

variable {statements : List Statement} {s : Statement}

theorem mem_nestedAll_iff :
    s ∈ nestedAll statements ↔ ∃ t ∈ statements, s ∈ t.node.nested t.position := by
  induction statements with
  | nil => simp [nestedAll]
  | cons t rest ih =>
    obtain ⟨position, node⟩ := t
    simp [nestedAll, ih]

theorem mem_nestedAll_append {a b : List Statement} :
    s ∈ nestedAll (a ++ b) ↔ s ∈ nestedAll a ∨ s ∈ nestedAll b := by
  simp only [mem_nestedAll_iff, List.mem_append, or_and_right, exists_or]

theorem mem_nestedAll_of_mem (h : s ∈ statements) : s ∈ nestedAll statements := by
  refine mem_nestedAll_iff.2 ⟨s, h, ?_⟩
  obtain ⟨position, node⟩ := s
  cases node <;> simp [Node.nested]

theorem eq_of_mem_nestedAll {t : Statement} (h : Increasing (flatten statements))
    (hs : s ∈ nestedAll statements) (ht : t ∈ nestedAll statements) (heq : s.position = t.position) :
    s = t := by
  have hincreasing : Increasing (nestedAll statements) := by
    rw [increasing_iff, map_position_nestedAll, ← increasing_iff]
    exact h
  have hnodup : ((nestedAll statements).map position).Nodup :=
    (increasing_iff.1 hincreasing).imp fun hlt => Nat.ne_of_lt hlt
  exact List.inj_on_of_nodup_map hnodup hs ht heq

end Statement

open Statement

namespace Instruction

variable {i : Instruction} {instructions : List Instruction} {m₀ m m₁ m' : Machine} {s : Statement}

theorem Moves.mem_nestedAll (h : i.Moves m m') (htells : ∀ tell ∈ m.context.tells, tell.1 ≠ s.position)
    (hs : s ∈ nestedAll m.function.statements) : s ∈ nestedAll m'.function.statements := by
  cases h with
  | emits _ _ _ _ hstatements =>
    rw [hstatements]
    exact mem_nestedAll_append.2 (.inl hs)
  | opens _ _ hstatements =>
    rw [hstatements]
    exact mem_nestedAll_append.2 (.inl hs)
  | @closes position origin target node before body after _ htell hsplit hstatements =>
    have hne : position ≠ s.position := htells (position, target) (by simp [htell])
    rw [hsplit, mem_nestedAll_append, nestedAll, List.mem_append, Node.nested, List.mem_cons] at hs
    rw [hstatements, mem_nestedAll_append, nestedAll, Node.nested, nestedAll, List.append_nil, List.mem_cons,
      mem_nestedAll_append]
    rcases hs with hs | (rfl | hs) | hs
    · exact .inl hs
    · exact absurd rfl hne
    · exact .inr (.inr (.inl hs))
    · exact .inr (.inr (.inr hs))
  | loops _ hstatements =>
    obtain ⟨t, ht, hs⟩ := mem_nestedAll_iff.1 hs
    rw [hstatements, mem_nestedAll_append, Block.loopStatement, nestedAll, Node.nested, nestedAll,
      List.append_nil, List.mem_append]
    by_cases hlt : t.position < i.loopStart
    · exact .inl (mem_nestedAll_iff.2 ⟨t, by simp [ht, hlt], hs⟩)
    · exact .inr (.inl (mem_nestedAll_iff.2 ⟨t, by simp [ht, Nat.not_lt.1 hlt], hs⟩))

theorem Moves.tells_ne {position : Nat} (h : i.Moves m m') (hi : i.offset ≠ position)
    (htells : ∀ tell ∈ m.context.tells, tell.1 ≠ position) :
    ∀ tell ∈ m'.context.tells, tell.1 ≠ position := by
  cases h with
  | emits _ _ _ _ _ heq => exact heq ▸ htells
  | opens _ _ _ heq =>
    rw [heq]
    exact List.forall_mem_cons.2 ⟨hi, htells⟩
  | closes _ heq =>
    rw [heq] at htells
    exact (List.forall_mem_cons.1 htells).2
  | loops _ _ heq => exact heq ▸ htells

theorem Steps.tells_ne {position : Nat} (h : Steps instructions m m')
    (hoffset : ∀ i ∈ instructions, i.offset ≠ position)
    (htells : ∀ tell ∈ m.context.tells, tell.1 ≠ position) :
    ∀ tell ∈ m'.context.tells, tell.1 ≠ position :=
  h.keep_of_moves (R := fun m => ∀ tell ∈ m.context.tells, tell.1 ≠ position)
    (fun i hi _ _ hmoves htells => hmoves.tells_ne (hoffset i hi) htells) htells

/-- A statement stays as it is, wherever it is moved to, if no open block started at it. -/
theorem Steps.mem_nestedAll (h : Steps instructions m m')
    (hoffset : ∀ i ∈ instructions, i.offset ≠ s.position)
    (htells : ∀ tell ∈ m.context.tells, tell.1 ≠ s.position)
    (hs : s ∈ nestedAll m.function.statements) : s ∈ nestedAll m'.function.statements := by
  have hkept := h.keep_of_moves
    (R := fun m => (∀ tell ∈ m.context.tells, tell.1 ≠ s.position) ∧
      s ∈ nestedAll m.function.statements)
    (fun i hi _ _ hmoves hm => ⟨hmoves.tells_ne (hoffset i hi) hm.1, hmoves.mem_nestedAll hm.1 hm.2⟩)
    ⟨htells, hs⟩
  exact hkept.2

namespace Opened

theorem append_balanced {before since : List Instruction} {tells : List (Nat × Node)}
    (h : Opened m₀ before tells) (hsince : Balanced since) : Opened m₀ (before ++ since) tells := by
  cases h with
  | balanced h => exact .balanced (h.append hsince)
  | tell hbefore hsteps hstack hstart hinner =>
    rw [List.append_assoc, List.cons_append]
    exact .tell hbefore hsteps hstack hstart (hinner.append hsince)

variable (hm₀ : m₀.context.tells = [])
include hm₀

theorem tells_eq {tells : List (Nat × Node)} (h : Opened m₀ instructions tells)
    (hsteps : Steps instructions m₀ m) : m.context.tells = tells := by
  induction h generalizing m with
  | balanced h => exact (h.tells_eq hsteps).trans hm₀
  | tell _ hbefore hstack hstart hsince ih =>
    obtain ⟨m₁, hbefore', hbehind⟩ := hsteps.split
    obtain rfl := hbefore.unique hbefore'
    obtain ⟨m₂, hopen, hrest⟩ := hbehind.uncons
    obtain ⟨target, stack, hstack', -, htells⟩ := startTell_eq_ok hstart hopen
    obtain ⟨rfl, -⟩ := List.cons.inj (hstack.symm.trans hstack')
    rw [hsince.tells_eq hrest, htells, ih hbefore]

theorem of_steps (h : Steps instructions m₀ m) : Opened m₀ instructions m.context.tells := by
  induction instructions using List.reverseRecOn generalizing m with
  | nil =>
    cases h
    rw [hm₀]
    exact .balanced .nil
  | append_singleton before i ih =>
    obtain ⟨m₁, hbefore, hlast⟩ := h.split
    obtain ⟨m₂, hi, hnil⟩ := hlast.uncons
    cases hnil
    have hopened := ih hbefore
    cases moves_of_step hi with
    | emits hopens hcloses _ _ _ htells =>
      rw [htells]
      exact hopened.append_balanced (.cons hopens hcloses .nil)
    | opens hopens hstack _ htells =>
      rw [htells]
      exact .tell hopened hbefore hstack hopens .nil
    | loops hloops _ htells =>
      rw [htells]
      exact hopened.append_balanced (.cons (by simp [hloops]) (by simp [hloops]) .nil)
    | closes hcloses htells =>
      rw [htells] at hopened
      cases hopened with
      | tell hbefore _ _ hstart hsince =>
        rw [List.append_assoc, List.cons_append]
        exact hbefore.append_balanced (.block hstart hsince hcloses .nil)

end Opened

theorem opened_iff (hm₀ : m₀.context.tells = []) (h : Steps instructions m₀ m)
    (tells : List (Nat × Node)) : Opened m₀ instructions tells ↔ tells = m.context.tells := by
  constructor
  · intro hopened
    exact (hopened.tells_eq hm₀ h).symm
  · rintro rfl
    exact .of_steps hm₀ h

structure OpenTell.Run (t : OpenTell instructions) (m₀ m : Machine) where
  opening : Machine
  opened : Machine
  target : Node
  stack : List Node
  before : Steps t.before m₀ opening
  top : opening.stack = target :: stack
  opens : t.start.step.run opening = .ok () opened
  since : Steps t.since opened m

namespace OpenTell

variable {offset : Nat} (t : OpenTell instructions)

theorem exists_run (h : Steps instructions m₀ m) : Nonempty (t.Run m₀ m) := by
  have hsteps := h
  rw [t.split] at hsteps
  obtain ⟨opening, hbefore, hbehind⟩ := hsteps.split
  obtain ⟨opened, hopen, hsince⟩ := hbehind.uncons
  obtain ⟨target, stack, hstack, -, -⟩ := startTell_eq_ok t.opens hopen
  exact ⟨⟨opening, opened, target, stack, hbefore, hstack, hopen, hsince⟩⟩

variable {t}

theorem Run.opened_eq (r : t.Run m₀ m) :
    r.opened.function.statements =
        r.opening.function.statements ++ [⟨t.start.offset, .tell t.start.offset r.target []⟩] ∧
      r.opened.context.tells = (t.start.offset, r.target) :: r.opening.context.tells := by
  obtain ⟨target, stack, hstack, hstatements, htells⟩ := startTell_eq_ok t.opens r.opens
  obtain ⟨rfl, -⟩ := List.cons.inj (r.top.symm.trans hstack)
  exact ⟨hstatements, htells⟩

theorem Run.tells_eq (r : t.Run m₀ m) :
    m.context.tells = (t.start.offset, r.target) :: r.opening.context.tells :=
  (t.balanced.tells_eq r.since).trans r.opened_eq.2

theorem lt_offset_of_mem_since (hinstructions : Consecutive offset instructions) :
    ∀ i ∈ t.since, t.start.offset < i.offset := by
  have hpairwise := hinstructions.1
  rw [t.split] at hpairwise
  exact (List.pairwise_cons.1 (List.pairwise_append.1 hpairwise).2.1).1

theorem Run.inOrder_opening (r : t.Run m₀ m) (hinstructions : Consecutive offset instructions)
    (hm₀ : m₀.function.statements = []) :
    InOrder t.start.offset r.opening.function.statements := by
  obtain ⟨hpairwise, hoffset⟩ := hinstructions
  rw [t.split] at hpairwise hoffset
  obtain ⟨hbefore, -, hlt⟩ := List.pairwise_append.1 hpairwise
  refine r.before.inOrder (hm₀ ▸ inOrder_nil offset) (hoffset t.start (by simp))
    ⟨hbefore, fun i hi => hoffset i (by simp [hi])⟩ fun i hi => hlt i hi t.start (by simp)

/-- If no loop starts at the opening or in front of it, the statement of the block stays where it is, and
what is emitted comes behind it. -/
theorem Run.exists_own (r : t.Run m₀ m) (hinstructions : Consecutive offset instructions)
    (hm₀ : m₀.function.statements = [])
    (hloops : ∀ i ∈ t.since, i.opcode = .endRepeat → t.start.offset < i.loopStart) :
    ∃ own, m.function.statements =
        r.opening.function.statements ++ ⟨t.start.offset, .tell t.start.offset r.target []⟩ :: own ∧
      From (t.start.offset + 1) own := by
  have hbelow := below_of_flatten (r.inOrder_opening hinstructions hm₀).below
  have hbase : Below (t.start.offset + 1) r.opened.function.statements := by
    rw [r.opened_eq.1]
    exact List.forall_mem_append.2 ⟨hbelow.mono (Nat.le_succ _),
      List.forall_mem_singleton.2 (Nat.lt_succ_self _)⟩
  obtain ⟨own, hown, hfrom⟩ := t.balanced.exists_append r.since (lt_offset_of_mem_since hinstructions)
    hloops (List.append_nil _).symm hbase (by simp [From])
  rw [r.opened_eq.1, List.append_assoc, List.singleton_append] at hown
  exact ⟨own, hown, hfrom⟩

/-- The innermost block can be closed exactly if no loop has taken its statement. -/
theorem Run.closes_iff (r : t.Run m₀ m) (hinstructions : Consecutive offset instructions)
    (hm₀ : m₀.function.statements = []) :
    (splitAtTell t.start.offset m.function.statements).isSome ↔
      ∀ i ∈ t.since, i.opcode = .endRepeat → t.start.offset < i.loopStart := by
  constructor
  · intro hsome i hi hopcode
    by_contra hlt
    have hnone := splitAtTell_eq_none (r.since.not_mem_positions_of_loop
      (lt_offset_of_mem_since hinstructions) hi hopcode (Nat.not_lt.1 hlt))
    simp [hnone] at hsome
  · intro hloops
    obtain ⟨own, hown, hfrom⟩ := r.exists_own hinstructions hm₀ hloops
    rw [hown, splitAtTell_append fun s hs => Nat.ne_of_gt (hfrom s hs)]
    rfl

theorem Run.exists_closed (r : t.Run m₀ m) (hinstructions : Consecutive offset instructions)
    (hm₀ : m₀.function.statements = []) (h : i.closeTell.run m = .ok () m') :
    ∃ body, flatten m.function.statements = flatten r.opened.function.statements ++ flatten body ∧
      m'.function.statements =
        r.opening.function.statements ++ [⟨t.start.offset, .tell t.start.offset r.target body⟩] ∧
      m'.context.tells = r.opening.context.tells := by
  have hsome : (splitAtTell t.start.offset m.function.statements).isSome := by
    by_contra hnone
    have herror : ∃ m', i.closeTell.run m = .error (.unmatchedTellEnd i.offset) m' :=
      closeTell_eq_error_iff.2 (by simpa [r.tells_eq] using hnone)
    simp [h] at herror
  obtain ⟨body, hbody, hfrom⟩ :=
    r.exists_own hinstructions hm₀ ((r.closes_iff hinstructions hm₀).1 hsome)
  have hclosed := closeTell_append (i := i) r.tells_eq hbody fun s hs => Nat.ne_of_gt (hfrom s hs)
  rw [h] at hclosed
  cases hclosed
  refine ⟨body, ?_, rfl, rfl⟩
  rw [hbody, r.opened_eq.1, ← List.singleton_append, ← List.append_assoc, flatten_append]

end OpenTell

def TellPair.inside (pair : TellPair instructions) :
    OpenTell (pair.before ++ pair.start :: pair.inner) :=
  ⟨pair.before, pair.start, pair.inner, rfl, pair.opens, pair.balanced⟩

theorem Consecutive.of_append {offset : Nat} {a b : List Instruction}
    (h : Consecutive offset (a ++ b)) : Consecutive offset a :=
  ⟨(List.pairwise_append.1 h.1).1, fun i hi => h.2 i (List.mem_append_left b hi)⟩

theorem exists_offset_lt (instructions : List Instruction) :
    ∃ stop, ∀ i ∈ instructions, i.offset < stop := by
  induction instructions with
  | nil => exact ⟨0, by simp⟩
  | cons i rest ih =>
    obtain ⟨stop, hstop⟩ := ih
    refine ⟨max stop (i.offset + 1), List.forall_mem_cons.2 ⟨by omega, fun j hj => ?_⟩⟩
    have hlt := hstop j hj
    omega

theorem Steps.increasing_flatten {offset : Nat} (h : Steps instructions m₀ m)
    (hinstructions : Consecutive offset instructions) (hm₀ : m₀.function.statements = []) :
    Increasing (flatten m.function.statements) := by
  obtain ⟨stop, hstop⟩ := exists_offset_lt instructions
  exact (h.inOrder (hm₀ ▸ inOrder_nil offset) (Nat.le_max_left offset stop) hinstructions
    fun i hi => Nat.lt_of_lt_of_le (hstop i hi) (Nat.le_max_right offset stop)).increasing

/-- A run without an error is balanced or has an innermost open block. -/
theorem Opened.balanced_or_openTell {tells : List (Nat × Node)} (h : Opened m₀ instructions tells) :
    Balanced instructions ∨ Nonempty (OpenTell instructions) := by
  cases h with
  | balanced h => exact .inl h
  | tell _ _ _ hstart hsince => exact .inr ⟨⟨_, _, _, rfl, hstart, hsince⟩⟩

section Handler

variable {offset : Nat} (hinstructions : Consecutive offset instructions)
  (hstatements : m₀.function.statements = []) (htells : m₀.context.tells = [])
  (hsteps : Steps instructions m₀ m)
include hinstructions hstatements htells hsteps

theorem endTell_eq_error_iff (hi : i.opcode = .endTell) :
    (∃ m', i.step.run m = .error (.unmatchedTellEnd i.offset) m') ↔
      Balanced instructions ∨ ∃ t : OpenTell instructions,
        ∃ r ∈ t.since, r.opcode = .endRepeat ∧ r.loopStart ≤ t.start.offset := by
  rw [step_of_endTell hi, closeTell_eq_error_iff]
  constructor
  · intro hnone
    rcases (Opened.of_steps htells hsteps).balanced_or_openTell with hbalanced | hopen
    · exact .inl hbalanced
    · obtain ⟨t⟩ := hopen
      obtain ⟨run⟩ := t.exists_run hsteps
      have hsplit : splitAtTell t.start.offset m.function.statements = none :=
        hnone (t.start.offset, run.target) (by simp [run.tells_eq])
      refine .inr ⟨t, ?_⟩
      by_contra hloops
      have hsome := (run.closes_iff hinstructions hstatements).2 fun r hr hopcode =>
        Nat.lt_of_not_le fun hstart => hloops ⟨r, hr, hopcode, hstart⟩
      simp [hsplit] at hsome
  · rintro (hbalanced | ⟨t, r, hr, hopcode, hstart⟩)
    · simp [hbalanced.tells_eq hsteps, htells]
    · obtain ⟨run⟩ := t.exists_run hsteps
      have hnone : splitAtTell t.start.offset m.function.statements = none := by
        refine Option.not_isSome_iff_eq_none.1 fun hsome => ?_
        have hlt := (run.closes_iff hinstructions hstatements).1 hsome r hr hopcode
        exact absurd hlt (Nat.not_lt.2 hstart)
      simpa [run.tells_eq] using hnone

/-- The statement of a closed block has what was emitted since its opening, and no other statement in the
tree has its position. -/
theorem TellPair.exists_run (pair : TellPair instructions) :
    ∃ closing, ∃ run : pair.inside.Run m₀ closing, ∃ body,
      flatten closing.function.statements = flatten run.opened.function.statements ++ flatten body ∧
      ∀ s, (s ∈ nestedAll m.function.statements ∧ s.position = pair.start.offset) ↔
        s = ⟨pair.start.offset, .tell pair.start.offset run.target body⟩ := by
  have hsplit : instructions =
      (pair.before ++ pair.start :: pair.inner) ++ pair.stop :: pair.after := by simp [pair.split]
  have hincreasing := hsteps.increasing_flatten hinstructions hstatements
  rw [hsplit] at hinstructions hsteps
  obtain ⟨closing, hinside, hbehind⟩ := hsteps.split
  obtain ⟨closed, hstop, hafter⟩ := hbehind.uncons
  rw [step_of_endTell pair.closes] at hstop
  obtain ⟨run⟩ := pair.inside.exists_run hinside
  obtain ⟨body, hflatten, hclosed, htellsClosed⟩ :=
    run.exists_closed hinstructions.of_append hstatements hstop
  refine ⟨closing, run, body, hflatten, ?_⟩
  obtain ⟨hinner, -, hlast⟩ := List.pairwise_append.1 hinstructions.1
  have hbefore : ∀ i ∈ pair.before, i.offset ≠ pair.start.offset := fun i hi =>
    Nat.ne_of_lt ((List.pairwise_append.1 hinner).2.2 i hi pair.start (by simp))
  have hbehind : ∀ i ∈ pair.after, i.offset ≠ pair.start.offset := fun i hi =>
    Nat.ne_of_gt (hlast pair.start (by simp) i (by simp [hi]))
  have hopen : ∀ tell ∈ closed.context.tells, tell.1 ≠ pair.start.offset := by
    rw [htellsClosed]
    exact run.before.tells_ne hbefore (by simp [htells])
  have hmem : ⟨pair.start.offset, .tell pair.start.offset run.target body⟩ ∈
      nestedAll m.function.statements := by
    refine hafter.mem_nestedAll hbehind hopen (mem_nestedAll_of_mem ?_)
    rw [hclosed]
    exact List.mem_append_right _ (List.mem_singleton_self _)
  intro s
  constructor
  · rintro ⟨hs, hposition⟩
    exact eq_of_mem_nestedAll hincreasing hs hmem hposition
  · rintro rfl
    exact ⟨hmem, rfl⟩

end Handler

end Instruction

open Instruction

/-- Wherever the run of a handler stands, the context has the blocks that the handler has opened and not
closed, whatever earlier handlers left open. Every block that is closed has one statement, with what was
emitted between its brackets. A closing that comes next fails exactly if no block is open or a loop since
the opening of the innermost one starts at its statement or in front of it. -/
theorem Handler.tells_matched {c : Context} {h : Handler} {executed rest : List Instruction}
    {m : Machine} (hdecode : (decode h.record.codeOffset h.bytecode).1 = executed ++ rest)
    (hsteps : Steps executed (h.start c) m) :
    (∀ tells, Opened (h.start c) executed tells ↔ tells = m.context.tells) ∧
    (∀ pair : TellPair executed, ∃ closing, ∃ run : pair.inside.Run (h.start c) closing, ∃ body,
      flatten closing.function.statements = flatten run.opened.function.statements ++ flatten body ∧
      ∀ s, (s ∈ nestedAll m.function.statements ∧ s.position = pair.start.offset) ↔
        s = ⟨pair.start.offset, .tell pair.start.offset run.target body⟩) ∧
    ∀ i ∈ rest.head?, i.opcode = .endTell →
      ((∃ m', i.step.run m = .error (.unmatchedTellEnd i.offset) m') ↔
        Balanced executed ∨ ∃ t : OpenTell executed,
          ∃ r ∈ t.since, r.opcode = .endRepeat ∧ r.loopStart ≤ t.start.offset) := by
  have hconsecutive : Consecutive h.record.codeOffset executed :=
    (hdecode ▸ decode_consecutive h.record.codeOffset h.bytecode).of_append
  exact ⟨opened_iff rfl hsteps, TellPair.exists_run hconsecutive rfl rfl hsteps,
    fun i _ hi => endTell_eq_error_iff hconsecutive rfl rfl hsteps hi⟩

/-- A loop takes a `tell` with a call in it and one that is still open, which cannot be closed after that;
an earlier handler has left another one open. -/
theorem Handler.tells_matched_loopOverTell :
    let c : Context := (Context.create ["beep"] [] 1).openTell 90 (.leaf .constant "9" 88)
    let h : Handler := {
      record := ⟨0, 14, 0, 0, 0, 0, 0, 64⟩
      parameters := []
      locals := []
      bytecode := [0x41, 7, 0x1c, 0x42, 0, 0x57, 0, 0x1d, 0x41, 8, 0x1c, 0x54, 11, 0x1d] }
    let executed := (decode 0 (h.bytecode.take 13)).1
    let beep : Node :=
      .tell 2 (.leaf .constant "7" 0) [⟨5, .call 5 "beep" .argListNoRet [] false⟩]
    ∃ m, Steps executed (h.start c) m ∧
      Opened (h.start c) executed [(10, .leaf .constant "8" 8)] ∧
      (∀ s, (s ∈ nestedAll m.function.statements ∧ s.position = 2) ↔ s = ⟨2, beep⟩) ∧
      ∃ m', (step ⟨13, .endTell, 0⟩).run m = .error (.unmatchedTellEnd 13) m' := by
  intro c h executed beep
  let inner : List Statement := [⟨2, beep⟩, ⟨10, .tell 10 (.leaf .constant "8" 8) []⟩]
  let m : Machine := {
    context := { c with tells := [(10, .leaf .constant "8" 8)] }
    function := { h.signature c with
      statements := [⟨11, .loop 11 0 11 .whileTrue (.leaf .constant "TRUE" 0) inner⟩] } }
  have hdecode : (decode h.record.codeOffset h.bytecode).1 = executed ++ [⟨13, .endTell, 0⟩] := by
    decide
  have hsteps : Steps executed (h.start c) m := rfl
  obtain ⟨hopened, hpairs, hfails⟩ := tells_matched hdecode hsteps
  let pair : TellPair executed := {
    before := [⟨0, .pushInt8, 7⟩]
    start := ⟨2, .startTell, 0⟩
    inner := [⟨3, .pushArgListNoRet, 0⟩, ⟨5, .extCall, 0⟩]
    stop := ⟨7, .endTell, 0⟩
    after := [⟨8, .pushInt8, 8⟩, ⟨10, .startTell, 0⟩, ⟨11, .endRepeat, 11⟩]
    split := rfl
    opens := rfl
    closes := rfl
    balanced := .cons (by decide) (by decide) (.cons (by decide) (by decide) .nil) }
  let last : OpenTell executed := {
    before := pair.before ++ pair.start :: (pair.inner ++ [pair.stop, ⟨8, .pushInt8, 8⟩])
    start := ⟨10, .startTell, 0⟩
    since := [⟨11, .endRepeat, 11⟩]
    split := rfl
    opens := rfl
    balanced := .cons (by decide) (by decide) .nil }
  refine ⟨m, hsteps, (hopened _).2 rfl, ?_, ?_⟩
  · obtain ⟨closing, run, body, -, honly⟩ := hpairs pair
    have hbeep : ⟨2, beep⟩ ∈ nestedAll m.function.statements := by
      simp [m, inner, beep, nestedAll, Node.nested]
    rw [(honly ⟨2, beep⟩).1 ⟨hbeep, rfl⟩]
    exact honly
  · exact (hfails ⟨13, .endTell, 0⟩ rfl rfl).2
      (.inr ⟨last, ⟨11, .endRepeat, 11⟩, List.mem_singleton_self _, rfl, by decide⟩)

end LingoSource
