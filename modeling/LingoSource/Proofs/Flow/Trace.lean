import LingoSource.Proofs.Condition.Scan

/-!
What a list of statements does. A jump program is a list of calls and jumps forward; its tree is a
list of calls and branches. One evaluator runs both: a jump drops the statements in front of its
address, a branch runs one of its parts.
-/
set_option autoImplicit false

namespace LingoSource.Statement

def Forward (s : Statement) : Prop :=
  match s.node with
  | .call .. => True
  | .jump _ address => s.position < address
  | .jumpUnless _ _ address => s.position < address
  | _ => False

structure JumpProgram (statements : List Statement) : Prop where
  increasing : Increasing statements
  forward : ∀ s ∈ statements, s.Forward

theorem weightAll_dropWhile_le (p : Statement → Bool) (statements : List Statement) :
    weightAll (statements.dropWhile p) ≤ weightAll statements :=
  weightAll_le_of_sublist (List.dropWhile_sublist p)

/-- The statements that are executed, in order, when each condition has the truth value that `truth`
gives for its place. A jump goes to the first statement at or behind its address. -/
def trace (truth : Nat → Node → Bool) : List Statement → List Statement
  | [] => []
  | ⟨position, node⟩ :: rest =>
    match node with
    | .jump _ address => trace truth (rest.dropWhile (·.position < address))
    | .jumpUnless _ condition address =>
      if truth position condition then trace truth rest
      else trace truth (rest.dropWhile (·.position < address))
    | .branch _ condition thenBody elseBody =>
      (if truth position condition then trace truth thenBody else trace truth elseBody) ++
        trace truth rest
    | node => ⟨position, node⟩ :: trace truth rest
termination_by statements => weightAll statements
decreasing_by
  all_goals simp only [weightAll, Node.weight]
  · have := weightAll_dropWhile_le (·.position < address) rest
    omega
  · omega
  · have := weightAll_dropWhile_le (·.position < address) rest
    omega
  · omega
  · omega
  · omega
  · have := node.weight_pos
    omega

theorem trace_call (truth : Nat → Node → Bool) {position origin : Nat} {name : String}
    {kind : ListKind} {args : List Node} {inTell : Bool} (rest : List Statement) :
    trace truth (⟨position, .call origin name kind args inTell⟩ :: rest) =
      ⟨position, .call origin name kind args inTell⟩ :: trace truth rest := by
  simp only [trace]

theorem trace_jump (truth : Nat → Node → Bool) (position origin : Nat) {address : Nat}
    {part rest : List Statement} (hpart : Below address part) (hrest : From address rest) :
    trace truth (⟨position, .jump origin address⟩ :: (part ++ rest)) = trace truth rest := by
  rw [trace, dropWhile_append_of_below hpart hrest]

theorem trace_jumpUnless (truth : Nat → Node → Bool) (position origin : Nat) (condition : Node)
    {address : Nat} {part rest : List Statement} (hpart : Below address part)
    (hrest : From address rest) :
    trace truth (⟨position, .jumpUnless origin condition address⟩ :: (part ++ rest)) =
      if truth position condition then trace truth (part ++ rest) else trace truth rest := by
  rw [trace, dropWhile_append_of_below hpart hrest]

def within (ends : List Nat) (address : Nat) : Nat :=
  match ends with
  | [] => address
  | stop :: _ => min address stop

/-- The program with every address cut to the end of the block that the jump stands in. `ends` are
the ends of the blocks that are open, innermost first: a conditional jump opens a block, and a jump
ends the block that it stands in and opens one in its place. -/
def cut : List Nat → List Statement → List Statement
  | _, [] => []
  | ends, s :: rest =>
    let ends := ends.dropWhile (· ≤ s.position)
    match s.node with
    | .jumpUnless origin condition address =>
      let stop := within ends address
      ⟨s.position, .jumpUnless origin condition stop⟩ :: cut (stop :: ends) rest
    | .jump origin address =>
      let stop := within ends.tail address
      ⟨s.position, .jump origin stop⟩ :: cut (stop :: ends.tail) rest
    | _ => s :: cut ends rest

def Held (ends : List Nat) (statements : List Statement) : Prop :=
  ∀ stop ∈ ends.head?, Below stop statements

def Past (ends : List Nat) (statements : List Statement) : Prop :=
  ∀ s ∈ statements, ∃ stop ∈ ends.head?, stop ≤ s.position

variable {ends : List Nat} {address stop : Nat} {a b statements : List Statement}

theorem within_le (ends : List Nat) (address : Nat) : within ends address ≤ address := by
  unfold within
  split <;> omega

theorem Below.within (h : Below address a) (hheld : Held ends a) :
    Below (Statement.within ends address) a := by
  cases ends with
  | nil => exact h
  | cons stop ends =>
    intro s hs
    have hlt := h s hs
    have hstop := hheld stop rfl s hs
    simp only [Statement.within]
    omega

theorem past_cons : Past (stop :: ends) statements ↔ From stop statements := by
  simp [Past, From]

theorem Past.from_within (h : Past ends statements) (address : Nat) :
    From (Statement.within ends address) statements := by
  intro s hs
  obtain ⟨stop, hstop, hle⟩ := h s hs
  cases ends with
  | nil => cases hstop
  | cons stop' ends =>
    cases hstop
    simp only [Statement.within]
    omega

theorem held_append : Held ends (a ++ b) ↔ Held ends a ∧ Held ends b := by
  simp [Held, forall_and]

theorem held_stop : Held (stop :: ends) statements ↔ Below stop statements := by
  simp [Held]

theorem Held.open_eq {s : Statement} (h : Held ends [s]) :
    ends.dropWhile (· ≤ s.position) = ends := by
  cases ends with
  | nil => rfl
  | cons stop ends =>
    have hlt : s.position < stop := by simpa using h stop rfl
    rw [List.dropWhile_cons_of_neg (by simpa using hlt)]

/-- A block that has ended has no effect. -/
theorem cut_of_from (h : From stop statements) : cut (stop :: ends) statements = cut ends statements := by
  cases statements with
  | nil => rfl
  | cons s rest =>
    have hstop : stop ≤ s.position := (from_cons.1 h).1
    rw [cut, cut, List.dropWhile_cons_of_pos (by simpa using hstop)]

theorem cut_call {s : Statement} {rest : List Statement} (hheld : Held ends [s])
    (h : s.node.isJump = false) : cut ends (s :: rest) = s :: cut ends rest := by
  obtain ⟨position, node⟩ := s
  rw [cut, hheld.open_eq]
  cases node <;> first | rfl | cases h

theorem cut_jumpUnless {position origin : Nat} {condition : Node} {rest : List Statement}
    (hheld : Held ends [⟨position, .jumpUnless origin condition address⟩]) :
    cut ends (⟨position, .jumpUnless origin condition address⟩ :: rest) =
      ⟨position, .jumpUnless origin condition (within ends address)⟩ ::
        cut (within ends address :: ends) rest := by
  rw [cut, hheld.open_eq]

theorem cut_jump {position origin : Nat} {rest : List Statement}
    (hstop : position < stop) :
    cut (stop :: ends) (⟨position, .jump origin address⟩ :: rest) =
      ⟨position, .jump origin (within ends address)⟩ ::
        cut (within ends address :: ends) rest := by
  rw [cut, List.dropWhile_cons_of_neg (by simpa using hstop)]
  rfl

theorem map_position_cut (ends : List Nat) (statements : List Statement) :
    (cut ends statements).map position = statements.map position := by
  induction statements generalizing ends with
  | nil => rfl
  | cons s rest ih =>
    rw [cut]
    split <;> simp [ih]

theorem from_cut : From stop (cut ends statements) ↔ From stop statements := by
  have hmap : ∀ l : List Statement, From stop l ↔ ∀ p ∈ l.map position, stop ≤ p := by
    simp [From]
  rw [hmap, hmap, map_position_cut]

end LingoSource.Statement
