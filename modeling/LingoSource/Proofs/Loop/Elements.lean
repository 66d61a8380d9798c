import LingoSource.Proofs.Instruction.Order
import LingoSource.Proofs.Instruction.Success
import LingoSource.Proofs.Loop.Taking
import LingoSource.Proofs.Program.Run
import LingoSource.Proofs.Recovery.Globals

/-!
Loops over the elements of a list. While such a loop runs, the list, its length and a counter lie on the
stack, and the test and the reading of an element copy them from there. The machine copies nodes, so what
the loop reads its elements from is the very node that was counted, whatever expression it is; by that
the loop is recognized.
-/
set_option autoImplicit false

namespace LingoSource

open Statement Operation Instruction

namespace Machine

def on (m : Machine) (stack : List Node) : Machine := { m with stack }

def having (m : Machine) (statements : List Statement) : Machine :=
  { m with function.statements := statements }

def adding (m : Machine) (statements : List Statement) : Machine :=
  m.having (m.function.statements ++ statements)

theorem adding_descaled_adding (m : Machine) (raw : Nat) (a b : Statement) :
    ((m.adding [a]).descaled raw).adding [b] = (m.descaled raw).adding [a, b] := by
  simp [adding, having, descaled]

/-- From one state of the machine to another the operations at an offset put these nodes on the stack,
topmost first, and add these statements. -/
structure Leaves (m : Machine) (offset : Nat) (ops : List Operation) (nodes : List Node)
    (statements : List Statement) (m' : Machine) : Prop where
  steps : Steps (place offset ops) m m'
  stack : m'.stack = nodes ++ m.stack
  statements : m'.function.statements = m.function.statements ++ statements

/-- From every stack and behind all statements the operations at an offset add these statements, and
leave the stack as it was. -/
def Adds (m : Machine) (offset : Nat) (ops : List Operation) (statements : List Statement) : Prop :=
  ∀ stack earlier, ∃ m', ((m.having earlier).on stack).Leaves offset ops [] statements m'

end Machine

structure Elements where
  list : List Operation
  /-- The number of the name `count`. -/
  count : Nat
  /-- The number of the name `getAt`. -/
  getAt : Nat
  /-- The operand that refers to the local which takes the elements. -/
  element : Nat
  body : List Operation

namespace Elements

variable (l : Elements)

/-- Behind the list: its length and a counter. -/
def opening : List Operation :=
  [⟨.peek, 0⟩, ⟨.pushArgList, 1⟩, ⟨.extCall, l.count⟩, ⟨.pushInt8, 1⟩]

/-- Compares the counter with the length, leaves the loop behind the jump back, and reads an element. -/
def head : List Operation :=
  [⟨.peek, 0⟩, ⟨.peek, 2⟩, ⟨.ltEq, 0⟩, ⟨.jmpIfZ, 18 + sizeAll l.body⟩, ⟨.peek, 2⟩, ⟨.peek, 1⟩,
    ⟨.pushArgList, 2⟩, ⟨.extCall, l.getAt⟩, ⟨.setLocal, l.element⟩]

/-- Steps the counter, jumps back to the head and drops what the loop kept on the stack. -/
def closing : List Operation :=
  [⟨.pushInt8, 1⟩, ⟨.add, 0⟩, ⟨.endRepeat, 21 + sizeAll l.body⟩, ⟨.pop, 3⟩]

def code : List Operation :=
  l.list ++ (l.opening ++ (l.head ++ (l.body ++ l.closing)))

def start (offset : Nat) : Nat := offset + sizeAll l.list

def top (offset : Nat) : Nat := l.start offset + 8

def back (offset : Nat) : Nat := l.top offset + 21 + sizeAll l.body

structure Fits : Prop where
  list : ∀ op ∈ l.list, op.Fits
  body : ∀ op ∈ l.body, op.Fits
  count_lt : l.count < 256
  getAt_lt : l.getAt < 256
  element_lt : l.element < 256
  back_lt : 21 + sizeAll l.body < 256

theorem Fits.code {l : Elements} (h : l.Fits) : ∀ op ∈ l.code, op.Fits := by
  have hback := h.back_lt
  have hopening : ∀ op ∈ l.opening, op.Fits := by
    simp only [opening, List.forall_mem_cons]
    exact ⟨fits_byte rfl (by omega), fits_byte rfl (by omega), fits_byte rfl h.count_lt,
      fits_byte rfl (by omega), by simp⟩
  have hhead : ∀ op ∈ l.head, op.Fits := by
    simp only [head, List.forall_mem_cons]
    exact ⟨fits_byte rfl (by omega), fits_byte rfl (by omega), fits_none rfl,
      fits_word rfl (by omega), fits_byte rfl (by omega), fits_byte rfl (by omega),
      fits_byte rfl (by omega), fits_byte rfl h.getAt_lt, fits_byte rfl h.element_lt, by simp⟩
  have hclosing : ∀ op ∈ l.closing, op.Fits := by
    simp only [closing, List.forall_mem_cons]
    exact ⟨fits_byte rfl (by omega), fits_none rfl, fits_byte rfl hback, fits_byte rfl (by omega),
      by simp⟩
  intro op hop
  simp only [Elements.code, List.mem_append] at hop
  rcases hop with hop | hop | hop | hop | hop
  · exact h.list op hop
  · exact hopening op hop
  · exact hhead op hop
  · exact h.body op hop
  · exact hclosing op hop

def counter (offset : Nat) : Node :=
  .leaf .constant "1" (l.start offset + 6)

def counted (offset : Nat) (list : Node) : Node :=
  .call (l.start offset + 4) "count" .argList [list] false

def test (offset : Nat) (list : Node) : Node :=
  .binary (l.top offset + 4) .ltEq (l.counter offset) (l.counted offset list)

def leaving (offset : Nat) (list : Node) : Statement :=
  ⟨l.top offset + 5, .jumpUnless (l.top offset + 5) (l.test offset list) (l.back offset + 2)⟩

def taking (offset : Nat) (list element : Node) : Statement :=
  ⟨l.top offset + 16, .assign (l.top offset + 16) element
    (.call (l.top offset + 14) "getAt" .argList [list, l.counter offset] false)⟩

def emitted (offset : Nat) (list element : Node) (body : List Statement) : Statement :=
  Block.loopStatement (l.top offset) (l.back offset)
    (l.leaving offset list :: l.taking offset list element :: body)

end Elements

namespace Instruction

variable {m : Machine} (offset : Nat)

theorem Change.locals_eq {i : Instruction} {m m' : Machine} (h : i.Change m m') :
    m'.function.locals = m.function.locals := by
  induction h with
  | trans _ _ ih ih' => exact ih'.trans ih
  | declareGlobal m name => exact m.function.locals_addGlobal name
  | _ => rfl

theorem Steps.locals_eq {instructions : List Instruction} {m m' : Machine}
    (h : Steps instructions m m') : m'.function.locals = m.function.locals :=
  h.induction (R := fun m' => m'.function.locals = m.function.locals)
    (fun _ _ _ hchange hm => hchange.locals_eq.trans hm) rfl

theorem consecutive_place (ops : List Operation) : Consecutive offset (place offset ops) := by
  induction ops generalizing offset with
  | nil => exact ⟨List.Pairwise.nil, by simp [place]⟩
  | cons op ops ih => exact (ih (offset + op.size)).cons (Nat.add_pos_left Nat.one_pos _)

theorem offset_lt_of_mem_place {ops : List Operation} {i : Instruction} (h : i ∈ place offset ops) :
    i.offset < offset + sizeAll ops := by
  induction ops generalizing offset with
  | nil => cases h
  | cons op ops ih =>
    have hsize : 0 < op.size := Nat.add_pos_left Nat.one_pos _
    rw [sizeAll]
    rcases List.mem_cons.1 h with rfl | h
    · exact Nat.lt_add_of_pos_right (Nat.add_pos_left hsize _)
    · have := ih _ h
      omega

theorem increasing_taking_of_adds {l : TakingLoop} {ops : List Operation} (hleaves : l.leaves < l.takes)
    (htakes : l.takes < offset) (hbody : m.Adds offset ops l.calls) : Increasing (l.leaving :: l.taken) := by
  let opened : List Statement := [l.leaving, ⟨l.takes, .assign l.takes l.element l.value⟩]
  have hopened : InOrder offset opened := by
    have hflat : flatten opened = opened := rfl
    have hincreasing : Increasing opened := List.pairwise_pair.2 hleaves
    have hbelow : Below offset opened :=
      below_cons.2 ⟨Nat.lt_trans hleaves htakes, below_cons.2 ⟨htakes, below_nil⟩⟩
    refine ⟨hflat ▸ hincreasing, hflat ▸ hbelow, orderedAll_iff.2 ⟨hincreasing, ?_⟩⟩
    exact List.forall_mem_cons.2 ⟨trivial, List.forall_mem_cons.2 ⟨trivial, by simp⟩⟩
  obtain ⟨m', hinner⟩ := hbody [] opened
  have horder := hinner.steps.inOrder hopened (Nat.le_add_right _ _) (consecutive_place _ ops)
    fun _ => offset_lt_of_mem_place _
  have hall := increasing_of_flatten horder.increasing
  rw [hinner.statements] at hall
  exact hall

theorem step_peek {depth : Nat} {node : Node} {stack : List Node} (h : stack[depth]? = some node) :
    (step ⟨offset, .peek, depth⟩).run (m.on stack) = .ok () (m.on (node :: stack)) := by
  have hlook := run_lookUp ⟨offset, .peek, depth⟩ .stack h (m.on stack)
  exact run_bind_eq_ok_iff.2 ⟨m.on stack, m.on stack, rfl,
    run_bind_eq_ok_iff.2 ⟨node, m.on stack, hlook, rfl⟩⟩

theorem step_pop {count : Nat} {nodes stack : List Node} (hcount : nodes.length = count) :
    (step ⟨offset, .pop, count⟩).run (m.on (nodes.reverse ++ stack)) = .ok () (m.on stack) := by
  subst hcount
  have hpop := run_popMany ⟨offset, .pop, nodes.length⟩ (m := m.on (nodes.reverse ++ stack)) rfl
  exact run_bind_eq_ok_iff.2 ⟨nodes, _, hpop, rfl⟩

theorem step_extCall_named {number : Nat} {name : String} (h : m.context.names[number]? = some name)
    {origin : Nat} {args stack : List Node} :
    (step ⟨offset, .extCall, number⟩).run (m.on (.arguments origin .argList args :: stack)) =
      .ok () (m.on (.call offset name .argList args false :: stack)) := by
  have hlt : number < m.scope.names.length := (List.getElem?_eq_some_iff.1 h).1
  have hname : m.scope.name number = name :=
    Option.some.inj ((Scope.getElem?_names hlt).symm.trans h)
  rw [← hname]
  exact step_extCall offset (m := m.on (.arguments origin .argList args :: stack)) hlt rfl

theorem step_pushOne (stack : List Node) :
    (step ⟨offset, .pushInt8, 1⟩).run (m.on stack) =
      .ok () (m.on (.leaf .constant "1" offset :: stack)) := by
  have htext : toString (signed 8 1) = "1" := by decide
  simp [step, htext, push, leaf, Machine.on]

theorem step_setLocal_descaled {raw : Nat} {left : Node} (value : Node) (stack : List Node)
    (h : m.function.locals[(m.context.descale raw).1]? = some left) :
    (step ⟨offset, .setLocal, raw⟩).run (m.on (value :: stack)) =
      .ok () (((m.descaled raw).adding [⟨offset, .assign offset left value⟩]).on stack) := by
  have hlocal : (localAt ⟨offset, .setLocal, raw⟩ (m.context.descale raw).1).run
      ((m.descaled raw).on (value :: stack)) = .ok left ((m.descaled raw).on (value :: stack)) := by
    simp [localAt, Machine.descaled, Machine.on, run_lookUp _ .locals h]
  exact run_bind_eq_ok_iff.2 ⟨_, (m.descaled raw).on (value :: stack), rfl,
    run_bind_eq_ok_iff.2 ⟨left, _, hlocal, assign_eq_ok_iff.2 ⟨value, stack, rfl, rfl⟩⟩⟩

end Instruction

namespace Elements

variable (l : Elements) (offset : Nat) {m : Machine} {list element : Node} (stack : List Node)

/-- What lies on the stack while the loop runs. -/
def held (list : Node) : List Node :=
  [l.counter offset, l.counted offset list, list]

theorem steps_opening (hcount : m.context.names[l.count]? = some "count") :
    Steps (place (l.start offset) l.opening) (m.on (list :: stack))
      (m.on (l.held offset list ++ stack)) := by
  have hplace : place (l.start offset) l.opening =
      [⟨l.start offset, .peek, 0⟩, ⟨l.start offset + 2, .pushArgList, 1⟩,
        ⟨l.start offset + 4, .extCall, l.count⟩, ⟨l.start offset + 6, .pushInt8, 1⟩] := rfl
  have hargs : list :: list :: stack = [list].reverse ++ list :: stack := rfl
  rw [hplace]
  exact .cons (step_peek _ (by rfl)) (.cons (step_pushArgList _ (m := m.on _) rfl hargs)
    (.cons (step_extCall_named _ hcount) (.one (step_pushOne _ _))))

theorem steps_head (hgetAt : m.context.names[l.getAt]? = some "getAt")
    (helement : m.function.locals[(m.context.descale l.element).1]? = some element) :
    Steps (place (l.top offset) l.head) (m.on (l.held offset list ++ stack))
      (((m.descaled l.element).adding [l.leaving offset list, l.taking offset list element]).on
        (l.held offset list ++ stack)) := by
  have hplace : place (l.top offset) l.head =
      [⟨l.top offset, .peek, 0⟩, ⟨l.top offset + 2, .peek, 2⟩, ⟨l.top offset + 4, .ltEq, 0⟩,
        ⟨l.top offset + 5, .jmpIfZ, 18 + sizeAll l.body⟩, ⟨l.top offset + 8, .peek, 2⟩,
        ⟨l.top offset + 10, .peek, 1⟩, ⟨l.top offset + 12, .pushArgList, 2⟩,
        ⟨l.top offset + 14, .extCall, l.getAt⟩, ⟨l.top offset + 16, .setLocal, l.element⟩] := rfl
  have haddress : l.top offset + 5 + (18 + sizeAll l.body) = l.back offset + 2 := by
    rw [back]
    omega
  have hleave : (step ⟨l.top offset + 5, .jmpIfZ, 18 + sizeAll l.body⟩).run
      (m.on (l.test offset list :: (l.held offset list ++ stack))) =
        .ok () ((m.adding [l.leaving offset list]).on (l.held offset list ++ stack)) := by
    rw [leaving, ← haddress]
    exact step_jmpIfZ _ _ rfl
  have hargs : l.counter offset :: list :: (l.held offset list ++ stack) =
      [list, l.counter offset].reverse ++ (l.held offset list ++ stack) := rfl
  have htake := step_setLocal_descaled (m := m.adding [l.leaving offset list]) (l.top offset + 16)
    (.call (l.top offset + 14) "getAt" .argList [list, l.counter offset] false)
    (l.held offset list ++ stack) helement
  rw [hplace, ← Machine.adding_descaled_adding]
  exact .cons (step_peek _ (by rfl)) (.cons (step_peek _ (by rfl))
    (.cons (step_binary _ .ltEq rfl) (.cons hleave
      (.cons (step_peek _ (by rfl)) (.cons (step_peek _ (by rfl))
        (.cons (step_pushArgList _ (m := Machine.on _ _) rfl hargs)
          (.cons (step_extCall_named _ (m := m.adding _) hgetAt) (.one htake))))))))

variable (list) in
theorem steps_closing {outer body : List Statement}
    (hm : m.function.statements = outer ++ body) (houter : Below (l.top offset) outer)
    (hbody : From (l.top offset) body) :
    Steps (place (l.top offset + 18 + sizeAll l.body) l.closing)
      (m.on (l.held offset list ++ stack))
      ((m.having (outer ++
        [Block.loopStatement (l.top offset) (l.back offset) body])).on stack) := by
  have hbase : l.back offset = l.top offset + 18 + sizeAll l.body + 3 := by
    rw [back]
    omega
  have hplace : place (l.top offset + 18 + sizeAll l.body) l.closing =
      [⟨l.top offset + 18 + sizeAll l.body, .pushInt8, 1⟩,
        ⟨l.top offset + 18 + sizeAll l.body + 2, .add, 0⟩,
        ⟨l.top offset + 18 + sizeAll l.body + 3, .endRepeat, 21 + sizeAll l.body⟩,
        ⟨l.top offset + 18 + sizeAll l.body + 5, .pop, 3⟩] := rfl
  let stepped : Node := .binary (l.top offset + 18 + sizeAll l.body + 2) .add (l.counter offset)
    (.leaf .constant "1" (l.top offset + 18 + sizeAll l.body))
  let dropped : List Node := [list, l.counted offset list, stepped]
  have hback : (step ⟨l.top offset + 18 + sizeAll l.body + 3, .endRepeat, 21 + sizeAll l.body⟩).run
      (m.on (dropped.reverse ++ stack)) =
        .ok () ((m.having (outer ++
          [Block.loopStatement (l.top offset) (l.back offset) body])).on (dropped.reverse ++ stack)) := by
    rw [hbase]
    exact step_endRepeat _ (by omega) hm houter hbody
  rw [hplace]
  exact .cons (step_pushOne _ _) (.cons (step_binary _ .add rfl) (.cons hback
    (.one (step_pop _ rfl))))

variable {offset} {m₁ : Machine} {body : List Statement}

def asTaking (offset : Nat) (list element : Node) (body : List Statement) : TakingLoop where
  start := l.top offset
  back := l.back offset
  leaves := l.top offset + 5
  address := l.back offset + 2
  takes := l.top offset + 16
  test := l.test offset list
  element := element
  value := .call (l.top offset + 14) "getAt" .argList [list, l.counter offset] false
  calls := body

theorem increasing_of_adds (hbody : m.Adds (l.top offset + 18) l.body body) :
    Increasing (l.leaving offset list :: l.taking offset list element :: body) :=
  increasing_taking_of_adds _ (l := l.asTaking offset list element body)
    (show l.top offset + 5 < l.top offset + 16 by omega)
    (show l.top offset + 16 < l.top offset + 18 by omega) hbody

theorem add_sizeAll_eq (offset : Nat) :
    offset + sizeAll (l.list ++ (l.opening ++ (l.head ++ l.body))) =
      l.top offset + 18 + sizeAll l.body := by
  have hopening : sizeAll l.opening = 8 := rfl
  have hhead : sizeAll l.head = 18 := rfl
  simp only [sizeAll_append, top, start, hopening, hhead]
  omega

/-- The code runs through, whatever lies on the stack, and adds one statement. -/
theorem leaves_code (hm : Below offset m.function.statements)
    (hlist : m.Leaves offset l.list [list] [] m₁)
    (hcount : m.context.names[l.count]? = some "count")
    (hgetAt : m.context.names[l.getAt]? = some "getAt")
    (helement : m.function.locals[(m₁.context.descale l.element).1]? = some element)
    (hbody : (m₁.descaled l.element).Adds (l.top offset + 18) l.body body) :
    ∃ m', m.Leaves offset l.code [] [l.emitted offset list element body] m' := by
  have hnames : m₁.context.names = m.context.names := hlist.steps.names_eq
  have hlocals : m₁.function.locals = m.function.locals := hlist.steps.locals_eq
  have hstatements : m₁.function.statements = m.function.statements := by simp [hlist.statements]
  have hstack : m₁ = m₁.on (list :: m.stack) := by
    rw [← List.singleton_append, ← hlist.stack]
    rfl
  rw [← hnames] at hcount hgetAt
  rw [← hlocals] at helement
  let opened : List Statement := [l.leaving offset list, l.taking offset list element]
  obtain ⟨m₂, hinner⟩ := hbody (l.held offset list ++ m.stack) (m₁.function.statements ++ opened)
  have hstatements₂ : m₂.function.statements = m.function.statements ++ (opened ++ body) := by
    rw [← hstatements, ← List.append_assoc]
    exact hinner.statements
  have hstack₂ : m₂ = m₂.on (l.held offset list ++ m.stack) := by
    have hstack : m₂.stack = l.held offset list ++ m.stack := hinner.stack
    rw [← hstack]
    rfl
  -- all that runs before the closing, as one run from the first state
  have hbefore : Steps (place offset (l.list ++ (l.opening ++ (l.head ++ l.body)))) m m₂ := by
    refine hlist.steps.place_append ?_
    rw [hstack]
    exact (l.steps_opening offset m.stack hcount).place_append
      ((l.steps_head offset m.stack hgetAt helement).place_append hinner.steps)
  have hincreasing : Increasing (opened ++ body) := l.increasing_of_adds hbody
  have houter : Below (l.top offset) m.function.statements :=
    hm.mono (by simp only [top, start]; omega)
  have hfrom : From (l.top offset) (opened ++ body) :=
    TakingLoop.from_start (l := l.asTaking offset list element body) (Nat.le_add_right _ 5) hincreasing
  have hclosing := l.steps_closing offset list m.stack hstatements₂ houter hfrom
  rw [← hstack₂] at hclosing
  rw [← l.add_sizeAll_eq offset] at hclosing
  have hall := hbefore.place_append hclosing
  rw [List.append_assoc, List.append_assoc, List.append_assoc] at hall
  exact ⟨_, hall, rfl, rfl⟩

end Elements

namespace Elements

variable (l : Elements) (offset : Nat) (list : Node) {name : String} {position : Nat}
  {body before after : List Statement}

def recovered (name : String) (body : List Statement) : Statement :=
  ⟨l.back offset, .loop (l.back offset) (l.top offset) (l.back offset) (.each name list)
    (l.test offset list) body⟩

theorem shape_asTaking :
    (l.asTaking offset list (.leaf .localVariable name position) body).shape =
      ⟨.each name list, l.test offset list, body⟩ := by
  simp [TakingLoop.shape, TakingLoop.taken, asTaking, Loop.eachElement, test, counted, counter,
    Node.isConstant, Node.word?, list.sameReference_self]

/-- Among statements that are neither blocks nor jumps the loop is recovered as one over the elements of
the very node that its code pushed, and nothing else changes. -/
theorem recoverFlow_emitted (hbefore : Simple before) (hafter : Simple after)
    (hbody : ∀ s ∈ body, s.node.isCall = true)
    (hincreasing : Increasing (l.leaving offset list ::
      l.taking offset list (.leaf .localVariable name position) :: body)) :
    recoverFlow (before ++
        l.emitted offset list (.leaf .localVariable name position) body :: after) =
      .ok (before ++ l.recovered offset list name body :: after) := by
  have hcalls : (l.asTaking offset list (.leaf .localVariable name position) body).Calls :=
    ⟨Nat.lt_add_of_pos_right Nat.two_pos, hincreasing, rfl, hbody⟩
  have hrecovered : (l.asTaking offset list (.leaf .localVariable name position) body).recovered =
      l.recovered offset list name body := by
    rw [TakingLoop.recovered, shape_asTaking]
    rfl
  rw [← hrecovered]
  exact TakingLoop.recoverFlow_emitted hcalls hbefore hafter

variable {list} {m m₁ : Machine}

/-- A loop that keeps its list on the stack: from every state in which its list is one expression and
its body adds calls and leaves the stack, the code runs through, leaves the stack, and adds one
statement. Wherever that stands, it is recovered as a loop over the elements of the expression that the
code of the list pushed, with the calls of the body in it. -/
theorem recoverFlow_run_code (l : Elements) (hfits : l.Fits) {offset : Nat}
    (hm : Below offset m.function.statements) (hlist : m.Leaves offset l.list [list] [] m₁)
    (hcount : m.context.names[l.count]? = some "count")
    (hgetAt : m.context.names[l.getAt]? = some "getAt")
    (helement : m.function.locals[(m₁.context.descale l.element).1]? =
      some (.leaf .localVariable name position))
    (hadds : (m₁.descaled l.element).Adds (l.top offset + 18) l.body body)
    (hcalls : ∀ s ∈ body, s.node.isCall = true) :
    ∃ m' loop, (run offset (assemble l.code)).run m = .ok () m' ∧ m'.stack = m.stack ∧
      m'.function.statements = m.function.statements ++ [loop] ∧
      ∀ before after, Simple before → Simple after →
        recoverFlow (before ++ loop :: after) =
          .ok (before ++ l.recovered offset list name body :: after) := by
  obtain ⟨m', hleaves⟩ := l.leaves_code hm hlist hcount hgetAt helement hadds
  refine ⟨m', _, run_assemble hfits.code offset hleaves.steps, hleaves.stack, hleaves.statements, ?_⟩
  exact fun before after hbefore hafter =>
    l.recoverFlow_emitted offset list hbefore hafter hcalls (l.increasing_of_adds hadds)

/-- A loop over a list of one number that calls `beep` for every element, from a state with a statement
and something on the stack. -/
theorem recoverFlow_run_code_beep :
    let l : Elements :=
      { list := [⟨.pushInt8, 7⟩, ⟨.pushArgList, 1⟩, ⟨.pushList, 0⟩], count := 0, getAt := 1
        element := 0, body := [⟨.pushArgListNoRet, 0⟩, ⟨.extCall, 2⟩] }
    let beep (position : Nat) : Statement :=
      ⟨position, .call position "beep" .argListNoRet [] false⟩
    let m : Machine :=
      { context := { names := ["count", "getAt", "beep"], constants := [], scale := 6 }
        function :=
          { name := "run", position := 0, locals := [.leaf .localVariable "x" 92]
            statements := [beep 2] }
        stack := [.leaf .constant "1" 4] }
    let list : Node := .list 12 (.arguments 10 .argList [.leaf .constant "7" 8])
    ∃ m' loop, (run 8 (assemble l.code)).run m = .ok () m' ∧ m'.stack = m.stack ∧
      m'.function.statements = [beep 2, loop] ∧
      recoverFlow [beep 2, loop] = .ok [beep 2, l.recovered 8 list "x" [beep 41]] := by
  intro l beep m list
  have hfits : l.Fits := ⟨by decide, by decide, by decide, by decide, by decide, by decide⟩
  have hadds : (m.descaled l.element).Adds (l.top 8 + 18) l.body [beep 41] := by
    intro stack earlier
    have hcall : (((m.descaled l.element).having earlier).on stack).Runs 39 l.body [beep 41] :=
      Block.runs_call (show 2 < 3 by decide)
    obtain ⟨m', hsteps, _, rfl⟩ := hcall
    exact ⟨_, hsteps, rfl, rfl⟩
  have hbelow : Below 8 m.function.statements := by simp [m, beep]
  have hlist : m.Leaves 8 l.list [list] [] (m.on (list :: m.stack)) := ⟨rfl, rfl, rfl⟩
  have helement : m.function.locals[((m.on (list :: m.stack)).context.descale l.element).1]? =
      some (.leaf .localVariable "x" 92) := by
    simp [m, l, Machine.on, Context.descale]
  obtain ⟨m', loop, hrun, hstack, hstatements, hrecover⟩ := l.recoverFlow_run_code hfits hbelow hlist
    rfl rfl helement hadds (List.forall_mem_singleton.2 rfl)
  have hsimple : Simple [beep 2] := List.forall_mem_singleton.2 ⟨rfl, rfl⟩
  exact ⟨m', loop, hrun, hstack, hstatements, hrecover [beep 2] [] hsimple (by simp [Simple])⟩

end Elements

end LingoSource
