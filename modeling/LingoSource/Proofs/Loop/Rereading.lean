import LingoSource.Proofs.Instruction.Stability
import LingoSource.Proofs.Loop.Elements
import LingoSource.Proofs.Program.RoundTrip

/-!
Loops that read their list from a variable in each round, once for its length and once for an element. For
a local both reads push the node that declares it, and a global is known by its name, so the list is
recognized. For a parameter each read pushes a word with the offset of its own instruction, and two such
words never refer to one thing: the loop stays a `repeat while`.
-/
set_option autoImplicit false

namespace LingoSource

open Statement Operation Instruction

inductive ReadVariable
  | ofLocal
  | ofParameter
  | ofGlobal
  deriving DecidableEq, Repr

namespace ReadVariable

def opcode : ReadVariable → Opcode
  | .ofLocal => .getLocal
  | .ofParameter => .getParam
  | .ofGlobal => .getGlobal

/-- The operand of a read refers to a variable, and does so again after the read; the nodes are what a
read pushes, by its offset, and the last machine is what it leaves beside them. An operand that does not
count in the scale that it leaves would stand for another index the next time. -/
inductive Refers (m : Machine) (operand : Nat) : ReadVariable → (Nat → Node) → Machine → Prop
  | ofLocal {node : Node} (hsteady : (m.context.descale operand).2.scale ∣ operand)
    (hnode : m.function.locals[(m.context.descale operand).1]? = some node) :
    Refers m operand .ofLocal (fun _ => node) (m.descaled operand)
  | ofParameter {node : Node} (hsteady : (m.context.descale operand).2.scale ∣ operand)
    (hnode : m.function.parameters[(m.context.descale operand).1]? = some node) :
    Refers m operand .ofParameter
      (fun offset => .leaf .parameterName (node.word?.getD Context.unnamed) offset)
      (m.descaled operand)
  | ofGlobal {name : String} (hname : m.context.names[operand]? = some name) :
    Refers m operand .ofGlobal (fun offset => .leaf .globalVariable name offset)
      { m with function := m.function.addGlobal name }

variable {r : ReadVariable} {m m' : Machine} {operand : Nat} {nodes : Nat → Node}

/-- A local is one node for all reads and a global is one by its name; two reads of a parameter are never
one. -/
theorem Refers.sameReference_iff (h : r.Refers m operand nodes m') {p q : Nat} (hne : p ≠ q) :
    (nodes p).sameReference (nodes q) = true ↔ r ≠ .ofParameter := by
  cases h with
  | @ofLocal node => simp [node.sameReference_self]
  | ofParameter => simp [Node.sameReference, hne]
  | ofGlobal => simp [Node.sameReference]

theorem Refers.step_eq (h : r.Refers m operand nodes m') (offset : Nat) (stack : List Node) :
    (step ⟨offset, r.opcode, operand⟩).run (m.on stack) =
      .ok () (m'.on (nodes offset :: stack)) := by
  cases h with
  | @ofLocal node _ hnode =>
    have hlocal : (localAt ⟨offset, .getLocal, operand⟩ (m.context.descale operand).1).run
        ((m.descaled operand).on stack) = .ok node ((m.descaled operand).on stack) := by
      simp [localAt, Machine.descaled, Machine.on, run_lookUp _ .locals hnode]
    exact run_bind_eq_ok_iff.2 ⟨_, (m.descaled operand).on stack, rfl,
      run_bind_eq_ok_iff.2 ⟨node, _, hlocal, rfl⟩⟩
  | @ofParameter node _ hnode =>
    have hparameter : (parameterAt ⟨offset, .getParam, operand⟩ (m.context.descale operand).1).run
        ((m.descaled operand).on stack) = .ok node ((m.descaled operand).on stack) := by
      simp [parameterAt, Machine.descaled, Machine.on, run_lookUp _ .parameters hnode]
    exact run_bind_eq_ok_iff.2 ⟨_, (m.descaled operand).on stack, rfl,
      run_bind_eq_ok_iff.2 ⟨node, _, hparameter, rfl⟩⟩
  | @ofGlobal name hname =>
    have hlook : (nameAt ⟨offset, .getGlobal, operand⟩ operand).run (m.on stack) =
        .ok name (m.on stack) := by
      simp [nameAt, Machine.on, run_lookUp _ .names hname]
    exact run_bind_eq_ok_iff.2 ⟨name, m.on stack, hlook, rfl⟩

theorem descale_again (hsteady : (m.context.descale operand).2.scale ∣ operand)
    (statements : List Statement) :
    ((m.descaled operand).adding statements).context.descale operand = m.context.descale operand :=
  Context.descale_of_dvd hsteady

theorem descaled_again (hsteady : (m.context.descale operand).2.scale ∣ operand)
    (statements : List Statement) :
    ((m.descaled operand).adding statements).descaled operand =
      (m.descaled operand).adding statements := by
  rw [Machine.descaled, descale_again hsteady]
  rfl

theorem Refers.again (h : r.Refers m operand nodes m') (statements : List Statement) :
    r.Refers (m'.adding statements) operand nodes (m'.adding statements) := by
  cases h with
  | @ofLocal node hsteady hnode =>
    have hscale := descale_again hsteady statements
    have hagain : Refers ((m.descaled operand).adding statements) operand .ofLocal (fun _ => node)
        (((m.descaled operand).adding statements).descaled operand) :=
      .ofLocal (by rwa [hscale]) (by rwa [hscale])
    rwa [descaled_again hsteady] at hagain
  | @ofParameter node hsteady hnode =>
    have hscale := descale_again hsteady statements
    have hagain : Refers ((m.descaled operand).adding statements) operand .ofParameter
        (fun offset => .leaf .parameterName (node.word?.getD Context.unnamed) offset)
        (((m.descaled operand).adding statements).descaled operand) :=
      .ofParameter (by rwa [hscale]) (by rwa [hscale])
    rwa [descaled_again hsteady] at hagain
  | @ofGlobal name hname =>
    let declared : Machine := { m with function := m.function.addGlobal name }
    have hagain : Refers (declared.adding statements) operand .ofGlobal
        (fun offset => .leaf .globalVariable name offset)
        { declared.adding statements with
          function := (declared.adding statements).function.addGlobal name } := .ofGlobal hname
    have hdeclared : (declared.adding statements).function.addGlobal name =
        (declared.adding statements).function :=
      if_pos (m.function.mem_globals_addGlobal name)
    rwa [hdeclared] at hagain

theorem Refers.names_eq (h : r.Refers m operand nodes m') : m'.context.names = m.context.names := by
  cases h <;> rfl

theorem Refers.locals_eq (h : r.Refers m operand nodes m') :
    m'.function.locals = m.function.locals := by
  cases h with
  | ofLocal | ofParameter => rfl
  | @ofGlobal name => exact m.function.locals_addGlobal name

theorem Refers.statements_eq (h : r.Refers m operand nodes m') :
    m'.function.statements = m.function.statements := by
  cases h with
  | ofLocal | ofParameter => rfl
  | @ofGlobal name => exact m.function.statements_addGlobal name

theorem operandWidth_opcode (r : ReadVariable) : r.opcode.operandWidth = 1 := by
  cases r <;> rfl

end ReadVariable

structure Rereading where
  list : ReadVariable
  /-- The operand of both reads of the list. -/
  operand : Nat
  /-- The number of the name `count`. -/
  count : Nat
  /-- The number of the name `getAt`. -/
  getAt : Nat
  /-- The operand that refers to the local which takes the elements. -/
  element : Nat
  body : List Operation

namespace Rereading

variable (l : Rereading)

def reading : Operation := ⟨l.list.opcode, l.operand⟩

/-- Compares one with the length of the list, leaves the loop behind the jump back, and reads the first
element. -/
def head : List Operation :=
  [⟨.pushInt8, 1⟩, l.reading, ⟨.pushArgList, 1⟩, ⟨.extCall, l.count⟩, ⟨.ltEq, 0⟩,
    ⟨.jmpIfZ, 15 + sizeAll l.body⟩, l.reading, ⟨.pushInt8, 1⟩, ⟨.pushArgList, 2⟩, ⟨.extCall, l.getAt⟩,
    ⟨.setLocal, l.element⟩]

def code : List Operation :=
  l.head ++ (l.body ++ [⟨.endRepeat, 22 + sizeAll l.body⟩])

theorem sizeAll_head : sizeAll l.head = 22 := by
  simp only [head, reading, sizeAll, Operation.size, l.list.operandWidth_opcode]
  decide

def back (offset : Nat) : Nat := offset + 22 + sizeAll l.body

structure Fits : Prop where
  body : ∀ op ∈ l.body, op.Fits
  operand_lt : l.operand < 256
  count_lt : l.count < 256
  getAt_lt : l.getAt < 256
  element_lt : l.element < 256
  back_lt : 22 + sizeAll l.body < 256

theorem Fits.code {l : Rereading} (h : l.Fits) : ∀ op ∈ l.code, op.Fits := by
  have hback := h.back_lt
  have hreading : l.reading.Fits := fits_byte l.list.operandWidth_opcode h.operand_lt
  have hhead : ∀ op ∈ l.head, op.Fits := by
    simp only [head, List.forall_mem_cons]
    exact ⟨fits_byte rfl (by omega), hreading, fits_byte rfl (by omega), fits_byte rfl h.count_lt,
      fits_none rfl, fits_word rfl (by omega), hreading, fits_byte rfl (by omega),
      fits_byte rfl (by omega), fits_byte rfl h.getAt_lt, fits_byte rfl h.element_lt, by simp⟩
  intro op hop
  simp only [Rereading.code, List.mem_append, List.mem_singleton] at hop
  rcases hop with hop | hop | rfl
  · exact hhead op hop
  · exact h.body op hop
  · exact fits_byte rfl hback

def test (offset : Nat) (list : Nat → Node) : Node :=
  .binary (offset + 8) .ltEq (.leaf .constant "1" offset)
    (.call (offset + 6) "count" .argList [list (offset + 2)] false)

def leaving (offset : Nat) (list : Nat → Node) : Statement :=
  ⟨offset + 9, .jumpUnless (offset + 9) (test offset list) (l.back offset + 2)⟩

def taking (offset : Nat) (list : Nat → Node) (element : Node) : Statement :=
  ⟨offset + 20, .assign (offset + 20) element (.call (offset + 18) "getAt" .argList
    [list (offset + 12), .leaf .constant "1" (offset + 14)] false)⟩

def asTaking (offset : Nat) (list : Nat → Node) (element : Node) (calls : List Statement) :
    TakingLoop where
  start := offset
  back := l.back offset
  leaves := offset + 9
  address := l.back offset + 2
  takes := offset + 20
  test := test offset list
  element := element
  value := .call (offset + 18) "getAt" .argList [list (offset + 12), .leaf .constant "1" (offset + 14)]
    false
  calls := calls

def looped (offset : Nat) (list : Nat → Node) (kind : LoopKind) (body : List Statement) : Statement :=
  ⟨l.back offset, .loop (l.back offset) offset (l.back offset) kind (test offset list) body⟩

/-- What the code is recovered as: a loop over the elements of its list, or, if that is a parameter, a
`repeat while` that still has the assignment of the element in it. -/
def recovered (offset : Nat) (list : Nat → Node) (element : Node) (name : String)
    (calls : List Statement) : Statement :=
  if l.list = .ofParameter then
    l.looped offset list .whileTrue (taking offset list element :: calls)
  else l.looped offset list (.each name (list (offset + 12))) calls

theorem add_sizeAll_code (offset : Nat) : offset + sizeAll l.code = l.back offset + 2 := by
  have hback : sizeAll [(⟨.endRepeat, 22 + sizeAll l.body⟩ : Operation)] = 2 := rfl
  rw [code, sizeAll_append, sizeAll_append, sizeAll_head, hback, back]
  omega

variable {l} {offset : Nat} {m m₁ : Machine} {list : Nat → Node} {element : Node} {name : String}
  {position : Nat} {calls : List Statement}

theorem steps_head (hlist : l.list.Refers m l.operand list m₁)
    (hcount : m₁.context.names[l.count]? = some "count")
    (hgetAt : m₁.context.names[l.getAt]? = some "getAt")
    (helement : m₁.function.locals[(m₁.context.descale l.element).1]? = some element)
    (stack : List Node) :
    Steps (place offset l.head) (m.on stack)
      (((m₁.descaled l.element).adding [l.leaving offset list, taking offset list element]).on
        stack) := by
  have hplace : place offset l.head =
      [⟨offset, .pushInt8, 1⟩, ⟨offset + 2, l.list.opcode, l.operand⟩, ⟨offset + 4, .pushArgList, 1⟩,
        ⟨offset + 6, .extCall, l.count⟩, ⟨offset + 8, .ltEq, 0⟩,
        ⟨offset + 9, .jmpIfZ, 15 + sizeAll l.body⟩, ⟨offset + 12, l.list.opcode, l.operand⟩,
        ⟨offset + 14, .pushInt8, 1⟩, ⟨offset + 16, .pushArgList, 2⟩, ⟨offset + 18, .extCall, l.getAt⟩,
        ⟨offset + 20, .setLocal, l.element⟩] := by
    obtain ⟨read, operand, count, getAt, element, body⟩ := l
    cases read <;> rfl
  have haddress : offset + 9 + (15 + sizeAll l.body) = l.back offset + 2 := by
    rw [back]
    omega
  have hleave : (step ⟨offset + 9, .jmpIfZ, 15 + sizeAll l.body⟩).run
      (m₁.on (test offset list :: stack)) =
        .ok () ((m₁.adding [l.leaving offset list]).on stack) := by
    rw [leaving, ← haddress]
    exact step_jmpIfZ _ _ rfl
  have htake := step_setLocal_descaled (m := m₁.adding [l.leaving offset list]) (offset + 20)
    (.call (offset + 18) "getAt" .argList [list (offset + 12), .leaf .constant "1" (offset + 14)] false)
    stack helement
  have hagain := hlist.again [l.leaving offset list]
  have hcounted : list (offset + 2) :: .leaf .constant "1" offset :: stack =
      [list (offset + 2)].reverse ++ .leaf .constant "1" offset :: stack := rfl
  have htaken : .leaf .constant "1" (offset + 14) :: list (offset + 12) :: stack =
      [list (offset + 12), .leaf .constant "1" (offset + 14)].reverse ++ stack := rfl
  rw [hplace, ← Machine.adding_descaled_adding]
  exact .cons (step_pushOne _ _) (.cons (hlist.step_eq _ _)
    (.cons (step_pushArgList _ (m := m₁.on _) rfl hcounted)
      (.cons (step_extCall_named _ hcount) (.cons (step_binary _ .ltEq rfl) (.cons hleave
        (.cons (hagain.step_eq _ _) (.cons (step_pushOne _ _)
          (.cons (step_pushArgList _ (m := Machine.on _ _) rfl htaken)
            (.cons (step_extCall_named _ (m := m₁.adding _) hgetAt) (.one htake))))))))))

theorem increasing_of_adds (hbody : m.Adds (offset + 22) l.body calls) :
    Increasing (l.leaving offset list :: taking offset list element :: calls) :=
  increasing_taking_of_adds _ (l := l.asTaking offset list element calls)
    (show offset + 9 < offset + 20 by omega) (show offset + 20 < offset + 22 by omega) hbody

theorem leaves_code (hm : Below offset m.function.statements)
    (hlist : l.list.Refers m l.operand list m₁)
    (hcount : m.context.names[l.count]? = some "count")
    (hgetAt : m.context.names[l.getAt]? = some "getAt")
    (helement : m.function.locals[(m₁.context.descale l.element).1]? = some element)
    (hbody : (m₁.descaled l.element).Adds (offset + 22) l.body calls) :
    ∃ m', m.Leaves offset l.code [] [(l.asTaking offset list element calls).emitted] m' := by
  let opened : List Statement := [l.leaving offset list, taking offset list element]
  rw [← hlist.names_eq] at hcount hgetAt
  rw [← hlist.locals_eq] at helement
  have hhead : Steps (place offset l.head) m
      (((m₁.descaled l.element).adding opened).on m.stack) :=
    steps_head hlist hcount hgetAt helement m.stack
  obtain ⟨m₂, hinner⟩ := hbody m.stack (m₁.function.statements ++ opened)
  have hstatements : m₂.function.statements = m.function.statements ++ (opened ++ calls) := by
    rw [← hlist.statements_eq, ← List.append_assoc]
    exact hinner.statements
  have hincreasing : Increasing (opened ++ calls) := increasing_of_adds hbody
  have hfrom : From offset (opened ++ calls) :=
    TakingLoop.from_start (l := l.asTaking offset list element calls) (Nat.le_add_right _ 9) hincreasing
  have hback := step_endRepeat (l.back offset) (Nat.add_assoc offset 22 (sizeAll l.body)) hstatements
    hm hfrom
  have hrun : Steps (place (offset + sizeAll l.head) l.body)
      (((m₁.descaled l.element).adding opened).on m.stack) m₂ := by
    rw [sizeAll_head]
    exact hinner.steps
  have hend : Steps (place (offset + sizeAll l.head + sizeAll l.body)
      [⟨.endRepeat, 22 + sizeAll l.body⟩]) m₂
      (m₂.having (m.function.statements ++ [(l.asTaking offset list element calls).emitted])) := by
    rw [sizeAll_head]
    exact .one hback
  exact ⟨_, hhead.place_append (hrun.place_append hend), hinner.stack, rfl⟩

/-- The list is recognized if both reads refer to one thing. -/
theorem shape_asTaking :
    (l.asTaking offset list (.leaf .localVariable name position) calls).shape =
      if (list (offset + 2)).sameReference (list (offset + 12)) then
        ⟨.each name (list (offset + 12)), test offset list, calls⟩
      else ⟨.whileTrue, test offset list, taking offset list (.leaf .localVariable name position) :: calls⟩ := by
  simp [TakingLoop.shape, TakingLoop.taken, asTaking, Loop.eachElement, test, taking, Node.isConstant,
    Node.word?]

theorem recovered_asTaking (hlist : l.list.Refers m l.operand list m₁) :
    (l.asTaking offset list (.leaf .localVariable name position) calls).recovered =
      l.recovered offset list (.leaf .localVariable name position) name calls := by
  have hsame := hlist.sameReference_iff (show offset + 2 ≠ offset + 12 by omega)
  rw [TakingLoop.recovered, shape_asTaking, recovered]
  by_cases hparameter : l.list = .ofParameter
  · rw [if_neg (by simpa [hparameter] using hsame), if_pos hparameter]
    rfl
  · rw [if_pos (hsame.2 hparameter), if_neg hparameter]
    rfl

/-- A loop that reads its list from a variable in each round is recovered as one over the elements of that
variable exactly if it is no parameter. -/
theorem recover_code (hfits : l.Fits) {c : Context} {h : Handler}
    (hbytecode : h.bytecode = assemble (l.code ++ [⟨.exit, 0⟩]))
    (hlist : l.list.Refers (h.start c) l.operand list m)
    (hcount : c.names[l.count]? = some "count") (hgetAt : c.names[l.getAt]? = some "getAt")
    (helement : (h.signature c).locals[(m.context.descale l.element).1]? =
      some (.leaf .localVariable name position))
    (hadds : (m.descaled l.element).Adds (h.record.codeOffset + 22) l.body calls)
    (hcalls : ∀ s ∈ calls, s.node.isCall = true) :
    ∃ f c', h.recover c = (.ok f, c') ∧
      f.statements = [l.recovered h.record.codeOffset list (.leaf .localVariable name position) name calls,
        exitStatement (l.back h.record.codeOffset + 2)] := by
  obtain ⟨m₁, hleaves⟩ := leaves_code (m := h.start c) below_nil hlist hcount hgetAt helement hadds
  have hexit : Steps (place (h.record.codeOffset + sizeAll l.code) [⟨.exit, 0⟩]) m₁
      (m₁.adding [exitStatement (l.back h.record.codeOffset + 2)]) := by
    rw [add_sizeAll_code]
    exact .one rfl
  have hstatements : (m₁.adding [exitStatement (l.back h.record.codeOffset + 2)]).function.statements =
      [(l.asTaking h.record.codeOffset list (.leaf .localVariable name position) calls).emitted,
        exitStatement (l.back h.record.codeOffset + 2)] := by
    rw [Machine.adding, Machine.having, hleaves.statements]
    rfl
  have hall : ∀ op ∈ l.code ++ [⟨.exit, 0⟩], op.Fits :=
    List.forall_mem_append.2 ⟨hfits.code, List.forall_mem_singleton.2 (fits_none rfl)⟩
  have hrun := run_assemble hall h.record.codeOffset (hleaves.steps.place_append hexit)
  rw [← hbytecode] at hrun
  have htaking : (l.asTaking h.record.codeOffset list (.leaf .localVariable name position) calls).Calls :=
    ⟨Nat.lt_add_of_pos_right Nat.two_pos, increasing_of_adds hadds, rfl, hcalls⟩
  have hsimple : Simple [exitStatement (l.back h.record.codeOffset + 2)] :=
    List.forall_mem_singleton.2 ⟨rfl, rfl⟩
  have hnone : Simple [] := by simp [Simple]
  have hflow := TakingLoop.recoverFlow_emitted htaking hnone hsimple
  rw [recovered_asTaking hlist] at hflow
  exact ⟨_, _, Handler.recover_eq_of_run hrun (hstatements ▸ hflow), rfl⟩

def beeping (list : ReadVariable) (operand : Nat) : Rereading where
  list := list
  operand := operand
  count := 3
  getAt := 4
  element := 0
  body := [⟨.pushArgListNoRet, 0⟩, ⟨.extCall, 5⟩]

def beepingContext : Context :=
  .create ["h", "v", "myList", "count", "getAt", "beep"] [] 6

def beepingHandler (l : Rereading) (parameters locals : List Variable) : Handler where
  record := ⟨0, 29, 0, parameters.length, 134, locals.length, 134, 134⟩
  parameters := parameters
  locals := locals
  bytecode := assemble (l.code ++ [⟨.exit, 0⟩])

def overParameter : Handler := beepingHandler (beeping .ofParameter 0) [⟨2, 136⟩] [⟨1, 134⟩]

def overLocal : Handler := beepingHandler (beeping .ofLocal 6) [] [⟨1, 134⟩, ⟨2, 136⟩]

/-- The list is recognized in the second handler only. -/
theorem recover_code_beeping :
    let element : Node := .leaf .localVariable "v" 134
    let beep : Statement := ⟨24, .call 24 "beep" .argListNoRet [] false⟩
    let parameter (offset : Nat) : Node := .leaf .parameterName "myList" offset
    let list : Node := .leaf .localVariable "myList" 136
    (∃ f c', overParameter.recover beepingContext = (.ok f, c') ∧
      f.statements =
        [⟨26, .loop 26 0 26 .whileTrue (test 0 parameter) [taking 0 parameter element, beep]⟩,
          exitStatement 28]) ∧
    ∃ f c', overLocal.recover beepingContext = (.ok f, c') ∧
      f.statements =
        [⟨26, .loop 26 0 26 (.each "v" list) (test 0 fun _ => list) [beep]⟩, exitStatement 28] := by
  intro element beep parameter list
  have hadds (h : Handler) (operand : Nat) :
      (((h.start beepingContext).descaled operand).descaled 0).Adds 22
        [⟨.pushArgListNoRet, 0⟩, ⟨.extCall, 5⟩] [beep] := by
    intro stack earlier
    have hcall : (((((h.start beepingContext).descaled operand).descaled 0).having earlier).on
        stack).Runs 22 [⟨.pushArgListNoRet, 0⟩, ⟨.extCall, 5⟩] [beep] :=
      Block.runs_call (show 5 < 6 by decide)
    obtain ⟨m', hsteps, _, rfl⟩ := hcall
    exact ⟨_, hsteps, rfl, rfl⟩
  constructor
  · have hfits : (beeping .ofParameter 0).Fits :=
      ⟨by decide, by decide, by decide, by decide, by decide, by decide⟩
    have hlist : ReadVariable.Refers (overParameter.start beepingContext) 0 .ofParameter parameter
        ((overParameter.start beepingContext).descaled 0) :=
      .ofParameter (Nat.dvd_zero _) (show
        (overParameter.start beepingContext).function.parameters[
          ((overParameter.start beepingContext).context.descale 0).1]? =
            some (.leaf .parameterName "myList" 136) from rfl)
    exact recover_code hfits rfl hlist rfl rfl rfl (hadds _ _) (List.forall_mem_singleton.2 rfl)
  · have hfits : (beeping .ofLocal 6).Fits :=
      ⟨by decide, by decide, by decide, by decide, by decide, by decide⟩
    have hlist : ReadVariable.Refers (overLocal.start beepingContext) 6 .ofLocal (fun _ => list)
        ((overLocal.start beepingContext).descaled 6) := .ofLocal (by decide) rfl
    exact recover_code hfits rfl hlist rfl rfl rfl (hadds _ _) (List.forall_mem_singleton.2 rfl)

end Rereading

end LingoSource
