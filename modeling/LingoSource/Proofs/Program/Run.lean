import LingoSource.Proofs.Expression.Decoding
import LingoSource.Proofs.Program.Layout

set_option autoImplicit false

namespace LingoSource

open Statement Operation

/-- The second state has these statements behind those of the first; apart from that only the list of
declared globals may differ. -/
def Machine.Emits (statements : List Statement) (m m' : Machine) : Prop :=
  ∃ globals, m' = { m with
    function := { m.function with
      globals, statements := m.function.statements ++ statements } }

theorem Machine.Emits.trans {a b : List Statement} {m m₁ m₂ : Machine} (ha : m.Emits a m₁)
    (hb : m₁.Emits b m₂) : m.Emits (a ++ b) m₂ := by
  obtain ⟨_, rfl⟩ := ha
  obtain ⟨globals, rfl⟩ := hb
  exact ⟨globals, by simp⟩

theorem Machine.Emits.scope_eq {statements : List Statement} {m m' : Machine}
    (h : m.Emits statements m') : m'.scope = m.scope := by
  obtain ⟨_, rfl⟩ := h
  rfl

theorem Machine.Emits.below {address : Nat} {statements : List Statement} {m m' : Machine}
    (h : m.Emits statements m') (hm : Below address m.function.statements)
    (hstatements : Below address statements) : Below address m'.function.statements := by
  obtain ⟨_, rfl⟩ := h
  exact below_append.2 ⟨hm, hstatements⟩

def Machine.Runs (m : Machine) (offset : Nat) (ops : List Operation)
    (statements : List Statement) : Prop :=
  ∃ m', Instruction.Steps (place offset ops) m m' ∧ m.Emits statements m'

theorem Machine.Runs.append {m : Machine} {offset : Nat} {ops rest : List Operation}
    {a b : List Statement} (middle : Nat) (hmiddle : offset + Operation.sizeAll ops = middle)
    (ha : m.Runs offset ops a) (hb : ∀ m₁, m.Emits a m₁ → m₁.Runs middle rest b) :
    m.Runs offset (ops ++ rest) (a ++ b) := by
  subst hmiddle
  obtain ⟨m₁, hsteps, hemits⟩ := ha
  obtain ⟨m₂, hstepsRest, hemitsRest⟩ := hb m₁ hemits
  exact ⟨m₂, hsteps.place_append hstepsRest, hemits.trans hemitsRest⟩

namespace Instruction

variable {m : Machine} (offset : Nat)

theorem step_push (c : Push) :
    (step ⟨offset, c.operation.opcode, c.operation.operand⟩).run m =
      .ok () { m with stack := c.node offset :: m.stack } := by
  cases c <;> rfl

theorem step_call {number origin : Nat} (h : number < m.scope.names.length) {args stack : List Node}
    (hm : m.stack = .arguments origin .argListNoRet args :: stack) :
    (step ⟨offset, .extCall, number⟩).run m =
      .ok () { m with
        stack
        function := { m.function with
          statements := m.function.statements ++
            [⟨offset, .call offset (m.scope.name number) .argListNoRet args false⟩] } } := by
  simp [step, run_nameAt _ h, popArguments, run_pop _ hm, call, yieldBy, emit]

theorem step_jmp (distance : Nat) :
    (step ⟨offset, .jmp, distance⟩).run m =
      .ok () { m with
        function := { m.function with
          statements := m.function.statements ++
            [⟨offset, .jump offset (offset + distance)⟩] } } := rfl

theorem step_jmpIfZ (distance : Nat) {condition : Node} {stack : List Node}
    (hm : m.stack = condition :: stack) :
    (step ⟨offset, .jmpIfZ, distance⟩).run m =
      .ok () { m with
        stack
        function := { m.function with
          statements := m.function.statements ++
            [⟨offset, .jumpUnless offset condition (offset + distance)⟩] } } := by
  simp [step, run_pop _ hm, emit]

theorem step_setLocal {index : Nat} (hs : 0 < m.scope.scale) (h : index < m.scope.locals.length)
    {value : Node} {stack : List Node} (hm : m.stack = value :: stack) :
    (step ⟨offset, .setLocal, index * m.scope.scale⟩).run m =
      .ok () { m with
        stack
        function := { m.function with
          statements := m.function.statements ++
            [⟨offset, .assign offset (m.scope.localNode index) value⟩] } } := by
  simp [step, run_descale hs, run_localAt _ h, assign, run_pop _ hm, emit]

theorem step_startTell {target : Node} {stack : List Node} (hm : m.stack = target :: stack) :
    (step ⟨offset, .startTell, 0⟩).run m =
      .ok () { m with
        context := m.context.openTell offset target
        stack
        function := { m.function with
          statements := m.function.statements ++ [⟨offset, .tell offset target []⟩] } } := by
  simp [step, run_pop _ hm, emit]

theorem partition_append {address : Nat} {outer body : List Statement} (houter : Below address outer)
    (hbody : From address body) :
    (outer ++ body).partition (·.position < address) = (outer, body) := by
  rw [List.partition_eq_filter_filter, List.filter_append, List.filter_append,
    List.filter_eq_self.2 (by simpa [Below] using houter),
    List.filter_eq_nil_iff.2 (by simpa [From] using hbody),
    List.filter_eq_nil_iff.2 (by simpa [Below] using houter),
    List.filter_eq_self.2 (by simpa [From] using hbody), List.append_nil, List.nil_append]

theorem step_endRepeat {start distance : Nat} {outer body : List Statement}
    (hoffset : offset = start + distance) (hm : m.function.statements = outer ++ body)
    (houter : Below start outer) (hbody : From start body) :
    (step ⟨offset, .endRepeat, distance⟩).run m =
      .ok () { m with
        function := { m.function with
          statements := outer ++ [Block.loopStatement start offset body] } } := by
  subst hoffset
  have hstart : start + distance - distance = start := by omega
  have hle : ¬ start + distance < distance := by omega
  simp [step, closeLoop, hm, hstart, hle, partition_append houter hbody, Block.loopStatement,
    -List.partition_eq_filter_filter]

theorem takeWhile_reverse_append {p : Statement → Bool} {before after : List Statement}
    {s : Statement} (hs : p s = false) (h : ∀ t ∈ after, p t = true) :
    ((before ++ s :: after).reverse.takeWhile p).reverse = after := by
  rw [List.reverse_append, List.reverse_cons, List.append_assoc,
    List.takeWhile_append_of_pos (by simpa using h), List.singleton_append,
    List.takeWhile_cons_of_neg (by simp [hs]), List.append_nil, List.reverse_reverse]

theorem splitAtTell_append {position origin : Nat} {target : Node}
    {before body after : List Statement} (h : ∀ s ∈ after, s.position ≠ position) :
    splitAtTell position (before ++ ⟨position, .tell origin target body⟩ :: after) =
      some (before, origin, target, body, after) := by
  have hlength : (before ++ (⟨position, .tell origin target body⟩ : Statement) :: after).length -
      after.length = (before ++ [(⟨position, .tell origin target body⟩ : Statement)]).length := by
    simp
    omega
  rw [splitAtTell]
  simp only
  rw [takeWhile_reverse_append (by simp)
    (by simpa using fun t ht => Or.inl (h t ht)), hlength, List.append_cons before _ after,
    List.take_left, List.reverse_concat]
  simp

theorem step_endTell {position origin : Nat} {target : Node} {context : Context}
    {before body : List Statement} (hcontext : m.context = context.openTell position target)
    (hm : m.function.statements = before ++ ⟨position, .tell origin target []⟩ :: body)
    (hbody : ∀ s ∈ body, s.position ≠ position) :
    (step ⟨offset, .endTell, 0⟩).run m =
      .ok () { m with
        context
        function := { m.function with
          statements := before ++ [⟨position, .tell origin target body⟩] } } := by
  have hclose : m.context.closeTell = (some position, context) := by
    rw [hcontext]
    rfl
  simp [step, closeTell, hclose, hm, splitAtTell_append hbody]

end Instruction

namespace Block

open Instruction

theorem size_opcode (op : BinaryOp) : Operation.size ⟨op.opcode, 0⟩ = 1 := by
  cases op <;> rfl

theorem before_empty (count : Nat) : Placed.before {} count = {} := by
  match count with
  | 0 | 1 | n + 2 => rfl

section Run

variable {m : Machine}

theorem runs_call {name offset : Nat} (h : name < m.scope.names.length) :
    m.Runs offset [⟨.pushArgListNoRet, 0⟩, ⟨.extCall, name⟩]
      [⟨offset + 2, .call (offset + 2) (m.scope.name name) .argListNoRet [] false⟩] := by
  have hpush : (step ⟨offset, .pushArgListNoRet, 0⟩).run m =
      .ok () { m with stack := .arguments offset .argListNoRet [] :: m.stack } := by
    have hpop := run_popMany ⟨offset, .pushArgListNoRet, 0⟩
      (show m.stack = ([] : List Node).reverse ++ m.stack from rfl)
    rw [List.length_nil] at hpop
    simp [step, loadArguments, hpop, push]
  exact ⟨_, .cons hpush (.one (step_call (offset + 2) (by exact h) rfl)), ⟨_, rfl⟩⟩

theorem runs_jump (offset distance address : Nat) (h : offset + distance = address) :
    m.Runs offset [⟨.jmp, distance⟩] [⟨offset, .jump offset address⟩] := by
  subst h
  exact ⟨_, .one (step_jmp offset distance), ⟨_, rfl⟩⟩

theorem runs_condition (c : Push) (offset distance address : Nat)
    (h : offset + c.size + distance = address) :
    m.Runs offset [c.operation, ⟨.jmpIfZ, distance⟩]
      [⟨offset + c.size, .jumpUnless (offset + c.size) (c.node offset) address⟩] := by
  subst h
  exact ⟨_, .cons (step_push offset c) (.one (step_jmpIfZ (offset + c.size) distance rfl)),
    ⟨_, rfl⟩⟩

theorem runs_test (hs : 0 < m.scope.scale) {index : Nat} (h : index < m.scope.locals.length)
    (compared : BinaryOp) (bound : UInt8) (offset distance address : Nat)
    (haddress : offset + 5 + distance = address) :
    m.Runs offset (testCode m.scope.scale index compared bound distance)
      [⟨offset + 5, .jumpUnless (offset + 5) (testNode m.scope offset index compared bound)
        address⟩] := by
  subst haddress
  have hplace : place offset (testCode m.scope.scale index compared bound distance) =
      [⟨offset, .getLocal, index * m.scope.scale⟩, ⟨offset + 2, .pushInt8, bound.toNat⟩,
        ⟨offset + 4, compared.opcode, 0⟩, ⟨offset + 5, .jmpIfZ, distance⟩] := by
    simp only [testCode, place, size_opcode]
    rfl
  unfold Machine.Runs
  rw [hplace]
  exact ⟨_, .cons (step_getLocal offset hs h) (.cons (step_push (offset + 2) (.byte bound))
    (.cons (step_binary (offset + 4) compared rfl)
      (.one (step_jmpIfZ (offset + 5) distance rfl)))), ⟨_, rfl⟩⟩

theorem runs_assign (hs : 0 < m.scope.scale) {index : Nat} (h : index < m.scope.locals.length)
    (offset : Nat) (value : UInt8) :
    m.Runs offset [⟨.pushInt8, value.toNat⟩, ⟨.setLocal, index * m.scope.scale⟩]
      [⟨offset + 2, .assign (offset + 2) (m.scope.localNode index)
        ((Push.byte value).node offset)⟩] :=
  ⟨_, .cons (step_push offset (.byte value))
    (.one (step_setLocal (offset + 2) (by exact hs) (by exact h) rfl)), ⟨_, rfl⟩⟩

theorem runs_step (hs : 0 < m.scope.scale) {index : Nat} (h : index < m.scope.locals.length)
    (offset : Nat) (up : Bool) :
    m.Runs offset [⟨.pushInt8, (increment up).toNat⟩, ⟨.getLocal, index * m.scope.scale⟩, ⟨.add, 0⟩,
        ⟨.setLocal, index * m.scope.scale⟩]
      [stepStatement m.scope offset index up] :=
  ⟨_, .cons (step_push offset (.byte (increment up))) (.cons
    (step_getLocal (offset + 2) (by exact hs) (by exact h)) (.cons (step_binary (offset + 4) .add rfl)
      (.one (step_setLocal (offset + 5) (by exact hs) (by exact h) rfl)))), ⟨_, rfl⟩⟩

theorem addGlobal_eq (f : Function) (name : String) :
    f.addGlobal name = { f with globals := (f.addGlobal name).globals } := by
  unfold Function.addGlobal
  split <;> rfl

theorem steps_startTell {target : Nat} (h : target < m.scope.names.length) (offset : Nat) :
    ∃ m₁ globals, Steps (place offset [⟨.getGlobal, target⟩, ⟨.startTell, 0⟩]) m m₁ ∧
      m₁ = { m with
        context := m.context.openTell (offset + 2)
          (.leaf .globalVariable (m.scope.name target) offset)
        function := { m.function with
          globals
          statements := m.function.statements ++ [⟨offset + 2, .tell (offset + 2)
            (.leaf .globalVariable (m.scope.name target) offset) []⟩] } } := by
  have hglobal := step_getGlobal (m := m) offset h
  rw [addGlobal_eq] at hglobal
  exact ⟨_, _, .cons hglobal (.one (step_startTell (offset + 2) rfl)), rfl⟩

end Run

/-- What is claimed of the code of a block: from any state whose statements lie in front of it, it
emits the statements of the block. -/
def Emitted (b : Block) : Prop :=
  ∀ (m : Machine) (offset exit : Nat), 0 < m.scope.scale → b.Declared m.scope →
    Below offset m.function.statements →
    m.Runs offset (b.code m.scope.scale exit) (b.raw m.scope (offset + b.size + exit) {} 0 offset)

def EmittedAll (blocks : List Block) : Prop :=
  ∀ (m : Machine) (offset exit : Nat), 0 < m.scope.scale → DeclaredAll m.scope blocks →
    Below offset m.function.statements →
    m.Runs offset (codeAll m.scope.scale exit blocks)
      (rawAll m.scope (offset + sizeAll blocks + exit) {} 0 offset blocks)

theorem EmittedAll.runs {blocks : List Block} (h : EmittedAll blocks) {m : Machine}
    (m₁ : Machine) (hscope : m₁.scope = m.scope) (offset exit behind : Nat)
    (hbehind : offset + sizeAll blocks + exit = behind) (hs : 0 < m.scope.scale)
    (hdeclared : DeclaredAll m.scope blocks) (hm₁ : Below offset m₁.function.statements) :
    m₁.Runs offset (codeAll m.scope.scale exit blocks)
      (rawAll m.scope behind {} 0 offset blocks) := by
  rw [← hscope] at hs hdeclared ⊢
  rw [← hbehind]
  exact h m₁ offset exit hs hdeclared hm₁

theorem Emitted.cons {b : Block} {rest : List Block} (hb : b.Emitted) (hrest : EmittedAll rest) :
    EmittedAll (b :: rest) := by
  intro m offset exit hs hdeclared hm
  have hsize : sizeAll (b :: rest) = b.size + sizeAll rest := rfl
  have hbehind : offset + b.size + (exit + sizeAll rest) =
      offset + sizeAll (b :: rest) + exit := by omega
  have hfirst := hb m offset (exit + sizeAll rest) hs hdeclared.1 hm
  rw [hbehind] at hfirst
  rw [rawAll_cons, before_empty]
  refine hfirst.append (offset + b.size) (by rw [sizeAll_code]) fun m₁ hemits => ?_
  exact hrest.runs _ hemits.scope_eq _ _ _ (by omega) hs hdeclared.2
    (hemits.below (hm.mono (by omega)) (span_state m.scope _ {} 0 0 0 1 offset b).lt_stop)

theorem emitted_ifThen {condition : Push} {thenPart : List Block} (hthen : EmittedAll thenPart) :
    (ifThen condition thenPart).Emitted := by
  intro m offset exit hs hdeclared hm
  have hsize : (ifThen condition thenPart).size = condition.size + 3 + sizeAll thenPart := rfl
  rw [raw_ifThen]
  refine (runs_condition condition offset _ _ (by omega)).append (offset + condition.size + 3) rfl
    fun m₁ hemits => ?_
  exact hthen.runs _ hemits.scope_eq _ _ _ (by omega) hs hdeclared
    (hemits.below (hm.mono (by omega)) (by simp))

theorem emitted_ifElse {condition : Push} {thenPart elsePart : List Block}
    (hthen : EmittedAll thenPart) (helse : EmittedAll elsePart) :
    (ifElse condition thenPart elsePart).Emitted := by
  intro m offset exit hs hdeclared hm
  have hsize : (ifElse condition thenPart elsePart).size =
    condition.size + 3 + sizeAll thenPart + 3 + sizeAll elsePart := rfl
  generalize hbehind : offset + (ifElse condition thenPart elsePart).size + exit = behind
  have hthenBelow :=
    (span_rawAll m.scope behind {} 0 (offset + condition.size + 3) thenPart).lt_stop
  have hopen := (runs_condition (m := m) condition offset (3 + (sizeAll thenPart + 3))
    (offset + condition.size + 3 + sizeAll thenPart + 3) (by omega)).append
      (offset + condition.size + 3) rfl fun m₁ hemits =>
        hthen.runs _ hemits.scope_eq _ (exit + (3 + sizeAll elsePart)) behind (by omega) hs
          hdeclared.1 (hemits.below (hm.mono (by omega)) (by simp))
  have hcross := hopen.append (offset + condition.size + 3 + sizeAll thenPart)
    (by rw [Operation.sizeAll_append, sizeAll_codeAll, ← Nat.add_assoc]; rfl) fun m₁ _ =>
      runs_jump (m := m₁) _ (3 + sizeAll elsePart)
        (offset + condition.size + 3 + sizeAll thenPart + 3 + sizeAll elsePart) (by omega)
  have hall := hcross.append (offset + condition.size + 3 + sizeAll thenPart + 3)
    (by rw [Operation.sizeAll_append, Operation.sizeAll_append, sizeAll_codeAll, ← Nat.add_assoc,
      ← Nat.add_assoc]; rfl) fun m₁ hemits =>
      helse.runs _ hemits.scope_eq _ exit behind (by omega) hs hdeclared.2
        (hemits.below (hm.mono (by omega)) (by
          simp only [below_append, below_cons, below_nil]
          exact ⟨⟨⟨by omega, trivial⟩, hthenBelow.mono (by omega)⟩, by omega, trivial⟩))
  rw [raw_ifElse, code]
  simpa only [List.append_assoc, List.cons_append, List.nil_append] using hall

theorem emitted_tell {target : Nat} {body : List Block} (hbody : EmittedAll body) :
    (tell target body).Emitted := by
  intro m offset exit hs hdeclared hm
  have hsize : (tell target body).size = 3 + sizeAll body + 1 := rfl
  generalize hbehind : offset + (tell target body).size + exit = behind
  have hspan := span_rawAll m.scope behind {} 0 (offset + 3) body
  obtain ⟨m₁, _, hopen, hm₁⟩ := steps_startTell hdeclared.1 offset
  have hscope : m₁.scope = m.scope := by rw [hm₁]; rfl
  have hstatements : Below (offset + 3) m₁.function.statements := by
    rw [hm₁]
    exact below_append.2 ⟨hm.mono (by omega), by simp⟩
  obtain ⟨m₂, hsteps, globals, hm₂⟩ := hbody.runs m₁ hscope (offset + 3) (exit + 1) behind
    (by omega) hs hdeclared.2 hstatements
  have hclose := step_endTell (m := m₂) (offset + 3 + sizeAll body)
    (by rw [hm₂, hm₁]) (by rw [hm₂, hm₁]; exact (List.append_cons _ _ _).symm) fun x hx => by
      have := hspan.start_le x hx
      omega
  have hall := (hopen.place_append hsteps).place_append (b := [⟨.endTell, 0⟩]) (by
    rw [Operation.sizeAll_append, sizeAll_codeAll, ← Nat.add_assoc]
    exact .one hclose)
  exact ⟨_, hall, globals, by rw [hm₂, hm₁]; rfl⟩

/-- The jump back at the end of a loop makes one statement of those from its start on. -/
theorem runs_loop {m : Machine} {offset start stop distance : Nat}
    {ops : List Operation} {statements : List Statement} (h : m.Runs offset ops statements)
    (hm : Below start m.function.statements) (hstart : From start statements)
    (hstop : offset + Operation.sizeAll ops = stop) (hdistance : stop = start + distance) :
    m.Runs offset (ops ++ [⟨.endRepeat, distance⟩]) [loopStatement start stop statements] := by
  subst hstop
  obtain ⟨m₁, hsteps, globals, rfl⟩ := h
  exact ⟨_, hsteps.place_append (.one (step_endRepeat _ hdistance rfl hm hstart)), ⟨globals, rfl⟩⟩

theorem emitted_whileLess {index : Nat} {bound : UInt8} {body : List Block}
    (hbody : EmittedAll body) : (whileLess index bound body).Emitted := by
  intro m offset exit hs hdeclared hm
  have hspan := span_rawAll m.scope (offset + 8 + sizeAll body + 2) {} 0 (offset + 8) body
  have hinner := (runs_test (m := m) hs hdeclared.1 .lt bound offset (3 + sizeAll body + 2)
    (offset + 8 + sizeAll body + 2) (by omega)).append (offset + 8) (by rw [sizeAll_testCode])
      fun m₁ hemits => hbody.runs _ hemits.scope_eq (offset + 8) 2 (offset + 8 + sizeAll body + 2)
        (by omega) hs hdeclared.2 (hemits.below (hm.mono (by omega)) (by simp))
  refine runs_loop hinner hm ?_ ?_ (by omega)
  · exact from_cons.2 ⟨Nat.le_add_right offset 5, hspan.start_le.mono (Nat.le_add_right _ _)⟩
  · rw [Operation.sizeAll_append, sizeAll_testCode, sizeAll_codeAll, Nat.add_assoc]

theorem runs_counting {m : Machine} (hs : 0 < m.scope.scale) {index : Nat}
    (hindex : index < m.scope.locals.length) (last : UInt8) (up : Bool) {body : List Block}
    (hbody : EmittedAll body) (hdeclared : DeclaredAll m.scope body) {start steps stop : Nat}
    (hsteps : steps = start + 8 + sizeAll body) (hstop : stop = steps + 7)
    (hm : Below start m.function.statements) :
    m.Runs start
      (testCode m.scope.scale index (comparison up) last (3 + sizeAll body + 9) ++
        codeAll m.scope.scale 9 body ++
        [⟨.pushInt8, (increment up).toNat⟩, ⟨.getLocal, index * m.scope.scale⟩, ⟨.add, 0⟩,
          ⟨.setLocal, index * m.scope.scale⟩] ++ [⟨.endRepeat, 15 + sizeAll body⟩])
      [loopStatement start stop
        (testStatement 0 (start + 5) (testNode m.scope start index (comparison up) last) (stop + 2) ::
          (rawAll m.scope (stop + 2) {} 0 (start + 8) body ++
            [stepStatement m.scope steps index up]))] := by
  have hspan := span_rawAll m.scope (stop + 2) {} 0 (start + 8) body
  have hopen := (runs_test hs hindex (comparison up) last start (3 + sizeAll body + 9) (stop + 2)
    (by omega)).append (start + 8) (by rw [sizeAll_testCode]) fun m₁ hemits =>
      hbody.runs m₁ hemits.scope_eq (start + 8) 9 (stop + 2) (by omega) hs hdeclared
        (hemits.below (hm.mono (by omega)) (by simp))
  have hstep := hopen.append steps
    (by rw [Operation.sizeAll_append, sizeAll_testCode, sizeAll_codeAll]; omega) fun m₁ hemits => by
      have hindex₁ : index < m₁.scope.locals.length := by rw [hemits.scope_eq]; exact hindex
      have hrun := runs_step (by rw [hemits.scope_eq]; exact hs) hindex₁ steps up
      rw [hemits.scope_eq] at hrun
      exact hrun
  have hfrom : From start [stepStatement m.scope steps index up] := by
    simp only [from_cons, from_nil, and_true, stepStatement]
    omega
  exact runs_loop hstep hm
    (from_append.2 ⟨from_cons.2 ⟨Nat.le_add_right start 5, hspan.start_le.mono (by omega)⟩, hfrom⟩)
    (by
      rw [Operation.sizeAll_append, Operation.sizeAll_append, sizeAll_testCode, sizeAll_codeAll,
        hstop, hsteps, Nat.add_assoc start 8]
      rfl)
    (by omega)

theorem emitted_counted {index : Nat} {first last : UInt8} {up : Bool} {body : List Block}
    (hbody : EmittedAll body) : (counted index first last up body).Emitted := by
  intro m offset exit hs hdeclared hm
  have hall := (runs_assign (m := m) hs hdeclared.1 offset first).append (offset + 4) rfl
    fun m₁ hemits => by
      have hscope := hemits.scope_eq
      have hindex : index < m₁.scope.locals.length := by rw [hscope]; exact hdeclared.1
      have hloop := runs_counting (by rw [hscope]; exact hs) hindex last up hbody
        (by rw [hscope]; exact hdeclared.2) rfl rfl
        (hemits.below (hm.mono (Nat.le_add_right offset 4)) (by simp))
      rw [hscope] at hloop
      exact hloop
  simpa only [code, raw, state, rawAll, List.append_assoc, List.cons_append, List.nil_append] using
    hall

mutual

theorem emitted : (b : Block) → b.Emitted
  | call _ => fun m offset exit hs hdeclared hm => runs_call hdeclared
  | exitLoop => fun m offset exit hs hdeclared hm =>
    runs_jump offset (3 + exit) _ (by rw [← Nat.add_assoc]; rfl)
  | ifThen _ thenPart => emitted_ifThen (emittedAll thenPart)
  | ifElse _ thenPart elsePart => emitted_ifElse (emittedAll thenPart) (emittedAll elsePart)
  | tell _ body => emitted_tell (emittedAll body)
  | whileLess _ _ body => emitted_whileLess (emittedAll body)
  | counted _ _ _ _ body => emitted_counted (emittedAll body)

theorem emittedAll : (blocks : List Block) → EmittedAll blocks
  | [] => fun m offset exit hs hdeclared hm => ⟨m, .nil m, m.function.globals, by simp⟩
  | b :: rest => (emitted b).cons (emittedAll rest)

end

end Block

end LingoSource
