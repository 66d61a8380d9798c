import LingoSource.Proofs.Instruction.Assembly

set_option autoImplicit false

namespace LingoSource

structure Scope where
  names : List String
  constants : List String
  parameters : List Node
  locals : List Node
  scale : Nat

def Machine.scope (m : Machine) : Scope where
  names := m.context.names
  constants := m.context.constants
  parameters := m.function.parameters
  locals := m.function.locals
  scale := m.context.scale

namespace Scope

def name (s : Scope) (number : Nat) : String :=
  s.names[number]?.getD Context.unnamed

def constant (s : Scope) (index : Nat) : String :=
  s.constants[index]?.getD Context.unnamed

def parameterName (s : Scope) (index : Nat) : String :=
  (s.parameters[index]?.bind Node.word?).getD Context.unnamed

def localNode (s : Scope) (index : Nat) : Node :=
  s.locals[index]?.getD (.leaf .localVariable Context.unnamed 0)

def localName (s : Scope) (index : Nat) : String :=
  (s.localNode index).word?.getD Context.unnamed

end Scope

def BinaryOp.opcode : BinaryOp → Opcode
  | .add => .add
  | .sub => .sub
  | .mul => .mul
  | .div => .div
  | .mod => .mod
  | .concat => .joinStr
  | .concatSpaces => .joinPadStr
  | .contains => .containsStr
  | .start => .contains0Str
  | .and => .and
  | .or => .or
  | .lt => .lt
  | .ltEq => .ltEq
  | .gt => .gt
  | .gtEq => .gtEq
  | .eq => .eq
  | .ntEq => .ntEq
  | .intersects => .ontoSpr
  | .within => .intoSpr

inductive PrefixOp
  | minus
  | not
  | field
  deriving DecidableEq, Repr

def PrefixOp.opcode : PrefixOp → Opcode
  | .minus => .inv
  | .not => .not
  | .field => .getField

def PrefixOp.unary : PrefixOp → UnaryOp
  | .minus => .minus
  | .not => .not
  | .field => .field

theorem Context.descale_mul {c : Context} (h : 0 < c.scale) (index : Nat) :
    c.descale (index * c.scale) = (index, c) := by
  simp [descale, narrowed, Nat.mul_div_cancel _ h]

namespace Scope

theorem getElem?_names {s : Scope} {number : Nat} (h : number < s.names.length) :
    s.names[number]? = some (s.name number) := by
  simp [name, h]

theorem getElem?_constants {s : Scope} {index : Nat} (h : index < s.constants.length) :
    s.constants[index]? = some (s.constant index) := by
  simp [constant, h]

theorem getElem?_locals {s : Scope} {index : Nat} (h : index < s.locals.length) :
    s.locals[index]? = some (s.localNode index) := by
  simp [localNode, h]

theorem parameterName_of_getElem? {s : Scope} {index : Nat} {parameter : Node}
    (h : s.parameters[index]? = some parameter) :
    s.parameterName index = parameter.word?.getD Context.unnamed := by
  simp [parameterName, h]

end Scope

namespace Instruction

theorem run_lookUp (i : Instruction) {α : Type} (table : IndexedTable) {entries : List α}
    {index : Nat} {entry : α} (h : entries[index]? = some entry) (m : Machine) :
    (i.lookUp table entries index).run m = .ok entry m := by
  simp [lookUp, h]

variable {m : Machine}

theorem run_nameAt (i : Instruction) {number : Nat} (h : number < m.scope.names.length) :
    (i.nameAt number).run m = .ok (m.scope.name number) m := by
  have hn : m.context.names[number]? = some (m.scope.name number) := Scope.getElem?_names h
  simp [nameAt, run_lookUp i .names hn]

theorem run_descale (hs : 0 < m.scope.scale) (index : Nat) :
    (descale (index * m.scope.scale)).run m = .ok index m := by
  have hd : m.context.descale (index * m.context.scale) = (index, m.context) :=
    Context.descale_mul hs index
  have hm : m.scope.scale = m.context.scale := rfl
  simp [descale, hm, hd]

theorem run_localAt (i : Instruction) {index : Nat} (h : index < m.scope.locals.length) :
    (i.localAt index).run m = .ok (m.scope.localNode index) m := by
  have hl : m.function.locals[index]? = some (m.scope.localNode index) := Scope.getElem?_locals h
  simp [localAt, run_lookUp i .locals hl]

theorem run_popMany (i : Instruction) {nodes stack : List Node}
    (h : m.stack = nodes.reverse ++ stack) :
    (i.popMany nodes.length).run m = .ok nodes { m with stack } := by
  simp [popMany, EStateM.run, h]

variable (offset : Nat)

theorem step_symbol {number : Nat} (h : number < m.scope.names.length) :
    (step ⟨offset, .pushSymb, number⟩).run m =
      .ok () { m with stack := .leaf .symbol (m.scope.name number) offset :: m.stack } := by
  simp [step, run_nameAt _ h, push, leaf]

theorem step_getGlobal {number : Nat} (h : number < m.scope.names.length) :
    (step ⟨offset, .getGlobal, number⟩).run m =
      .ok () { m with
        function := m.function.addGlobal (m.scope.name number)
        stack := .leaf .globalVariable (m.scope.name number) offset :: m.stack } := by
  simp [step, run_nameAt _ h, declareGlobal, push, leaf]

theorem step_getProp {number : Nat} (h : number < m.scope.names.length) :
    (step ⟨offset, .getProp, number⟩).run m =
      .ok () { m with
        stack := .leaf .definedPropertyName (m.scope.name number) offset :: m.stack } := by
  simp [step, run_nameAt _ h, push, leaf]

theorem step_pushCons {index : Nat} (hs : 0 < m.scope.scale)
    (h : index < m.scope.constants.length) :
    (step ⟨offset, .pushCons, index * m.scope.scale⟩).run m =
      .ok () { m with stack := .leaf .constant (m.scope.constant index) offset :: m.stack } := by
  have hc : m.context.constants[index]? = some (m.scope.constant index) :=
    Scope.getElem?_constants h
  simp [step, pushConstant, run_descale hs, run_lookUp _ .constants hc, push, leaf]

theorem step_getParam {index : Nat} (hs : 0 < m.scope.scale)
    (h : index < m.scope.parameters.length) :
    (step ⟨offset, .getParam, index * m.scope.scale⟩).run m =
      .ok () { m with
        stack := .leaf .parameterName (m.scope.parameterName index) offset :: m.stack } := by
  have hp : m.function.parameters[index]? = some m.scope.parameters[index] :=
    List.getElem?_eq_getElem h
  rw [Scope.parameterName_of_getElem? (List.getElem?_eq_getElem h)]
  simp [step, parameterAt, run_descale hs, run_lookUp _ .parameters hp, push, leaf]

theorem step_getLocal {index : Nat} (hs : 0 < m.scope.scale) (h : index < m.scope.locals.length) :
    (step ⟨offset, .getLocal, index * m.scope.scale⟩).run m =
      .ok () { m with stack := m.scope.localNode index :: m.stack } := by
  simp [step, run_descale hs, run_localAt _ h, push]

theorem step_unary (op : PrefixOp) {operand : Node} {stack : List Node}
    (h : m.stack = operand :: stack) :
    (step ⟨offset, op.opcode, 0⟩).run m =
      .ok () { m with stack := .unary offset op.unary operand :: stack } := by
  obtain ⟨context, function, _⟩ := m
  subst h
  cases op <;> rfl

theorem step_binary (op : BinaryOp) {left right : Node} {stack : List Node}
    (h : m.stack = right :: left :: stack) :
    (step ⟨offset, op.opcode, 0⟩).run m =
      .ok () { m with stack := .binary offset op left right :: stack } := by
  obtain ⟨context, function, _⟩ := m
  subst h
  cases op <;> rfl

theorem run_pop (i : Instruction) {node : Node} {stack : List Node} (h : m.stack = node :: stack) :
    i.pop.run m = .ok node { m with stack } := by
  simp [pop, EStateM.run, h]

theorem step_getObjProp {number : Nat} (h : number < m.scope.names.length) {object : Node}
    {stack : List Node} (hm : m.stack = object :: stack) :
    (step ⟨offset, .getObjProp, number⟩).run m =
      .ok () { m with stack := .property offset object (m.scope.name number) :: stack } := by
  simp [step, run_nameAt _ h, run_pop _ hm, push]

theorem step_pushArgList {count : Nat} {nodes stack : List Node} (hcount : nodes.length = count)
    (h : m.stack = nodes.reverse ++ stack) :
    (step ⟨offset, .pushArgList, count⟩).run m =
      .ok () { m with stack := .arguments offset .argList nodes :: stack } := by
  subst hcount
  simp [step, loadArguments, run_popMany _ h, push]

theorem step_pushList {origin : Nat} {kind : ListKind} {args stack : List Node}
    (h : m.stack = .arguments origin kind args :: stack) :
    (step ⟨offset, .pushList, 0⟩).run m =
      .ok () { m with stack := .list offset (.arguments origin kind args) :: stack } := by
  simp [step, pushList, run_pop _ h, push]

theorem step_pushPropList {origin : Nat} {kind : ListKind} {args stack : List Node}
    (h : m.stack = .arguments origin kind args :: stack) (heven : args.length % 2 = 0) :
    (step ⟨offset, .pushPropList, 0⟩).run m =
      .ok () { m with stack := .propertyList offset (.arguments origin kind args) :: stack } := by
  simp [step, pushPropertyList, run_pop _ h, heven, push]

theorem step_extCall {number : Nat} (h : number < m.scope.names.length) {origin : Nat}
    {args stack : List Node} (hm : m.stack = .arguments origin .argList args :: stack) :
    (step ⟨offset, .extCall, number⟩).run m =
      .ok () { m with
        stack := .call offset (m.scope.name number) .argList args false :: stack } := by
  simp [step, run_nameAt _ h, popArguments, run_pop _ hm, call, yieldBy, push]

theorem step_objCall {number : Nat} (h : number < m.scope.names.length) {outer inner : Nat}
    {receiver : Node} {args stack : List Node}
    (hm : m.stack = .list outer (.arguments inner .argList (args ++ [receiver])) :: stack) :
    (step ⟨offset, .objCall, number⟩).run m =
      .ok () { m with
        stack := .methodCall offset (m.scope.name number) receiver .argList args :: stack } := by
  simp [step, run_nameAt _ h, callMethod, run_pop _ hm, yieldBy, push]

section

variable {i : Instruction} {m' : Machine}

theorem lookUp_eq_ok {α : Type} {table : IndexedTable} {entries : List α} {index : Nat} {entry : α}
    (h : (i.lookUp table entries index).run m = .ok entry m') :
    entries[index]? = some entry ∧ m' = m := by
  unfold lookUp at h
  split at h
  · rename_i entry' hentry
    cases h
    exact ⟨hentry, rfl⟩
  · cases h

theorem nameAt_eq_ok {index : Nat} {name : String} (h : (i.nameAt index).run m = .ok name m') :
    m.scope.name index = name ∧ m' = m := by
  obtain ⟨_, _, hget, hlook⟩ := run_bind_eq_ok h
  cases hget
  obtain ⟨hname, rfl⟩ := lookUp_eq_ok hlook
  exact ⟨by simp [Scope.name, Machine.scope, hname], rfl⟩

theorem parameterAt_eq_ok {index : Nat} {node : Node}
    (h : (i.parameterAt index).run m = .ok node m') :
    m.scope.parameters[index]? = some node ∧ m' = m := by
  obtain ⟨_, _, hget, hlook⟩ := run_bind_eq_ok h
  cases hget
  exact lookUp_eq_ok hlook

theorem localAt_eq_ok {index : Nat} {node : Node} (h : (i.localAt index).run m = .ok node m') :
    m.scope.locals[index]? = some node ∧ m' = m := by
  obtain ⟨_, _, hget, hlook⟩ := run_bind_eq_ok h
  cases hget
  exact lookUp_eq_ok hlook

theorem pop_eq_ok {node : Node} (h : i.pop.run m = .ok node m') :
    ∃ stack, m.stack = node :: stack ∧ m' = { m with stack } := by
  simp only [pop, EStateM.run] at h
  split at h
  · cases h
  · rename_i top stack hstack
    cases h
    exact ⟨stack, hstack, rfl⟩

theorem popMany_eq_ok {count : Nat} {nodes : List Node}
    (h : (i.popMany count).run m = .ok nodes m') :
    count ≤ m.stack.length ∧ nodes = (m.stack.take count).reverse ∧
      m' = { m with stack := m.stack.drop count } := by
  simp only [popMany, EStateM.run] at h
  split at h
  · rename_i hcount
    cases h
    exact ⟨hcount, rfl, rfl⟩
  · cases h

end

end Instruction

end LingoSource
