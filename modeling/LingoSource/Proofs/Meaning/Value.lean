import LingoSource.Proofs.Meaning.StackMachine
import Mathlib

/-!
What nodes and statements mean: the value of an expression in a store of named variables, and the
store that assignments leave. An expression has its value when it is evaluated, however much earlier
its parts were read.
-/
set_option autoImplicit false

namespace LingoSource

variable {α : Type} (I : Interpretation α)

namespace Node

def variableName? : Node → Option String
  | .leaf .localVariable name _ | .leaf .globalVariable name _ | .leaf .parameterName name _ =>
    some name
  | _ => none

def reads : Node → List String
  | .unary _ _ operand => operand.reads
  | .binary _ _ left right => left.reads ++ right.reads
  | node => node.variableName?.toList

def value? (σ : String → α) : Node → Option α
  | .leaf .constant text _ => text.toInt?.map I.integer
  | .unary _ op operand => (operand.value? σ).map (I.unary op)
  | .binary _ op left right => do return I.binary op (← left.value? σ) (← right.value? σ)
  | node => node.variableName?.map σ

variable {I} {σ : String → α} {node left right : Node} {name : String} {a b : α}

theorem value?_integer (n : Int) (position : Nat) :
    (leaf .constant (toString n) position).value? I σ = some (I.integer n) := by
  have hn : (toString n).toInt? = some n := Int.toInt?_repr n
  rw [value?, hn, Option.map_some]

theorem value?_unary (h : node.value? I σ = some a) (origin : Nat) (op : UnaryOp) :
    (unary origin op node).value? I σ = some (I.unary op a) := by
  simp [value?, h]

theorem value?_binary (hl : left.value? I σ = some a) (hr : right.value? I σ = some b)
    (origin : Nat) (op : BinaryOp) :
    (binary origin op left right).value? I σ = some (I.binary op a b) := by
  simp [value?, hl, hr]

theorem value?_of_variableName? (h : node.variableName? = some name) :
    node.value? I σ = some (σ name) := by
  unfold variableName? at h
  split at h <;> cases h <;> rfl

theorem reads_of_variableName? (h : node.variableName? = some name) : node.reads = [name] := by
  unfold variableName? at h
  split at h <;> cases h <;> rfl

theorem value?_update (h : name ∉ node.reads) (a : α) :
    node.value? I (Function.update σ name a) = node.value? I σ := by
  fun_induction value? I σ node with
  | case1 => rfl
  | case2 origin op operand ih => rw [value?, ih h]
  | case3 origin op left right ihl ihr =>
    obtain ⟨hl, hr⟩ := not_or.1 (List.mem_append.not.1 h)
    rw [value?, ihl hl, ihr hr]
  | case4 node =>
    cases hname : node.variableName? with
    | none => simp [value?, hname]
    | some other =>
      rw [reads_of_variableName? hname, List.mem_singleton] at h
      rw [value?_of_variableName? hname, Function.update_of_ne (Ne.symm h), Option.map_some]

end Node

namespace Statement

def execute (σ : String → α) : Statement → Option (String → α)
  | ⟨_, .assign _ left right⟩ => do
    return Function.update σ (← left.variableName?) (← right.value? I σ)
  | _ => none

def executeAll (σ : String → α) (statements : List Statement) : Option (String → α) :=
  statements.foldlM (execute I) σ

theorem executeAll_append {I : Interpretation α} {σ σ' : String → α} {a : List Statement}
    (h : executeAll I σ a = some σ') (b : List Statement) :
    executeAll I σ (a ++ b) = executeAll I σ' b := by
  unfold executeAll at h ⊢
  rw [List.foldlM_append, h, Option.bind_eq_bind, Option.bind_some]

theorem execute_assign {I : Interpretation α} {σ : String → α} {left right : Node} {name : String}
    {a : α} (hl : left.variableName? = some name) (hr : right.value? I σ = some a)
    (position origin : Nat) :
    execute I σ ⟨position, .assign origin left right⟩ = some (Function.update σ name a) := by
  simp [execute, hl, hr]

end Statement

end LingoSource
