import LingoSource.Tree.Basic

set_option autoImplicit false

namespace LingoSource

structure Function where
  name : String
  position : Nat
  parameters : List Node := []
  locals : List Node := []
  globals : List String := []
  statements : List Statement := []
  isMethod : Bool := false

namespace Function

/-- Declares a global; one that is declared already stays where it is. -/
def addGlobal (f : Function) (name : String) : Function :=
  if name ∈ f.globals then f else { f with globals := f.globals ++ [name] }

def hasGlobal (f : Function) (name : String) : Bool :=
  name ∈ f.globals

def parameterNames (f : Function) : List String :=
  f.parameters.filterMap Node.word?

def localNames (f : Function) : List String :=
  f.locals.filterMap Node.word?

/-- The statements without the `exit` that every handler ends with. -/
def body (f : Function) : List Statement :=
  match f.statements.getLast? with
  | some s => if s.node.isCallNamed "exit" then f.statements.dropLast else f.statements
  | none => f.statements

@[simp] theorem parameters_addGlobal (f : Function) (name : String) :
    (f.addGlobal name).parameters = f.parameters := by
  unfold addGlobal
  split <;> rfl

@[simp] theorem locals_addGlobal (f : Function) (name : String) :
    (f.addGlobal name).locals = f.locals := by
  unfold addGlobal
  split <;> rfl

@[simp] theorem statements_addGlobal (f : Function) (name : String) :
    (f.addGlobal name).statements = f.statements := by
  unfold addGlobal
  split <;> rfl

theorem mem_globals_addGlobal (f : Function) (name : String) : name ∈ (f.addGlobal name).globals := by
  unfold addGlobal
  split <;> simp_all

theorem nodup_globals_addGlobal {f : Function} {name : String} (h : f.globals.Nodup) :
    (f.addGlobal name).globals.Nodup := by
  unfold addGlobal
  split
  · exact h
  · rename_i hn
    simp [List.nodup_append, h]
    grind

end Function

structure Script where
  properties : List String
  globals : List String
  functions : List Function
  factory : Option String := none

namespace Script

def setFactory (s : Script) (name : String) : Script :=
  { s with
    factory := some name
    functions := s.functions.map ({ · with isMethod := true }) }

def function? (s : Script) (name : String) : Option Function :=
  s.functions.find? (·.name = name)

end Script

end LingoSource
