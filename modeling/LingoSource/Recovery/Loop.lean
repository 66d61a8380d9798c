import LingoSource.Recovery.Weight

/-!
Loops: a loop that starts with an exit is a `repeat while`; one whose variable is set before it and
stepped at its end is a `repeat with`; one that takes the elements of a list in turn is a `repeat
with in`.
-/
set_option autoImplicit false

namespace LingoSource.Loop

structure Shape where
  kind : LoopKind
  condition : Node
  body : List Statement

/-- A first statement that exits the loop unless a condition holds makes it the condition of the
loop. -/
def whileCondition (s : Shape) : Shape :=
  match s.body with
  | ⟨_, .branch _ (.unary _ .not condition) [⟨_, .exitLoop _⟩] []⟩ :: body =>
    { s with condition, body }
  | _ => s

/-- The range of a loop whose variable is set by the statement before it, compared in its condition
and stepped by its last statement; a step of `-1` counts down. -/
def countedRange? (previous : Statement) (s : Shape) : Option LoopKind :=
  match previous.node, s.condition, s.body.getLast?.map Statement.node with
  | .assign _ counter first, .binary _ _ compared last,
      some (.assign _ stepped (.binary _ .add increment summand)) =>
    match counter.word? with
    | some name =>
      if compared.word? = some name && stepped.word? = some name && summand.word? = some name then
        some (.counted name first last (!increment.isConstant "-1"))
      else none
    | none => none
  | _, _, _ => none

/-- Recognises a counted loop, and tells whether the statement before it is part of it. -/
def counted (previous? : Option Statement) (s : Shape) : Shape × Bool :=
  match previous?.bind (countedRange? · s) with
  | some kind => ({ s with kind, body := s.body.dropLast }, true)
  | none => (s, false)

/-- Recognises a loop that counts up to the length of a list and starts by taking an element of it.
-/
def eachElement (s : Shape) : Shape :=
  match s.condition, s.body with
  | .binary _ _ one (.call _ "count" _ (counted :: _) _),
      ⟨_, .assign _ element (.call _ "getAt" _ (list :: index :: _) _)⟩ :: body =>
    match element.word? with
    | some name =>
      if one.isConstant "1" && counted.sameReference list && index.word? = some "1" then
        { s with kind := .each name list, body }
      else s
    | none => s
  | _, _ => s

def inside (recover : List Statement → List Statement) (previous? : Option Statement)
    (s : Statement) : Statement × Bool :=
  match s.node with
  | .loop origin start stop kind condition body =>
    let (shape, takesPrevious) := counted previous? (whileCondition ⟨kind, condition, body⟩)
    let shape := eachElement shape
    (⟨s.position, .loop origin start stop shape.kind shape.condition (recover shape.body)⟩,
      takesPrevious)
  | .branch origin condition thenBody elseBody =>
    (⟨s.position, .branch origin condition (recover thenBody) (recover elseBody)⟩, false)
  | .tell origin target body => (⟨s.position, .tell origin target (recover body)⟩, false)
  | _ => (s, false)

/-- Goes through statements behind `previous?`, which is kept unless the next one takes it. -/
def through (recover : List Statement → List Statement) (previous? : Option Statement) :
    List Statement → List Statement
  | [] => previous?.toList
  | s :: rest =>
    let (s, takesPrevious) := inside recover previous? s
    (if takesPrevious then [] else previous?.toList) ++ through recover (some s) rest

def recoverWithin : (fuel : Nat) → List Statement → List Statement
  | 0, statements => statements
  | fuel + 1, statements => through (recoverWithin fuel) none statements

def recover (statements : List Statement) : List Statement :=
  recoverWithin (Statement.weightAll statements) statements

end LingoSource.Loop
