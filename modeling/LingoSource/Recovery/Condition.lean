import LingoSource.Recovery.Weight

/-!
Conditions: a conditional jump and what it jumps over become a branch. A jump that ends the first
part jumps over the second one, unless it leaves the enclosing loop. The end of that loop is the
offset of its jump back, and a jump leaves the loop iff its address lies behind it.
-/
set_option autoImplicit false

namespace LingoSource

def leavesLoop (loopEnd? : Option Nat) (address : Nat) : Bool :=
  loopEnd?.any (· < address)

namespace Condition

def lastJump? (statements : List Statement) : Option (Statement × Nat) :=
  match statements.getLast? with
  | some s =>
    match s.node with
    | .jump _ address => some (s, address)
    | _ => none
  | none => none

/-- A jump out of the loop just before the last statement exits the loop. -/
def breakBeforeLast (loopEnd? : Option Nat) : List Statement → List Statement
  | [] => []
  | [s] => [s]
  | [s, t] =>
    match s.node with
    | .jump origin address =>
      if leavesLoop loopEnd? address then [⟨s.position, .exitLoop origin⟩, t] else [s, t]
    | _ => [s, t]
  | s :: rest => s :: breakBeforeLast loopEnd? rest

/-- What a scan for conditions remembers: the address up to which statements belong to the condition
found last, the address of the jump just before it, and whether the second part is being passed. -/
structure Scan where
  limit? : Option Nat := none
  jump? : Option Nat := none
  inElse : Bool := false

def Scan.next (loopEnd? : Option Nat) (scan : Scan) (s : Statement) : Scan × Bool :=
  if scan.limit?.any (s.position < ·) then
    let jump? := match s.node with
      | .jump _ address => some address
      | _ => none
    ({ scan with jump? }, false)
  else
    let scan := if scan.inElse then {} else scan
    match scan.jump? with
    | some address => ({ scan with limit? := some address, inElse := true }, false)
    | none =>
      match s.node with
      | .jumpUnless _ _ address =>
        ({ scan with limit? := if leavesLoop loopEnd? address then none else some address }, true)
      | _ => (scan, false)

def heads (loopEnd? : Option Nat) (scan : Scan) : List Statement → List Nat
  | [] => []
  | s :: rest =>
    let (scan, isHead) := scan.next loopEnd? s
    if isHead then s.position :: heads loopEnd? scan rest else heads loopEnd? scan rest

def splitAtHead (position : Nat) :
    List Statement → Option (List Statement × Nat × Node × Nat × List Statement)
  | [] => none
  | ⟨p, .jumpUnless origin condition address⟩ :: rest =>
    if p = position then some ([], origin, condition, address, rest)
    else (splitAtHead position rest).map fun (before, found) =>
      (⟨p, .jumpUnless origin condition address⟩ :: before, found)
  | s :: rest => (splitAtHead position rest).map fun (before, found) => (s :: before, found)

def splitAtAddress (address : Nat) (statements : List Statement) :
    List Statement × List Statement :=
  statements.span (·.position < address)

/-- Makes a branch of the conditional jump at a position. A jump out of the loop becomes a branch
that exits it. `recover` is what is done to the parts of the branch. -/
def lift (recover : List Statement → List Statement) (loopEnd? : Option Nat)
    (statements : List Statement) (position : Nat) : List Statement :=
  match splitAtHead position statements with
  | none => statements
  | some (before, origin, condition, address, after) =>
    if leavesLoop loopEnd? address then
      before ++ ⟨position, .branch origin (.unary origin .not condition)
        [⟨position, .exitLoop origin⟩] []⟩ :: after
    else
      let (thenBody, after) := splitAtAddress address after
      let thenBody := recover (breakBeforeLast loopEnd? thenBody)
      match lastJump? thenBody with
      | none => before ++ ⟨position, .branch origin condition thenBody []⟩ :: after
      | some (jump, address) =>
        if leavesLoop loopEnd? address then
          let exit : Statement := ⟨jump.position, .exitLoop jump.position⟩
          before ++ ⟨position, .branch origin condition (thenBody.dropLast ++ [exit]) []⟩ :: after
        else
          let (elseBody, after) := splitAtAddress address after
          let elseBody := recover (breakBeforeLast loopEnd? elseBody)
          before ++ ⟨position, .branch origin condition thenBody.dropLast elseBody⟩ :: after

def inside (recover : Option Nat → List Statement → List Statement) (loopEnd? : Option Nat)
    (s : Statement) : Statement :=
  match s.node with
  | .loop origin start stop kind condition body =>
    ⟨s.position, .loop origin start stop kind condition (recover (some stop) body)⟩
  | .tell origin target body => ⟨s.position, .tell origin target (recover loopEnd? body)⟩
  | _ => s

def recoverWithin : (fuel : Nat) → Option Nat → List Statement → List Statement
  | 0, _, statements => statements
  | fuel + 1, loopEnd?, statements =>
    let statements := statements.map (inside (recoverWithin fuel) loopEnd?)
    (heads loopEnd? {} statements).foldl
      (lift (recoverWithin fuel loopEnd?) loopEnd?) statements

/-- Recovers the conditions of statements inside a loop that ends at `loopEnd?`, or outside of
loops. Nesting is never deeper than the weight of the statements. -/
def recover (loopEnd? : Option Nat) (statements : List Statement) : List Statement :=
  recoverWithin (Statement.weightAll statements) loopEnd? statements

end Condition

end LingoSource
