import LingoSource.Recovery.Condition
import LingoSource.Recovery.Error
import LingoSource.Recovery.Loop

set_option autoImplicit false

namespace LingoSource

namespace Exit

mutual

def recoverNode (loopEnd? : Option Nat) : Node → Node
  | .jump origin address =>
    if leavesLoop loopEnd? address then .exitLoop origin else .jump origin address
  | .loop origin start stop kind condition body =>
    .loop origin start stop kind condition (recover (some stop) body)
  | .branch origin condition thenBody elseBody =>
    .branch origin condition (recover loopEnd? thenBody) (recover loopEnd? elseBody)
  | .tell origin target body => .tell origin target (recover loopEnd? body)
  | node => node

def recover (loopEnd? : Option Nat) : List Statement → List Statement
  | [] => []
  | ⟨position, node⟩ :: rest => ⟨position, recoverNode loopEnd? node⟩ :: recover loopEnd? rest

end

mutual

def jumpIn? (position : Nat) : Node → Option (Nat × Nat)
  | .jump _ address => some (position, address)
  | .jumpUnless _ _ address => some (position, address)
  | .loop _ _ _ _ _ body => firstJump? body
  | .branch _ _ thenBody elseBody => (firstJump? thenBody).or (firstJump? elseBody)
  | .tell _ _ body => firstJump? body
  | _ => none

def firstJump? : List Statement → Option (Nat × Nat)
  | [] => none
  | ⟨position, node⟩ :: rest => (jumpIn? position node).or (firstJump? rest)

end

def check (statements : List Statement) : Except RecoveryError Unit :=
  match firstJump? statements with
  | some (position, address) => throw (.unresolvedJump position address)
  | none => pure ()

end Exit

def Statement.structured (statements : List Statement) : List Statement :=
  Exit.recover none (Loop.recover (Condition.recover none statements))

def Statement.recoverFlow (statements : List Statement) :
    Except RecoveryError (List Statement) := do
  let statements := structured statements
  Exit.check statements
  return statements

end LingoSource
