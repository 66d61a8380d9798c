import LingoSource.Tree.Basic

/-!
What the handlers of one script share: the tables that they index, and the scale of the operands
that count bytes. The scale starts as the width of a constant record; an operand that it does not
divide shows that the script has a finer one.
-/
set_option autoImplicit false

namespace LingoSource

structure Context where
  names : List String
  constants : List String
  handlerNames : List String := []
  properties : List String := []
  scale : Nat
  /-- The open `tell` blocks, innermost first: where each starts and whom it tells. -/
  tells : List (Nat × Node) := []

namespace Context

def create (names constants : List String) (width : Nat) : Context :=
  { names, constants, scale := max width 1 }

/-- Stands for a name whose number is outside the table. -/
def unnamed : String := "noname"

def nameOf? (names : List String) (id : Int) : Option String :=
  if 0 ≤ id then names[id.toNat]? else none

def resolveName (c : Context) (id : Int) : String :=
  (nameOf? c.names id).getD unnamed

def narrowed (scale raw : Nat) : Nat :=
  if raw % scale = 0 then scale else raw % scale

def descale (c : Context) (raw : Nat) : Nat × Context :=
  let scale := narrowed c.scale raw
  (raw / scale, { c with scale })

def openTell (c : Context) (position : Nat) (target : Node) : Context :=
  { c with tells := (position, target) :: c.tells }

def closeTell (c : Context) : Option Nat × Context :=
  match c.tells with
  | [] => (none, c)
  | (position, _) :: tells => (some position, { c with tells })

def tellTarget? (c : Context) : Option Node :=
  c.tells.head?.map (·.2)

def resetTells (c : Context) : Context :=
  { c with tells := [] }

theorem narrowed_pos {scale : Nat} (h : 0 < scale) (raw : Nat) : 0 < narrowed scale raw := by
  unfold narrowed
  split
  · exact h
  · omega

theorem narrowed_le {scale : Nat} (h : 0 < scale) (raw : Nat) : narrowed scale raw ≤ scale := by
  unfold narrowed
  split
  · exact Nat.le_refl _
  · exact Nat.le_of_lt (Nat.mod_lt _ h)

end Context

end LingoSource
