import LingoSource.Tree.Operator

/-!
The tree of a handler. A node is an expression or a statement; statement lists tag each node with
the offset of the instruction that made it. A word carries the offset that it was read at. Every
other node carries its `origin`: a node that is used twice has one origin, and two nodes that are
built apart have different ones, so the origin tells sharing from equality.
-/
set_option autoImplicit false

namespace LingoSource

mutual

inductive Node
  | leaf (kind : LeafKind) (name : String) (position : Nat)
  | unary (origin : Nat) (op : UnaryOp) (operand : Node)
  | binary (origin : Nat) (op : BinaryOp) (left right : Node)
  | assign (origin : Nat) (left right : Node)
  | put (origin : Nat) (mode : PutMode) (left right : Node)
  /-- `char 1 of x` -/
  | chunk (origin : Nat) (kind : ChunkKind) (first of : Node)
  /-- `char 1 to 3 of x` -/
  | chunkRange (origin : Nat) (kind : ChunkKind) (first last of : Node)
  /-- `the last item of x`, `the number of words of x`, `the name of menu 1` -/
  | aspect (origin : Nat) (op : UnaryOp) (part : Option String) (of : Node)
  | property (origin : Nat) (object : Node) (name : String)
  | builtinProperty (origin : Nat) (name : String)
  | menuItemOf (origin : Nat) (menu item : Node)
  | menuItemsOf (origin : Nat) (menu : Node)
  | arguments (origin : Nat) (kind : ListKind) (args : List Node)
  | list (origin : Nat) (values : Node)
  | propertyList (origin : Nat) (values : Node)
  | call (origin : Nat) (name : String) (kind : ListKind) (args : List Node) (inTell : Bool)
  /-- A call of a method; the receiver is not among the arguments. -/
  | methodCall (origin : Nat) (name : String) (object : Node) (kind : ListKind) (args : List Node)
  /-- A loop whose code lies from `start` up to the jump back at `stop`. -/
  | loop (origin start stop : Nat) (kind : LoopKind) (condition : Node) (body : List Statement)
  | branch (origin : Nat) (condition : Node) (thenBody elseBody : List Statement)
  | jump (origin address : Nat)
  /-- A jump that is taken when its condition is false. -/
  | jumpUnless (origin : Nat) (condition : Node) (address : Nat)
  | exitLoop (origin : Nat)
  | tell (origin : Nat) (target : Node) (body : List Statement)

inductive LoopKind
  | whileTrue
  | counted (variableName : String) (first last : Node) (up : Bool)
  | each (variableName : String) (list : Node)

structure Statement where
  position : Nat
  node : Node

end

namespace Node

def word? : Node → Option String
  | .leaf _ name _ => some name
  | _ => none

def isLeaf : Node → Bool
  | .leaf .. => true
  | _ => false

def isConstant (value : String) : Node → Bool
  | .leaf .constant name _ => name = value
  | _ => false

def isCallNamed (value : String) : Node → Bool
  | .call _ name _ _ _ => name = value
  | _ => false

def callArguments? : Node → Option (List Node)
  | .call _ _ _ args _ => some args
  | _ => none

def isJump : Node → Bool
  | .jump .. | .jumpUnless .. => true
  | _ => false

def origin? : Node → Option Nat
  | .leaf .. => none
  | .unary o .. | .binary o .. | .assign o .. | .put o .. | .chunk o .. | .chunkRange o ..
  | .aspect o .. | .property o .. | .builtinProperty o .. | .menuItemOf o .. | .menuItemsOf o ..
  | .arguments o .. | .list o .. | .propertyList o .. | .call o .. | .methodCall o ..
  | .loop o .. | .branch o .. | .jump o .. | .jumpUnless o .. | .exitLoop o | .tell o .. => some o

/-- Whether two nodes refer to one thing: globals of one name, other words of one kind, name and
position, and all else only if it is one node. -/
def sameReference : Node → Node → Bool
  | .leaf .globalVariable a _, .leaf .globalVariable b _ => a = b
  | .leaf k a p, .leaf l b q => k = l ∧ a = b ∧ p = q
  | a, b => a.origin?.isSome && a.origin? = b.origin?

end Node

end LingoSource
