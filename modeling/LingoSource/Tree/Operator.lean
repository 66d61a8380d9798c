set_option autoImplicit false

namespace LingoSource

inductive BinaryOp
  | add
  | sub
  | mul
  | div
  | mod
  | concat
  | concatSpaces
  | contains
  | start
  | and
  | or
  | lt
  | ltEq
  | gt
  | gtEq
  | eq
  | ntEq
  | intersects
  | within
  deriving DecidableEq, Repr

namespace BinaryOp

def lingo : BinaryOp → String
  | .add => "+"
  | .sub => "-"
  | .mul => "*"
  | .div => "/"
  | .mod => "mod"
  | .concat => "&"
  | .concatSpaces => "&&"
  | .contains => "contains"
  | .start => "start"
  | .and => "and"
  | .or => "or"
  | .lt => "<"
  | .ltEq => "<="
  | .gt => ">"
  | .gtEq => ">="
  | .eq => "="
  | .ntEq => "<>"
  | .intersects => "intersects"
  | .within => "within"

/-- A spelling that starts with a point is a method of the left operand. -/
def javaScript : BinaryOp → String
  | .add => "+"
  | .sub => "-"
  | .mul => "*"
  | .div => "/"
  | .mod => "%"
  | .concat => "+"
  | .concatSpaces => "+ \" \" +"
  | .contains => ".includes"
  | .start => ".startsWith"
  | .and => "&&"
  | .or => "||"
  | .lt => "<"
  | .ltEq => "<="
  | .gt => ">"
  | .gtEq => ">="
  | .eq => "=="
  | .ntEq => "!="
  | .intersects => ".intersects"
  | .within => ".within"

def isMethod : BinaryOp → Bool
  | .contains | .start | .intersects | .within => true
  | _ => false

def isSpritePredicate : BinaryOp → Bool
  | .intersects | .within => true
  | _ => false

end BinaryOp

inductive UnaryOp
  | minus
  | not
  | field
  | hilite
  | delete
  | last
  | number
  | name
  deriving DecidableEq, Repr

namespace UnaryOp

def lingo : UnaryOp → String
  | .minus => "minus"
  | .not => "not"
  | .field => "field"
  | .hilite => "hilite"
  | .delete => "delete"
  | .last => "last"
  | .number => "number"
  | .name => "name"

def javaScript : UnaryOp → String
  | .minus => "-"
  | .not => "!"
  | .number => "length"
  | op => op.lingo

end UnaryOp

inductive ChunkKind
  | char
  | word
  | item
  | line
  deriving DecidableEq, Repr

def ChunkKind.name : ChunkKind → String
  | .char => "char"
  | .word => "word"
  | .item => "item"
  | .line => "line"

inductive PutMode
  | into
  | after
  | before
  deriving DecidableEq, Repr

def PutMode.name : PutMode → String
  | .into => "into"
  | .after => "after"
  | .before => "before"

/-- Whether the result of the call that takes an argument list is used. -/
inductive ListKind
  | argList
  | argListNoRet
  deriving DecidableEq, Repr

inductive LeafKind
  | constant
  | symbol
  | localVariable
  | globalVariable
  | propertyName
  | definedPropertyName
  | parameterName
  | raw
  | dateTimeFunction
  | menu
  | menuItem
  | soundChannel
  | sprite
  | cast
  deriving DecidableEq, Repr

end LingoSource
