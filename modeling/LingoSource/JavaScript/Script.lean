import LingoSource.JavaScript.Expression
import LingoSource.Layout.Writer

set_option autoImplicit false

namespace LingoSource.JavaScript

def functionName (name : String) : String :=
  if name = "new" then "birth" else name

def writeStatement (scope : Scope) (w : Writer) (node : Node) : Writer :=
  w.writeLine (finish (text scope w.frame node))

def writeFunction (scope : Scope) (keyword : String) (w : Writer) (f : Function) : Writer :=
  let w := w.writeLine
    (keyword ++ functionName f.name ++ "(" ++ commas f.parameterNames ++ ") \x7b")
  let w := w.indent
  let locals := f.localNames
  let w := w.writeLines (locals.map fun name => "var " ++ name ++ ";")
  let w := if locals.isEmpty then w else w.endLine
  let w := f.body.foldl (fun w s => writeStatement scope w s.node) w
  w.unindent.writeLine "\x7d"

def writeFactory (scope : Scope) (factory : String) (w : Writer) (s : Script) : Writer :=
  let w := (w.writeLine ("class Factory__" ++ factory ++ " extends FactoryBase \x7b")).indent
  let w := w.writeSeparated (writeFunction scope "") s.functions
  let w := (w.unindent.writeLine "\x7d").endLine
  let w := (w.writeLine ("function " ++ factory ++ "(methodName, ...args) \x7b")).indent
  let w := w.writeLine ("return factoryCall('" ++ factory ++ "', methodName, args);")
  w.unindent.writeLine "\x7d"

def writeScript (w : Writer) (s : Script) : Writer :=
  let scope := Scope.ofScript s
  match s.factory with
  | some factory => writeFactory scope factory w s
  | none => w.writeSeparated (writeFunction scope "function ") s.functions

end LingoSource.JavaScript

namespace LingoSource

def Script.javaScript (s : Script) (unit : String) : String :=
  (JavaScript.writeScript (.ofUnit unit) s).text

end LingoSource
