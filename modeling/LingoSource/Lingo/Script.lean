import LingoSource.Layout.Writer
import LingoSource.Lingo.Expression
import LingoSource.Tree.Script

/-!
Scripts in Lingo: the properties on one line, every global on a line of its own, then the handlers.
A handler declares, in alphabetic order, the globals that the script does not.
-/
set_option autoImplicit false

namespace LingoSource.Lingo

def writeStatement (w : Writer) (node : Node) : Writer :=
  w.writeLine (text (.statement w.frame) node)

def ownGlobals (f : Function) (scriptGlobals : List String) : List String :=
  (f.globals.filter (· ∉ scriptGlobals)).mergeSort (fun a b => decide (a ≤ b))

def writeFunction (scriptGlobals : List String) (w : Writer) (f : Function) : Writer :=
  let params := f.parameterNames
  let w := w.writeLine
    ("on " ++ f.name ++ (if params.isEmpty then "" else " " ++ commas params))
  let w := w.indent
  let globals := ownGlobals f scriptGlobals
  let w := w.writeLines (globals.map ("global " ++ ·))
  let w := if globals.isEmpty then w else w.endLine
  let w := f.body.foldl (fun w s => writeStatement w s.node) w
  w.unindent.writeLine "end"

def writeScript (w : Writer) (s : Script) : Writer :=
  let w := if s.properties.isEmpty then w else w.writeLine ("property " ++ commas s.properties)
  let w := w.writeLines (s.globals.map ("global " ++ ·))
  let w := if s.globals.isEmpty then w else w.endLine
  w.writeSeparated (writeFunction s.globals) s.functions

end LingoSource.Lingo

namespace LingoSource

def Script.lingo (s : Script) (unit : String) : String :=
  (Lingo.writeScript (.ofUnit unit) s).text

end LingoSource
