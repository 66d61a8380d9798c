import LingoSource.JavaScript.Script
import LingoSource.Proofs.Layout.Lines

set_option autoImplicit false

namespace LingoSource

namespace JavaScript

variable {w : Writer}

def statementText (scope : Scope) (frame : Frame) (node : Node) : String :=
  finish (text scope frame node)

def functionLines (scope : Scope) (keyword : String) (frame : Frame) (f : Function) : List String :=
  let inner := frame.deeper
  frame.line (keyword ++ functionName f.name ++ "(" ++ commas f.parameterNames ++ ") \x7b") ::
    (f.localNames.map (fun name => inner.line ("var " ++ name ++ ";")) ++
      (if f.localNames.isEmpty then [] else ["\n"]) ++
      f.body.map (fun s => inner.line (statementText scope inner s.node)) ++ [frame.line "\x7d"])

def functionsLines (scope : Scope) (keyword : String) (frame : Frame) (functions : List Function) :
    List String :=
  ((functions.map (functionLines scope keyword frame)).intersperse ["\n"]).flatten

def factoryLines (scope : Scope) (factory : String) (frame : Frame) (functions : List Function) :
    List String :=
  frame.line ("class Factory__" ++ factory ++ " extends FactoryBase \x7b") ::
    functionsLines scope "" frame.deeper functions ++
    [frame.line "\x7d", "\n", frame.line ("function " ++ factory ++ "(methodName, ...args) \x7b"),
      frame.deeper.line ("return factoryCall('" ++ factory ++ "', methodName, args);"),
      frame.line "\x7d"]

def scriptLines (frame : Frame) (s : Script) : List String :=
  let scope := Scope.ofScript s
  match s.factory with
  | some factory => factoryLines scope factory frame s.functions
  | none => functionsLines scope "function " frame s.functions

theorem writeStatements_eq (scope : Scope) (h : w.atLineStart = true) (statements : List Statement) :
    statements.foldl (fun w s => writeStatement scope w s.node) w =
      w.append (statements.map fun s => w.frame.line (statementText scope w.frame s.node)) := by
  have hlines := Writer.foldl_writeLine_eq (fun frame s => statementText scope frame s.node) h
    statements
  simpa only [writeStatement, statementText] using hlines

theorem writeFunction_eq (scope : Scope) (keyword : String) (h : w.atLineStart = true)
    (f : Function) :
    writeFunction scope keyword w f = w.append (functionLines scope keyword w.frame f) := by
  have hinner : ∀ lines, (w.indent.append lines).atLineStart = true := fun _ => h
  have houter : ∀ lines, (w.append lines).atLineStart = true := fun _ => h
  have hframe : w.indent.frame = w.frame.deeper := rfl
  unfold writeFunction
  dsimp only
  rw [Writer.writeLine_eq h, Writer.indent_append, Writer.writeLines_eq (hinner _),
    Writer.append_append, Writer.endLine_unless_eq (hinner _), Writer.append_append,
    writeStatements_eq scope (hinner _), Writer.append_append, Writer.unindent_append,
    Writer.writeLine_eq (houter _), Writer.append_append]
  simp [functionLines, hframe, Function.comp_def]

theorem writeFunctions_eq (scope : Scope) (keyword : String) (h : w.atLineStart = true)
    (functions : List Function) :
    w.writeSeparated (writeFunction scope keyword) functions =
      w.append (functionsLines scope keyword w.frame functions) :=
  Writer.writeSeparated_eq (fun _ f hw => writeFunction_eq scope keyword hw f) h functions

theorem writeFactory_eq (scope : Scope) (factory : String) (h : w.atLineStart = true) (s : Script) :
    writeFactory scope factory w s = w.append (factoryLines scope factory w.frame s.functions) := by
  have hinner : ∀ lines, (w.indent.append lines).atLineStart = true := fun _ => h
  have houter : ∀ lines, (w.append lines).atLineStart = true := fun _ => h
  have hframe : w.indent.frame = w.frame.deeper := rfl
  unfold writeFactory
  dsimp only
  rw [Writer.writeLine_eq h, Writer.indent_append, writeFunctions_eq scope "" (hinner _),
    Writer.append_append, Writer.unindent_append, Writer.writeLine_eq (houter _),
    Writer.append_append, Writer.endLine_eq (houter _), Writer.append_append,
    Writer.writeLine_eq (houter _), Writer.append_append, Writer.indent_append,
    Writer.writeLine_eq (hinner _), Writer.append_append, Writer.unindent_append,
    Writer.writeLine_eq (houter _), Writer.append_append]
  simp [factoryLines, hframe]

theorem writeScript_eq (h : w.atLineStart = true) (s : Script) :
    writeScript w s = w.append (scriptLines w.frame s) := by
  unfold writeScript scriptLines
  cases s.factory with
  | some factory => exact writeFactory_eq _ factory h s
  | none => exact writeFunctions_eq _ _ h s.functions

theorem javaScript_eq (s : Script) (unit : String) :
    s.javaScript unit = String.join (scriptLines ⟨unit, 0⟩ s) := by
  have hframe : (Writer.ofUnit unit).frame = ⟨unit, 0⟩ := rfl
  rw [Script.javaScript, writeScript_eq rfl, hframe]
  simp [Writer.append, Writer.ofUnit]

end JavaScript

end LingoSource
