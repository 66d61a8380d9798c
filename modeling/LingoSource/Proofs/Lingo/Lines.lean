import Mathlib.Data.List.Count
import LingoSource.Lingo.Script
import LingoSource.Proofs.Layout.Lines

set_option autoImplicit false

namespace LingoSource

namespace Lingo

variable {w : Writer}

def signature (f : Function) : String :=
  "on " ++ f.name ++ (if f.parameterNames.isEmpty then "" else " " ++ commas f.parameterNames)

def declarationLines (scriptGlobals : List String) (frame : Frame) (f : Function) : List String :=
  (ownGlobals f scriptGlobals).map fun name => frame.line ("global " ++ name)

def functionLines (scriptGlobals : List String) (frame : Frame) (f : Function) : List String :=
  let inner := frame.deeper
  frame.line (signature f) :: (declarationLines scriptGlobals inner f ++
    (if (ownGlobals f scriptGlobals).isEmpty then [] else ["\n"]) ++
    f.body.map (fun s => inner.line (text (.statement inner) s.node)) ++ [frame.line "end"])

def headerLines (frame : Frame) (s : Script) : List String :=
  (if s.properties.isEmpty then [] else [frame.line ("property " ++ commas s.properties)]) ++
    s.globals.map (fun name => frame.line ("global " ++ name)) ++
    (if s.globals.isEmpty then [] else ["\n"])

theorem writeStatements_eq (h : w.atLineStart = true) (statements : List Statement) :
    statements.foldl (fun w s => writeStatement w s.node) w =
      w.append (statements.map fun s => w.frame.line (text (.statement w.frame) s.node)) := by
  have hlines := Writer.foldl_writeLine_eq (fun frame s => text (.statement frame) s.node) h
    statements
  simpa only [writeStatement] using hlines

theorem writeFunction_eq (scriptGlobals : List String) (h : w.atLineStart = true) (f : Function) :
    writeFunction scriptGlobals w f = w.append (functionLines scriptGlobals w.frame f) := by
  have hinner : ∀ lines, (w.indent.append lines).atLineStart = true := fun _ => h
  have houter : ∀ lines, (w.append lines).atLineStart = true := fun _ => h
  have hframe : w.indent.frame = w.frame.deeper := rfl
  unfold writeFunction
  dsimp only
  rw [Writer.writeLine_eq h, Writer.indent_append, Writer.writeLines_eq (hinner _),
    Writer.append_append, Writer.endLine_unless_eq (hinner _), Writer.append_append,
    writeStatements_eq (hinner _), Writer.append_append, Writer.unindent_append,
    Writer.writeLine_eq (houter _), Writer.append_append]
  simp [functionLines, declarationLines, signature, hframe, Function.comp_def]

theorem lingo_eq (s : Script) (unit : String) :
    s.lingo unit = String.join (headerLines ⟨unit, 0⟩ s ++
      ((s.functions.map (functionLines s.globals ⟨unit, 0⟩)).intersperse ["\n"]).flatten) := by
  have hstart : ∀ lines, ((Writer.ofUnit unit).append lines).atLineStart = true := fun _ => rfl
  have hframe : (Writer.ofUnit unit).frame = ⟨unit, 0⟩ := rfl
  have htext : (Writer.ofUnit unit).text = "" := rfl
  unfold Script.lingo writeScript
  dsimp only
  rw [Writer.writeLine_unless_eq rfl, Writer.writeLines_eq (hstart _), Writer.append_append,
    Writer.endLine_unless_eq (hstart _), Writer.append_append,
    Writer.writeSeparated_eq (fun w f h => writeFunction_eq s.globals h f) (hstart _)]
  simp [Writer.append, hframe, htext, headerLines, Function.comp_def, String.append_assoc]

theorem declaration_injective (frame : Frame) :
    Function.Injective fun name => frame.line ("global " ++ name) := by
  intro a b h
  simpa [Frame.line, String.append_assoc] using h

/-- A line in front of the handlers of a script declares a global and none of a handler's own does, or
exactly one of its own does. -/
def Declares (frame : Frame) (s : Script) (f : Function) (name : String) : Prop :=
  let own := (declarationLines s.globals frame.deeper f).count (frame.deeper.line ("global " ++ name))
  frame.line ("global " ++ name) ∈ headerLines frame s ∧ own = 0 ∨ own = 1

theorem declares_of_mem {f : Function} (h : f.globals.Nodup) (frame : Frame) (s : Script)
    {name : String} (hname : name ∈ f.globals) : Declares frame s f name := by
  have hcount : (declarationLines s.globals frame.deeper f).count
        (frame.deeper.line ("global " ++ name)) =
      (f.globals.filter (· ∉ s.globals)).count name := by
    rw [declarationLines, List.count_map_of_injective _ _ (declaration_injective _)]
    exact (List.mergeSort_perm _ _).count_eq name
  rw [Declares, hcount, List.Nodup.count (h.filter _)]
  by_cases hmem : name ∈ s.globals
  · have hline := List.mem_map_of_mem (f := fun name => frame.line ("global " ++ name)) hmem
    exact .inl ⟨List.mem_append_left _ (List.mem_append_right _ hline), by simp [hmem]⟩
  · exact .inr (by simp [hmem, hname])

end Lingo

end LingoSource
