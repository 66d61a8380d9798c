import LingoSource.Layout.Frame

/-!
A text under construction. Indentation is put in front of the first text that a line gets, so a line
that gets none stays empty.
-/
set_option autoImplicit false

namespace LingoSource

structure Writer where
  frame : Frame := .plain
  text : String := ""
  atLineStart : Bool := true
  deriving DecidableEq, Repr

namespace Writer

def ofUnit (unit : String) : Writer :=
  { frame := ⟨unit, 0⟩ }

def ofWidth (width : Nat) : Writer :=
  ofUnit (String.ofList (List.replicate width ' '))

def nested (w : Writer) : Writer :=
  { w with text := "", atLineStart := false }

def indent (w : Writer) : Writer :=
  { w with frame := w.frame.deeper }

def unindent (w : Writer) : Writer :=
  { w with frame := w.frame.shallower }

def write (w : Writer) (text : String) : Writer :=
  if text.isEmpty then w
  else if w.atLineStart then
    { w with text := w.text ++ w.frame.indentation ++ text, atLineStart := false }
  else
    { w with text := w.text ++ text }

def endLine (w : Writer) : Writer :=
  { w with text := w.text ++ "\n", atLineStart := true }

def writeLine (w : Writer) (text : String) : Writer :=
  (w.write text).endLine

def writeLines (w : Writer) (texts : List String) : Writer :=
  texts.foldl writeLine w

def writeSeparated {α : Type} (w : Writer) (write : Writer → α → Writer) : List α → Writer
  | [] => w
  | a :: rest => rest.foldl (fun w a => write w.endLine a) (write w a)

end Writer

end LingoSource
