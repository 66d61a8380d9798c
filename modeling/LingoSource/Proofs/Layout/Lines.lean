import LingoSource.Layout.Writer

set_option autoImplicit false

namespace LingoSource

namespace Writer

def append (w : Writer) (lines : List String) : Writer :=
  { w with text := w.text ++ String.join lines }

variable {w : Writer}

@[simp] theorem frame_append (w : Writer) (lines : List String) : (w.append lines).frame = w.frame :=
  rfl

@[simp] theorem append_nil (w : Writer) : w.append [] = w := by simp [append]

@[simp] theorem append_append (w : Writer) (a b : List String) :
    (w.append a).append b = w.append (a ++ b) := by
  simp [append, String.append_assoc]

theorem indent_append (w : Writer) (lines : List String) :
    (w.append lines).indent = w.indent.append lines := rfl

theorem unindent_append (w : Writer) (lines : List String) :
    (w.indent.append lines).unindent = w.append lines := rfl

theorem writeLine_eq (h : w.atLineStart = true) (text : String) :
    w.writeLine text = w.append [w.frame.line text] := by
  unfold writeLine write Frame.line
  split <;> simp_all [endLine, append, String.append_assoc]

theorem endLine_eq (h : w.atLineStart = true) : w.endLine = w.append ["\n"] := by
  simp [endLine, append, h]

theorem endLine_unless_eq (h : w.atLineStart = true) (c : Prop) [Decidable c] :
    (if c then w else w.endLine) = w.append (if c then [] else ["\n"]) := by
  split
  · rw [append_nil]
  · exact endLine_eq h

theorem writeLine_unless_eq (h : w.atLineStart = true) (c : Prop) [Decidable c] (text : String) :
    (if c then w else w.writeLine text) = w.append (if c then [] else [w.frame.line text]) := by
  split
  · rw [append_nil]
  · exact writeLine_eq h text

theorem foldl_writeLine_eq {α : Type} (text : Frame → α → String) (h : w.atLineStart = true)
    (items : List α) :
    items.foldl (fun w a => w.writeLine (text w.frame a)) w =
      w.append (items.map fun a => w.frame.line (text w.frame a)) := by
  induction items generalizing w with
  | nil => simp
  | cons a rest ih =>
    have hrest := ih (w := w.append [w.frame.line (text w.frame a)]) h
    rw [List.foldl_cons, writeLine_eq h, hrest, frame_append, append_append]
    rfl

theorem writeLines_eq (h : w.atLineStart = true) (texts : List String) :
    w.writeLines texts = w.append (texts.map w.frame.line) :=
  foldl_writeLine_eq (fun _ text => text) h texts

theorem writeSeparated_eq {α : Type} {write : Writer → α → Writer} {lines : Frame → α → List String}
    (hwrite : ∀ w a, w.atLineStart = true → write w a = w.append (lines w.frame a))
    (h : w.atLineStart = true) (items : List α) :
    w.writeSeparated write items =
      w.append (((items.map (lines w.frame)).intersperse ["\n"]).flatten) := by
  cases items with
  | nil => simp [writeSeparated]
  | cons a rest =>
    rw [writeSeparated, hwrite w a h]
    induction rest generalizing w a with
    | nil => simp
    | cons b rest ih =>
      have hnext := ih (w := w.append (lines w.frame a ++ ["\n"])) h b
      simp only [frame_append, append_append] at hnext
      have hstart : (w.append (lines w.frame a)).atLineStart = true := h
      rw [List.foldl_cons, endLine_eq hstart, append_append, hwrite (w.append _) b h,
        frame_append, append_append, hnext]
      simp

end Writer

namespace Frame

/-- The text of a statement that takes these lines: every line but the first is indented, and the
last stays open. -/
def joined (f : Frame) (lines : List String) : String :=
  String.intercalate ("\n" ++ f.indentation) lines

def below (f : Frame) (lines : List String) : String :=
  String.join (lines.map fun line => "\n" ++ f.indentation ++ line)

variable {f : Frame}

theorem indentation_deeper (f : Frame) : f.deeper.indentation = f.indentation ++ f.unit := by
  simp [indentation, deeper, List.replicate_succ']

@[simp] theorem below_nil (f : Frame) : f.below [] = "" := by simp [below]

theorem below_cons (f : Frame) (line : String) (rest : List String) :
    f.below (line :: rest) = "\n" ++ f.indentation ++ line ++ f.below rest := by simp [below]

theorem below_append (f : Frame) (a b : List String) : f.below (a ++ b) = f.below a ++ f.below b := by
  simp [below]

theorem joined_cons (f : Frame) (line : String) (rest : List String) :
    f.joined (line :: rest) = line ++ f.below rest := by
  induction rest generalizing line with
  | nil => simp [joined]
  | cons next rest ih =>
    have hnext := ih next
    unfold joined at hnext ⊢
    rw [String.intercalate_cons_cons, hnext, below_cons]
    simp [String.append_assoc]

/-- Lines that get one unit more are the lines of a statement one level further in. -/
theorem below_map_unit (f : Frame) {lines : List String} (h : lines ≠ []) :
    f.below (lines.map (f.unit ++ ·)) = "\n" ++ f.deeper.indentation ++ f.deeper.joined lines := by
  obtain ⟨line, rest, rfl⟩ := List.exists_cons_of_ne_nil h
  rw [joined_cons, List.map_cons, below_cons, indentation_deeper]
  simp [below, indentation_deeper, String.append_assoc, Function.comp_def]

end Frame

end LingoSource
