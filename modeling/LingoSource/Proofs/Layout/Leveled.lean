import LingoSource.Proofs.Layout.Lines

set_option autoImplicit false

namespace LingoSource

structure Line where
  level : Nat
  text : String
  deriving DecidableEq, Repr

namespace Line

def written (unit : String) (line : Line) : String :=
  Frame.line ⟨unit, line.level⟩ line.text

def writtenAll (unit : String) (lines : List Line) : String :=
  String.join (lines.map (written unit))

variable {unit : String}

@[simp] theorem writtenAll_nil (unit : String) : writtenAll unit [] = "" := by simp [writtenAll]

@[simp] theorem writtenAll_cons (unit : String) (line : Line) (rest : List Line) :
    writtenAll unit (line :: rest) = written unit line ++ writtenAll unit rest := by
  simp [writtenAll]

@[simp] theorem writtenAll_append (unit : String) (a b : List Line) :
    writtenAll unit (a ++ b) = writtenAll unit a ++ writtenAll unit b := by
  simp [writtenAll]

theorem written_of_ne_empty {text : String} (h : text ≠ "") (level : Nat) :
    written unit ⟨level, text⟩ = Frame.indentation ⟨unit, level⟩ ++ text ++ "\n" := by
  simp [written, Frame.line, h]

theorem written_empty (unit : String) (level : Nat) : written unit ⟨level, ""⟩ = "\n" := by
  simp [written, Frame.line]

section Items

variable {α : Type} {items : List α} {a : α}

theorem writtenAll_flatMap {text : α → String} {leveled : α → List Line}
    (h : ∀ a ∈ items, text a = writtenAll unit (leveled a)) :
    String.join (items.map text) = writtenAll unit (items.flatMap leveled) := by
  induction items with
  | nil => simp
  | cons a rest ih =>
    obtain ⟨ha, hrest⟩ := List.forall_mem_cons.1 h
    rw [List.map_cons, String.join_cons, ha, ih hrest, List.flatMap_cons, writtenAll_append]

theorem writtenAll_separated {lines : α → List String} {leveled : α → List Line}
    (h : ∀ a, String.join (lines a) = writtenAll unit (leveled a)) (level : Nat) (items : List α) :
    String.join ((items.map lines).intersperse ["\n"]).flatten =
      writtenAll unit ((items.map leveled).intersperse [⟨level, ""⟩]).flatten := by
  induction items with
  | nil => simp
  | cons a rest ih =>
    cases rest with
    | nil => simp [h]
    | cons b rest =>
      simp only [List.map_cons, List.intersperse_cons_cons, List.flatten_cons, String.join_append,
        writtenAll_append] at ih ⊢
      rw [ih, h]
      simp [written_empty]

theorem infix_flatMap (h : a ∈ items) (leveled : α → List Line) :
    leveled a <:+: items.flatMap leveled :=
  List.infix_of_mem_flatten (List.mem_map_of_mem h)

theorem infix_separated (h : a ∈ items) (leveled : α → List Line) (separator : List Line) :
    leveled a <:+: ((items.map leveled).intersperse separator).flatten := by
  refine List.infix_of_mem_flatten ?_
  induction items with
  | nil => cases h
  | cons b rest ih =>
    cases rest with
    | nil =>
      obtain rfl := List.mem_singleton.1 h
      simp
    | cons c rest =>
      rw [List.map_cons, List.map_cons, List.intersperse_cons_cons]
      rcases List.mem_cons.1 h with rfl | h
      · exact List.mem_cons_self ..
      · exact List.mem_cons_of_mem _ (List.mem_cons_of_mem _ (ih h))

end Items

end Line

end LingoSource
