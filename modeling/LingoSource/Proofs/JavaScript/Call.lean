import LingoSource.Proofs.JavaScript.Header
import LingoSource.Proofs.Text.Case
import LingoSource.Proofs.Text.Search

/-!
The arguments of calls. A call is written with its callee and, in parentheses, the texts of all its
arguments. The one call that loses arguments is a `go`, which looks for its symbol in the text of all
arguments together: where that starts like a symbol, all of it but two bytes becomes part of the callee.
-/
set_option autoImplicit false

namespace LingoSource.JavaScript

open Text

def soleSymbol? : List Node → Option String
  | [.leaf .symbol symbol _] => some symbol
  | _ => none

def goOwner (inTell : Bool) : String :=
  if inTell then "" else "_movie."

/-- The name that a call is written with. Of the arguments it only depends on whether the first one is
written as a symbol, and that only for `new`. -/
def callee (scope : Scope) (name : String) (inTell symbolFirst : Bool) : String :=
  match name with
  | "birth" => "_movie.newScript"
  | "new" => if symbolFirst then "_movie.newMember" else "_movie.newScript"
  | "go" => goOwner inTell ++ "go"
  | "cast" => "member"
  | "continue" => "resume"
  | name => if scope.isMethod name then "this." ++ name else name

/-- A call with all its arguments: those of `return` stand behind the word, and a `go` to nothing but a
symbol is a call by the name of that. -/
def keptText (scope : Scope) (name : String) (args : List Node) (inTell : Bool) : String :=
  let params := commas (argumentTexts name args (texts scope args))
  if name = "return" then if params.isEmpty then "return" else "return " ++ params
  else
    match if name = "go" then soleSymbol? args else none with
    | some symbol => goOwner inTell ++ "go" ++ capitalized symbol ++ "()"
    | none => callee scope name inTell (startsWith params "symbol(") ++ "(" ++ params ++ ")"

end LingoSource.JavaScript

namespace LingoSource

theorem utf8ByteSize_ofList_cons (c : Char) (s : List Char) :
    (String.ofList (c :: s)).utf8ByteSize = c.utf8Size + (String.ofList s).utf8ByteSize := by
  rw [String.ofList_cons, String.utf8ByteSize_append, String.utf8ByteSize_singleton]

theorem utf8ByteSize_ofList_reverse (s : List Char) :
    (String.ofList s.reverse).utf8ByteSize = (String.ofList s).utf8ByteSize := by
  induction s with
  | nil => rfl
  | cons c s ih =>
    rw [List.reverse_cons, String.ofList_append, String.utf8ByteSize_append, ih,
      utf8ByteSize_ofList_cons, utf8ByteSize_ofList_cons c s, String.ofList_nil,
      String.utf8ByteSize_empty, Nat.add_zero, Nat.add_comm]

namespace JavaScript

open Text

theorem dropBytes_eq_some_iff {count : Nat} {s rest : List Char} :
    dropBytes count s = some rest ↔
      ∃ dropped, s = dropped ++ rest ∧ (String.ofList dropped).utf8ByteSize = count := by
  fun_induction dropBytes count s with
  | case1 s =>
    constructor
    · rintro ⟨⟩
      exact ⟨[], rfl, rfl⟩
    · rintro ⟨dropped, rfl, hsize⟩
      rw [String.ofList_eq_empty_iff.1 (String.utf8ByteSize_eq_zero_iff.1 hsize), List.nil_append]
  | case2 count =>
    constructor
    · rintro ⟨⟩
    · rintro ⟨dropped, hnil, hsize⟩
      obtain ⟨rfl, -⟩ := List.append_eq_nil_iff.1 hnil.symm
      cases hsize
  | case3 count c s h ih =>
    rw [ih]
    constructor
    · rintro ⟨dropped, rfl, hsize⟩
      refine ⟨c :: dropped, rfl, ?_⟩
      rw [utf8ByteSize_ofList_cons, hsize, Nat.add_sub_cancel' h]
    · rintro ⟨dropped, heq, hsize⟩
      cases dropped with
      | nil => cases hsize
      | cons d dropped =>
        obtain ⟨rfl, rfl⟩ := List.cons.inj heq
        rw [utf8ByteSize_ofList_cons] at hsize
        exact ⟨dropped, rfl, Nat.eq_sub_of_add_eq' hsize⟩
  | case4 count c s h =>
    constructor
    · rintro ⟨⟩
    · rintro ⟨dropped, heq, hsize⟩
      cases dropped with
      | nil => cases hsize
      | cons d dropped =>
        obtain ⟨rfl, rfl⟩ := List.cons.inj heq
        rw [utf8ByteSize_ofList_cons] at hsize
        omega

/-- A target is found where the text of the arguments starts like a symbol: all that follows but two
bytes. -/
theorem goTarget?_eq_some_iff {params target : String} :
    goTarget? params = some target ↔
      ∃ last : String, params = "symbol('" ++ target ++ last ∧ last.utf8ByteSize = 2 := by
  have hopening : "symbol('".toList.length = 8 := rfl
  unfold goTarget?
  constructor
  · intro h
    split at h
    · rename_i hstarts
      obtain ⟨behind, hbehind⟩ := List.isPrefixOf_iff_prefix.1 hstarts
      obtain ⟨rest, hrest, rfl⟩ := Option.map_eq_some_iff.1 h
      rw [← hbehind, List.drop_left' hopening, dropBytes_eq_some_iff] at hrest
      obtain ⟨dropped, hdropped, hsize⟩ := hrest
      refine ⟨String.ofList dropped.reverse, ?_, ?_⟩
      · rw [← String.toList_inj, ← hbehind, List.reverse_eq_iff.1 hdropped]
        simp
      · rw [utf8ByteSize_ofList_reverse, hsize]
    · cases h
  · rintro ⟨last, rfl, hsize⟩
    have hstarts : startsWith ("symbol('" ++ target ++ last) "symbol('" = true := by
      simp [startsWith, List.isPrefixOf]
    have hdrop : ("symbol('" ++ target ++ last).toList.drop 8 = target.toList ++ last.toList := by
      rw [String.append_assoc, String.toList_append, List.drop_left' hopening, String.toList_append]
    rw [if_pos hstarts, hdrop, List.reverse_append]
    have hdropped : dropBytes 2 (last.toList.reverse ++ target.toList.reverse) =
        some target.toList.reverse := by
      refine dropBytes_eq_some_iff.2 ⟨_, rfl, ?_⟩
      rw [utf8ByteSize_ofList_reverse, String.ofList_toList, hsize]
    simp [hdropped]

variable (scope : Scope) (frame : Frame) (origin : Nat) (kind : ListKind) (args : List Node)
  (inTell : Bool) {name : String}

theorem argumentTexts_go : argumentTexts "go" args (texts scope args) = texts scope args := by
  have hgo : isListFunction "go" = false := by decide +kernel
  unfold argumentTexts
  split
  · rename_i htexts
    rw [htexts, hgo]
    rfl
  · rfl

theorem callText_of_ne (params : String) (hgo : name ≠ "go") (hreturn : name ≠ "return") :
    callText scope name params inTell =
      callee scope name inTell (startsWith params "symbol(") ++ "(" ++ params ++ ")" := by
  unfold callText callee
  split <;> simp_all

theorem callText_go (params : String) (hgo : name = "go") :
    callText scope name params inTell =
      (goTarget? params).elim (goOwner inTell ++ "go" ++ "(" ++ params ++ ")")
        (goOwner inTell ++ "go" ++ capitalized · ++ "()") := by
  unfold callText goOwner
  split
  case h_3 => cases goTarget? params <;> rfl
  all_goals simp_all

theorem callText_return (params : String) (hreturn : name = "return") :
    callText scope name params inTell = if params.isEmpty then "return" else "return " ++ params := by
  unfold callText
  split
  case h_6 => rfl
  all_goals simp_all

theorem callee_go (symbolFirst : Bool) (hgo : name = "go") :
    callee scope name inTell symbolFirst = goOwner inTell ++ "go" := by
  unfold callee
  split <;> simp_all

/-- Capitalizing adds no apostrophe, so what is folded into the callee never reads as the arguments. -/
theorem folded_ne_kept (target last : String) :
    goOwner inTell ++ "go" ++ capitalized target ++ "()" ≠
      goOwner inTell ++ "go" ++ "(" ++ ("symbol('" ++ target ++ last) ++ ")" := by
  intro heq
  have hcount := congrArg (fun text : String => text.toList.count '\'') heq
  have hcapitalized := count_capitalized_le target
  simp only [String.toList_append, List.count_append] at hcount
  have hbehind : "()".toList.count '\'' = 0 := rfl
  have hbefore : "symbol('".toList.count '\'' = 1 := rfl
  omega

variable {args}

theorem eq_of_soleSymbol? {symbol : String} (h : soleSymbol? args = some symbol) :
    ∃ position, args = [.leaf .symbol symbol position] := by
  unfold soleSymbol? at h
  split at h
  · cases h
    exact ⟨_, rfl⟩
  · cases h

/-- Whether the text of all arguments together is taken for a symbol: it starts like one, and two bytes
follow behind what is taken for its name. -/
def Folds (scope : Scope) (args : List Node) : Prop :=
  ∃ target last : String,
    commas (texts scope args) = "symbol('" ++ target ++ last ∧ last.utf8ByteSize = 2

theorem folds_of_soleSymbol? {symbol : String} (h : soleSymbol? args = some symbol) :
    goTarget? (commas (texts scope args)) = some symbol := by
  obtain ⟨position, rfl⟩ := eq_of_soleSymbol? h
  have hsize : "')".utf8ByteSize = 2 := by decide
  have htext : commas (texts scope [.leaf .symbol symbol position]) = "symbol('" ++ symbol ++ "')" :=
    String.intercalate_singleton ..
  exact goTarget?_eq_some_iff.2 ⟨"')", htext, hsize⟩

theorem keptText_go (hgo : name = "go") :
    keptText scope name args inTell =
      (soleSymbol? args).elim (goOwner inTell ++ "go" ++ "(" ++ commas (texts scope args) ++ ")")
        (goOwner inTell ++ "go" ++ capitalized · ++ "()") := by
  have hreturn : name ≠ "return" := by simp [hgo]
  unfold keptText
  rw [if_neg hreturn, if_pos hgo]
  cases soleSymbol? args with
  | some symbol => rfl
  | none =>
    dsimp only [Option.elim]
    rw [callee_go scope inTell _ hgo, hgo, argumentTexts_go]

/-- A call keeps all its arguments, unless it is a `go` that is given anything but one symbol and the
text of its arguments is taken for a symbol. -/
theorem text_call_eq_keptText_iff :
    text scope frame (.call origin name kind args inTell) = keptText scope name args inTell ↔
      ¬ (name = "go" ∧ soleSymbol? args = none ∧ Folds scope args) := by
  change callText scope name (commas (argumentTexts name args (texts scope args))) inTell = _ ↔ _
  by_cases hreturn : name = "return"
  · have hgo : name ≠ "go" := by simp [hreturn]
    rw [callText_return scope inTell _ hreturn, keptText, if_pos hreturn]
    simp [hgo]
  · by_cases hgo : name = "go"
    · rw [keptText_go scope inTell hgo, callText_go scope inTell _ hgo, hgo, argumentTexts_go]
      cases hsole : soleSymbol? args with
      | some symbol => simp [folds_of_soleSymbol? scope hsole]
      | none =>
        cases htarget : goTarget? (commas (texts scope args)) with
        | some target =>
          obtain ⟨last, heq, hsize⟩ := goTarget?_eq_some_iff.1 htarget
          have hfolds : Folds scope args := ⟨target, last, heq, hsize⟩
          have hne := folded_ne_kept inTell target last
          rw [← heq] at hne
          simpa [hfolds] using hne
        | none =>
          have hfolds : ¬ Folds scope args := by
            rintro ⟨target, last, heq⟩
            rw [goTarget?_eq_some_iff.2 ⟨last, heq⟩] at htarget
            cases htarget
          simp [hfolds]
    · simp [callText_of_ne scope inTell _ hgo hreturn, keptText, hgo, hreturn]

end JavaScript

end LingoSource
