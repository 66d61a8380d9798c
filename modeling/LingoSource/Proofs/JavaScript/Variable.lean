import LingoSource.Proofs.Chunk.Image
import LingoSource.Proofs.JavaScript.Blocks
import LingoSource.Proofs.Loop.Variable

set_option autoImplicit false

namespace LingoSource

def LeafKind.isVariable : LeafKind → Bool
  | .localVariable | .parameterName | .globalVariable | .propertyName | .definedPropertyName => true
  | _ => false

def LeafKind.isHandlerVariable : LeafKind → Bool
  | .localVariable | .parameterName => true
  | _ => false

namespace JavaScript

def headerWith (scope : Scope) (variableText : String) (kind : LoopKind) (condition : Node) : String :=
  match kind with
  | .whileTrue => loopHeader scope kind condition
  | .counted _ first last up => loopHeader scope (.counted variableText first last up) condition
  | .each _ list => loopHeader scope (.each variableText list) condition

variable {scope : Scope} {kind : LoopKind}

theorem loopHeader_eq_headerWith {name : String} (h : kind.variableName? = some name)
    (condition : Node) : loopHeader scope kind condition = headerWith scope name kind condition := by
  cases kind <;> cases h <;> rfl

theorem headerWith_inj (hkind : kind ≠ .whileTrue) {a b : String} {condition : Node} :
    headerWith scope a kind condition = headerWith scope b kind condition ↔ a = b := by
  refine ⟨fun h => ?_, fun h => h ▸ rfl⟩
  have hcancel {u v : String} (hlength : a.length = b.length)
      (h : "for(" ++ (a ++ u) = "for(" ++ (b ++ v)) : a = b := by
    have hlist := congrArg String.toList h
    simp only [String.toList_append] at hlist
    have hbehind := List.append_cancel_left hlist
    exact String.toList_inj.1 (List.append_inj_left hbehind (by simpa only [String.length_toList] using hlength))
  cases kind with
  | whileTrue => exact absurd rfl hkind
  | counted name first last up =>
    have hlength := congrArg String.length h
    simp only [headerWith, loopHeader, String.length_append] at hlength
    simp only [headerWith, loopHeader, String.append_assoc] at h
    exact hcancel (by omega) h
  | each name list =>
    have hlength := congrArg String.length h
    simp only [headerWith, loopHeader, String.length_append] at hlength
    simp only [headerWith, loopHeader, String.append_assoc] at h
    exact hcancel (by omega) h

theorem append_ne_right {u name : String} (hu : u ≠ "") : u ++ name ≠ name := by
  intro h
  have hlength := congrArg String.length h
  rw [String.length_append] at hlength
  have hpos : u.length ≠ 0 := fun hzero => hu (by simpa using hzero)
  omega

theorem word_eq_name_iff {kind : LeafKind} (h : kind.isVariable = true) (name : String) :
    word scope kind name = name ↔ kind.isHandlerVariable = true := by
  have howned (owner : String) : owner ++ "." ++ name ≠ name :=
    append_ne_right (by simp)
  cases kind with
  | localVariable | parameterName => exact ⟨fun _ => rfl, fun _ => rfl⟩
  | globalVariable => exact ⟨fun h => absurd h (append_ne_right (by simp)), fun h => by cases h⟩
  | propertyName | definedPropertyName =>
    exact ⟨fun h => absurd h (howned _), fun h => by cases h⟩
  | _ => cases h

theorem text_loop (scope : Scope) (frame : Frame) (origin start stop : Nat) (kind : LoopKind)
    (condition : Node) (body : List Statement) :
    ∃ below, text scope frame (.loop origin start stop kind condition body) =
      loopHeader scope kind condition ++ "\n" ++ below := by
  rw [text_eq rfl, assembled, sections, sectionsText]
  exact ⟨_, String.append_assoc.trans String.append_assoc⟩

/-- Every loop of a recovered script that counts or takes elements got its kind by assignments. Where
such an assignment is to a variable, the header has the bare name of it; that is how the variable itself
is written if and only if it is a local or a parameter. -/
theorem text_loop_eq_headerWith_iff {names script : Bytes} {s : Script}
    (hok : Script.ofBytes names script = .ok s) {f : Function} (hf : f ∈ s.functions) {t : Statement}
    (ht : t ∈ f.statements) {depth origin start stop : Nat} {kind : LoopKind} {condition : Node}
    {body : List Statement}
    (hloop : t.node.StandsIn depth (.loop origin start stop kind condition body))
    (hkind : kind ≠ .whileTrue) :
    ∃ emitted, Statement.recoverFlow emitted = .ok f.statements ∧
      (∃ n, Loop.Became (Condition.recover none emitted) start stop kind n) ∧
      ∀ variableKind name position,
        Loop.Became (Condition.recover none emitted) start stop kind
          (.leaf variableKind name position) →
        variableKind.isVariable = true →
          ∀ scope frame, ∃ below,
            text scope frame (.loop origin start stop kind condition body) =
              headerWith scope name kind condition ++ "\n" ++ below ∧
            (text scope frame (.loop origin start stop kind condition body) =
                headerWith scope (text scope .plain (.leaf variableKind name position)) kind
                  condition ++ "\n" ++ below ↔
              variableKind.isHandlerVariable = true) := by
  obtain ⟨emitted, hflow, hbecame⟩ := Script.exists_became hok hf
  refine ⟨emitted, hflow, hbecame t ht _ _ _ _ _ _ _ hloop hkind,
    fun variableKind name position hvariable hkindOf scope frame => ?_⟩
  obtain ⟨_, _, _, _, _, -, hsets⟩ := hvariable
  have hname : kind.variableName? = some name := hsets.word?_eq.symm
  have hword : word scope variableKind name = name ↔ variableKind.isHandlerVariable = true :=
    word_eq_name_iff hkindOf name
  obtain ⟨below, htext⟩ := text_loop scope frame origin start stop kind condition body
  rw [loopHeader_eq_headerWith hname] at htext
  refine ⟨below, htext, ?_⟩
  rw [htext, String.append_left_inj, String.append_left_inj, headerWith_inj hkind, ← hword, eq_comm]
  rfl

def globalLoop : ScriptImage :=
  { scriptType := 2, globalCount := 0, properties := [], globals := [], constants := [], wide := false
    handlers :=
      [{ nameId := 0, locals := [], parameters := [], mark := .replicate _ 0, trailer := .replicate _ 0
         bytecode :=
          [0x41, 1, 0x4f, 1, 0x49, 1, 0x41, 10, 0x0d, 0x95, 0, 16, 0x42, 0, 0x57, 2, 0x41, 1, 0x49, 1,
            0x05, 0x4f, 1, 0x54, 19, 0x01] }]
    word := .replicate _ 0, words := .replicate _ 0
    marks := (.replicate _ 0, .replicate _ 0, .replicate _ 0), trailer := .replicate _ 0 }

def globalLoopNames : Bytes :=
  #[0, 0, 0, 0, 0, 0, 0, 0, 0, 0, 0, 29, 0, 0, 0, 29, 0, 20, 0, 3,
    1, 104, 1, 103, 4, 98, 101, 101, 112]

def loopParts? (scope : Scope) : Node → Option (Option String × String)
  | .loop _ _ _ kind condition _ => some (kind.variableName?, loopHeader scope kind condition)
  | _ => none

theorem exists_of_loopParts? {node : Node} {parts : Option String × String}
    (h : loopParts? scope node = some parts) :
    ∃ origin start stop kind condition body,
      node = .loop origin start stop kind condition body ∧
        kind.variableName? = parts.1 ∧ loopHeader scope kind condition = parts.2 := by
  cases node with
  | loop origin start stop kind condition body =>
    cases h
    exact ⟨origin, start, stop, kind, condition, body, rfl, rfl, rfl⟩
  | _ => cases h

theorem globalLoop_header :
    ∃ s f t origin start stop kind condition body,
      Script.ofBytes globalLoopNames globalLoop.bytes = .ok s ∧ f ∈ s.functions ∧
        t ∈ f.statements ∧ t.node = .loop origin start stop kind condition body ∧
          loopHeader (.ofScript s) kind condition = "for(g = 1; _global.g <= 10; g++) \x7b" ∧
            ∃ emitted, (∃ n, Loop.Became (Condition.recover none emitted) start stop kind n) ∧
              ∀ name position,
                Loop.Became (Condition.recover none emitted) start stop kind
                  (.leaf .globalVariable name position) →
                ∀ frame below, text (.ofScript s) frame t.node =
                    headerWith (.ofScript s) name kind condition ++ "\n" ++ below →
                  text (.ofScript s) frame t.node ≠ headerWith (.ofScript s)
                    (text (.ofScript s) .plain (.leaf .globalVariable name position)) kind
                      condition ++ "\n" ++ below := by
  have hparts : (Script.ofBytes globalLoopNames globalLoop.bytes).map (fun s =>
        s.functions.map fun f => f.statements.map fun t => loopParts? (.ofScript s) t.node) =
      .ok [[some (some "g", "for(g = 1; _global.g <= 10; g++) \x7b"), none]] := by decide +kernel
  cases hok : Script.ofBytes globalLoopNames globalLoop.bytes with
  | error e => rw [hok] at hparts; cases hparts
  | ok s =>
    rw [hok] at hparts
    obtain ⟨f, hfunctions, hstatements⟩ := List.map_eq_singleton_iff.1 (Except.ok.inj hparts)
    obtain ⟨t, rest, hcons, hloop, -⟩ := List.map_eq_cons_iff.1 hstatements
    obtain ⟨origin, start, stop, kind, condition, body, hnode, hname, hheader⟩ :=
      exists_of_loopParts? hloop
    have hf : f ∈ s.functions := hfunctions ▸ List.mem_singleton_self f
    have ht : t ∈ f.statements := hcons ▸ List.mem_cons_self ..
    obtain ⟨emitted, -, hbecame, htext⟩ := text_loop_eq_headerWith_iff hok hf ht
      (hnode ▸ .self : t.node.StandsIn 0 (.loop origin start stop kind condition body))
      (fun hkind => by rw [hkind] at hname; cases hname)
    refine ⟨s, f, t, origin, start, stop, kind, condition, body, rfl, hf, ht, hnode, hheader, emitted,
      hbecame, fun name position hname frame below hbelow hwritten => ?_⟩
    obtain ⟨rest, hrest, hiff⟩ := htext _ name position hname rfl (.ofScript s) frame
    rw [← hnode, hbelow] at hrest
    obtain rfl : below = rest := by simpa using hrest
    rw [← hnode] at hiff
    cases hiff.1 hwritten

end JavaScript

end LingoSource
