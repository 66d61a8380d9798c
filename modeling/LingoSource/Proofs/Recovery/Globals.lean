import Mathlib.Data.List.Forall2
import LingoSource.Proofs.Chunk.Image
import LingoSource.Proofs.Instruction.Change
import LingoSource.Proofs.Lingo.Lines
import LingoSource.Proofs.Recovery.Outcome
import LingoSource.Proofs.Tree.Globals

/-!
Which globals a recovered handler declares. Reading or setting a global declares it, and a reference
to a variable is one to a global only if that is declared already. A call that takes one of its
arguments for a global does not declare it, so the globals of a handler are those that it declares and
those that such calls name.
-/
set_option autoImplicit false

namespace LingoSource

open Node

namespace Instruction

variable {i : Instruction} {m m' : Machine} {names : List String}

theorem Change.names_eq (h : i.Change m m') : m'.context.names = m.context.names := by
  induction h with
  | trans _ _ ih ih' => exact ih'.trans ih
  | closeTell h m =>
    simp only [Context.closeTell]
    split <;> rfl
  | _ => rfl

theorem Change.globals_subset (h : i.Change m m') : m.function.globals ⊆ m'.function.globals := by
  induction h with
  | trans _ _ ih ih' => exact List.Subset.trans ih ih'
  | declareGlobal m name =>
    simp only [Function.addGlobal]
    split
    · exact List.Subset.refl _
    · exact List.subset_append_left _ _
  | _ => exact List.Subset.refl _

theorem Change.nodup_globals (h : i.Change m m') (hm : m.function.globals.Nodup) :
    m'.function.globals.Nodup := by
  induction h with
  | trans _ _ ih ih' => exact ih' (ih hm)
  | declareGlobal m name => exact Function.nodup_globals_addGlobal hm
  | _ => exact hm

theorem change_of_run {α : Type} {x : Recovering α} {a : α} (hx : i.Respects x)
    (h : x.run m = .ok a m') : i.Change m m' := by
  have hallows := hx m
  rw [h] at hallows
  cases hallows with
  | ok h => exact h

theorem mem_globals_of_declareGlobal {name : String} {x : Recovering Unit} (hx : i.Respects x)
    (h : (declareGlobal name >>= fun _ => x).run m = .ok () m') : name ∈ m'.function.globals := by
  obtain ⟨_, m₁, hdeclare, hrest⟩ := run_bind_eq_ok h
  cases hdeclare
  exact (change_of_run hx hrest).globals_subset (Function.mem_globals_addGlobal _ _)

theorem Steps.induction {R : Machine → Prop} (hR : ∀ i m m', Change i m m' → R m → R m')
    {instructions : List Instruction} (h : Steps instructions m m') (hm : R m) : R m' := by
  induction instructions generalizing m with
  | nil =>
    cases h
    exact hm
  | cons i rest ih =>
    obtain ⟨m₁, hi, hrest⟩ := h.uncons
    exact ih hrest (hR i m m₁ (change_of_run (respects_step i) hi) hm)

theorem Steps.names_eq {instructions : List Instruction} (h : Steps instructions m m') :
    m'.context.names = m.context.names :=
  h.induction (R := fun m' => m'.context.names = m.context.names)
    (fun _ _ _ hchange hm => hchange.names_eq.trans hm) rfl

theorem Steps.globals_subset {instructions : List Instruction} (h : Steps instructions m m') :
    m.function.globals ⊆ m'.function.globals :=
  h.induction (R := fun m' => m.function.globals ⊆ m'.function.globals)
    (fun _ _ _ hchange hm => List.Subset.trans hm hchange.globals_subset) (List.Subset.refl _)

theorem Steps.nodup_globals {instructions : List Instruction} (h : Steps instructions m m')
    (hm : m.function.globals.Nodup) : m'.function.globals.Nodup :=
  h.induction (fun _ _ _ hchange => hchange.nodup_globals) hm

/-- A step that keeps the declared globals among some names and makes no call by another one names no
global but these. -/
theorem globalsIn_step (hm : m.Within (GlobalsIn names)) (hrun : i.step.run m = .ok () m')
    (hdeclared : m'.function.globals ⊆ names)
    (hcalled : i.opcode = .extGlobalCall → ∀ name, m.context.names[i.operand]? = some name →
      name ∈ names) :
    m'.Within (GlobalsIn names) ∧
      Emission (GlobalsIn names) i.offset m.function.statements m'.function.statements := by
  have hcompound := compound_globalsIn names
  have hword {name : String} (h : name ∈ names) (position : Nat) :
      GlobalsIn names (.leaf .globalVariable name position) := globalsIn_leaf.2 fun _ => h
  cases hglobal : i.namesGlobal with
  | false => exact emits_step_of_words i hcompound hglobal m m' hm hrun
  | true =>
    obtain ⟨offset, opcode, operand⟩ := i
    cases opcode with
    | pushVarRef =>
      obtain ⟨name, m₁, hname, hrest⟩ := run_bind_eq_ok hrun
      obtain ⟨-, rfl⟩ := nameAt_eq_ok hname
      cases hrest
      refine ⟨⟨List.forall_mem_cons.2 ⟨globalsIn_leaf.2 fun hkind => hdeclared ?_, hm.stack⟩,
        hm.parameters, hm.locals⟩, .keep _⟩
      simpa [Function.hasGlobal] using hkind
    | getGlobal | getGlobal2 =>
      obtain ⟨name, m₁, hname, hrest⟩ := run_bind_eq_ok hrun
      obtain ⟨-, rfl⟩ := nameAt_eq_ok hname
      cases hrest
      have hmem := hdeclared (Function.mem_globals_addGlobal _ name)
      exact ((builds_declareGlobal name).bind fun _ _ => builds_push (hword hmem _)).emits _
        m₁ _ hm rfl
    | setGlobal | setGlobal2 =>
      obtain ⟨name, m₁, hname, hrest⟩ := run_bind_eq_ok hrun
      obtain ⟨-, rfl⟩ := nameAt_eq_ok hname
      have hmem := hdeclared (mem_globals_of_declareGlobal (keeps_assign _).respects hrest)
      exact (builds_declareGlobal name).bind_emits (fun _ _ => emits_assign _ (hword hmem _))
        m₁ m' hm hrest
    | extGlobalCall =>
      obtain ⟨name, m₁, hname, hrest⟩ := run_bind_eq_ok hrun
      obtain ⟨_, _, hget, hlook⟩ := run_bind_eq_ok hname
      cases hget
      obtain ⟨hentry, rfl⟩ := lookUp_eq_ok hlook
      exact emits_callGlobal _ hcompound name (hword (hcalled rfl name hentry)) m₁ m' hm hrest
    | _ => cases hglobal

theorem Emission.globals_subset {offset : Nat} {a b : List Statement}
    (h : Emission (GlobalsIn names) offset a b) (ha : Statement.globals a ⊆ names) :
    Statement.globals b ⊆ names := by
  cases h with
  | keep => exact ha
  | emit _ h =>
    have hnode : _ ⊆ names := h.globalsIn
    simpa [Statement.globals] using ⟨ha, hnode⟩
  | closeLoop =>
    have hfilter (p : Statement → Bool) : Statement.globals (a.filter p) ⊆ names :=
      List.Subset.trans (Statement.globals_filter_sublist p a).subset ha
    simpa [Statement.globals, Node.globals, LoopKind.globals] using ⟨hfilter _, hfilter _⟩
  | closeTell =>
    simpa [Statement.globals, Statement.globals_cons, Node.globals] using ha

theorem globals_subset_of_steps {instructions : List Instruction} (hsteps : Steps instructions m m')
    (hm : m.Within (GlobalsIn names)) (hstatements : Statement.globals m.function.statements ⊆ names)
    (hdeclared : m'.function.globals ⊆ names)
    (hcalled : ∀ i ∈ instructions, i.opcode = .extGlobalCall →
      ∀ name, m.context.names[i.operand]? = some name → name ∈ names) :
    Statement.globals m'.function.statements ⊆ names := by
  induction instructions generalizing m with
  | nil =>
    cases hsteps
    exact hstatements
  | cons i rest ih =>
    obtain ⟨m₁, hi, hrest⟩ := hsteps.uncons
    have hchange := change_of_run (respects_step i) hi
    have hdeclared₁ := List.Subset.trans hrest.globals_subset hdeclared
    obtain ⟨hm₁, hemission⟩ := globalsIn_step hm hi hdeclared₁ (hcalled i (by simp))
    refine ih hrest hm₁ (hemission.globals_subset hstatements) fun j hj => ?_
    rw [hchange.names_eq]
    exact hcalled j (by simp [hj])

end Instruction

open Instruction

namespace Handler

/-- The names by which calls of a handler take an argument for a global. -/
def calledGlobals (names : List String) (h : Handler) : List String :=
  ((decode h.record.codeOffset h.bytecode).1.filter (·.opcode = .extGlobalCall)).filterMap
    fun i => names[i.operand]?

variable {c c' : Context} {h : Handler} {f : Function}

theorem mem_calledGlobals {names : List String} {i : Instruction}
    (hi : i ∈ (decode h.record.codeOffset h.bytecode).1) (hopcode : i.opcode = .extGlobalCall)
    {name : String} (hname : names[i.operand]? = some name) : name ∈ h.calledGlobals names :=
  List.mem_filterMap.2 ⟨i, List.mem_filter.2 ⟨hi, by simpa using hopcode⟩, hname⟩

theorem globals_of_recover (hok : h.recover c = (.ok f, c')) :
    c'.names = c.names ∧ f.globals.Nodup ∧
      Statement.globals f.statements ⊆ f.globals ++ h.calledGlobals c.names := by
  obtain ⟨m, tree, hsteps, hflow, rfl, rfl⟩ := exists_steps_of_recover hok
  obtain ⟨rfl, -⟩ := Statement.recoverFlow_eq_ok_iff.1 hflow
  refine ⟨hsteps.names_eq, hsteps.nodup_globals (by simp [signature]),
    Statement.globals_structured_subset (globals_subset_of_steps hsteps
      (within_signature (compound_globalsIn _) c h) (by simp [signature, Statement.globals])
      (List.subset_append_left _ _) fun i hi hopcode name hname => ?_)⟩
  exact List.mem_append_right _ (mem_calledGlobals hi hopcode hname)

theorem globals_of_recoverAll {handlers : List Handler} {functions : List Function}
    (hall : recoverAll c handlers = (functions, none)) :
    List.Forall₂ (fun h f => f.globals.Nodup ∧
      Statement.globals f.statements ⊆ f.globals ++ h.calledGlobals c.names) handlers functions := by
  induction handlers generalizing c functions with
  | nil =>
    cases hall
    exact .nil
  | cons h rest ih =>
    rw [recoverAll] at hall
    split at hall
    · cases hall
    · rename_i f c' hrecover
      rcases hrest : recoverAll c' rest with ⟨functions', stop⟩
      rw [hrest] at hall
      cases hall
      obtain ⟨hnames, hnodup, hglobals⟩ := globals_of_recover hrecover
      exact .cons ⟨hnodup, hglobals⟩ (hnames ▸ ih hrest)

end Handler

/-- A recovered handler has no global twice, and each of them is declared in the text, by the script
or by exactly one line of its own. Its statements name no others, up to those that it calls by name.
-/
theorem Script.declares_globals {names script : Bytes} {s : Script}
    (hok : Script.ofBytes names script = .ok s) :
    ∃ table chunk, NameTable.read names = .ok table ∧ ScriptChunk.read script = .ok chunk ∧
      List.Forall₂ (fun h f => f.globals.Nodup ∧
          (∀ name ∈ Statement.globals f.statements,
            name ∈ f.globals ∨ name ∈ Handler.calledGlobals table.names h) ∧
          ∀ name ∈ f.globals, ∀ frame, Lingo.Declares frame s f name)
        chunk.handlers s.functions ∧
      ∀ unit, s.lingo unit = String.join (Lingo.headerLines ⟨unit, 0⟩ s ++
        ((s.functions.map (Lingo.functionLines s.globals ⟨unit, 0⟩)).intersperse ["\n"]).flatten) := by
  obtain ⟨table, chunk, htable, hchunk, hall⟩ := Script.exists_chunk_of_ofBytes hok
  refine ⟨table, chunk, htable, hchunk, (Handler.globals_of_recoverAll hall).imp fun h f hf =>
    ⟨hf.1, fun name hname => ?_, fun name hname frame => Lingo.declares_of_mem hf.1 frame s hname⟩,
    Lingo.lingo_eq s⟩
  exact List.mem_append.1 (hf.2 hname)

/-- Two handlers with a global of one name: the first calls it, the second reads and sets it. -/
def calling : ScriptImage :=
  let handler (nameId : Int16) (locals : List Int16) (bytecode : List UInt8) : HandlerImage :=
    { nameId, locals, bytecode, parameters := [], mark := .replicate _ 0, trailer := .replicate _ 0 }
  { scriptType := 2, globalCount := 0, properties := [], globals := [], constants := [], wide := false
    handlers :=
      [handler 0 [1] [0x45, 2, 0x41, 7, 0x43, 2, 0x46, 3, 0x58, 2, 0x52, 0, 0x01],
        handler 0 [] [0x49, 2, 0x4f, 2, 0x01]]
    word := .replicate _ 0, words := .replicate _ 0
    marks := (.replicate _ 0, .replicate _ 0, .replicate _ 0), trailer := .replicate _ 0 }

def callingNames : Bytes :=
  #[0, 0, 0, 0, 0, 0, 0, 0, 0, 0, 0, 38, 0, 0, 0, 38, 0, 20, 0, 4,
    1, 104, 1, 120, 5, 103, 76, 105, 115, 116, 7, 102, 105, 110, 100, 80, 111, 115]

theorem Script.declares_globals_calling :
    ∃ s, Script.ofBytes callingNames calling.bytes = .ok s ∧
      s.functions.map (fun f => (f.globals, Statement.globals f.statements)) =
        [([], ["gList"]), (["gList"], ["gList", "gList"])] ∧
      ∀ f ∈ s.functions, ∀ name ∈ f.globals, Lingo.Declares .plain s f name := by
  have hfunctions : (Script.ofBytes callingNames calling.bytes).map (fun s =>
        s.functions.map fun f => (f.globals, Statement.globals f.statements)) =
      .ok [([], ["gList"]), (["gList"], ["gList", "gList"])] := by decide +kernel
  cases hok : Script.ofBytes callingNames calling.bytes with
  | error e => rw [hok] at hfunctions; cases hfunctions
  | ok s =>
    rw [hok] at hfunctions
    obtain ⟨table, chunk, -, -, hall, -⟩ := Script.declares_globals hok
    have hdeclares := hall.flip.imp (S := fun f h => (∀ name ∈ f.globals,
      Lingo.Declares .plain s f name) ∧ True)
      fun f h hf => ⟨fun name hname => hf.2.2 name hname _, trivial⟩
    exact ⟨s, rfl, Except.ok.inj hfunctions, ((List.forall₂_and_left _ _).1 hdeclares).1⟩

end LingoSource
