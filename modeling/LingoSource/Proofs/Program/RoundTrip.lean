import LingoSource.Proofs.Program.Outcome
import LingoSource.Proofs.Program.Run
import LingoSource.Proofs.Recovery.Outcome

set_option autoImplicit false

namespace LingoSource

open Statement Block

def exitStatement (offset : Nat) : Statement :=
  ⟨offset, .call offset "exit" .argListNoRet [] false⟩

theorem Function.body_concat (f : Function) {statements : List Statement} {offset : Nat}
    (h : f.statements = statements ++ [exitStatement offset]) : f.body = statements := by
  simp [Function.body, h, exitStatement, Node.isCallNamed]

namespace Handler

def scope (c : Context) (h : Handler) : Scope := (h.start c).scope

theorem scope_named (c : Context) (h : Handler) : (h.scope c).Named := by
  intro v hv
  obtain ⟨x, -, rfl⟩ := List.mem_map.1 (show v ∈ h.locals.map _ from hv)
  rfl

structure Compiles (c : Context) (h : Handler) (program : List Block) : Prop where
  bytecode_eq : h.bytecode =
    Operation.assemble (codeAll c.scale 0 program ++ [⟨.exit, 0⟩])
  fits : ∀ op ∈ codeAll c.scale 0 program, op.Fits
  declared : DeclaredAll (h.scope c) program
  wellFormed : WellFormedAll false program

def emitted (c : Context) (h : Handler) (program : List Block) : List Statement :=
  let behind := h.record.codeOffset + sizeAll program
  rawAll (h.scope c) behind {} 0 h.record.codeOffset program ++ [exitStatement behind]

variable {c : Context} {h : Handler} {program : List Block}

theorem runs_exit (m : Machine) (offset : Nat) :
    m.Runs offset [⟨.exit, 0⟩] [exitStatement offset] :=
  ⟨_, .one rfl, ⟨m.function.globals, rfl⟩⟩

theorem Compiles.run_eq (hc : h.Compiles c program) (hs : 0 < c.scale) :
    ∃ globals, (Instruction.run h.record.codeOffset h.bytecode).run (h.start c) =
      .ok () { context := c.resetTells, function := { h.signature c with
        globals, statements := h.emitted c program } } := by
  have hcode := emittedAll program (h.start c) h.record.codeOffset 0 hs hc.declared below_nil
  obtain ⟨_, hsteps, globals, rfl⟩ := hcode.append (h.record.codeOffset + sizeAll program)
    (by rw [sizeAll_codeAll]) fun m _ => runs_exit m _
  refine ⟨globals, ?_⟩
  rw [hc.bytecode_eq]
  refine Instruction.run_assemble (fun op hop => ?_) _ hsteps
  rcases List.mem_append.1 hop with hop | hop
  · exact hc.fits op hop
  · rw [List.mem_singleton.1 hop]
    exact Operation.fits_none rfl

theorem Compiles.recover_eq (hc : h.Compiles c program) (hs : 0 < c.scale) :
    ∃ globals, h.recover c =
      ((recoverFlow (h.emitted c program)).map fun statements =>
        { h.signature c with globals, statements }, c.resetTells) := by
  obtain ⟨globals, hrun⟩ := hc.run_eq hs
  refine ⟨globals, ?_⟩
  unfold Handler.recover
  rw [Handler.start] at hrun
  simp only [hrun]
  cases recoverFlow (h.emitted c program) <;> rfl

/-- Recovery goes once through a program, and the `exit` behind it stays. -/
theorem structured_emitted (hc : h.Compiles c program) :
    ∃ result, structured (h.emitted c program) =
        result ++ [exitStatement (h.record.codeOffset + sizeAll program)] ∧
      Outcome (madeAll false 0 1 1 program) result (treeAll (h.scope c) program) := by
  generalize hbehind : h.record.codeOffset + sizeAll program = behind
  have region : Region none false behind (behind + 1) :=
    ⟨fun _ _ => rfl, fun hloop => Bool.noConfusion hloop, fun hloop => Bool.noConfusion hloop⟩
  have hexit : Tail (h.record.codeOffset + sizeAll program) (behind + 1) [exitStatement behind] :=
    .singleton (Nat.le_of_eq hbehind) (Nat.lt_succ_self _) trivial
  have hrecover := (treats program).recover_rawAll region (h.scope c) {} 0 h.record.codeOffset
    hc.wellFormed (by omega) hexit
  have hout := outcome_stateAll (scope_named c h) region.leaves {} 0 1 1 1 h.record.codeOffset rfl
    Nat.one_pos program hc.wellFormed hc.declared
  have hend : finish none [exitStatement behind] = [exitStatement behind] := by
    rw [finish, Loop.recover_singleton]
    rfl
  refine ⟨_, ?_, hout⟩
  rw [structured_eq, emitted, hbehind, hrecover, finish_append, hend]
  simpa using Loop.apart_of_not_loop (by simp [exitStatement])

theorem Compiles.recoverFlow_of_made (hc : h.Compiles c program)
    (hmade : madeAll false 0 1 1 program = true) :
    ∃ result offset, recoverFlow (h.emitted c program) = .ok (result ++ [exitStatement offset]) ∧
      forgetAll result = treeAll (h.scope c) program := by
  obtain ⟨result, hresult, hout⟩ := structured_emitted hc
  obtain ⟨hjump, htree⟩ := hout.of_made hmade
  refine ⟨result, h.record.codeOffset + sizeAll program, ?_, htree⟩
  have hnone : Exit.firstJump? (structured (h.emitted c program)) = none := by
    rw [hresult, Exit.firstJump?_append, hjump]
    rfl
  simp only [recoverFlow, Exit.check, hnone]
  rw [hresult]
  rfl

theorem Compiles.recoverFlow_of_not_made (hc : h.Compiles c program)
    (hmade : madeAll false 0 1 1 program = false) :
    ∃ position address,
      recoverFlow (h.emitted c program) = .error (.unresolvedJump position address) := by
  obtain ⟨result, hresult, hout⟩ := structured_emitted hc
  obtain ⟨⟨position, address⟩, hjump⟩ := Option.isSome_iff_exists.1 (hout.of_not_made hmade)
  refine ⟨position, address, ?_⟩
  have hsome : Exit.firstJump? (structured (h.emitted c program)) = some (position, address) := by
    rw [hresult, Exit.firstJump?_append, hjump]
    rfl
  simp only [recoverFlow, Exit.check, hsome]
  rfl

/-- A handler that was compiled from a program is recovered to the tree of the program exactly when
all of its branches are made; otherwise a jump is left and recovery fails. -/
theorem recover_compiled (hc : h.Compiles c program) (hs : 0 < c.scale) :
    (madeAll false 0 1 1 program = true ∧ ∃ f, (h.recover c).1 = .ok f ∧
        forgetAll f.body = treeAll (h.scope c) program) ∨
      (madeAll false 0 1 1 program = false ∧ ∃ position address,
        (h.recover c).1 = .error (.unresolvedJump position address)) := by
  obtain ⟨globals, hrecover⟩ := hc.recover_eq hs
  rw [hrecover]
  cases hmade : madeAll false 0 1 1 program with
  | true =>
    obtain ⟨result, offset, hflow, htree⟩ := hc.recoverFlow_of_made hmade
    refine .inl ⟨rfl, { h.signature c with globals, statements := result ++ [exitStatement offset] },
      by rw [hflow]; rfl, ?_⟩
    rw [Function.body_concat _ rfl, htree]
  | false =>
    obtain ⟨position, address, hflow⟩ := hc.recoverFlow_of_not_made hmade
    exact .inr ⟨rfl, position, address, by rw [hflow]; rfl⟩

def leaving : List Block :=
  [whileLess 0 5 [ifThen (.byte 1) [exitLoop], ifThen (.byte 2) [call 0]]]

def leavingHandler : Handler where
  record := ⟨2, sizeAll leaving + 1, 136, 0, 134, 1, 134, 134⟩
  parameters := []
  locals := [⟨1, 134⟩]
  bytecode := Operation.assemble (codeAll 6 0 leaving ++ [⟨.exit, 0⟩])

/-- The scan takes the exit for a jump over a second part, and the branch behind it is not made. -/
theorem recover_leaving :
    ∃ position address, (leavingHandler.recover (.create ["beep", "x", "run"] [] 6)).1 =
      .error (.unresolvedJump position address) := by
  have hc : leavingHandler.Compiles (.create ["beep", "x", "run"] [] 6) leaving :=
    { bytecode_eq := rfl
      fits := by decide
      declared := by simp only [leaving, DeclaredAll, Declared, and_true]; decide
      wellFormed := by simp [leaving, WellFormedAll, WellFormed] }
  rcases recover_compiled hc (by decide) with ⟨hmade, -⟩ | ⟨-, hfails⟩
  · exact absurd hmade (by decide)
  · exact hfails

-- inside a branch the loop is visited twice, and the second time finds the branch behind the exit
example : madeAll false 0 1 1 [ifThen .zero leaving] = true := by decide

theorem recoverAll_compiled (hs : 0 < c.scale) (htells : c.resetTells = c) {handlers : List Handler}
    {programs : List (List Block)} (hcompiles : List.Forall₂ (Compiles c) handlers programs)
    (hexits : ∀ program ∈ programs, ExitFreeAll program) :
    ∃ functions, recoverAll c handlers = (functions, none) ∧
      functions.map (fun f => forgetAll f.body) =
        List.zipWith (fun h program => treeAll (h.scope c) program) handlers programs := by
  induction hcompiles with
  | nil => exact ⟨[], rfl, rfl⟩
  | @cons h program handlers programs hc _ ih =>
    obtain ⟨functions, hall, htrees⟩ := ih fun p hp => hexits p (by simp [hp])
    have hmade := madeAll_of_exitFreeAll false 0 1 Nat.one_pos program (hexits program (by simp))
    obtain ⟨globals, hrecover⟩ := hc.recover_eq hs
    obtain ⟨result, offset, hflow, htree⟩ := hc.recoverFlow_of_made hmade
    rw [hflow, htells] at hrecover
    refine ⟨{ h.signature c with globals, statements := result ++ [exitStatement offset] } ::
      functions, ?_, ?_⟩
    · simp [recoverAll, hrecover, hall, Except.map]
    · rw [List.map_cons, List.zipWith_cons_cons, htrees, Function.body_concat _ rfl, htree]

end Handler

theorem ScriptChunk.scale_context_pos (chunk : ScriptChunk) (table : NameTable) :
    0 < (chunk.context table).scale :=
  Nat.lt_of_lt_of_le Nat.one_pos (Nat.le_max_right _ _)

/-- A script whose handlers were compiled from programs without exits from loops is recovered to the
trees of the programs. -/
theorem Script.ofBytes_compiled {names script : Bytes} {table : NameTable} {chunk : ScriptChunk}
    (hnames : NameTable.read names = .ok table) (hscript : ScriptChunk.read script = .ok chunk)
    {programs : List (List Block)}
    (hcompiles : List.Forall₂ (Handler.Compiles (chunk.context table)) chunk.handlers programs)
    (hexits : ∀ program ∈ programs, ExitFreeAll program) :
    ∃ result, Script.ofBytes names script = .ok result ∧
      result.functions.map (fun f => forgetAll f.body) =
        List.zipWith (fun h program => treeAll (h.scope (chunk.context table)) program)
          chunk.handlers programs := by
  obtain ⟨functions, hall, htrees⟩ := Handler.recoverAll_compiled (chunk.scale_context_pos table) rfl
    hcompiles hexits
  refine ⟨{ properties := (chunk.context table).properties
            globals := chunk.globalIds.map (chunk.context table).resolveName
            functions }, ?_, htrees⟩
  have hrecover : chunk.recover table = .ok
      { properties := (chunk.context table).properties
        globals := chunk.globalIds.map (chunk.context table).resolveName
        functions } := by
    simp only [ScriptChunk.recover, ScriptChunk.recoverHandlers, hall]
  simp only [Script.ofBytes, hnames, hscript, Except.mapError]
  exact hrecover

def nested : List Block :=
  [ifElse (.byte 1) [call 0]
    [tell 2 [whileLess 0 5 [counted 1 1 3 false [ifThen .zero [call 0]]]]]]

def nestedNames : Bytes :=
  #[0, 0, 0, 0, 0, 0, 0, 0, 0, 0, 0, 39, 0, 0, 0, 39, 0, 20, 0, 5,
    4, 98, 101, 101, 112, 3, 114, 117, 110, 5, 115, 116, 97, 103, 101, 1, 120, 1, 105]

def nestedScript : Bytes :=
  let bytes : List UInt8 :=
    [0, 0, 0, 2, 0, 0, 0, 0, 0, 0, 0, 194, 0, 0, 0, 194] ++ List.replicate 48 0 ++
    [0, 92, 0, 0, 0, 0, 0, 92, 0, 1, 0, 0, 0, 92, 0, 0, 0, 0, 0, 194, 0, 0, 0, 0, 0, 0, 0, 194] ++
    [0, 1, 0, 0, 0, 0, 0, 56, 0, 0, 0, 138, 0, 0, 0, 0, 0, 134, 0, 2, 0, 0, 0, 134] ++
    List.replicate 18 0 ++ [0, 3, 0, 4] ++
    [65, 1, 149, 0, 10, 66, 0, 87, 0, 147, 0, 46, 73, 2, 28, 76, 0, 65, 5, 12, 149, 0, 34, 65, 1, 82,
      6, 76, 6, 65, 3, 17, 149, 0, 20, 3, 149, 0, 7, 66, 0, 87, 0, 65, 255, 76, 6, 5, 82, 6, 84, 23,
      84, 37, 29, 1]
  bytes.toArray

def nestedChunk : ScriptChunk where
  header := ⟨2, 92, 0, 92, 1, 92, 0, 194, 194⟩
  literals := []
  constantWidth := 6
  propertyIds := []
  globalIds := []
  handlers := [{
    record := ⟨1, 56, 138, 0, 134, 2, 134, 134⟩
    parameters := []
    locals := [⟨3, 134⟩, ⟨4, 136⟩]
    bytecode := Operation.assemble (codeAll 6 0 nested ++ [⟨.exit, 0⟩]) }]

def nestedTree : List Statement :=
  let word (kind : LeafKind) (name : String) : Node := .leaf kind name 0
  let test (op : BinaryOp) (name bound : String) : Node :=
    .binary 0 op (word .localVariable name) (word .constant bound)
  let beep : Statement := ⟨0, .call 0 "beep" .argListNoRet [] false⟩
  [⟨0, .branch 0 (word .constant "1") [beep]
    [⟨0, .tell 0 (word .globalVariable "stage")
      [⟨0, .loop 0 0 0 .whileTrue (test .lt "x" "5")
        [⟨0, .loop 0 0 0 (.counted "i" (word .constant "1") (word .constant "3") false)
          (test .gtEq "i" "3")
          [⟨0, .branch 0 (word .constant "0") [beep] []⟩]⟩]⟩]⟩]⟩]

theorem Script.ofBytes_nested :
    ∃ result, Script.ofBytes nestedNames nestedScript = .ok result ∧
      result.functions.map (fun f => forgetAll f.body) = [nestedTree] := by
  have hnames : NameTable.read nestedNames = .ok ⟨["beep", "run", "stage", "x", "i"]⟩ := by decide
  have hscript : ScriptChunk.read nestedScript = .ok nestedChunk := by decide +kernel
  have hc : Handler.Compiles (nestedChunk.context ⟨["beep", "run", "stage", "x", "i"]⟩)
      nestedChunk.handlers[0] nested :=
    { bytecode_eq := rfl
      fits := by decide
      declared := by simp only [nested, DeclaredAll, Declared, and_true]; decide
      wellFormed := by simp [nested, WellFormedAll, WellFormed] }
  exact Script.ofBytes_compiled hnames hscript (.cons hc .nil) (by simp [nested, ExitFreeAll, ExitFree])

end LingoSource
