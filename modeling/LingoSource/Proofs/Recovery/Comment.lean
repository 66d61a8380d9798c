import LingoSource.Proofs.Grammar.Script
import LingoSource.Proofs.Instruction.Lexical
import LingoSource.Proofs.Recovery.Globals

/-!
Which lines of a recovered script have a comment in them. A run keeps to expressions whose names can be
read, and the recovery of control flow puts no others in; a handler leaves the tables of names as they are
for the next one. So a comment in a statement comes from a minus in front of a minus sign, and from nothing
else.
-/
set_option autoImplicit false

namespace LingoSource

open Instruction
open Lingo (Lexical DoublesMinus KeepsComments firstLine)
open Text (Commented isPlain Steady)

theorem Lingo.opens_lexical : Node.Opens Lexical where
  not_iff := ⟨fun h => by cases h; assumption, .unary⟩
  of_binary h := by cases h; assumption
  of_call h := by cases h <;> assumption

namespace Context.Lexical

variable {c : Context}

theorem isPlain_resolveName (h : ∀ name ∈ c.names, isPlain name = true) (id : Int) :
    isPlain (c.resolveName id) = true := by
  unfold resolveName nameOf?
  split
  · cases hentry : c.names[id.toNat]? with
    | none => decide
    | some name => exact h name (List.mem_of_getElem? hentry)
  · decide

theorem resetTells (h : c.Lexical) : c.resetTells.Lexical :=
  ⟨h.names, h.handlerNames, h.constants⟩

end Context.Lexical

namespace Instruction

variable {instructions : List Instruction} {m m' : Machine}

theorem Steps.lexical (hsteps : Steps instructions m m') (hm : m.Lexical) : m'.Lexical := by
  induction instructions generalizing m with
  | nil =>
    cases hsteps
    exact hm
  | cons i rest ih =>
    obtain ⟨m₁, hi, hrest⟩ := hsteps.uncons
    exact ih hrest (upholds_step i m () m₁ hm hi).1

end Instruction

namespace Handler

variable {c c' : Context} {h : Handler} {f : Function}

theorem lexical_start (hc : c.Lexical) (h : Handler) : (h.start c).Lexical := by
  have hword (kind : LeafKind) (id : Int) (position : Nat) :
      Lexical (.leaf kind (c.resolveName id) position) :=
    .word (Text.quiet_of_isPlain (Context.Lexical.isPlain_resolveName hc.names id)).steady
  refine ⟨hc.resetTells, by simp [start], fun node hnode => ?_, fun node hnode => ?_, trivial⟩
  · obtain ⟨v, -, rfl⟩ := List.mem_map.1 hnode
    exact hword _ _ _
  · obtain ⟨v, -, rfl⟩ := List.mem_map.1 hnode
    exact hword _ _ _

theorem operandsIn_of_recover (hc : c.Lexical) (hok : h.recover c = (.ok f, c')) :
    Statement.OperandsIn Lexical f.statements ∧ c'.Lexical := by
  obtain ⟨m, tree, hsteps, hflow, rfl, rfl⟩ := exists_steps_of_recover hok
  have hm := hsteps.lexical (lexical_start hc h)
  exact ⟨Statement.operandsIn_recoverFlow Lingo.opens_lexical hm.statements hflow, hm.context⟩

theorem operandsIn_of_recoverAll {handlers : List Handler} (hc : c.Lexical)
    (hf : f ∈ (recoverAll c handlers).1) : Statement.OperandsIn Lexical f.statements := by
  induction handlers generalizing c with
  | nil => cases hf
  | cons h rest ih =>
    unfold recoverAll at hf
    split at hf
    · cases hf
    · rename_i f' c' hrecover
      obtain ⟨hstatements, hc'⟩ := operandsIn_of_recover hc hrecover
      rcases List.mem_cons.1 hf with rfl | hf
      · exact hstatements
      · exact ih hc' hf

end Handler

theorem ScriptChunk.lexical_context {chunk : ScriptChunk} {table : NameTable}
    (hnames : ∀ name ∈ table.names, isPlain name = true)
    (hstrings : ∀ v, .string v ∈ chunk.literals → '"' ∉ v.toList) :
    (chunk.context table).Lexical where
  names := hnames
  handlerNames := by
    intro name hname
    obtain ⟨h, -, rfl⟩ := List.mem_map.1 hname
    exact Context.Lexical.isPlain_resolveName hnames _
  constants := by
    intro text htext
    obtain ⟨l, hl, rfl⟩ := List.mem_map.1 htext
    exact Literal.steady_source fun v heq => hstrings v (heq ▸ hl)

theorem Function.body_subset (f : Function) : f.body ⊆ f.statements := by
  unfold body
  split
  · split
    · exact List.dropLast_subset _
    · exact List.Subset.refl _
  · exact List.Subset.refl _

/-- A recovered script whose names have neither quotes nor minus signs, and whose strings have no double
quotes, has a comment in a line of a statement only where a minus stands before a minus sign. Every such
statement has one, up to the character that a `repeat while` takes off its condition. -/
theorem Script.commented_firstLine_iff {names script : Bytes} {s : Script}
    (hok : Script.ofBytes names script = .ok s)
    (hnames : ∀ table, NameTable.read names = .ok table → ∀ name ∈ table.names, isPlain name = true)
    (hstrings : ∀ chunk, ScriptChunk.read script = .ok chunk →
      ∀ v, .string v ∈ chunk.literals → '"' ∉ v.toList)
    {f : Function} (hf : f ∈ s.functions) :
    (∀ unit, s.lingo unit = Line.writtenAll unit (Lingo.scriptLayout s)) ∧
    Lingo.layoutAll 1 f.body <:+: Lingo.scriptLayout s ∧
    (∀ line ∈ Lingo.layoutAll 1 f.body, Commented line.text →
      ∃ t ∈ f.body, ∃ depth node, t.node.StandsIn depth node ∧ line = ⟨1 + depth, firstLine node⟩ ∧
        DoublesMinus node) ∧
    ∀ t ∈ f.body, ∀ depth node, t.node.StandsIn depth node →
      ⟨1 + depth, firstLine node⟩ ∈ Lingo.layoutAll 1 f.body ∧
        (KeepsComments node → (Commented (firstLine node) ↔ DoublesMinus node)) := by
  have hstatements : Statement.OperandsIn Lexical f.statements ∧
      Statement.Grammatical false false f.statements := by
    obtain ⟨table, chunk, htable, hchunk, hall⟩ := Script.exists_chunk_of_ofBytes hok
    have hcontext := ScriptChunk.lexical_context (hnames table htable) (hstrings chunk hchunk)
    have hmem : f ∈ (Handler.recoverAll (chunk.context table) chunk.handlers).1 := by
      rw [hall]
      exact hf
    exact ⟨Handler.operandsIn_of_recoverAll hcontext hmem, ((Script.grammatical_of_ofBytes hok).1 f hf).2.1⟩
  obtain ⟨hoperands, hgrammatical⟩ := hstatements
  have hnode {t : Statement} (ht : t ∈ f.body) {depth : Nat} {node : Node}
      (hstands : t.node.StandsIn depth node) :
      node.OperandsIn Lexical ∧ node.isJump = false := by
    have hmem := f.body_subset ht
    obtain ⟨_, hstatement⟩ := (hgrammatical t hmem).exists_of_standsIn hstands
    exact ⟨(Statement.operandsIn_iff.1 hoperands t hmem).standsIn hstands, hstatement.isJump_eq_false⟩
  refine ⟨Lingo.lingo_eq_writtenAll s, Lingo.layoutAll_infix_scriptLayout hf, fun line hline hcommented => ?_,
    fun t ht depth node hstands => ⟨?_, fun hkeeps => ?_⟩⟩
  · rcases Lingo.exists_of_mem_layoutAll f.body hline with ⟨t, ht, depth, node, hstands, rfl⟩ | hclosing
    · obtain ⟨hin, hjump⟩ := hnode ht hstands
      exact ⟨t, ht, depth, node, hstands, rfl,
        Lingo.doublesMinus_of_commented_firstLine hin hjump hcommented⟩
    · exact absurd hcommented (Lingo.not_commented_of_mem_closings hclosing)
  · have hlayout := (Lingo.layout_infix_of_standsIn 1 hstands).trans (Lingo.layout_infix_layoutAll 1 ht)
    exact hlayout.subset (Lingo.firstLine_mem_layout _ node)
  · obtain ⟨hin, hjump⟩ := hnode ht hstands
    exact ⟨Lingo.doublesMinus_of_commented_firstLine hin hjump, Lingo.commented_firstLine hin hjump hkeeps⟩

def negating : ScriptImage :=
  { scriptType := 2, globalCount := 0, properties := [], globals := [], constants := [], wide := false
    handlers :=
      [{ nameId := 0, locals := [1], parameters := [], mark := .replicate _ 0, trailer := .replicate _ 0
         bytecode := [0x41, 0xff, 0x09, 0x52, 0, 0x01] }]
    word := .replicate _ 0, words := .replicate _ 0
    marks := (.replicate _ 0, .replicate _ 0, .replicate _ 0), trailer := .replicate _ 0 }

def negatingNames : Bytes :=
  #[0, 0, 0, 0, 0, 0, 0, 0, 0, 0, 0, 24, 0, 0, 0, 24, 0, 20, 0, 2, 1, 104, 1, 120]

theorem Script.commented_firstLine_negating :
    ∃ s f, Script.ofBytes negatingNames negating.bytes = .ok s ∧ f ∈ s.functions ∧
      Lingo.layoutAll 1 f.body = [⟨1, "set x = --1"⟩] ∧
      ∃ t ∈ f.body, ∃ depth node, t.node.StandsIn depth node ∧ firstLine node = "set x = --1" ∧
        DoublesMinus node := by
  have hlines : (Script.ofBytes negatingNames negating.bytes).map (fun s =>
      s.functions.map fun f => (Lingo.layoutAll 1 f.body).map fun line => (line.level, line.text)) =
        .ok [[(1, "set x = --1")]] := by decide +kernel
  have hnames : (NameTable.read negatingNames).map (·.names) = .ok ["h", "x"] := by decide +kernel
  have hliterals : (ScriptChunk.read negating.bytes).map (fun chunk => chunk.literals.isEmpty) =
      .ok true := by decide +kernel
  cases hok : Script.ofBytes negatingNames negating.bytes with
  | error e => rw [hok] at hlines; cases hlines
  | ok s =>
    rw [hok] at hlines
    obtain ⟨f, hfunctions, hmap⟩ := List.map_eq_singleton_iff.1 (Except.ok.inj hlines)
    obtain ⟨⟨level, text⟩, hlayout, hline⟩ := List.map_eq_singleton_iff.1 hmap
    obtain ⟨rfl, rfl⟩ := Prod.mk.inj hline
    have hf : f ∈ s.functions := hfunctions ▸ List.mem_singleton_self f
    obtain ⟨-, -, hcommented, -⟩ := Script.commented_firstLine_iff hok
      (fun table htable => by
        rw [htable] at hnames
        have htexts : table.names = ["h", "x"] := Except.ok.inj hnames
        rw [htexts]
        decide)
      (fun chunk hchunk v hv => by
        rw [hchunk] at hliterals
        have hnone : chunk.literals = [] := List.isEmpty_iff.1 (Except.ok.inj hliterals)
        rw [hnone] at hv
        cases hv)
      hf
    obtain ⟨t, ht, depth, node, hstands, heq, hdoubles⟩ :=
      hcommented _ (hlayout ▸ List.mem_singleton_self _) (by decide)
    exact ⟨s, f, rfl, hf, hlayout, t, ht, depth, node, hstands, (Line.mk.inj heq).2.symm, hdoubles⟩

end LingoSource
