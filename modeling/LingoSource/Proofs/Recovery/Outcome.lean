import LingoSource.Proofs.Instruction.Emission
import LingoSource.Recovery.Script

set_option autoImplicit false

namespace LingoSource

open Instruction

namespace Handler

def start (c : Context) (h : Handler) : Machine :=
  { context := c.resetTells, function := h.signature c }

variable {c c' : Context} {h : Handler} {f : Function}

theorem within_signature {P : Node → Prop} (hP : Node.Compound P) (c : Context) (h : Handler) :
    Machine.Within P { context := c.resetTells, function := h.signature c } where
  stack := by simp
  parameters := by
    intro node hnode
    obtain ⟨v, -, rfl⟩ := List.mem_map.1 hnode
    exact hP.word (by decide) _ _
  locals := by
    intro node hnode
    obtain ⟨v, -, rfl⟩ := List.mem_map.1 hnode
    exact hP.word (by decide) _ _

theorem exists_steps_of_recover (hok : h.recover c = (.ok f, c')) :
    ∃ m tree, Steps (decode h.record.codeOffset h.bytecode).1
        { context := c.resetTells, function := h.signature c } m ∧
      Statement.recoverFlow m.function.statements = .ok tree ∧
      f = { m.function with statements := tree } ∧ c' = m.context := by
  unfold recover at hok
  dsimp only at hok
  split at hok
  · cases hok
  · rename_i m hrun
    cases hflow : Statement.recoverFlow m.function.statements with
    | error e =>
      rw [hflow] at hok
      cases hok
    | ok tree =>
      rw [hflow] at hok
      cases hok
      exact ⟨m, tree, steps_of_run hrun, hflow, rfl, rfl⟩

theorem recover_eq_of_run {m : Machine} {tree : List Statement}
    (hrun : (run h.record.codeOffset h.bytecode).run (h.start c) = .ok () m)
    (hflow : Statement.recoverFlow m.function.statements = .ok tree) :
    h.recover c = (.ok { m.function with statements := tree }, m.context) := by
  unfold recover
  rw [start] at hrun
  simp only [hrun, hflow]
  rfl

theorem exists_of_recoverAll {handlers : List Handler} (hf : f ∈ (recoverAll c handlers).1) :
    ∃ c₁ c₂, ∃ h ∈ handlers, h.recover c₁ = (.ok f, c₂) := by
  induction handlers generalizing c with
  | nil => simp [recoverAll] at hf
  | cons h rest ih =>
    unfold recoverAll at hf
    split at hf
    · cases hf
    · rename_i f' c' hrecover
      rcases List.mem_cons.1 hf with rfl | hf
      · exact ⟨c, c', h, by simp, hrecover⟩
      · obtain ⟨c₁, c₂, h', hmem, hrecover'⟩ := ih hf
        exact ⟨c₁, c₂, h', by simp [hmem], hrecover'⟩

end Handler

theorem Script.exists_chunk_of_ofBytes {names script : Bytes} {s : Script}
    (hok : Script.ofBytes names script = .ok s) :
    ∃ table chunk, NameTable.read names = .ok table ∧ ScriptChunk.read script = .ok chunk ∧
      Handler.recoverAll (chunk.context table) chunk.handlers = (s.functions, none) := by
  unfold Script.ofBytes at hok
  cases htable : NameTable.read names with
  | error e =>
    rw [htable] at hok
    cases hok
  | ok table =>
    cases hchunk : ScriptChunk.read script with
    | error e =>
      rw [htable, hchunk] at hok
      cases hok
    | ok chunk =>
      rw [htable, hchunk] at hok
      change chunk.recover table = .ok s at hok
      unfold ScriptChunk.recover at hok
      dsimp only at hok
      split at hok
      · cases hok
      · rename_i functions hall
        cases hok
        exact ⟨table, chunk, rfl, rfl, hall⟩

theorem Script.exists_of_ofBytes {names script : Bytes} {s : Script}
    (hok : Script.ofBytes names script = .ok s) {f : Function} (hf : f ∈ s.functions) :
    ∃ c₁ c₂ h, Handler.recover c₁ h = (.ok f, c₂) := by
  obtain ⟨table, chunk, -, -, hall⟩ := Script.exists_chunk_of_ofBytes hok
  have hmem : f ∈ (Handler.recoverAll (chunk.context table) chunk.handlers).1 := by
    rw [hall]
    exact hf
  obtain ⟨c₁, c₂, h, -, hrecover⟩ := Handler.exists_of_recoverAll hmem
  exact ⟨c₁, c₂, h, hrecover⟩

end LingoSource
