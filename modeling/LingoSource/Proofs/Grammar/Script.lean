import LingoSource.Proofs.Grammar.Text
import LingoSource.Proofs.Program.RoundTrip
import LingoSource.Proofs.Recovery.Outcome

set_option autoImplicit false

namespace LingoSource

open Statement

theorem Node.closed_isExpression : Node.Closed Node.IsExpression where
  leaf := .leaf
  unary := .unary
  binary := .binary
  chunk := .chunk
  chunkRange := .chunkRange
  aspect := .aspect
  property := .property
  builtinProperty := .builtinProperty
  menuItemOf := .menuItemOf
  menuItemsOf := .menuItemsOf
  arguments := .arguments
  list := .list
  propertyList := .propertyList
  call := .call
  methodCall := .methodCall
  of_arguments h := by cases h; assumption
  of_list h := by cases h; assumption

theorem Node.Emittable.isStatement {node : Node} (h : node.Emittable Node.IsExpression)
    (inLoop : Bool) : node.IsStatement true inLoop := by
  cases h with
  | call h => exact .expression (.call h)
  | methodCall hobject h => exact .expression (.methodCall hobject h)
  | assign hl hr => exact .assign hl hr
  | put hl hr => exact .put hl hr
  | unary h => exact .expression (.unary h)
  | tell h => exact .tell h (by simp)
  | jump => exact .jump rfl _ _
  | jumpUnless h => exact .jumpUnless rfl h _

namespace Instruction

theorem Emission.grammatical {offset : Nat} {a b : List Statement}
    (h : Emission Node.IsExpression offset a b) (ha : Grammatical true false a) :
    Grammatical true false b := by
  cases h with
  | keep => exact ha
  | emit _ hnode => exact grammatical_append.2 ⟨ha, grammatical_cons.2 ⟨hnode.isStatement _, by simp⟩⟩
  | closeLoop =>
    have hfilter (p : Statement → Bool) : Grammatical true false (a.filter p) :=
      fun s hs => ha s (List.mem_filter.1 hs).1
    exact grammatical_append.2 ⟨hfilter _, grammatical_cons.2
      ⟨.loop .whileTrue (.leaf _ _ _) fun s hs => (hfilter _ s hs).in_loop, by simp⟩⟩
  | closeTell before position origin target body after =>
    simp only [grammatical_append, grammatical_cons, Node.IsStatement.tell_iff] at ha
    obtain ⟨hbefore, ⟨htarget, hbody⟩, hafter⟩ := ha
    simp [hbefore, htarget, hbody, hafter]

end Instruction

open Instruction

namespace Handler

variable {c c' : Context} {h : Handler} {f : Function}

theorem keep_of_steps {instructions : List Instruction} {m : Machine}
    (hsteps : Steps instructions (h.start c) m) :
    m.Within Node.IsExpression ∧ Grammatical true false m.function.statements :=
  hsteps.keep Node.closed_isExpression (fun _ _ _ => Emission.grammatical)
    (within_signature Node.closed_isExpression.toCompound c h)
    (by simp [start, signature])

theorem grammatical_of_recover (hok : h.recover c = (.ok f, c')) :
    (∀ node ∈ f.parameters ++ f.locals, node.IsExpression) ∧
      Grammatical false false f.statements := by
  obtain ⟨m, tree, hsteps, hflow, rfl, -⟩ := exists_steps_of_recover hok
  obtain ⟨hm, hstatements⟩ := keep_of_steps hsteps
  exact ⟨List.forall_mem_append.2 ⟨hm.parameters, hm.locals⟩, hstatements.recoverFlow hflow⟩

end Handler

/-- A script that is recovered keeps to the grammar: no jump is left, an exit stands in a loop,
statements are in no expression, and lists are made of arguments. So its texts have nothing of what
they hold ready for other trees; nor has the text of any node on the stack while it is recovered. -/
theorem Script.grammatical_of_ofBytes {names script : Bytes} {s : Script}
    (hok : Script.ofBytes names script = .ok s) :
    (∀ f ∈ s.functions,
      (∀ node ∈ f.parameters ++ f.locals, node.IsExpression) ∧
      Grammatical false false f.statements ∧
      ∀ t ∈ f.statements, ∀ stray frame scope,
        Lingo.textOr stray (.statement frame) t.node = Lingo.text (.statement frame) t.node ∧
        JavaScript.textOr stray scope (some frame) t.node = JavaScript.text scope frame t.node) ∧
    ∀ c h instructions m, Steps instructions (Handler.start c h) m → ∀ node ∈ m.stack,
      node.IsExpression ∧
        ∀ stray, Lingo.textOr stray .expression node = Lingo.expression node := by
  refine ⟨fun f hf => ?_, fun c h instructions m hsteps node hnode => ?_⟩
  · obtain ⟨c₁, c₂, h, hrecover⟩ := Script.exists_of_ofBytes hok hf
    obtain ⟨hwords, hstatements⟩ := Handler.grammatical_of_recover hrecover
    exact ⟨hwords, hstatements, fun t ht stray frame scope =>
      ⟨Lingo.textOr_of_isStatement (hstatements t ht) frame,
        JavaScript.textOr_of_isStatement (hstatements t ht) frame⟩⟩
  · have hexpression := (Handler.keep_of_steps hsteps).1.stack node hnode
    exact ⟨hexpression, fun stray => Lingo.textOr_of_isExpression hexpression _⟩

theorem Script.grammatical_of_ofBytes_nested :
    ∃ s, Script.ofBytes nestedNames nestedScript = .ok s ∧ s.functions.length = 1 ∧
      ∀ f ∈ s.functions, Grammatical false false f.statements := by
  have hlength : ((Script.ofBytes nestedNames nestedScript).map (·.functions.length)).toOption =
      some 1 := by decide +kernel
  cases hok : Script.ofBytes nestedNames nestedScript with
  | error e =>
    rw [hok] at hlength
    cases hlength
  | ok s =>
    rw [hok] at hlength
    exact ⟨s, rfl, Option.some.inj hlength,
      fun f hf => ((Script.grammatical_of_ofBytes hok).1 f hf).2.1⟩

end LingoSource
