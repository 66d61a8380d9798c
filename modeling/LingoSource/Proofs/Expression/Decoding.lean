import LingoSource.Proofs.Expression.Code

set_option autoImplicit false

namespace LingoSource

open Instruction Operation

/-- The second state has these nodes on top of the stack of the first, topmost first; apart from that
only the list of declared globals may differ. -/
def Machine.Pushes (nodes : List Node) (m m' : Machine) : Prop :=
  ∃ globals, m' =
    { m with function := { m.function with globals }, stack := nodes ++ m.stack }

theorem Machine.Pushes.trans {a b : List Node} {m m₁ m₂ : Machine} (ha : m.Pushes a m₁)
    (hb : m₁.Pushes b m₂) : m.Pushes (b ++ a) m₂ := by
  obtain ⟨_, rfl⟩ := ha
  obtain ⟨globals, rfl⟩ := hb
  exact ⟨globals, by simp⟩

theorem Machine.Pushes.scope_eq {nodes : List Node} {m m' : Machine} (h : m.Pushes nodes m') :
    m'.scope = m.scope := by
  obtain ⟨_, rfl⟩ := h
  rfl

namespace Expression

mutual

theorem fits_code {s : Scope} :
    (e : Expression) → e.InRange s → ∀ op ∈ e.code s.scale, op.Fits
  | int8 byte, _ => by simpa [code] using fits_byte rfl byte.toNat_lt
  | int16 word, _ => by simpa [code] using fits_word rfl word.toNat_lt
  | constant _, h | parameter _, h | localVariable _, h => by
    simpa [code] using fits_byte rfl h.2
  | symbol _, h | global _, h | property _, h => by
    simpa [code] using fits_byte rfl h.2
  | unary op e, h => by
    have he := fits_code e h
    have hw : op.opcode.operandWidth = 0 := by cases op <;> rfl
    grind [code, fits_none hw]
  | binary op left right, h => by
    have hl := fits_code left h.1
    have hr := fits_code right h.2
    have hw : op.opcode.operandWidth = 0 := by cases op <;> rfl
    grind [code, fits_none hw]
  | propertyOf name object, h => by
    have ho := fits_code object h.2
    have hn : Fits ⟨.getObjProp, name⟩ := fits_byte rfl h.1.2
    grind [code]
  | list elements, h => by
    have he := fits_codeAll elements h.2
    have hn : Fits ⟨.pushArgList, elements.length⟩ := fits_byte rfl h.1
    have hl : Fits ⟨.pushList, 0⟩ := fits_none rfl
    grind [code]
  | propertyList values, h => by
    have hv := fits_codeAll values h.2.2
    have hn : Fits ⟨.pushArgList, values.length⟩ := fits_byte rfl h.1
    have hl : Fits ⟨.pushPropList, 0⟩ := fits_none rfl
    grind [code]
  | call name args, h => by
    have ha := fits_codeAll args h.2.2
    have hn : Fits ⟨.pushArgList, args.length⟩ := fits_byte rfl h.2.1
    have hc : Fits ⟨.extCall, name⟩ := fits_byte rfl h.1.2
    grind [code]
  | methodCall name args receiver, h => by
    have ha := fits_codeAll args h.2.2.1
    have hr := fits_code receiver h.2.2.2
    have hn : Fits ⟨.pushArgList, args.length + 1⟩ := fits_byte rfl h.2.1
    have hl : Fits ⟨.pushList, 0⟩ := fits_none rfl
    have hc : Fits ⟨.objCall, name⟩ := fits_byte rfl h.1.2
    grind [code]

theorem fits_codeAll {s : Scope} :
    (es : List Expression) → AllInRange s es → ∀ op ∈ codeAll s.scale es, op.Fits
  | [], _ => by simp [codeAll]
  | e :: rest, h => by
    have he := fits_code e h.1
    have hrest := fits_codeAll rest h.2
    grind [codeAll]

end

mutual

/-- The code of an expression pushes one node, its tree. The state is general because the operands of
an operation run on top of what was pushed before them. -/
theorem pushes_code :
    (e : Expression) → (m : Machine) → (offset : Nat) → 0 < m.scope.scale → e.InRange m.scope →
      ∃ m' node, Steps (place offset (e.code m.scope.scale)) m m' ∧ m.Pushes [node] m' ∧
        node.forget = e.tree m.scope
  | int8 byte, m, offset, _, _ =>
    ⟨_, .leaf .constant (toString (signed 8 byte.toNat)) offset, .one rfl, ⟨_, rfl⟩, rfl⟩
  | int16 word, m, offset, _, _ =>
    ⟨_, .leaf .constant (toString (signed 16 word.toNat)) offset, .one rfl, ⟨_, rfl⟩, rfl⟩
  | constant index, m, offset, hs, h =>
    ⟨_, _, .one (step_pushCons offset hs h.1), ⟨_, rfl⟩, rfl⟩
  | symbol name, m, offset, _, h =>
    ⟨_, _, .one (step_symbol offset h.1), ⟨_, rfl⟩, rfl⟩
  | global name, m, offset, _, h => by
    refine ⟨_, .leaf .globalVariable (m.scope.name name) offset,
      .one (step_getGlobal offset h.1), ?_, rfl⟩
    refine ⟨(m.function.addGlobal (m.scope.name name)).globals, ?_⟩
    unfold Function.addGlobal
    split <;> rfl
  | property name, m, offset, _, h =>
    ⟨_, _, .one (step_getProp offset h.1), ⟨_, rfl⟩, rfl⟩
  | parameter index, m, offset, hs, h =>
    ⟨_, _, .one (step_getParam offset hs h.1), ⟨_, rfl⟩, rfl⟩
  | localVariable index, m, offset, hs, h =>
    ⟨_, _, .one (step_getLocal offset hs h.1), ⟨_, rfl⟩, rfl⟩
  | unary op e, m, offset, hs, h => by
    obtain ⟨m₁, node, hsteps, ⟨globals, rfl⟩, hn⟩ := pushes_code e m offset hs h
    exact ⟨_, _, hsteps.place_append (.one (step_unary _ op rfl)), ⟨globals, rfl⟩,
      by simp [Node.forget, tree, hn]⟩
  | binary op left right, m, offset, hs, h => by
    obtain ⟨m₁, l, hleft, hp, hl⟩ := pushes_code left m offset hs h.1
    have hscope := hp.scope_eq
    obtain ⟨m₂, r, hright, hq, hr⟩ :=
      pushes_code right m₁ (offset + sizeAll (left.code m.scope.scale)) (by rw [hscope]; exact hs)
        (by rw [hscope]; exact h.2)
    rw [hscope] at hright hr
    obtain ⟨globals, rfl⟩ := hp.trans hq
    exact ⟨_, _, (hleft.place_append hright).place_append (.one (step_binary _ op rfl)),
      ⟨globals, rfl⟩, by simp [Node.forget, tree, hl, hr]⟩
  | propertyOf name object, m, offset, hs, h => by
    obtain ⟨m₁, node, hsteps, ⟨globals, rfl⟩, hn⟩ := pushes_code object m offset hs h.2
    exact ⟨_, _, hsteps.place_append (.one (step_getObjProp _ (by exact h.1.1) rfl)), ⟨globals, rfl⟩,
      by simp [Node.forget, tree, hn, Machine.scope]⟩
  | list elements, m, offset, hs, h => by
    obtain ⟨m₁, nodes, hsteps, ⟨globals, rfl⟩, hn, hlen⟩ := pushes_codeAll elements m offset hs h.2
    exact ⟨_, _, hsteps.place_append (.cons (step_pushArgList _ hlen rfl)
      (.one (step_pushList _ rfl))), ⟨globals, rfl⟩, by simp [Node.forget, tree, hn]⟩
  | propertyList values, m, offset, hs, h => by
    obtain ⟨m₁, nodes, hsteps, ⟨globals, rfl⟩, hn, hlen⟩ :=
      pushes_codeAll values m offset hs h.2.2
    have heven : nodes.length % 2 = 0 := by rw [hlen]; exact h.2.1
    exact ⟨_, _, hsteps.place_append (.cons (step_pushArgList _ hlen rfl)
      (.one (step_pushPropList _ rfl heven))), ⟨globals, rfl⟩,
      by simp [Node.forget, tree, hn]⟩
  | call name args, m, offset, hs, h => by
    obtain ⟨m₁, nodes, hsteps, ⟨globals, rfl⟩, hn, hlen⟩ := pushes_codeAll args m offset hs h.2.2
    exact ⟨_, _, hsteps.place_append (.cons (step_pushArgList _ hlen rfl)
      (.one (step_extCall _ (by exact h.1.1) rfl))), ⟨globals, rfl⟩,
      by simp [Node.forget, tree, hn, Machine.scope]⟩
  | methodCall name args receiver, m, offset, hs, h => by
    obtain ⟨m₁, nodes, hargs, hp, hn, hlen⟩ := pushes_codeAll args m offset hs h.2.2.1
    have hscope := hp.scope_eq
    obtain ⟨m₂, object, hobject, hq, ho⟩ :=
      pushes_code receiver m₁ (offset + sizeAll (codeAll m.scope.scale args))
        (by rw [hscope]; exact hs) (by rw [hscope]; exact h.2.2.2)
    rw [hscope] at hobject ho
    obtain ⟨globals, rfl⟩ := hp.trans hq
    -- the receiver is the last of the loaded arguments
    have hlast : (nodes ++ [object]).length = args.length + 1 := by simp [hlen]
    have hstack : [object] ++ nodes.reverse ++ m.stack = (nodes ++ [object]).reverse ++ m.stack := by
      simp
    exact ⟨_, _, (hargs.place_append hobject).place_append (.cons (step_pushArgList _ hlast hstack)
      (.cons (step_pushList _ rfl) (.one (step_objCall _ (by exact h.1.1) rfl)))), ⟨globals, rfl⟩,
      by simp [Node.forget, tree, hn, ho, Machine.scope]⟩

theorem pushes_codeAll :
    (es : List Expression) → (m : Machine) → (offset : Nat) → 0 < m.scope.scale →
      AllInRange m.scope es →
      ∃ m' nodes, Steps (place offset (codeAll m.scope.scale es)) m m' ∧
        m.Pushes nodes.reverse m' ∧ Node.forgetAll nodes = treeAll m.scope es ∧
        nodes.length = es.length
  | [], m, offset, _, _ => ⟨m, [], .nil m, ⟨m.function.globals, rfl⟩, rfl, rfl⟩
  | e :: rest, m, offset, hs, h => by
    obtain ⟨m₁, node, hsteps, hp, hn⟩ := pushes_code e m offset hs h.1
    have hscope := hp.scope_eq
    obtain ⟨m₂, nodes, hrest, hq, hns, hlen⟩ :=
      pushes_codeAll rest m₁ (offset + sizeAll (e.code m.scope.scale)) (by rw [hscope]; exact hs)
        (by rw [hscope]; exact h.2)
    rw [hscope] at hrest hns
    refine ⟨m₂, node :: nodes, ?_, ?_, by simp [Node.forgetAll, treeAll, hn, hns], by simp [hlen]⟩
    · exact hsteps.place_append hrest
    · simpa using hp.trans hq

end

/-- The code of an expression decodes to the expression: from any state it succeeds, leaves the stack
with the tree of the expression on top of what was there, and keeps the emitted statements and the
scale. -/
theorem run_code {m : Machine} (e : Expression) (offset : Nat) (hs : 0 < m.context.scale)
    (h : e.InRange m.scope) :
    ∃ m' node, (Instruction.run offset (assemble (e.code m.context.scale))).run m = .ok () m' ∧
      m'.stack = node :: m.stack ∧ node.forget = e.tree m.scope ∧
      m'.function.statements = m.function.statements ∧ m'.context.scale = m.context.scale := by
  obtain ⟨m', node, hsteps, ⟨globals, rfl⟩, hn⟩ := pushes_code e m offset hs h
  exact ⟨_, node, run_assemble (fits_code e h) offset hsteps, rfl, hn, rfl, rfl⟩

/-- A call of a method on a global, with a list, a local and a negated constant as arguments, in a
handler with one of each and a scale of six. -/
theorem run_code_methodCall :
    let m : Machine :=
      { context := { names := ["add", "board"], constants := ["7", "\"x\""], scale := 6 }
        function :=
          { name := "new", position := 0
            locals := [.leaf .localVariable "i" 92]
            statements := [⟨0, .exitLoop 0⟩] }
        stack := [.leaf .constant "1" 2] }
    let e : Expression :=
      .methodCall 0 [.list [.constant 1, .localVariable 0], .unary .minus (.constant 0)] (.global 1)
    ∃ m' node, (Instruction.run 8 (assemble (e.code 6))).run m = .ok () m' ∧
      m'.stack = [node, .leaf .constant "1" 2] ∧
      node.forget =
        .methodCall 0 "add" (.leaf .globalVariable "board" 0) .argList
          [.list 0 (.arguments 0 .argList
            [.leaf .constant "\"x\"" 0, .leaf .localVariable "i" 0]),
            .unary 0 .minus (.leaf .constant "7" 0)] ∧
      m'.function.statements.length = 1 ∧ m'.context.scale = 6 := by
  intro m e
  have hrange : e.InRange m.scope := by
    simp [m, e, InRange, AllInRange, Numbered, Scaled, Machine.scope]
  obtain ⟨m', node, hrun, hstack, hnode, hstatements, hscale⟩ :=
    run_code (m := m) e 8 (by decide) hrange
  exact ⟨m', node, hrun, hstack, hnode, by rw [hstatements]; rfl, hscale⟩

end Expression

end LingoSource
