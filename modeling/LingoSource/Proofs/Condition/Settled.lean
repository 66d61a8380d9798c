import LingoSource.Proofs.Condition.Scan

set_option autoImplicit false

namespace LingoSource

mutual

def Node.Settled : Node → Prop
  | .jumpUnless .. => False
  | .loop _ _ _ _ _ body => Statement.SettledAll body
  | .tell _ _ body => Statement.SettledAll body
  | _ => True

def Statement.SettledAll : List Statement → Prop
  | [] => True
  | ⟨_, node⟩ :: rest => node.Settled ∧ Statement.SettledAll rest

end

namespace Statement

theorem settledAll_cons {s : Statement} {rest : List Statement} :
    SettledAll (s :: rest) ↔ s.node.Settled ∧ SettledAll rest := by
  obtain ⟨position, node⟩ := s
  rw [SettledAll]

theorem settledAll_append {a b : List Statement} :
    SettledAll (a ++ b) ↔ SettledAll a ∧ SettledAll b := by
  induction a with
  | nil => simp [SettledAll]
  | cons s a ih => rw [List.cons_append, settledAll_cons, settledAll_cons, ih, and_assoc]

theorem settledAll_iff {statements : List Statement} :
    SettledAll statements ↔ ∀ s ∈ statements, s.node.Settled := by
  induction statements with
  | nil => simp [SettledAll]
  | cons s rest ih => rw [settledAll_cons, ih, List.forall_mem_cons]

end Statement

theorem Node.Settled.not_conditional {node : Node} (h : node.Settled) : node.isConditional = false := by
  cases node <;> first | rfl | exact h.elim

theorem Node.isConditional_of_not_isJump {node : Node} (h : node.isJump = false) :
    node.isConditional = false := by
  cases node <;> first | rfl | cases h

namespace Condition

open Statement

variable {loopEnd? : Option Nat} {statements : List Statement}

theorem isConditional_inside (recover : Option Nat → List Statement → List Statement)
    (loopEnd? : Option Nat) (s : Statement) :
    (inside recover loopEnd? s).node.isConditional = s.node.isConditional := by
  obtain ⟨position, node⟩ := s
  cases node <;> rfl

mutual

theorem inside_of_settled (loopEnd? : Option Nat) (position : Nat) :
    (node : Node) → node.Settled → inside recover loopEnd? ⟨position, node⟩ = ⟨position, node⟩
  | .loop _ _ stop _ _ body, h => by
    rw [Node.Settled] at h
    simp only [inside, recover_of_settled (some stop) body h]
  | .tell _ _ body, h => by
    rw [Node.Settled] at h
    simp only [inside, recover_of_settled loopEnd? body h]
  | .jumpUnless .., h => h.elim
  | .leaf .., _ | .unary .., _ | .binary .., _ | .assign .., _ | .put .., _ | .chunk .., _
  | .chunkRange .., _ | .aspect .., _ | .property .., _ | .builtinProperty .., _
  | .menuItemOf .., _ | .menuItemsOf .., _ | .arguments .., _ | .list .., _
  | .propertyList .., _ | .call .., _ | .methodCall .., _ | .branch .., _ | .jump .., _
  | .exitLoop .., _ => rfl

theorem map_inside_of_settled (loopEnd? : Option Nat) :
    (statements : List Statement) → SettledAll statements →
      statements.map (inside recover loopEnd?) = statements
  | [], _ => rfl
  | ⟨position, node⟩ :: rest, h => by
    rw [List.map_cons, inside_of_settled loopEnd? position node h.1,
      map_inside_of_settled loopEnd? rest h.2]

theorem recover_of_settled (loopEnd? : Option Nat) (statements : List Statement)
    (h : SettledAll statements) : recover loopEnd? statements = statements := by
  rw [recover_eq_branches, map_inside_of_settled loopEnd? statements h]
  exact branches_of_not_conditional fun s hs => (settledAll_iff.1 h s hs).not_conditional

end

def conditionals (statements : List Statement) : Nat :=
  statements.countP (·.node.isConditional)

theorem conditionals_eq_zero :
    conditionals statements = 0 ↔ ∀ s ∈ statements, s.node.isConditional = false := by
  simp [conditionals]

theorem conditionals_append (a b : List Statement) :
    conditionals (a ++ b) = conditionals a + conditionals b :=
  List.countP_append

theorem conditionals_cons_jumpUnless (position origin address : Nat) (condition : Node)
    (rest : List Statement) :
    conditionals (⟨position, .jumpUnless origin condition address⟩ :: rest) = conditionals rest + 1 :=
  List.countP_cons_of_pos rfl

theorem conditionals_map_inside (recover : Option Nat → List Statement → List Statement)
    (loopEnd? : Option Nat) (statements : List Statement) :
    conditionals (statements.map (inside recover loopEnd?)) = conditionals statements := by
  rw [conditionals, List.countP_map]
  exact List.countP_congr fun s _ => by rw [Function.comp_apply, isConditional_inside]

theorem lift_of_splitAtHead (recover : List Statement → List Statement) (loopEnd? : Option Nat)
    {position origin address : Nat} {condition : Node} {before after : List Statement}
    (h : splitAtHead position statements = some (before, origin, condition, address, after)) :
    ∃ branch : Statement, branch.node.isJump = false ∧
      ∃ taken behind, after = taken ++ behind ∧
        lift recover loopEnd? statements position = before ++ branch :: behind := by
  unfold lift
  rw [h]
  dsimp only
  have hthen := append_splitAtAddress address after
  split
  · exact ⟨_, rfl, [], after, rfl, rfl⟩
  · split
    · exact ⟨_, rfl, _, _, hthen.symm, rfl⟩
    · rename_i jump target _
      split
      · exact ⟨_, rfl, _, _, hthen.symm, rfl⟩
      · have helse := append_splitAtAddress target (splitAtAddress address after).2
        refine ⟨_, rfl, (splitAtAddress address after).1 ++
          (splitAtAddress target (splitAtAddress address after).2).1, _, ?_, rfl⟩
        rw [List.append_assoc, helse, hthen]

theorem conditionals_lift_lt (recover : List Statement → List Statement) {position : Nat}
    (h : (splitAtHead position statements).isSome) :
    conditionals (lift recover loopEnd? statements position) < conditionals statements := by
  obtain ⟨⟨before, origin, condition, address, after⟩, hsplit⟩ := Option.isSome_iff_exists.1 h
  obtain ⟨branch, hbranch, taken, behind, rfl, hlift⟩ :=
    lift_of_splitAtHead recover loopEnd? hsplit
  have hlifted : conditionals (branch :: behind) = conditionals behind := by
    simp [conditionals, Node.isConditional_of_not_isJump hbranch]
  rw [hlift, eq_of_splitAtHead hsplit]
  simp only [conditionals_append, conditionals_cons_jumpUnless, hlifted]
  omega

theorem conditionals_lift_le (recover : List Statement → List Statement) (loopEnd? : Option Nat)
    (statements : List Statement) (position : Nat) :
    conditionals (lift recover loopEnd? statements position) ≤ conditionals statements := by
  cases hsplit : splitAtHead position statements with
  | none =>
    simp [lift, hsplit]
  | some found => exact Nat.le_of_lt (conditionals_lift_lt recover (by rw [hsplit]; rfl))

theorem conditionals_foldl_lift_le (recover : List Statement → List Statement)
    (loopEnd? : Option Nat) (positions : List Nat) (statements : List Statement) :
    conditionals (positions.foldl (lift recover loopEnd?) statements) ≤ conditionals statements := by
  induction positions generalizing statements with
  | nil => exact Nat.le_refl _
  | cons position positions ih =>
    exact Nat.le_trans (ih _) (conditionals_lift_le recover loopEnd? statements position)

theorem isSome_splitAtHead {s : Statement} (hs : s ∈ statements)
    (h : s.node.isConditional = true) : (splitAtHead s.position statements).isSome := by
  fun_induction splitAtHead s.position statements with
  | case1 => cases hs
  | case2 => rfl
  | case3 p origin condition address rest hp ih =>
    rw [Option.isSome_map]
    refine ih ((List.mem_cons.1 hs).resolve_left fun heq => hp ?_)
    rw [heq]
  | case4 t rest ht ih =>
    rw [Option.isSome_map]
    refine ih ((List.mem_cons.1 hs).resolve_left fun heq => ?_)
    subst heq
    obtain ⟨origin, condition, address, hs⟩ := eq_of_isConditional h
    exact ht s.position origin condition address hs

/-- The first conditional jump starts a branch, so a list that has one loses one. -/
theorem conditionals_branches_lt (loopEnd? : Option Nat) (h : conditionals statements ≠ 0) :
    conditionals (branches loopEnd? statements) < conditionals statements := by
  -- the scan finds the first of them, since it has found nothing in front of it
  obtain ⟨s, hfind⟩ : ∃ s, statements.find? (·.node.isConditional) = some s := by
    obtain ⟨s, hs, hcond⟩ := List.countP_pos_iff.1 (Nat.pos_of_ne_zero h)
    exact Option.isSome_iff_exists.1 (List.find?_isSome.2 ⟨s, hs, hcond⟩)
  obtain ⟨hcond, before, rest, rfl, hbefore⟩ := List.find?_eq_some_iff_append.1 hfind
  obtain ⟨later, hheads⟩ :
      ∃ later, heads loopEnd? {} (before ++ s :: rest) = s.position :: later := by
    obtain ⟨origin, condition, address, hs⟩ := eq_of_isConditional hcond
    rw [heads_append_of_not_conditional (by simpa using hbefore), hs]
    exact ⟨_, rfl⟩
  rw [branches, hheads, List.foldl_cons]
  exact Nat.lt_of_le_of_lt (conditionals_foldl_lift_le _ loopEnd? later _)
    (conditionals_lift_lt _ (isSome_splitAtHead (by simp) hcond))

theorem of_recover_eq_self (h : recover loopEnd? statements = statements) :
    conditionals statements = 0 ∧ statements.map (inside recover loopEnd?) = statements := by
  rw [recover_eq_branches] at h
  have hmap := conditionals_map_inside recover loopEnd? statements
  have hzero : conditionals (statements.map (inside recover loopEnd?)) = 0 := by
    by_contra hne
    have := conditionals_branches_lt loopEnd? hne
    rw [h] at this
    omega
  rw [branches_of_not_conditional (conditionals_eq_zero.1 hzero)] at h
  exact ⟨hmap ▸ hzero, h⟩

mutual

theorem settled_of_inside (loopEnd? : Option Nat) (position : Nat) :
    (node : Node) → node.isConditional = false →
      inside recover loopEnd? ⟨position, node⟩ = ⟨position, node⟩ → node.Settled
  | .loop _ _ stop _ _ body, _, h => by
    have hbody : recover (some stop) body = body := by simpa [inside] using h
    have hparts := of_recover_eq_self hbody
    exact settledAll_of_map_inside (some stop) body hparts.1 hparts.2
  | .tell _ _ body, _, h => by
    have hbody : recover loopEnd? body = body := by simpa [inside] using h
    have hparts := of_recover_eq_self hbody
    exact settledAll_of_map_inside loopEnd? body hparts.1 hparts.2
  | .jumpUnless .., h, _ => nomatch h
  | .leaf .., _, _ | .unary .., _, _ | .binary .., _, _ | .assign .., _, _ | .put .., _, _
  | .chunk .., _, _ | .chunkRange .., _, _ | .aspect .., _, _ | .property .., _, _
  | .builtinProperty .., _, _ | .menuItemOf .., _, _ | .menuItemsOf .., _, _
  | .arguments .., _, _ | .list .., _, _ | .propertyList .., _, _ | .call .., _, _
  | .methodCall .., _, _ | .branch .., _, _ | .jump .., _, _ | .exitLoop .., _, _ => trivial

theorem settledAll_of_map_inside (loopEnd? : Option Nat) :
    (statements : List Statement) → conditionals statements = 0 →
      statements.map (inside recover loopEnd?) = statements → SettledAll statements
  | [], _, _ => trivial
  | ⟨position, node⟩ :: rest, hnone, h => by
    obtain ⟨hnode, hrest⟩ := List.forall_mem_cons.1 (conditionals_eq_zero.1 hnone)
    obtain ⟨hinside, hmap⟩ := List.cons.inj h
    exact ⟨settled_of_inside loopEnd? position node hnode hinside,
      settledAll_of_map_inside loopEnd? rest (conditionals_eq_zero.2 hrest) hmap⟩

end

theorem recover_eq_self_iff : recover loopEnd? statements = statements ↔ SettledAll statements := by
  refine ⟨fun h => ?_, recover_of_settled loopEnd? statements⟩
  have hparts := of_recover_eq_self h
  exact settledAll_of_map_inside loopEnd? statements hparts.1 hparts.2

end Condition

end LingoSource
