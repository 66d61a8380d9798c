import LingoSource.Proofs.Instruction.Effect

set_option autoImplicit false

namespace LingoSource

def Node.identifier (node : Node) : String :=
  node.word?.getD (Lingo.expression node)

def Node.index? : Node → Option Nat
  | .leaf .constant text _ => parseIndex? text
  | _ => none

namespace Instruction

variable {i : Instruction} {m m' : Machine}

theorem run_bind_eq_ok_iff {α β : Type} {x : Recovering α} {f : α → Recovering β} {b : β} :
    (x >>= f).run m = .ok b m' ↔ ∃ a m₁, x.run m = .ok a m₁ ∧ (f a).run m₁ = .ok b m' := by
  refine ⟨run_bind_eq_ok, ?_⟩
  rintro ⟨a, m₁, hx, hf⟩
  change EStateM.bind x f m = _
  unfold EStateM.bind
  rw [show x m = .ok a m₁ from hx]
  exact hf

theorem run_pure_eq_ok_iff {α : Type} {a b : α} :
    (pure a : Recovering α).run m = .ok b m' ↔ b = a ∧ m' = m := by
  constructor
  · rintro ⟨⟩
    exact ⟨rfl, rfl⟩
  · rintro ⟨rfl, rfl⟩
    rfl

theorem push_eq_ok_iff {node : Node} :
    (push node).run m = .ok () m' ↔ m' = { m with stack := node :: m.stack } := by
  constructor
  · rintro ⟨⟩
    rfl
  · rintro rfl
    rfl

theorem emit_eq_ok_iff {node : Node} :
    (i.emit node).run m = .ok () m' ↔
      m' = { m with function.statements := m.function.statements ++ [⟨i.offset, node⟩] } := by
  constructor
  · rintro ⟨⟩
    rfl
  · rintro rfl
    rfl

theorem pop_eq_ok_iff {node : Node} :
    i.pop.run m = .ok node m' ↔ ∃ stack, m.stack = node :: stack ∧ m' = { m with stack } := by
  refine ⟨pop_eq_ok, ?_⟩
  rintro ⟨stack, hstack, rfl⟩
  exact run_pop i hstack

theorem assign_eq_ok_iff {left : Node} :
    (i.assign left).run m = .ok () m' ↔
      ∃ value stack, m.stack = value :: stack ∧
        m' = { m with
          stack
          function.statements := m.function.statements ++
            [⟨i.offset, .assign i.offset left value⟩] } := by
  unfold assign
  simp only [run_bind_eq_ok_iff, pop_eq_ok_iff, emit_eq_ok_iff]
  constructor
  · rintro ⟨value, _, ⟨stack, hstack, rfl⟩, rfl⟩
    exact ⟨value, stack, hstack, rfl⟩
  · rintro ⟨value, stack, hstack, rfl⟩
    exact ⟨value, _, ⟨stack, hstack, rfl⟩, rfl⟩

theorem lookUp_eq_ok_iff {α : Type} {table : IndexedTable} {entries : List α} {index : Nat}
    {entry : α} :
    (i.lookUp table entries index).run m = .ok entry m' ↔ entries[index]? = some entry ∧ m' = m := by
  refine ⟨lookUp_eq_ok, ?_⟩
  rintro ⟨hentry, rfl⟩
  exact run_lookUp i table hentry m'

theorem nameAt_eq_ok_iff {number : Nat} {name : String} :
    (i.nameAt number).run m = .ok name m' ↔ m.context.names[number]? = some name ∧ m' = m := by
  unfold nameAt
  constructor
  · intro h
    obtain ⟨_, _, hget, hlook⟩ := run_bind_eq_ok h
    cases hget
    exact lookUp_eq_ok hlook
  · intro h
    exact run_bind_eq_ok_iff.2 ⟨m, m, rfl, lookUp_eq_ok_iff.2 h⟩

theorem popIndex_eq_ok_iff {index : Nat} :
    i.popIndex.run m = .ok index m' ↔
      ∃ number stack, m.stack = number :: stack ∧ number.index? = some index ∧
        m' = { m with stack } := by
  unfold popIndex
  simp only [run_bind_eq_ok_iff, pop_eq_ok_iff]
  constructor
  · rintro ⟨number, _, ⟨stack, hstack, rfl⟩, hrest⟩
    refine ⟨number, stack, hstack, ?_⟩
    split at hrest
    · split at hrest
      · rename_i hparse
        cases hrest
        exact ⟨hparse, rfl⟩
      · cases hrest
    · cases hrest
  · rintro ⟨number, stack, hstack, hindex, rfl⟩
    refine ⟨number, _, ⟨stack, hstack, rfl⟩, ?_⟩
    unfold Node.index? at hindex
    split at hindex
    · simp [hindex]
    · cases hindex

theorem popIdentifier_eq_ok_iff {text : String} :
    i.popIdentifier.run m = .ok text m' ↔
      ∃ id stack, m.stack = id :: stack ∧ text = id.identifier ∧ m' = { m with stack } := by
  unfold popIdentifier
  simp only [run_bind_eq_ok_iff, pop_eq_ok_iff, run_pure_eq_ok_iff]
  constructor
  · rintro ⟨id, _, ⟨stack, hstack, rfl⟩, rfl, rfl⟩
    exact ⟨id, stack, hstack, rfl, rfl⟩
  · rintro ⟨id, stack, hstack, rfl, rfl⟩
    exact ⟨id, _, ⟨stack, hstack, rfl⟩, rfl, rfl⟩

theorem popPropertyName_eq_ok_iff {table : IndexedTable} {names : List String} {name : String} :
    (i.popPropertyName table names).run m = .ok name m' ↔
      ∃ number stack, m.stack = number :: stack ∧
        number.index?.bind (names[·]?) = some name ∧ m' = { m with stack } := by
  unfold popPropertyName
  simp only [run_bind_eq_ok_iff, popIndex_eq_ok_iff, lookUp_eq_ok_iff]
  constructor
  · rintro ⟨index, _, ⟨number, stack, hstack, hindex, rfl⟩, hname, rfl⟩
    exact ⟨number, stack, hstack, by simp [hindex, hname], rfl⟩
  · rintro ⟨number, stack, hstack, hname, rfl⟩
    obtain ⟨index, hindex, hname⟩ := Option.bind_eq_some_iff.1 hname
    exact ⟨index, _, ⟨number, stack, hstack, hindex, rfl⟩, hname, rfl⟩

end Instruction

end LingoSource
