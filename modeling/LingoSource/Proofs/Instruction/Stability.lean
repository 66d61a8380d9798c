import LingoSource.Proofs.Instruction.Change

set_option autoImplicit false

namespace LingoSource

/-- Two contexts with the same tables and the same scale; their `tell` blocks may differ. -/
structure Context.SameTables (c c' : Context) : Prop where
  names : c'.names = c.names
  constants : c'.constants = c.constants
  handlerNames : c'.handlerNames = c.handlerNames
  properties : c'.properties = c.properties
  scale : c'.scale = c.scale

namespace Context

namespace SameTables

variable {c c' c'' : Context}

theorem refl (c : Context) : c.SameTables c := ⟨rfl, rfl, rfl, rfl, rfl⟩

theorem trans (h : c.SameTables c') (h' : c'.SameTables c'') : c.SameTables c'' where
  names := h'.names.trans h.names
  constants := h'.constants.trans h.constants
  handlerNames := h'.handlerNames.trans h.handlerNames
  properties := h'.properties.trans h.properties
  scale := h'.scale.trans h.scale

theorem closeTell (c : Context) : c.SameTables c.closeTell.2 := by
  unfold Context.closeTell
  split
  · exact refl c
  · exact ⟨rfl, rfl, rfl, rfl, rfl⟩

theorem resetTells (c : Context) : c.SameTables c.resetTells := ⟨rfl, rfl, rfl, rfl, rfl⟩

theorem resetTells_eq (h : c.SameTables c') : c'.resetTells = c.resetTells := by
  simp only [Context.resetTells, h.names, h.constants, h.handlerNames, h.properties, h.scale]

end SameTables

theorem descale_of_dvd {c : Context} {raw : Nat} (h : c.scale ∣ raw) :
    c.descale raw = (raw / c.scale, c) := by
  simp [descale, narrowed, Nat.mod_eq_zero_of_dvd h]

end Context

namespace Machine

def SameTables (m m' : Machine) : Prop := m.context.SameTables m'.context

theorem sameTables_descaled {m : Machine} {raw : Nat} (h : m.context.scale ∣ raw) :
    m.SameTables (m.descaled raw) := by
  unfold descaled
  rw [Context.descale_of_dvd h]
  exact .refl m.context

end Machine

namespace Instruction

variable {m : Machine}

instance (i : Instruction) : i.Admits Machine.SameTables where
  refl m := .refl m.context
  trans := .trans
  stack m _ := .refl m.context
  declareGlobal m _ := .refl m.context
  emit m _ _ := .refl m.context
  openTell _ _ _ := ⟨rfl, rfl, rfl, rfl, rfl⟩
  closeTell _ m := .closeTell m.context
  fillTell _ m _ _ _ _ _ _ _ := .refl m.context
  closeLoop _ m _ := .refl m.context

/-- An instruction whose operand the scale divides leaves the tables and the scale. -/
theorem sameTables_step {i : Instruction} (h : ∀ raw, i.scaled? m = some raw → m.context.scale ∣ raw) :
    i.Ends Machine.SameTables m (i.step.run m) :=
  ends_step i fun raw hraw _ hcontext =>
    Machine.sameTables_descaled (by rw [hcontext]; exact h raw hraw)

/-- Whether `scale` divides every operand that a run brings to scale, as far as the run gets. -/
def aligned (scale : Nat) : List Instruction → Machine → Bool
  | [], _ => true
  | i :: rest, m =>
    (i.scaled? m).all (scale ∣ ·) &&
      match i.step.run m with
      | .ok () m' => aligned scale rest m'
      | .error _ _ => true

/-- The machine that a run leaves, also a run that fails. -/
def left {α : Type} : EStateM.Result RecoveryError Machine α → Machine
  | .ok _ m => m
  | .error _ m => m

theorem sameTables_forM {instructions : List Instruction}
    (h : aligned m.context.scale instructions m) :
    m.SameTables (left ((instructions.forM step).run m)) := by
  induction instructions generalizing m with
  | nil => exact .refl m.context
  | cons i rest ih =>
    rw [aligned, Bool.and_eq_true] at h
    obtain ⟨hi, hrest⟩ := h
    have hstep : i.Ends Machine.SameTables m (i.step.run m) :=
      sameTables_step fun raw hraw => by simpa [hraw] using hi
    rw [run_forM_cons]
    cases hrun : i.step.run m with
    | ok _ m₁ =>
      rw [hrun] at hstep hrest
      cases hstep with
      | ok htables =>
        rw [← Context.SameTables.scale htables] at hrest
        exact Context.SameTables.trans htables (ih hrest)
    | error e m₁ =>
      rw [hrun] at hstep
      cases hstep with
      | error htables => exact htables

theorem sameTables_run {offset : Nat} {bytecode : List UInt8}
    (h : aligned m.context.scale (decode offset bytecode).1 m) :
    m.SameTables (left ((run offset bytecode).run m)) := by
  unfold run
  rcases hdecode : decode offset bytecode with ⟨instructions, stop⟩
  rw [hdecode] at h
  have hforM := sameTables_forM h
  change m.SameTables (left (EStateM.bind (instructions.forM step) _ m))
  unfold EStateM.bind
  cases hrun : instructions.forM step m with
  | ok _ m₁ =>
    rw [show (instructions.forM step).run m = _ from hrun] at hforM
    cases stop with
    | none => exact hforM
    | some e => exact hforM
  | error e m₁ =>
    rw [show (instructions.forM step).run m = _ from hrun] at hforM
    exact hforM

end Instruction

end LingoSource
