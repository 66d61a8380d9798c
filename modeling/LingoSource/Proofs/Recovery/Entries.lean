import LingoSource.Proofs.Instruction.Scaling
import LingoSource.Proofs.Recovery.Independence
import LingoSource.Proofs.Recovery.Scale

set_option autoImplicit false

namespace LingoSource

open Instruction

namespace Handler

def operands (c : Context) (h : Handler) : List Nat :=
  Instruction.operands (Instruction.decode h.record.codeOffset h.bytecode).1 (h.start c)

theorem scale_recover (c : Context) (h : Handler) :
    (h.recover c).2.scale = (h.operands c).foldl Context.narrowed c.scale := by
  have hrun := Instruction.scale_left_run h.record.codeOffset h.bytecode (h.start c)
  have hstart : (h.start c).context.scale = c.scale := rfl
  rw [hstart] at hrun
  rw [operands, ← hrun]
  unfold recover start
  dsimp only
  split
  · rename_i e m hm
    rw [hm]
    rfl
  · rename_i m hm
    rw [hm]
    rfl

def operandsAll : Context → List Handler → List Nat
  | _, [] => []
  | c, h :: rest => h.operands c ++ operandsAll (h.recover c).2 rest

theorem scale_leave (c : Context) (handlers : List Handler) :
    (leave c handlers).scale = (operandsAll c handlers).foldl Context.narrowed c.scale := by
  induction handlers generalizing c with
  | nil => rfl
  | cons h rest ih =>
    rw [operandsAll, List.foldl_append, ← scale_recover]
    exact ih (h.recover c).2

variable {c : Context} {width : Nat}

/-- Of operands that all count entries of one width, an index is right if and only if the scale has come
down to the width, the first entry apart. -/
theorem index_eq_iff (hpos : 0 < c.scale) (hwidth : width ∣ c.scale) {before : List Nat} {raw : Nat}
    (h : ∀ r ∈ before ++ [raw], width ∣ r) :
    let scale := Context.narrowed (before.foldl Context.narrowed c.scale) raw
    (raw / scale = raw / width ↔ raw = 0 ∨ scale = width) ∧ (width ∈ before ++ [raw] → scale = width) := by
  have hbefore : width ∣ before.foldl Context.narrowed c.scale :=
    Context.dvd_foldl_narrowed hwidth fun r hr => h r (by simp [hr])
  refine ⟨Context.div_narrowed_eq_iff (Context.foldl_narrowed_pos hpos before) hbefore
    (h raw (by simp)), fun hmem => ?_⟩
  have hall := Context.foldl_narrowed_eq hpos hwidth h hmem
  rwa [List.foldl_append] at hall

/-- Let the width of the entries divide the first scale, and every operand be a multiple of the width.
An operand is brought to the index of its own entry if and only if this is the first entry or the scale
has come down to the width by then, and it has from the first operand of one entry on. So a constant, a
parameter or a local that an instruction of a script names by an operand is that entry under the same
condition, whatever handlers and instructions came before. -/
theorem entry_eq_iff (hpos : 0 < c.scale) (hwidth : width ∣ c.scale) :
    (∀ (before : List Nat) (raw : Nat), (∀ r ∈ before ++ [raw], width ∣ r) →
      let (index, next) := (c.descaleAll before).descale raw
      (index = raw / width ↔ raw = 0 ∨ next.scale = width) ∧
        (width ∈ before ++ [raw] → next.scale = width)) ∧
    ∀ (handlers : List Handler) (h : Handler) (instructions : List Instruction) (m : Machine)
      (i : Instruction) (entry : Nat), Steps instructions (h.start (leave c handlers)) m →
      i.scaled? m = some (width * entry) →
      let before := operandsAll c handlers ++ Instruction.operands instructions (h.start (leave c handlers))
      (∀ r ∈ before, width ∣ r) →
      let (index, next) := m.context.descale (width * entry)
      i.step.run m = (i.stepAt index).run { m with context := next } ∧
        (index = entry ↔ entry = 0 ∨ next.scale = width) ∧
        (width ∈ before ++ [width * entry] → next.scale = width) := by
  refine ⟨fun before raw hraws => ?_, fun handlers h instructions m i entry hsteps hi => ?_⟩
  · have hindex := index_eq_iff hpos hwidth hraws
    rwa [← Context.scale_descaleAll] at hindex
  · intro before hbefore
    have hscale : m.context.scale = before.foldl Context.narrowed c.scale := by
      rw [hsteps.scale_eq, List.foldl_append, ← scale_leave]
      rfl
    have hraws : ∀ r ∈ before ++ [width * entry], width ∣ r := by
      intro r hr
      rcases List.mem_append.1 hr with hr | hr
      · exact hbefore r hr
      · rw [List.mem_singleton.1 hr]
        exact Nat.dvd_mul_right width entry
    have hpositive := Nat.pos_of_dvd_of_pos hwidth hpos
    have hzero : width * entry = 0 ↔ entry = 0 := Nat.mul_eq_zero.trans (or_iff_right (by omega))
    have hindex := index_eq_iff hpos hwidth hraws
    rw [← hscale, Nat.mul_div_cancel_left _ hpositive, hzero] at hindex
    exact ⟨step_eq_stepAt hi, hindex⟩

/-- The first handler reads its local at the index one by an operand of one entry, so the second reads the
local at this index by the same operand. -/
theorem entry_eq_iff_narrowed :
    let c : Context := { names := ["first", "a", "b"], constants := ["7"], scale := 6 }
    let m := (sample [0x4c, 2]).start (leave c [sample [0x4c, 2]])
    let i : Instruction := ⟨92, .getLocal, 2⟩
    0 < c.scale ∧ 2 ∣ c.scale ∧ Steps [] m m ∧ i.scaled? m = some (2 * 1) ∧
      (∀ r ∈ operandsAll c [sample [0x4c, 2]] ++ Instruction.operands [] m, 2 ∣ r) ∧
      (m.context.descale 2).1 = 1 ∧
      i.step.run m = (i.stepAt 1).run { m with context := (m.context.descale 2).2 } := by
  intro c m i
  have hoperands : operandsAll c [sample [0x4c, 2]] ++ Instruction.operands [] m = [2] := by
    decide +kernel
  have hwidth : ∀ r ∈ operandsAll c [sample [0x4c, 2]] ++ Instruction.operands [] m, 2 ∣ r := by
    rw [hoperands]
    decide
  obtain ⟨hstep, hindex, hscale⟩ := (entry_eq_iff (by decide) (by decide)).2 [sample [0x4c, 2]]
    (sample [0x4c, 2]) [] m i 1 (.nil m) rfl hwidth
  have hone : (m.context.descale 2).1 = 1 :=
    hindex.2 (.inr (hscale (by rw [hoperands]; decide)))
  refine ⟨by decide, by decide, .nil m, rfl, hwidth, hone, ?_⟩
  rw [← hone]
  exact hstep

/-- An operand of three entries that comes before the operand of one entry is taken for one of the width
of the records. -/
theorem entry_eq_iff_tooEarly :
    ¬ ∀ (scale width : Nat) (raws : List Nat), 1 ≤ scale → 1 ≤ width → width ∣ scale →
      (∀ raw ∈ raws, width ∣ raw) → width ∈ raws →
      ∀ before raw behind, raws = before ++ raw :: behind →
        (((Context.create [] [] scale).descaleAll before).descale raw).1 = raw / width := by
  intro h
  have hfirst := h 6 2 [6, 2] (by decide) (by decide) (by decide) (by decide) (by decide) [] 6 [2] rfl
  exact absurd hfirst (by decide)

end Handler

end LingoSource
