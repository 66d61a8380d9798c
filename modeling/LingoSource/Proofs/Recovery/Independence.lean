import LingoSource.Proofs.Instruction.Stability
import LingoSource.Proofs.Recovery.Location
import LingoSource.Proofs.Recovery.Outcome

set_option autoImplicit false

namespace LingoSource

open Instruction

namespace Handler

variable {c c' : Context} {h : Handler}

def aligned (c : Context) (h : Handler) : Bool :=
  Instruction.aligned c.scale (decode h.record.codeOffset h.bytecode).1 (h.start c)

theorem start_eq_of_sameTables (hc : c.SameTables c') (h : Handler) : h.start c' = h.start c := by
  have hname : c'.resolveName = c.resolveName := by
    funext id
    simp only [Context.resolveName, hc.names]
  simp only [start, signature, hname, hc.resetTells_eq]

theorem aligned_eq_of_sameTables (hc : c.SameTables c') (h : Handler) :
    h.aligned c' = h.aligned c := by
  rw [aligned, aligned, start_eq_of_sameTables hc, hc.scale]

theorem recover_eq_of_sameTables (hc : c.SameTables c') (h : Handler) :
    h.recover c' = h.recover c := by
  have hstart := start_eq_of_sameTables hc h
  unfold start at hstart
  unfold recover
  dsimp only
  rw [hstart]

theorem sameTables_recover (haligned : h.aligned c) : c.SameTables (h.recover c).2 := by
  have hrun : (h.start c).SameTables
      (left ((run h.record.codeOffset h.bytecode).run (h.start c))) :=
    sameTables_run haligned
  refine .trans (.resetTells c) (.trans hrun ?_)
  unfold recover start
  dsimp only
  split
  · rename_i e m hm
    rw [hm]
    exact .refl _
  · rename_i m hm
    rw [hm]
    exact .refl _

theorem sameTables_leave {handlers : List Handler} (haligned : ∀ h ∈ handlers, h.aligned c) :
    c.SameTables (leave c handlers) := by
  induction handlers generalizing c with
  | nil => exact .refl c
  | cons h rest ih =>
    rw [List.forall_mem_cons] at haligned
    obtain ⟨hfirst, hrest⟩ := haligned
    have hc := sameTables_recover hfirst
    refine hc.trans (ih fun h' hh' => ?_)
    rw [aligned_eq_of_sameTables hc]
    exact hrest h' hh'

/-- Handlers whose operands the scale divides leave the tables and the scale, whether they fail or not,
and a handler is recovered after them as it is without them. -/
theorem recover_leave {before : List Handler} (hbefore : ∀ h' ∈ before, h'.aligned c)
    (haligned : h.aligned c) :
    c.SameTables (leave c before) ∧ c.SameTables (h.recover (leave c before)).2 ∧
      (h.recover (leave c before)).1 = (h.recover c).1 := by
  have hc := sameTables_leave hbefore
  rw [recover_eq_of_sameTables hc]
  exact ⟨hc, sameTables_recover haligned, rfl⟩

def sample (bytecode : List UInt8) : Handler where
  record := ⟨0, bytecode.length, 92, 0, 0, 2, 0, 134⟩
  parameters := []
  locals := [⟨1, 0⟩, ⟨2, 2⟩]
  bytecode

/-- The first handler opens a `tell` block and fails in it, so it leaves the block open. The second reads a
system property into its second local. -/
theorem recover_leave_sample :
    let c : Context := { names := ["first", "a", "b"], constants := ["7"], scale := 6 }
    let broken := sample [0x41, 5, 0x1c, 5]
    let reader := sample [0x41, 0, 0x5c, 7, 0x52, 6]
    broken.aligned c ∧ reader.aligned c ∧ (leave c [broken]).tells ≠ [] ∧
      (reader.recover (leave c [broken])).1 = (reader.recover c).1 := by
  refine ⟨by decide +kernel, by decide +kernel, by decide +kernel, ?_⟩
  exact (recover_leave (by decide +kernel) (by decide +kernel)).2.2

end Handler

end LingoSource
