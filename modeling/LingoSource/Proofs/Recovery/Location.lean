import LingoSource.Proofs.Chunk.Image
import LingoSource.Proofs.Flow.Jumps
import LingoSource.Proofs.Instruction.Starts
import LingoSource.Recovery.Script

set_option autoImplicit false

namespace LingoSource

open Bytes Instruction

theorem ChunkPart.eq_ok_of_reading {α : Type} {part : ChunkPart} {r : Except ReadError α} {a : α}
    (h : part.reading r = .ok a) : r = .ok a := by
  cases r with
  | error e => cases h
  | ok b => cases h; rfl

/-- The operand of a prefix is the second byte of a pair. -/
theorem Opcode.operandWidth_of_isPairPrefix {op : Opcode} (h : op.isPairPrefix) :
    op.operandWidth = 1 := by
  cases op <;> first | rfl | cases h

namespace Instruction

theorem run_bind_eq_error {α β : Type} {x : Recovering α} {f : α → Recovering β} {m m' : Machine}
    {e : RecoveryError} (h : (x >>= f).run m = .error e m') :
    x.run m = .error e m' ∨ ∃ a m₁, x.run m = .ok a m₁ ∧ (f a).run m₁ = .error e m' := by
  change EStateM.bind x f m = _ at h
  unfold EStateM.bind at h
  split at h
  · rename_i a m₁ hx
    exact .inr ⟨a, m₁, hx, h⟩
  · rename_i e m₁ hx
    cases h
    exact .inl hx

theorem raisedBy_of_forM {instructions : List Instruction} {m m' : Machine} {e : RecoveryError}
    (h : (instructions.forM step).run m = .error e m') : ∃ i ∈ instructions, e.RaisedBy i := by
  induction instructions generalizing m with
  | nil => cases h
  | cons i rest ih =>
    have hi := respects_step i m
    rw [run_forM_cons] at h
    split at h
    · obtain ⟨j, hj, he⟩ := ih h
      exact ⟨j, by simp [hj], he⟩
    · rename_i hrun
      cases h
      rw [hrun] at hi
      cases hi with
      | error _ he => exact ⟨i, by simp, he⟩

theorem raisedBy_of_run {offset : Nat} {bytecode : List UInt8} {m m' : Machine} {e : RecoveryError}
    (h : (run offset bytecode).run m = .error e m') :
    (∃ i ∈ (decode offset bytecode).1, e.RaisedBy i) ∨ (decode offset bytecode).2 = some e := by
  unfold run at h
  rcases hdecode : decode offset bytecode with ⟨instructions, stop⟩
  rw [hdecode] at h
  rcases run_bind_eq_error h with h | ⟨_, m₁, -, h⟩
  · exact .inl (raisedBy_of_forM h)
  · cases stop with
    | some e => cases h; exact .inr rfl
    | none => cases h

end Instruction

/-- An error at an offset speaks of what stands there in a script, at the start of an instruction in
the code of a handler. -/
structure RecoveryError.Locates (e : RecoveryError) (script : Bytes) (code : HandlerRecord)
    (offset : Nat) : Prop where
  starts : StartsFrom script code.codeOffset offset
  lt_end : offset < code.codeOffset + code.codeLength
  lt_size : offset < script.size
  opcode : ∀ b, e.opcode? = some b → script[offset]? = some b
  pair : ∀ o first second, e = .unknownOpcodePair o first second → script[offset + 1]? = some second
  tellEnd : ∀ o, e = .unmatchedTellEnd o → script[offset]? = some 0x1d
  jump : ∀ o address, e = .unresolvedJump o address →
    (script[offset]? = some 0x93 ∨ script[offset]? = some 0x95) ∧
      ∃ operand, script.unsigned (offset + 1) 2 = .ok operand ∧ address = offset + operand

namespace RecoveryError

variable {script : Bytes} {code : HandlerRecord} {i : Instruction} {e : RecoveryError}

theorem RaisedBy.locates (h : e.RaisedBy i)
    (hi : i.Stands script code.codeOffset (code.codeOffset + code.codeLength)) :
    e.offset? = some i.offset ∧ e.Locates script code i.offset := by
  have hlt := hi.lt_stop
  have hsize := hi.lt_size
  cases h with
  | stackUnderflow | indexOutOfRange | unexpectedOperand =>
    exact ⟨rfl, hi.starts, hlt, hsize, fun b hb => Option.some.inj hb ▸ hi.opcode, nofun, nofun, nofun⟩
  | unknownOpcodePair h =>
    have hsecond := hi.operand
    rw [Opcode.operandWidth_of_isPairPrefix h] at hsecond
    refine ⟨rfl, hi.starts, hlt, hsize, fun b hb => Option.some.inj hb ▸ hi.opcode, ?_, nofun, nofun⟩
    intro _ _ _ heq
    cases heq
    exact getElem?_of_unsigned hsecond
  | unmatchedTellEnd h =>
    have hbyte := hi.opcode
    rw [h] at hbyte
    exact ⟨rfl, hi.starts, hlt, hsize, nofun, nofun, fun _ _ => hbyte, nofun⟩

theorem locates_unresolvedJump {position address : Nat} (h : i.Jumps (position, address))
    (hi : i.Stands script code.codeOffset (code.codeOffset + code.codeLength)) :
    position = i.offset ∧ (unresolvedJump position address).Locates script code i.offset := by
  obtain ⟨hopcode, heq⟩ := h
  cases heq
  have hbyte := hi.opcode
  have hoperand := hi.operand
  have hjump : (script[i.offset]? = some 0x93 ∨ script[i.offset]? = some 0x95) ∧
      script.unsigned (i.offset + 1) 2 = .ok i.operand := by
    rcases hopcode with hopcode | hopcode <;> rw [hopcode] at hbyte hoperand
    · exact ⟨.inl hbyte, hoperand⟩
    · exact ⟨.inr hbyte, hoperand⟩
  refine ⟨rfl, hi.starts, hi.lt_stop, hi.lt_size, nofun, nofun, nofun, ?_⟩
  intro _ _ heq
  cases heq
  exact ⟨hjump.1, i.operand, hjump.2, rfl⟩

theorem locates_stop {offset : Nat} {b : UInt8} (hstart : StartsFrom script code.codeOffset offset)
    (hb : script[offset]? = some b) (hlt : offset < code.codeOffset + code.codeLength)
    (he : e = .unknownOpcode offset b ∨ e = .truncatedInstruction offset b) :
    e.offset? = some offset ∧ e.Locates script code offset := by
  have hsize := (Array.getElem?_eq_some_iff.1 hb).1
  rcases he with rfl | rfl <;>
    exact ⟨rfl, hstart, hlt, hsize, fun b' hb' => Option.some.inj hb' ▸ hb, nofun, nofun, nofun⟩

end RecoveryError

open RecoveryError

namespace Handler

variable {script : Bytes} {h : Handler} {c : Context} {e : RecoveryError} {offset : Nat}

/-- An error of a handler points into its code, wherever in recovery it comes from. -/
theorem locates_of_recover (hcode : script.Holds h.record.codeOffset h.bytecode)
    (hlength : h.bytecode.length = h.record.codeLength) (he : (h.recover c).1 = .error e) :
    ∃ offset, e.offset? = some offset ∧ e.Locates script h.record offset := by
  have hdecodes := decodes_decode h.record.codeOffset h.bytecode
  have hstands : ∀ i ∈ (decode h.record.codeOffset h.bytecode).1,
      i.Stands script h.record.codeOffset (h.record.codeOffset + h.record.codeLength) :=
    fun i hi => hlength ▸ hdecodes.stands .first hcode hi
  unfold recover at he
  dsimp only at he
  split at he
  · rename_i e' m hrun
    cases he
    rcases raisedBy_of_run hrun with ⟨i, hi, hraised⟩ | hstop
    · exact ⟨i.offset, hraised.locates (hstands i hi)⟩
    · obtain ⟨offset, b, hstart, hb, hlt, he⟩ := hdecodes.of_stop .first hcode hstop
      exact ⟨offset, locates_stop hstart hb (hlength ▸ hlt) he⟩
  · rename_i m hrun
    have hflow : Statement.recoverFlow m.function.statements = .error e := by
      cases hflow : Statement.recoverFlow m.function.statements with
      | ok statements => rw [hflow] at he; cases he
      | error e' => rw [hflow] at he; cases he; rfl
    obtain ⟨position, address, rfl, hjump⟩ := Statement.mem_jumps_of_recoverFlow hflow
    rcases jumps_of_steps (steps_of_run hrun) hjump with hnone | ⟨i, hi, hjumps⟩
    · simp [signature, Statement.jumps] at hnone
    · obtain ⟨rfl, hlocates⟩ := locates_unresolvedJump hjumps (hstands i hi)
      exact ⟨i.offset, rfl, hlocates⟩

def leave (c : Context) (handlers : List Handler) : Context :=
  handlers.foldl (fun c h => (h.recover c).2) c

/-- Handlers fail with the error of the first that fails. -/
theorem split_of_recoverAll {handlers : List Handler} {functions : List Function}
    (hall : recoverAll c handlers = (functions, some e)) :
    ∃ before h after, handlers = before ++ h :: after ∧ recoverAll c before = (functions, none) ∧
      (h.recover (leave c before)).1 = .error e := by
  induction handlers generalizing c functions with
  | nil => cases hall
  | cons h rest ih =>
    rw [recoverAll] at hall
    split at hall
    · rename_i hrecover
      cases hall
      exact ⟨[], h, rest, rfl, rfl, by rw [leave, List.foldl_nil, hrecover]⟩
    · rename_i f c' hrecover
      rcases hrest : recoverAll c' rest with ⟨functions', stop⟩
      rw [hrest] at hall
      cases hall
      obtain ⟨before, h', after, rfl, hbefore, he⟩ := ih hrest
      refine ⟨h :: before, h', after, rfl, ?_, ?_⟩
      · simp only [recoverAll, hrecover, hbefore]
      · rw [leave, List.foldl_cons, hrecover]
        exact he

theorem holds_of_read {data : Bytes} {record : HandlerRecord} (hread : read data record = .ok h) :
    data.Holds h.record.codeOffset h.bytecode ∧ h.bytecode.length = h.record.codeLength := by
  obtain ⟨locals, -, hread⟩ := bind_eq_ok hread
  obtain ⟨parameters, -, hread⟩ := bind_eq_ok hread
  obtain ⟨bytecode, hbytecode, hread⟩ := bind_eq_ok hread
  cases hread
  have hslice := ChunkPart.eq_ok_of_reading hbytecode
  have hlength := length_of_slice hslice
  exact ⟨by rw [Holds, hlength]; exact hslice, hlength⟩

end Handler

theorem ScriptChunk.holds_bytecode {script : Bytes} {chunk : ScriptChunk}
    (hread : read script = .ok chunk) {h : Handler} (hh : h ∈ chunk.handlers) :
    script.Holds h.record.codeOffset h.bytecode ∧ h.bytecode.length = h.record.codeLength := by
  obtain ⟨header, -, hread⟩ := bind_eq_ok hread
  obtain ⟨constants, -, hread⟩ := bind_eq_ok hread
  obtain ⟨propertyIds, -, hread⟩ := bind_eq_ok hread
  obtain ⟨globalIds, -, hread⟩ := bind_eq_ok hread
  obtain ⟨records, -, hread⟩ := bind_eq_ok hread
  obtain ⟨handlers, hhandlers, hread⟩ := bind_eq_ok hread
  cases hread
  obtain ⟨record, -, hrecord⟩ := mem_of_mapM_eq_ok hhandlers hh
  exact Handler.holds_of_read hrecord

theorem ScriptChunk.recoverAll_of_recover {chunk : ScriptChunk} {table : NameTable}
    {e : RecoveryError} (h : chunk.recover table = .error e) :
    ∃ functions, Handler.recoverAll (chunk.context table) chunk.handlers = (functions, some e) := by
  unfold recover at h
  dsimp only at h
  split at h
  · rename_i functions e' hrecover
    cases h
    exact ⟨functions, hrecover⟩
  · cases h

/-- Where a script cannot be recovered, the offset of the error is the start of an instruction in the
code of the first handler that fails, and what the error says about it is what stands there. -/
theorem Script.locates_of_ofBytes {names script : Bytes} {e : RecoveryError} {offset : Nat}
    (h : Script.ofBytes names script = .error e) (hoffset : e.offset? = some offset) :
    ∃ table chunk before handler after, NameTable.read names = .ok table ∧
      ScriptChunk.read script = .ok chunk ∧ chunk.handlers = before ++ handler :: after ∧
      (Handler.recoverAll (chunk.context table) before).2 = none ∧
      (handler.recover (Handler.leave (chunk.context table) before)).1 = .error e ∧
      e.Locates script handler.record offset := by
  unfold Script.ofBytes at h
  cases htable : NameTable.read names with
  | error cause => rw [htable] at h; cases h; cases hoffset
  | ok table =>
    cases hchunk : ScriptChunk.read script with
    | error cause => rw [htable, hchunk] at h; cases h; cases hoffset
    | ok chunk =>
      rw [htable, hchunk] at h
      obtain ⟨functions, hall⟩ := ScriptChunk.recoverAll_of_recover h
      obtain ⟨before, handler, after, hhandlers, hbefore, he⟩ := Handler.split_of_recoverAll hall
      obtain ⟨hcode, hlength⟩ := ScriptChunk.holds_bytecode hchunk (h := handler) (by simp [hhandlers])
      obtain ⟨offset', hoffset', hlocates⟩ := Handler.locates_of_recover hcode hlength he
      obtain rfl : offset' = offset := Option.some.inj (hoffset'.symm.trans hoffset)
      exact ⟨table, chunk, before, handler, after, rfl, rfl, hhandlers, by rw [hbefore], he, hlocates⟩

/-- The second handler has a jump in a `tell` block that leads nowhere. -/
def astray : ScriptImage :=
  let handler (nameId : Int16) (bytecode : List UInt8) : HandlerImage :=
    { nameId, bytecode, parameters := [], locals := [], mark := .replicate _ 0
      trailer := .replicate _ 0 }
  { scriptType := 2, globalCount := 0, properties := [], globals := [], constants := [], wide := false
    handlers := [handler 0 [0x01], handler 1 [0x41, 2, 0x1c, 0x93, 0, 16, 0x1d, 0x01]]
    word := .replicate _ 0, words := .replicate _ 0
    marks := (.replicate _ 0, .replicate _ 0, .replicate _ 0), trailer := .replicate _ 0 }

def astrayNames : Bytes :=
  #[0, 0, 0, 0, 0, 0, 0, 0, 0, 0, 0, 27, 0, 0, 0, 27, 0, 20, 0, 2, 2, 103, 111, 3, 114, 117, 110]

theorem Script.locates_astray :
    Script.ofBytes astrayNames astray.bytes = .error (.unresolvedJump 180 196) ∧
      ∃ chunk handler, ScriptChunk.read astray.bytes = .ok chunk ∧ handler ∈ chunk.handlers ∧
        (RecoveryError.unresolvedJump 180 196).Locates astray.bytes handler.record 180 := by
  have hofBytes : Script.ofBytes astrayNames astray.bytes = .error (.unresolvedJump 180 196) := by
    have hunit : (Script.ofBytes astrayNames astray.bytes).map (fun _ => ()) =
        .error (.unresolvedJump 180 196) := by decide +kernel
    cases h : Script.ofBytes astrayNames astray.bytes with
    | ok s => rw [h] at hunit; cases hunit
    | error e => rw [h] at hunit; cases hunit; rfl
  obtain ⟨_, chunk, _, handler, _, -, hchunk, hhandlers, -, -, hlocates⟩ :=
    locates_of_ofBytes hofBytes rfl
  exact ⟨hofBytes, chunk, handler, hchunk, by simp [hhandlers], hlocates⟩

end LingoSource
