import LingoSource.Recovery.Step

set_option autoImplicit false

namespace LingoSource

structure Operation where
  opcode : Opcode
  operand : Nat := 0
  deriving DecidableEq, Repr

theorem Opcode.operandWidth_le_two (op : Opcode) : op.operandWidth ≤ 2 := by
  unfold operandWidth
  split
  · omega
  · split <;> omega

namespace Operation

def size (op : Operation) : Nat := 1 + op.opcode.operandWidth

def Fits (op : Operation) : Prop :=
  op.operand < Nat.pow 256 op.opcode.operandWidth

instance : DecidablePred Fits := fun op =>
  inferInstanceAs (Decidable (op.operand < Nat.pow 256 op.opcode.operandWidth))

def bytes (op : Operation) : List UInt8 :=
  op.opcode.byte :: match op.opcode.operandWidth with
    | 0 => []
    | 1 => [UInt8.ofNat op.operand]
    | _ => [UInt8.ofNat (op.operand / 256), UInt8.ofNat op.operand]

def assemble (ops : List Operation) : List UInt8 :=
  ops.flatMap bytes

def sizeAll : List Operation → Nat
  | [] => 0
  | op :: rest => op.size + sizeAll rest

def place (offset : Nat) : List Operation → List Instruction
  | [] => []
  | op :: rest => ⟨offset, op.opcode, op.operand⟩ :: place (offset + op.size) rest

@[simp] theorem sizeAll_append (a b : List Operation) :
    sizeAll (a ++ b) = sizeAll a + sizeAll b := by
  induction a with
  | nil => simp [sizeAll]
  | cons op a ih => simp [sizeAll, ih]; omega

theorem place_append (offset : Nat) (a b : List Operation) :
    place offset (a ++ b) = place offset a ++ place (offset + sizeAll a) b := by
  induction a generalizing offset with
  | nil => simp [place, sizeAll]
  | cons op a ih => simp [place, sizeAll, ih, Nat.add_assoc]

theorem fits_none {opcode : Opcode} (h : opcode.operandWidth = 0) : Fits ⟨opcode, 0⟩ := by
  simp [Fits, h]

theorem fits_byte {opcode : Opcode} (h : opcode.operandWidth = 1) {operand : Nat}
    (hlt : operand < 256) : Fits ⟨opcode, operand⟩ := by
  simpa [Fits, h] using hlt

theorem fits_word {opcode : Opcode} (h : opcode.operandWidth = 2) {operand : Nat}
    (hlt : operand < 65536) : Fits ⟨opcode, operand⟩ := by
  simpa [Fits, h] using hlt

theorem toNat_ofNat_of_lt {n : Nat} (h : n < 256) : (UInt8.ofNat n).toNat = n := by
  rw [UInt8.toNat_ofNat']
  omega

theorem decode_bytes_append {op : Operation} (h : op.Fits) (offset : Nat) (rest : List UInt8) :
    Instruction.decode offset (op.bytes ++ rest) =
      (⟨offset, op.opcode, op.operand⟩ :: (Instruction.decode (offset + op.size) rest).1,
        (Instruction.decode (offset + op.size) rest).2) := by
  obtain ⟨opcode, operand⟩ := op
  have hw := opcode.operandWidth_le_two
  unfold Fits at h
  simp only [bytes, size] at h ⊢
  generalize hwidth : opcode.operandWidth = width at h hw ⊢
  rw [List.cons_append, Instruction.decode, Opcode.ofByte?_byte]
  match width with
  | 0 =>
    obtain rfl : operand = 0 := by simpa using h
    simp only [hwidth, List.nil_append]
  | 1 =>
    have hlt : operand < 256 := by simpa using h
    simp only [hwidth, List.cons_append, List.nil_append, toNat_ofNat_of_lt hlt]
  | 2 =>
    have hlt : operand < 65536 := by simpa using h
    have hlow : (UInt8.ofNat operand).toNat = operand % 256 := by
      rw [UInt8.toNat_ofNat']
    have hhigh := toNat_ofNat_of_lt (show operand / 256 < 256 by omega)
    have hsum : operand / 256 * 256 + operand % 256 = operand := by omega
    simp only [hwidth, List.cons_append, List.nil_append, hlow, hhigh, hsum]

theorem decode_assemble {ops : List Operation} (h : ∀ op ∈ ops, op.Fits) (offset : Nat) :
    Instruction.decode offset (assemble ops) = (place offset ops, none) := by
  induction ops generalizing offset with
  | nil => rfl
  | cons op ops ih =>
    have hop := h op (by simp)
    have hrest := ih (fun o ho => h o (by simp [ho])) (offset + op.size)
    simp only [assemble, List.flatMap_cons] at hrest ⊢
    rw [decode_bytes_append hop, hrest, place]

end Operation

namespace Instruction

theorem run_bind_eq_ok {α β : Type} {x : Recovering α} {f : α → Recovering β} {m m' : Machine}
    {b : β} (h : (x >>= f).run m = .ok b m') :
    ∃ a m₁, x.run m = .ok a m₁ ∧ (f a).run m₁ = .ok b m' := by
  change EStateM.bind x f m = _ at h
  unfold EStateM.bind at h
  split at h
  · rename_i a m₁ hx
    exact ⟨a, m₁, hx, h⟩
  · cases h

def Steps (instructions : List Instruction) (m m' : Machine) : Prop :=
  (instructions.forM step).run m = .ok () m'

theorem run_forM_cons (i : Instruction) (rest : List Instruction) (m : Machine) :
    ((i :: rest).forM step).run m =
      match i.step.run m with
      | .ok () m' => (rest.forM step).run m'
      | .error e m' => .error e m' := by
  show EStateM.bind (i.step) (fun _ => rest.forM step) m = _
  simp only [EStateM.bind, EStateM.run]
  cases i.step m <;> rfl

theorem Steps.nil (m : Machine) : Steps [] m m := rfl

theorem Steps.cons {i : Instruction} {rest : List Instruction} {m m₁ m₂ : Machine}
    (h : i.step.run m = .ok () m₁) (hrest : Steps rest m₁ m₂) : Steps (i :: rest) m m₂ := by
  unfold Steps
  rw [run_forM_cons, h]
  exact hrest

theorem Steps.uncons {i : Instruction} {rest : List Instruction} {m m' : Machine}
    (h : Steps (i :: rest) m m') : ∃ m₁, i.step.run m = .ok () m₁ ∧ Steps rest m₁ m' := by
  unfold Steps at h
  rw [run_forM_cons] at h
  split at h
  · rename_i m₁ hi
    exact ⟨m₁, hi, h⟩
  · cases h

theorem Steps.one {i : Instruction} {m m' : Machine} (h : i.step.run m = .ok () m') :
    Steps [i] m m' :=
  .cons h (.nil m')

theorem Steps.append {a b : List Instruction} {m m₁ m₂ : Machine} (ha : Steps a m m₁)
    (hb : Steps b m₁ m₂) : Steps (a ++ b) m m₂ := by
  induction a generalizing m with
  | nil =>
    cases ha
    exact hb
  | cons i a ih =>
    obtain ⟨m', hi, ha⟩ := ha.uncons
    exact .cons hi (ih ha)

theorem Steps.place_append {offset : Nat} {a b : List Operation} {m m₁ m₂ : Machine}
    (ha : Steps (Operation.place offset a) m m₁)
    (hb : Steps (Operation.place (offset + Operation.sizeAll a) b) m₁ m₂) :
    Steps (Operation.place offset (a ++ b)) m m₂ := by
  rw [Operation.place_append]
  exact ha.append hb

/-- Running the bytes of operations is running the operations at their places. -/
theorem run_assemble {ops : List Operation} (h : ∀ op ∈ ops, op.Fits) (offset : Nat)
    {m m' : Machine} (hs : Steps (Operation.place offset ops) m m') :
    (run offset (Operation.assemble ops)).run m = .ok () m' := by
  unfold Steps at hs
  simp only [EStateM.run] at hs
  simp only [run, Operation.decode_assemble h, EStateM.run, bind, EStateM.bind, hs]
  rfl

theorem steps_of_run {offset : Nat} {bytecode : List UInt8} {m m' : Machine}
    (h : (run offset bytecode).run m = .ok () m') : Steps (decode offset bytecode).1 m m' := by
  unfold run at h
  rcases hdecode : decode offset bytecode with ⟨instructions, stop⟩
  rw [hdecode] at h
  obtain ⟨_, m₁, hsteps, hstop⟩ := run_bind_eq_ok h
  cases stop with
  | some e => cases hstop
  | none =>
    cases hstop
    exact hsteps

end Instruction

end LingoSource
