import LingoSource.Proofs.Flow.Rewriting
import LingoSource.Proofs.Instruction.Change
import LingoSource.Proofs.Loop.Recognition

set_option autoImplicit false

namespace LingoSource

mutual

def Node.jumps (position : Nat) : Node → List (Nat × Nat)
  | .jump _ address | .jumpUnless _ _ address => [(position, address)]
  | .loop _ _ _ _ _ body | .tell _ _ body => Statement.jumps body
  | .branch _ _ thenBody elseBody => Statement.jumps thenBody ++ Statement.jumps elseBody
  | _ => []

def Statement.jumps : List Statement → List (Nat × Nat)
  | [] => []
  | ⟨position, node⟩ :: rest => node.jumps position ++ Statement.jumps rest

end

namespace Statement

theorem jumps_cons (s : Statement) (rest : List Statement) :
    jumps (s :: rest) = s.node.jumps s.position ++ jumps rest := by
  obtain ⟨position, node⟩ := s
  rw [jumps]

@[simp] theorem jumps_append (a b : List Statement) : jumps (a ++ b) = jumps a ++ jumps b := by
  induction a with
  | nil => simp [jumps]
  | cons s a ih => simp [jumps_cons, ih]

theorem jumps_filter_sublist (p : Statement → Bool) (statements : List Statement) :
    (jumps (statements.filter p)).Sublist (jumps statements) := by
  induction statements with
  | nil => simp
  | cons s rest ih =>
    rw [List.filter_cons, jumps_cons]
    split
    · rw [jumps_cons]
      exact (List.Sublist.refl _).append ih
    · exact List.sublist_append_of_sublist_right ih

end Statement

mutual

theorem Exit.jumpIn?_eq (position : Nat) :
    (node : Node) → jumpIn? position node = (node.jumps position).head?
  | .jump .. | .jumpUnless .. => by simp [jumpIn?, Node.jumps]
  | .loop _ _ _ _ _ body | .tell _ _ body => by
    rw [jumpIn?, Node.jumps, firstJump?_eq]
  | .branch _ _ thenBody elseBody => by
    rw [jumpIn?, Node.jumps, firstJump?_eq, firstJump?_eq, List.head?_append]
  | .leaf .. | .unary .. | .binary .. | .assign .. | .put .. | .chunk .. | .chunkRange ..
  | .aspect .. | .property .. | .builtinProperty .. | .menuItemOf .. | .menuItemsOf ..
  | .arguments .. | .list .. | .propertyList .. | .call .. | .methodCall ..
  | .exitLoop .. => by simp [jumpIn?, Node.jumps]

theorem Exit.firstJump?_eq :
    (statements : List Statement) → firstJump? statements = (Statement.jumps statements).head?
  | [] => by simp [firstJump?, Statement.jumps]
  | ⟨position, node⟩ :: rest => by
    rw [firstJump?, Statement.jumps, jumpIn?_eq, firstJump?_eq, List.head?_append]

end

namespace Statement

variable {loopEnd? : Option Nat} {a b : List Statement}

theorem Rewrites.jumps_sublist (h : Rewrites loopEnd? a b) : (jumps b).Sublist (jumps a) := by
  induction h with
  | refl => exact .refl _
  | trans _ _ ih ih' => exact ih'.trans ih
  | append _ _ ih ih' => simpa using ih.append ih'
  | loop _ _ _ _ _ _ _ ih => simpa [jumps, Node.jumps] using ih
  | tell _ _ _ _ ih => simpa [jumps, Node.jumps] using ih
  | branch _ _ _ _ _ ih ih' => simpa [jumps, Node.jumps] using ih.append ih'
  | exit => simp [jumps, Node.jumps]
  | exitUnless => simp [jumps, Node.jumps]
  | oneWay => simp [jumps, Node.jumps]
  | twoWay => simp [jumps, Node.jumps]

theorem Recognizes.jumps_sublist {found : Bool} (h : Recognizes found a b) :
    (jumps b).Sublist (jumps a) := by
  induction h with
  | refl => exact .refl _
  | trans _ _ ih ih' => exact ih'.trans ih
  | append _ _ ih ih' => simpa using ih.append ih'
  | loop _ _ _ _ _ _ _ ih => simpa [jumps, Node.jumps] using ih
  | tell _ _ _ _ ih => simpa [jumps, Node.jumps] using ih
  | branch _ _ _ _ _ ih ih' => simpa [jumps, Node.jumps] using ih.append ih'
  | whileCondition => simp [jumps, jumps_cons, Node.jumps]
  | counted => simp [jumps, jumps_cons, Node.jumps]
  | each => simp [jumps, jumps_cons, Node.jumps]

theorem jumps_structured_sublist (statements : List Statement) :
    (jumps (structured statements)).Sublist (jumps statements) := by
  obtain ⟨found, hrecognizes⟩ := Loop.recognizes_recover (Condition.recover none statements)
  exact (Exit.rewrites_recover none _).jumps_sublist.trans
    (hrecognizes.jumps_sublist.trans (Condition.rewrites_recover none statements).jumps_sublist)

theorem mem_jumps_of_recoverFlow {statements : List Statement} {e : RecoveryError}
    (h : recoverFlow statements = .error e) :
    ∃ position address, e = .unresolvedJump position address ∧
      (position, address) ∈ jumps statements := by
  unfold recoverFlow Exit.check at h
  cases hjump : Exit.firstJump? (structured statements) with
  | none => simp only [hjump] at h; cases h
  | some jump =>
    simp only [hjump] at h
    cases h
    rw [Exit.firstJump?_eq] at hjump
    exact ⟨_, _, rfl, (jumps_structured_sublist statements).subset (List.mem_of_head? hjump)⟩

end Statement

namespace Instruction

def Jumps (i : Instruction) (jump : Nat × Nat) : Prop :=
  (i.opcode = .jmp ∨ i.opcode = .jmpIfZ) ∧ jump = (i.offset, i.offset + i.operand)

variable {i : Instruction}

theorem Writes.jumps {node : Node} (h : i.Writes node) :
    ∀ jump ∈ node.jumps i.offset, i.Jumps jump := by
  cases h with
  | jump h => simp [Node.jumps, Jumps, h]
  | jumpUnless h => simp [Node.jumps, Jumps, h]
  | _ => simp [Node.jumps, Statement.jumps]

theorem Change.jumps {m m' : Machine} (h : i.Change m m') {jump : Nat × Nat}
    (hjump : jump ∈ Statement.jumps m'.function.statements) :
    jump ∈ Statement.jumps m.function.statements ∨ i.Jumps jump := by
  induction h with
  | refl | stack | descale | openTell | closeTell => exact .inl hjump
  | trans _ _ ih ih' => exact (ih' hjump).elim ih .inr
  | declareGlobal m name => exact .inl (by simpa using hjump)
  | emit m h =>
    simp only [Statement.jumps_append, List.mem_append, Statement.jumps, List.append_nil] at hjump
    exact hjump.imp_right (h.jumps jump)
  | fillTell h m hstatements =>
    rw [hstatements]
    exact .inl (by simpa [Statement.jumps_cons, Statement.jumps, Node.jumps] using hjump)
  | closeLoop h m start =>
    simp only [Statement.jumps_append, List.mem_append, Statement.jumps, Node.jumps,
      List.append_nil] at hjump
    exact .inl (hjump.elim ((Statement.jumps_filter_sublist _ _).subset ·)
      ((Statement.jumps_filter_sublist _ _).subset ·))

theorem jumps_of_steps {instructions : List Instruction} {m m' : Machine}
    (h : Steps instructions m m') {jump : Nat × Nat}
    (hjump : jump ∈ Statement.jumps m'.function.statements) :
    jump ∈ Statement.jumps m.function.statements ∨ ∃ i ∈ instructions, i.Jumps jump := by
  induction instructions generalizing m with
  | nil =>
    cases h
    exact .inl hjump
  | cons i rest ih =>
    obtain ⟨m₁, hi, hrest⟩ := h.uncons
    have hstep := respects_step i m
    rw [hi] at hstep
    cases hstep with
    | ok hchange =>
      rcases ih hrest with hold | ⟨j, hj, hjumps⟩
      · exact (hchange.jumps hold).imp_right fun h => ⟨i, by simp, h⟩
      · exact .inr ⟨j, by simp [hj], hjumps⟩

end Instruction

end LingoSource
