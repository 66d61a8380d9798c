import LingoSource.Proofs.Program.Layout

/-!
Exits that are placed before any branch is made. The recovery makes an exit of a jump out of the loop
in front of the last statement of a part; in a first part that is followed by a jump over a second
one, that is the statement at the end.
-/
set_option autoImplicit false

namespace LingoSource

def settle (loopEnd? : Option Nat) (s : Statement) : Statement :=
  match s.node with
  | .jump origin address =>
    if leavesLoop loopEnd? address then ⟨s.position, .exitLoop origin⟩ else s
  | _ => s

def settleEnd (loopEnd? : Option Nat) : List Statement → List Statement
  | [] => []
  | [s] => [settle loopEnd? s]
  | s :: rest => s :: settleEnd loopEnd? rest

namespace Condition

variable {loopEnd? : Option Nat} {a b : List Statement} {s t : Statement}

theorem breakBeforeLast_pair : breakBeforeLast loopEnd? [s, t] = [settle loopEnd? s, t] := by
  obtain ⟨position, node⟩ := s
  cases node with
  | jump origin address =>
    cases hleaves : leavesLoop loopEnd? address <;> simp [breakBeforeLast, settle, hleaves]
  | _ => rfl

theorem breakBeforeLast_cons (h : 2 ≤ a.length) :
    breakBeforeLast loopEnd? (s :: a) = s :: breakBeforeLast loopEnd? a := by
  match a, h with
  | t :: u :: a, _ => simp [breakBeforeLast]

theorem breakBeforeLast_append (h : 2 ≤ b.length) :
    breakBeforeLast loopEnd? (a ++ b) = a ++ breakBeforeLast loopEnd? b := by
  induction a with
  | nil => rfl
  | cons s a ih =>
    rw [List.cons_append, breakBeforeLast_cons (by simp; omega), ih, List.cons_append]

theorem breakBeforeLast_concat :
    breakBeforeLast loopEnd? (a ++ [t]) = settleEnd loopEnd? a ++ [t] := by
  fun_induction settleEnd loopEnd? a with
  | case1 => rfl
  | case2 s => exact breakBeforeLast_pair
  | case3 s rest hne ih =>
    have : rest ≠ [] := fun h => hne h
    rw [List.cons_append, breakBeforeLast_cons, ih, List.cons_append]
    cases rest with
    | nil => exact absurd rfl this
    | cons => simp

theorem breakBeforeLast_cons_of_settle (h : settle loopEnd? s = s) :
    breakBeforeLast loopEnd? (s :: a) = s :: breakBeforeLast loopEnd? a := by
  match a with
  | [] => rfl
  | [t] => rw [breakBeforeLast_pair, h]; rfl
  | t :: u :: a => exact breakBeforeLast_cons (by simp)

theorem settleEnd_append (h : b ≠ []) : settleEnd loopEnd? (a ++ b) = a ++ settleEnd loopEnd? b := by
  induction a with
  | nil => rfl
  | cons s a ih =>
    rw [List.cons_append, settleEnd, ih, List.cons_append]
    simp [h]

theorem settleEnd_cons_of_settle (h : settle loopEnd? s = s) :
    settleEnd loopEnd? (s :: a) = s :: settleEnd loopEnd? a := by
  cases a with
  | nil => simp [settleEnd, h]
  | cons t a => exact settleEnd_append (a := [s]) (by simp)

end Condition

/-- Addresses up to `bound` stay in the loop, if there is one, and `behind` is behind it. -/
structure Region (loopEnd? : Option Nat) (inLoop : Bool) (behind bound : Nat) : Prop where
  stays : ∀ address ≤ bound, leavesLoop loopEnd? address = false
  leaves : inLoop = true → leavesLoop loopEnd? behind = true
  bound_le : inLoop = true → bound ≤ behind

theorem Region.settle_jump {loopEnd? : Option Nat} {inLoop : Bool} {behind bound : Nat}
    (r : Region loopEnd? inLoop behind bound) {position origin address : Nat}
    (h : address ≤ bound) :
    settle loopEnd? ⟨position, .jump origin address⟩ = ⟨position, .jump origin address⟩ := by
  simp [settle, r.stays address h]

theorem Placed.before_of_pos {count : Nat} (h : 0 < count) (p : Placed) (last : Bool) :
    p.before count = (Placed.mk last p.next).before count := by
  match count, h with
  | 1, _ => rfl
  | n + 2, _ => rfl

theorem Placed.last_before {count : Nat} (h : 0 < count) (p : Placed) :
    (p.before count).last = (p.next && count == 1) := by
  match count, h with
  | 1, _ => simp [before]
  | n + 2, _ => simp [before]

namespace Block

open Condition

theorem flat_pos (b : Block) : 0 < b.flat := by
  cases b <;> simp only [flat] <;> omega

theorem eq_nil_of_flatAll {blocks : List Block} (h : flatAll blocks = 0) : blocks = [] := by
  cases blocks with
  | nil => rfl
  | cons b rest =>
    have := b.flat_pos
    simp only [flatAll] at h
    omega

theorem flatAll_pos {blocks : List Block} (h : blocks ≠ []) : 0 < flatAll blocks :=
  Nat.pos_of_ne_zero (mt eq_nil_of_flatAll h)

variable {loopEnd? : Option Nat} {inLoop : Bool} {behind bound : Nat}

mutual

theorem settleEnd_raw (r : Region loopEnd? inLoop behind bound) (s : Scope) (p : Placed)
    (visits offset : Nat) :
    (b : Block) → b.WellFormed inLoop → offset + b.size ≤ bound →
      settleEnd loopEnd? (b.raw s behind p visits offset) =
        b.raw s behind ⟨true, p.next⟩ visits offset
  | call _, _, _ | tell _ _, _, _ | whileLess _ _ _, _, _ | counted _ _ _ _ _, _, _ => rfl
  | exitLoop, h, _ => by
    have hleaves := r.leaves h
    cases hlast : p.last <;> simp [raw, state, settleEnd, settle, hlast, hleaves]
  | ifThen condition thenPart, h, hbound => by
    have hsize : (ifThen condition thenPart).size = condition.size + 3 + sizeAll thenPart := rfl
    rw [raw_ifThen, raw_ifThen, settleEnd_cons_of_settle rfl,
      settleEnd_rawAll r s p visits _ thenPart h (by omega)]
  | ifElse condition thenPart elsePart, h, hbound => by
    have hsize : (ifElse condition thenPart elsePart).size =
      condition.size + 3 + sizeAll thenPart + 3 + sizeAll elsePart := rfl
    rw [raw_ifElse, raw_ifElse, settleEnd_cons_of_settle rfl, settleEnd_append (by simp),
      settleEnd_cons_of_settle (r.settle_jump (by omega)),
      settleEnd_rawAll r s p visits _ elsePart h.2.2 (by omega)]

theorem settleEnd_rawAll (r : Region loopEnd? inLoop behind bound) (s : Scope) (p : Placed)
    (visits offset : Nat) :
    (blocks : List Block) → WellFormedAll inLoop blocks → offset + sizeAll blocks ≤ bound →
      settleEnd loopEnd? (rawAll s behind p visits offset blocks) =
        rawAll s behind ⟨true, p.next⟩ visits offset blocks
  | [], _, _ => rfl
  | b :: rest, h, hbound => by
    simp only [sizeAll] at hbound
    have hb := settleEnd_raw r s p visits offset b h.1 (by omega)
    have hrest := settleEnd_rawAll r s p visits (offset + b.size) rest h.2 (by omega)
    rw [rawAll_cons, rawAll_cons]
    by_cases hnil : rest = []
    · subst hnil
      simpa [flatAll, Placed.before] using hb
    · rw [settleEnd_append (mt (rawAll_eq_nil s behind p visits (offset + b.size)).1 hnil), hrest,
        Placed.before_of_pos (flatAll_pos hnil) p true]

end

mutual

theorem breakBeforeLast_raw (r : Region loopEnd? inLoop behind bound) (s : Scope) (p : Placed)
    (visits offset : Nat) :
    (b : Block) → b.WellFormed inLoop → offset + b.size ≤ bound →
      breakBeforeLast loopEnd? (b.raw s behind p visits offset) =
        b.raw s behind ⟨p.last, true⟩ visits offset
  | call _, _, _ | exitLoop, _, _ | tell _ _, _, _ | whileLess _ _ _, _, _
  | counted _ _ _ _ _, _, _ => rfl
  | ifThen condition thenPart, h, hbound => by
    have hsize : (ifThen condition thenPart).size = condition.size + 3 + sizeAll thenPart := rfl
    rw [raw_ifThen, raw_ifThen, breakBeforeLast_cons_of_settle rfl,
      breakBeforeLast_rawAll r s p visits _ thenPart h (by omega)]
  | ifElse condition thenPart elsePart, h, hbound => by
    have hsize : (ifElse condition thenPart elsePart).size =
      condition.size + 3 + sizeAll thenPart + 3 + sizeAll elsePart := rfl
    have hne := List.length_pos_iff.2 (mt (rawAll_eq_nil s behind p visits
      (offset + condition.size + 3 + sizeAll thenPart + 3)).1 h.1)
    rw [raw_ifElse, raw_ifElse, breakBeforeLast_cons_of_settle rfl,
      breakBeforeLast_append (by rw [List.length_cons]; omega),
      breakBeforeLast_cons_of_settle (r.settle_jump (by omega)),
      breakBeforeLast_rawAll r s p visits _ elsePart h.2.2 (by omega)]

theorem breakBeforeLast_rawAll (r : Region loopEnd? inLoop behind bound) (s : Scope) (p : Placed)
    (visits offset : Nat) :
    (blocks : List Block) → WellFormedAll inLoop blocks → offset + sizeAll blocks ≤ bound →
      breakBeforeLast loopEnd? (rawAll s behind p visits offset blocks) =
        rawAll s behind ⟨p.last, true⟩ visits offset blocks
  | [], _, _ => rfl
  | b :: rest, h, hbound => by
    simp only [sizeAll] at hbound
    have hb := breakBeforeLast_raw r s p visits offset b h.1 (by omega)
    have hend := settleEnd_raw r s { last := p.next } visits offset b h.1 (by omega)
    have hrest := breakBeforeLast_rawAll r s p visits (offset + b.size) rest h.2 (by omega)
    have hlength := length_rawAll s behind visits p (offset + b.size) rest
    rw [rawAll_cons, rawAll_cons]
    -- which statement is placed depends on how many follow the block
    match hflat : flatAll rest with
    | 0 =>
      obtain rfl := eq_nil_of_flatAll hflat
      simpa [Placed.before] using hb
    | 1 =>
      obtain ⟨t, ht⟩ := List.length_eq_one_iff.1 (hlength.trans hflat)
      rw [ht] at hrest ⊢
      rw [breakBeforeLast_concat, ← hrest]
      simp only [Placed.before, hend]
      rfl
    | n + 2 =>
      rw [breakBeforeLast_append (by omega), hrest]
      rfl

end

/-- In front of the jump over a second part the exit at the end of the first one is placed. -/
theorem breakBeforeLast_rawAll_concat (r : Region loopEnd? inLoop behind bound) (s : Scope)
    (p : Placed) (visits offset : Nat) {blocks : List Block} (h : WellFormedAll inLoop blocks)
    (hbound : offset + sizeAll blocks ≤ bound) (t : Statement) :
    breakBeforeLast loopEnd? (rawAll s behind p visits offset blocks ++ [t]) =
      rawAll s behind ⟨true, p.next⟩ visits offset blocks ++ [t] := by
  rw [breakBeforeLast_concat, settleEnd_rawAll r s p visits offset blocks h hbound]

end Block

end LingoSource
