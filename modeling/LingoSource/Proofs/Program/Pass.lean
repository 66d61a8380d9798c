import LingoSource.Proofs.Program.Placing

set_option autoImplicit false

namespace LingoSource

open Statement

/-- No body to go through, and no condition. -/
def Statement.Inert (s : Statement) : Prop :=
  match s.node with
  | .loop .. | .tell .. | .jumpUnless .. => False
  | _ => True

theorem Statement.Inert.not_conditional {s : Statement} (h : s.Inert) :
    s.node.isConditional = false := by
  obtain ⟨position, node⟩ := s
  cases node <;> first | rfl | exact h.elim

structure Tail (start stop : Nat) (tail : List Statement) : Prop extends Span start stop tail where
  inert : ∀ t ∈ tail, t.Inert

theorem Tail.nil (start stop : Nat) : Tail start stop [] :=
  ⟨.nil start stop, by simp⟩

theorem Tail.mono {start stop lower upper : Nat} {tail : List Statement} (h : Tail start stop tail)
    (hlower : lower ≤ start) (hupper : stop ≤ upper) : Tail lower upper tail :=
  ⟨h.toSpan.mono hlower hupper, h.inert⟩

theorem Tail.singleton {start stop : Nat} {t : Statement} (hstart : start ≤ t.position)
    (hstop : t.position < stop) (h : t.Inert) : Tail start stop [t] :=
  ⟨.singleton hstart hstop, by simpa using h⟩

namespace Condition

variable {loopEnd? : Option Nat}

theorem inside_of_inert {s : Statement} (h : s.Inert) : inside recover loopEnd? s = s := by
  obtain ⟨position, node⟩ := s
  cases node <;> first | rfl | exact h.elim

theorem map_inside_tail {start stop : Nat} {tail : List Statement} (h : Tail start stop tail) :
    tail.map (inside recover loopEnd?) = tail := by
  have hid : ∀ t ∈ tail, inside recover loopEnd? t = id t := fun t ht =>
    inside_of_inert (h.inert t ht)
  rw [List.map_congr_left hid, List.map_id]

theorem branches_inert_cons {s : Statement} {rest : List Statement} (hs : s.Inert)
    (h : Increasing (s :: rest)) : branches loopEnd? (s :: rest) = s :: branches loopEnd? rest := by
  refine branches_cons loopEnd? h fun origin condition address hnode => ?_
  simp [Inert, hnode] at hs

theorem branches_tail {start stop : Nat} {tail : List Statement} (h : Tail start stop tail) :
    branches loopEnd? tail = tail :=
  branches_of_not_conditional fun t ht => (h.inert t ht).not_conditional

theorem branches_append {before rest : List Statement} (h : Increasing (before ++ rest))
    (hbefore : ∀ s ∈ before, ∀ origin condition address,
      s.node ≠ .jumpUnless origin condition address) :
    branches loopEnd? (before ++ rest) = before ++ branches loopEnd? rest := by
  induction before with
  | nil => rfl
  | cons s before ih =>
    rw [List.cons_append] at h ⊢
    rw [branches_cons loopEnd? h (hbefore s (by simp)), ih (List.pairwise_cons.1 h).2 fun t ht =>
      hbefore t (by simp [ht]), List.cons_append]

theorem lift_settleLast {inLoop : Bool} {behind bound position origin address : Nat}
    {condition : Node} {thenPart thenBody rest : List Statement}
    (r : Region loopEnd? inLoop behind bound) (hbound : address ≤ bound)
    (hthen : Below address thenPart) (hrest : From address rest)
    (hbody : recover loopEnd? (breakBeforeLast loopEnd? thenPart) = thenBody)
    (hends : EndsTo inLoop behind thenBody) :
    lift (recover loopEnd?) loopEnd?
        (⟨position, .jumpUnless origin condition address⟩ :: (thenPart ++ rest)) position =
      ⟨position, .branch origin condition (settleLast thenBody) []⟩ :: rest := by
  have hstays := r.stays address hbound
  subst hbody
  unfold settleLast
  cases hjump : lastJump? (recover loopEnd? (breakBeforeLast loopEnd? thenPart)) with
  | none => exact lift_then hstays hthen hrest hjump
  | some found =>
    obtain ⟨jump, target⟩ := found
    obtain ⟨-, position', origin', hnode, -⟩ := eq_of_lastJump? hjump
    obtain ⟨hloop, rfl, -⟩ := (hends jump (getLast?_of_lastJump? hjump)).1 origin' target (by rw [hnode])
    exact lift_then_exit hstays hthen hrest hjump (r.leaves hloop)

end Condition

namespace Block

open Condition

/-- What one time through statements does to them: first their loops are visited, then the branches
of the next segment are made. -/
structure Treats (blocks : List Block) : Prop where
  visit : ∀ {loopEnd? : Option Nat} {inLoop : Bool} {behind bound : Nat}
    (_ : Region loopEnd? inLoop behind bound) (s : Scope) (p : Placed)
    (earlier passes visits segment offset : Nat), WellFormedAll inLoop blocks →
    offset + sizeAll blocks ≤ bound →
    (stateAll s behind p earlier passes visits segment offset blocks).map
        (inside recover loopEnd?) =
      stateAll s behind p earlier passes (visits + 1) segment offset blocks
  make : ∀ {loopEnd? : Option Nat} {inLoop : Bool} {behind bound : Nat}
    (_ : Region loopEnd? inLoop behind bound) (s : Scope) (p : Placed)
    (earlier passes segment offset : Nat) (tail : List Statement), segment ≤ passes + 1 →
    WellFormedAll inLoop blocks → offset + sizeAll blocks ≤ bound →
    Tail (offset + sizeAll blocks) bound tail →
    branches loopEnd?
        (stateAll s behind p earlier passes (earlier + passes + 1) segment offset blocks ++ tail) =
      stateAll s behind p earlier (passes + 1) (earlier + passes + 1) segment offset blocks ++ tail

theorem Treats.recover_eq {blocks : List Block} (h : Treats blocks) {loopEnd? : Option Nat}
    {inLoop : Bool} {behind bound : Nat} (r : Region loopEnd? inLoop behind bound) (s : Scope)
    (p : Placed) (earlier passes offset : Nat) {tail : List Statement}
    (hwf : WellFormedAll inLoop blocks) (hbound : offset + sizeAll blocks ≤ bound)
    (htail : Tail (offset + sizeAll blocks) bound tail) :
    recover loopEnd?
        (stateAll s behind p earlier passes (earlier + passes) 1 offset blocks ++ tail) =
      stateAll s behind p earlier (passes + 1) (earlier + passes + 1) 1 offset blocks ++ tail := by
  rw [recover_eq_branches, List.map_append, h.visit r s p _ _ _ _ _ hwf hbound,
    map_inside_tail htail]
  exact h.make r s p earlier passes 1 offset tail (by omega) hwf hbound htail

theorem Treats.recover_rawAll {blocks : List Block} (h : Treats blocks) {loopEnd? : Option Nat}
    {inLoop : Bool} {behind bound : Nat} (r : Region loopEnd? inLoop behind bound) (s : Scope)
    (p : Placed) (visits offset : Nat) {tail : List Statement}
    (hwf : WellFormedAll inLoop blocks) (hbound : offset + sizeAll blocks ≤ bound)
    (htail : Tail (offset + sizeAll blocks) bound tail) :
    recover loopEnd? (rawAll s behind p visits offset blocks ++ tail) =
      stateAll s behind p visits 1 (visits + 1) 1 offset blocks ++ tail := by
  have hraw := stateAll_of_lt s behind p visits 0 visits 1 offset Nat.one_pos blocks
  rw [← hraw]
  exact h.recover_eq r s p visits 0 offset hwf hbound htail

theorem region_loop (stop : Nat) : Region (some stop) true (stop + 2) stop :=
  ⟨fun address h => by simpa [leavesLoop] using h, fun _ => by simp [leavesLoop],
    fun _ => by omega⟩

theorem Treats.recover_loopBody {body : List Block} (h : Treats body) (s : Scope)
    (visits start stop offset : Nat) (condition : Node) {tail : List Statement}
    (hwf : WellFormedAll true body) (hstart : start < offset)
    (hbound : offset + sizeAll body ≤ stop) (htail : Tail (offset + sizeAll body) stop tail) :
    recover (some stop) (testStatement visits start condition (stop + 2) ::
        (stateAll s (stop + 2) {} 0 visits visits 1 offset body ++ tail)) =
      testStatement (visits + 1) start condition (stop + 2) ::
        (stateAll s (stop + 2) {} 0 (visits + 1) (visits + 1) 1 offset body ++ tail) := by
  have hvisit := h.visit (region_loop stop) s {} 0 visits visits 1 offset hwf hbound
  have hmake := h.make (region_loop stop) s {} 0 visits 1 offset tail (by omega) hwf hbound htail
  have hinside : inside recover (some stop) (testStatement visits start condition (stop + 2)) =
      testStatement visits start condition (stop + 2) := by
    cases visits <;> rfl
  have hspan := (span_stateAll s (stop + 2) {} 0 visits (visits + 1) 1 offset body).append
    htail.toSpan (by omega) hbound
  have hinc : Increasing (testStatement visits start condition (stop + 2) ::
      (stateAll s (stop + 2) {} 0 visits (visits + 1) 1 offset body ++ tail)) := by
    refine (Span.cons offset hspan (Nat.zero_le _) ?_ (by omega)).increasing
    cases visits <;> exact hstart
  rw [Nat.zero_add] at hmake
  rw [recover_eq_branches, List.map_cons, List.map_append, hinside, hvisit, map_inside_tail htail]
  cases visits with
  | zero =>
    rw [testStatement, branches_leaving ((region_loop stop).leaves rfl) hinc, hmake]
    rfl
  | succ visits =>
    have hinert : (testStatement (visits + 1) start condition (stop + 2)).Inert := trivial
    rw [branches_inert_cons hinert hinc, hmake]
    rfl

def PartsTreated : Block → Prop
  | ifThen _ thenPart => Treats thenPart
  | ifElse _ thenPart elsePart => Treats thenPart ∧ Treats elsePart
  | tell _ body | whileLess _ _ body | counted _ _ _ _ body => Treats body
  | _ => True

theorem map_inside_state {loopEnd? : Option Nat} {inLoop : Bool} {behind bound : Nat}
    (r : Region loopEnd? inLoop behind bound) (s : Scope) (p : Placed)
    (earlier passes visits segment offset : Nat) (b : Block) (h : b.PartsTreated)
    (hwf : b.WellFormed inLoop) (hbound : offset + b.size ≤ bound) :
    (b.state s behind p earlier passes visits segment offset).map (inside recover loopEnd?) =
      b.state s behind p earlier passes (visits + 1) segment offset := by
  cases b with
  | call name => rfl
  | exitLoop => cases hlast : p.last <;> simp [state, hlast, inside]
  | ifThen condition thenPart =>
    simp only [size] at hbound
    have hthen := h.visit r s p 0 0 visits 1 (offset + condition.size + 3) hwf (by omega)
    simp only [state]
    split
    · rfl
    · rw [List.map_cons, hthen]
      rfl
  | ifElse condition thenPart elsePart =>
    simp only [size] at hbound
    have hthen := h.1.visit r s {} 0 0 visits 1 (offset + condition.size + 3) hwf.2.1 (by omega)
    have helse := h.2.visit r s p 0 0 visits 1
      (offset + condition.size + 3 + sizeAll thenPart + 3) hwf.2.2 (by omega)
    simp only [state]
    split
    · rfl
    · rw [List.map_cons, List.map_append, List.map_cons, hthen, helse]
      rfl
  | tell target body =>
    simp only [size] at hbound
    have hbody := h.recover_eq r s {} 0 visits (offset + 3) hwf (by omega) (Tail.nil _ _)
    simp only [List.append_nil, Nat.zero_add] at hbody
    simp only [state, List.map_cons, List.map_nil, inside, hbody]
  | whileLess index bound body =>
    have hbody := h.recover_loopBody s visits (offset + 5) (offset + 8 + sizeAll body) (offset + 8)
      (testNode s offset index .lt bound) hwf (by omega) (by omega) (Tail.nil _ _)
    simp only [List.append_nil] at hbody
    simp only [state, loopStatement, List.map_cons, List.map_nil, inside, hbody]
  | counted index first last up body =>
    have hbody := h.recover_loopBody s visits (offset + 4 + 5) (offset + 4 + 8 + sizeAll body + 7)
      (offset + 4 + 8) (testNode s (offset + 4) index (comparison up) last) hwf (by omega) (by omega)
      (Tail.singleton (t := stepStatement s (offset + 4 + 8 + sizeAll body) index up)
        (by simp [stepStatement]) (by simp [stepStatement]) trivial)
    simp only [state, loopStatement, List.map_cons, List.map_nil, inside, hbody]

def Pending (passes segment : Nat) : Block → Prop
  | ifThen .. | ifElse .. => passes < segment
  | _ => False

instance (passes segment : Nat) (b : Block) : Decidable (b.Pending passes segment) := by
  cases b <;> unfold Pending <;> infer_instance

theorem nextSegment_le (next : Bool) (segment : Nat) (b : Block) (rest : List Block) :
    b.nextSegment next segment rest ≤ segment + 1 := by
  unfold nextSegment
  split <;> omega

section Make

variable {loopEnd? : Option Nat} {inLoop : Bool} {behind bound : Nat}
  (r : Region loopEnd? inLoop behind bound) (s : Scope) (p : Placed)
  {earlier passes segment offset : Nat} {tail : List Statement} {rest : List Block}

include r

theorem make_of_not_pending {b : Block} (hpending : ¬ b.Pending passes segment)
    (hrest : Treats rest) (hsegment : segment ≤ passes + 1)
    (hwf : WellFormedAll inLoop (b :: rest)) (hbound : offset + sizeAll (b :: rest) ≤ bound)
    (htail : Tail (offset + sizeAll (b :: rest)) bound tail) :
    branches loopEnd?
        (stateAll s behind p earlier passes (earlier + passes + 1) segment offset (b :: rest) ++
          tail) =
      stateAll s behind p earlier (passes + 1) (earlier + passes + 1) segment offset (b :: rest) ++
        tail := by
  have hsame : b.state s behind (p.before (flatAll rest)) earlier passes (earlier + passes + 1)
      segment offset = b.state s behind (p.before (flatAll rest)) earlier (passes + 1)
        (earlier + passes + 1) segment offset := by
    cases b <;> simp only [Pending, Nat.not_lt] at hpending <;> try rfl
    all_goals simp only [state, hpending, Nat.le_succ_of_le hpending, if_true]
  have hnone : ∀ x ∈ b.state s behind (p.before (flatAll rest)) earlier passes
      (earlier + passes + 1) segment offset, ∀ origin condition address,
      x.node ≠ .jumpUnless origin condition address := by
    cases b <;> simp only [Pending, Nat.not_lt] at hpending <;>
      simp [state, hpending, loopStatement]
    split <;> simp
  have hnext : b.nextSegment p.next segment rest ≤ passes + 1 := by
    cases b <;> simp only [Pending, Nat.not_lt] at hpending
    case ifThen => exact Nat.le_trans (nextSegment_le _ _ _ _) (by omega)
    case ifElse => exact Nat.le_trans (nextSegment_le _ _ _ _) (by omega)
    all_goals exact hsegment
  rw [sizeAll, ← Nat.add_assoc] at hbound htail
  have hmake := hrest.make r s p earlier passes (b.nextSegment p.next segment rest)
    (offset + b.size) tail hnext hwf.2 hbound htail
  have hspan := (span_stateAll s behind p earlier passes (earlier + passes + 1)
    (b.nextSegment p.next segment rest) (offset + b.size) rest).append htail.toSpan (by omega) hbound
  have hinc := ((span_state s behind (p.before (flatAll rest)) earlier passes
    (earlier + passes + 1) segment offset b).append hspan (by omega) (by omega)).increasing
  rw [stateAll, stateAll, List.append_assoc, branches_append hinc hnone, hmake, hsame,
    List.append_assoc]

/-- The branches behind a branch that is made in this time through the list. -/
theorem make_behind {b : Block} (hrest : Treats rest) (hwf : WellFormedAll inLoop rest)
    (hbound : offset + sizeAll rest ≤ bound) (htail : Tail (offset + sizeAll rest) bound tail)
    {position : Nat} (branch : Node) (hposition : position < offset) {jump? : Option Nat}
    (hjump : rest ≠ [] → jump? = if b.endsSegment p.next rest then some behind else none)
    (hloop : jump?.isSome → inLoop = true) :
    (heads loopEnd? {} (unpassed jump? (stateAll s behind p earlier passes (earlier + passes + 1)
          (b.nextSegment p.next (passes + 1) rest) offset rest ++ tail))).foldl
        (lift (recover loopEnd?) loopEnd?)
        (⟨position, branch⟩ :: (stateAll s behind p earlier passes (earlier + passes + 1)
          (b.nextSegment p.next (passes + 1) rest) offset rest ++ tail)) =
      ⟨position, branch⟩ :: (stateAll s behind p earlier (passes + 1) (earlier + passes + 1)
        (b.nextSegment p.next (passes + 1) rest) offset rest ++ tail) := by
  by_cases hnil : rest = []
  · subst hnil
    obtain ⟨passed, hpassed⟩ := unpassed_suffix jump? tail
    have hnone : ∀ t ∈ unpassed jump? tail, t.node.isConditional = false := fun t ht =>
      (htail.inert t (by rw [hpassed]; exact List.mem_append_right _ ht)).not_conditional
    simp only [stateAll, List.nil_append, heads_of_not_conditional hnone, List.foldl_nil]
  · have hjump := hjump hnil
    have hspan := (span_stateAll s behind p earlier passes (earlier + passes + 1)
      (b.nextSegment p.next (passes + 1) rest) offset rest).append htail.toSpan (by omega) hbound
    unfold nextSegment at hspan ⊢
    cases hends : b.endsSegment p.next rest with
    | false =>
      simp only [hends, Bool.false_eq_true, if_false] at hjump hspan ⊢
      rw [hjump, unpassed, ← hrest.make r s p earlier passes (passes + 1) offset tail
        (Nat.le_refl _) hwf hbound htail]
      refine foldl_heads_append loopEnd? [⟨position, branch⟩] fun t ht u hu => ?_
      obtain rfl := List.mem_singleton.1 ht
      exact Nat.lt_of_lt_of_le hposition (hspan.start_le u hu)
    | true =>
      -- the scan takes the exit for a jump over all that follows
      simp only [hends, if_true] at hjump hspan ⊢
      have hle := r.bound_le (hloop (by rw [hjump]; rfl))
      have hall := hspan.lt_stop.mono hle
      have hsame := (stateAll_of_lt s behind p earlier passes (earlier + passes + 1)
        (passes + 1 + 1) offset (by omega) rest).trans (stateAll_of_lt s behind p earlier
          (passes + 1) (earlier + passes + 1) (passes + 1 + 1) offset (by omega) rest).symm
      rw [hjump, unpassed_of_below hall, hsame]
      rfl

/-- A branch without a second part. What of the list behind it is scanned depends on what its part
ends with. -/
theorem branches_ifThen (visits position start : Nat) (condition : Node) {thenPart : List Block}
    {behindPart : List Statement} (hthen : Treats thenPart) (hwf : WellFormedAll inLoop thenPart)
    (hposition : position < start) (hbound : start + sizeAll thenPart ≤ bound)
    (hspan : Span (start + sizeAll thenPart) bound behindPart) :
    branches loopEnd?
        (⟨position, .jumpUnless position condition (start + sizeAll thenPart)⟩ ::
          (rawAll s behind p visits start thenPart ++ behindPart)) =
      (heads loopEnd? {} (unpassed (if endsWithExitAll thenPart && !p.last then some behind else none)
        behindPart)).foldl (lift (recover loopEnd?) loopEnd?)
        (⟨position, .branch position condition
          (settleLast (stateAll s behind ⟨p.last, true⟩ visits 1 (visits + 1) 1 start thenPart))
          []⟩ :: behindPart) := by
  have hpart := span_rawAll s behind p visits start thenPart
  have hbody : recover loopEnd? (breakBeforeLast loopEnd? (rawAll s behind p visits start thenPart)) =
      stateAll s behind ⟨p.last, true⟩ visits 1 (visits + 1) 1 start thenPart := by
    have hrecover := hthen.recover_rawAll r s ⟨p.last, true⟩ visits start hwf hbound (Tail.nil _ _)
    rw [breakBeforeLast_rawAll r s p _ _ thenPart hwf hbound]
    simpa using hrecover
  have hinc : Increasing (⟨position, .jumpUnless position condition (start + sizeAll thenPart)⟩ ::
      (rawAll s behind p visits start thenPart ++ behindPart)) :=
    (Span.cons start (hpart.append hspan (by omega) hbound) (Nat.zero_le _) hposition
      (by omega)).increasing
  rw [branches_head (r.stays _ hbound) hpart.lt_stop hspan.start_le hinc,
    ← endJump?_rawAll s behind visits p start thenPart hwf,
    lift_settleLast r hbound hpart.lt_stop hspan.start_le hbody
      (endsTo_stateAll s behind _ _ _ _ _ _ thenPart hwf)]

theorem branches_ifElse (visits position start cross : Nat) (condition : Node)
    {thenPart elsePart : List Block} {behindPart : List Statement} (hthen : Treats thenPart)
    (helse : Treats elsePart) (hwf : WellFormedAll inLoop thenPart)
    (hwfElse : WellFormedAll inLoop elsePart) (hne : elsePart ≠ []) (hposition : position < start)
    (hcross : cross = start + sizeAll thenPart) (hbound : cross + 3 + sizeAll elsePart ≤ bound)
    (hspan : Span (cross + 3 + sizeAll elsePart) bound behindPart) :
    branches loopEnd?
        (⟨position, .jumpUnless position condition (cross + 3)⟩ ::
          (rawAll s behind {} visits start thenPart ++
            ⟨cross, .jump cross (cross + 3 + sizeAll elsePart)⟩ ::
              (rawAll s behind p visits (cross + 3) elsePart ++ behindPart))) =
      ⟨position, .branch position condition
        (stateAll s behind ⟨true, false⟩ visits 1 (visits + 1) 1 start thenPart)
        (stateAll s behind ⟨p.last, true⟩ visits 1 (visits + 1) 1 (cross + 3) elsePart)⟩ ::
          branches loopEnd? behindPart := by
  subst hcross
  have hjump : Tail (start + sizeAll thenPart) (start + sizeAll thenPart + 3)
      [⟨start + sizeAll thenPart, .jump (start + sizeAll thenPart)
        (start + sizeAll thenPart + 3 + sizeAll elsePart)⟩] :=
    .singleton (Nat.le_refl _) (by simp) trivial
  have hthenSpan := (span_rawAll s behind {} visits start thenPart).append hjump.toSpan
    (by omega) (by omega)
  have helseSpan := span_rawAll s behind p visits (start + sizeAll thenPart + 3) elsePart
  have hrest := helseSpan.append hspan (by omega) hbound
  have hinc : Increasing (⟨position, .jumpUnless position condition
      (start + sizeAll thenPart + 3)⟩ :: (rawAll s behind {} visits start thenPart ++
        [⟨start + sizeAll thenPart, .jump (start + sizeAll thenPart)
          (start + sizeAll thenPart + 3 + sizeAll elsePart)⟩] ++
        (rawAll s behind p visits (start + sizeAll thenPart + 3) elsePart ++ behindPart))) :=
    (Span.cons start (hthenSpan.append hrest (by omega) (by omega)) (Nat.zero_le _) hposition
      (by omega)).increasing
  have hbody := hthen.recover_rawAll r s ⟨true, false⟩ visits start hwf (by omega)
    (hjump.mono (Nat.le_refl _) (by omega))
  rw [← breakBeforeLast_rawAll_concat r s {} visits start hwf (by omega)] at hbody
  have helseBody := helse.recover_rawAll r s ⟨p.last, true⟩ visits (start + sizeAll thenPart + 3)
    hwfElse hbound (Tail.nil _ _)
  rw [List.append_nil, List.append_nil,
    ← breakBeforeLast_rawAll r s p visits _ elsePart hwfElse hbound] at helseBody
  have hlast := congrArg lastJump? hbody
  rw [lastJump?_concat_jump] at hlast
  have hpassed := unpassed_append_of_ne_nil (mt (rawAll_eq_nil s behind p visits
    (start + sizeAll thenPart + 3)).1 hne) helseSpan.lt_stop hspan.start_le
  rw [List.append_cons,
    branches_head (r.stays _ (by omega)) hthenSpan.lt_stop hrest.start_le hinc,
    lift_then_else (r.stays _ (by omega)) hthenSpan.lt_stop hrest.start_le hlast
      (r.stays _ hbound) rfl helseSpan.lt_stop hspan.start_le,
    hbody, helseBody, List.dropLast_concat, endJump?_concat_jump, hpassed]
  refine foldl_heads_append loopEnd? [_] fun t ht u hu => ?_
  obtain rfl := List.mem_singleton.1 ht
  exact Nat.lt_of_lt_of_le (by simp only; omega) (hspan.start_le u hu)

theorem make_ifThen {condition : Push} {thenPart : List Block} (hthen : Treats thenPart)
    (hrest : Treats rest) (hwf : WellFormedAll inLoop (ifThen condition thenPart :: rest))
    (hbound : offset + sizeAll (ifThen condition thenPart :: rest) ≤ bound)
    (htail : Tail (offset + sizeAll (ifThen condition thenPart :: rest)) bound tail) :
    branches loopEnd?
        (stateAll s behind p earlier passes (earlier + passes + 1) (passes + 1) offset
          (ifThen condition thenPart :: rest) ++ tail) =
      stateAll s behind p earlier (passes + 1) (earlier + passes + 1) (passes + 1) offset
        (ifThen condition thenPart :: rest) ++ tail := by
  obtain ⟨hwfThen, hwfRest⟩ := hwf
  have hsize : (ifThen condition thenPart).size = condition.size + 3 + sizeAll thenPart := rfl
  rw [sizeAll, ← Nat.add_assoc] at hbound htail
  have hspan := (span_stateAll s behind p earlier passes (earlier + passes + 1)
    ((ifThen condition thenPart).nextSegment p.next (passes + 1) rest)
    (offset + (ifThen condition thenPart).size) rest).append htail.toSpan (by omega) hbound
  rw [stateAll, stateAll, state_of_lt _ _ _ _ _ _ _ _ (by omega), raw_ifThen, List.append_assoc,
    List.cons_append, branches_ifThen r s (p.before (flatAll rest)) _ _ _ _ hthen hwfThen (by omega)
      (by omega) (hspan.mono (by omega) (Nat.le_refl _)),
    make_behind r s p hrest hwfRest hbound htail _ (by omega)]
  · simp [state, Nat.add_assoc]
  · intro hnil
    rw [endsSegment, Placed.last_before (flatAll_pos hnil)]
  · intro hjump
    refine inLoop_of_endsWithExitAll thenPart hwfThen ?_
    cases hends : endsWithExitAll thenPart with
    | true => rfl
    | false => simp [hends] at hjump

theorem make_ifElse {condition : Push} {thenPart elsePart : List Block} (hthen : Treats thenPart)
    (helse : Treats elsePart) (hrest : Treats rest)
    (hwf : WellFormedAll inLoop (ifElse condition thenPart elsePart :: rest))
    (hbound : offset + sizeAll (ifElse condition thenPart elsePart :: rest) ≤ bound)
    (htail : Tail (offset + sizeAll (ifElse condition thenPart elsePart :: rest)) bound tail) :
    branches loopEnd?
        (stateAll s behind p earlier passes (earlier + passes + 1) (passes + 1) offset
          (ifElse condition thenPart elsePart :: rest) ++ tail) =
      stateAll s behind p earlier (passes + 1) (earlier + passes + 1) (passes + 1) offset
        (ifElse condition thenPart elsePart :: rest) ++ tail := by
  obtain ⟨⟨hne, hwfThen, hwfElse⟩, hwfRest⟩ := hwf
  have hsize : (ifElse condition thenPart elsePart).size =
    condition.size + 3 + sizeAll thenPart + 3 + sizeAll elsePart := rfl
  rw [sizeAll, ← Nat.add_assoc] at hbound htail
  have hnext : (ifElse condition thenPart elsePart).nextSegment p.next (passes + 1) rest =
    passes + 1 := rfl
  have hspan := (span_stateAll s behind p earlier passes (earlier + passes + 1) (passes + 1)
    (offset + (ifElse condition thenPart elsePart).size) rest).append htail.toSpan (by omega) hbound
  have hmake := hrest.make r s p earlier passes (passes + 1)
    (offset + (ifElse condition thenPart elsePart).size) tail (Nat.le_refl _) hwfRest hbound htail
  rw [stateAll, stateAll, hnext, state_of_lt _ _ _ _ _ _ _ _ (by omega), raw_ifElse,
    List.append_assoc, List.cons_append, List.append_assoc, List.cons_append,
    branches_ifElse r s (p.before (flatAll rest)) _ _ _ _ _ hthen helse hwfThen hwfElse hne
      (by omega) rfl (by omega) (hspan.mono (by omega) (Nat.le_refl _)), hmake]
  simp [state, Nat.add_assoc]

end Make

theorem treats_cons {b : Block} {rest : List Block} (hb : b.PartsTreated) (hrest : Treats rest) :
    Treats (b :: rest) where
  visit r s p earlier passes visits segment offset hwf hbound := by
    rw [sizeAll, ← Nat.add_assoc] at hbound
    rw [stateAll, stateAll, List.map_append,
      map_inside_state r s _ earlier passes visits segment offset b hb hwf.1 (by omega),
      hrest.visit r s p earlier passes visits _ (offset + b.size) hwf.2 hbound]
  make r s p earlier passes segment offset tail hsegment hwf hbound htail := by
    by_cases hpending : b.Pending passes segment
    · cases b with
      | ifThen condition thenPart =>
        have hlt : passes < segment := hpending
        obtain rfl : segment = passes + 1 := by omega
        exact make_ifThen r s p hb hrest hwf hbound htail
      | ifElse condition thenPart elsePart =>
        have hlt : passes < segment := hpending
        obtain rfl : segment = passes + 1 := by omega
        exact make_ifElse r s p hb.1 hb.2 hrest hwf hbound htail
      | _ => exact hpending.elim
    · exact make_of_not_pending r s p hpending hrest hsegment hwf hbound htail

mutual

theorem partsTreated : (b : Block) → b.PartsTreated
  | call _ | exitLoop => trivial
  | ifThen _ thenPart => treats thenPart
  | ifElse _ thenPart elsePart => ⟨treats thenPart, treats elsePart⟩
  | tell _ body | whileLess _ _ body | counted _ _ _ _ body => treats body

/-- Going once more through a program visits its loops and makes the branches of one segment more. -/
theorem treats : (blocks : List Block) → Treats blocks
  | [] =>
    { visit := fun _ _ _ _ _ _ _ _ _ _ => rfl
      make := fun _ _ _ _ _ _ _ _ _ _ _ htail => branches_tail htail }
  | b :: rest => treats_cons (partsTreated b) (treats rest)

end

end Block

end LingoSource
