import LingoSource.Proofs.Condition.Unfolding

/-!
What the scan for conditions finds, and what is made of it, statement by statement. Behind a
conditional jump the scan passes the statements below its address; if the last of these jumps, it
passes the next statement and those below the address of that jump as well. So the recovery of a list
is the recovery of its first branch and of what lies behind the passed statements.
-/
set_option autoImplicit false

namespace LingoSource

namespace Statement

def Increasing (statements : List Statement) : Prop :=
  statements.Pairwise (·.position < ·.position)

def Below (address : Nat) (statements : List Statement) : Prop :=
  ∀ s ∈ statements, s.position < address

def From (address : Nat) (statements : List Statement) : Prop :=
  ∀ s ∈ statements, address ≤ s.position

variable {address : Nat} {a b : List Statement} {s : Statement}

@[simp] theorem below_nil : Below address [] := by simp [Below]

@[simp] theorem below_cons : Below address (s :: a) ↔ s.position < address ∧ Below address a := by
  simp [Below]

@[simp] theorem below_append : Below address (a ++ b) ↔ Below address a ∧ Below address b := by
  simp [Below, or_imp, forall_and]

@[simp] theorem from_nil : From address [] := by simp [From]

@[simp] theorem from_cons : From address (s :: a) ↔ address ≤ s.position ∧ From address a := by
  simp [From]

@[simp] theorem from_append : From address (a ++ b) ↔ From address a ∧ From address b := by
  simp [From, or_imp, forall_and]

theorem From.mono {lower : Nat} (h : From address a) (hle : lower ≤ address) : From lower a :=
  fun s hs => Nat.le_trans hle (h s hs)

theorem Below.mono {upper : Nat} (h : Below address a) (hle : address ≤ upper) : Below upper a :=
  fun s hs => Nat.lt_of_lt_of_le (h s hs) hle

theorem takeWhile_append_of_below (ha : Below address a) (hb : From address b) :
    (a ++ b).takeWhile (·.position < address) = a := by
  rw [List.takeWhile_append_of_pos (by simpa [Below] using ha)]
  cases b with
  | nil => simp
  | cons s b =>
    have := (from_cons.1 hb).1
    rw [List.takeWhile_cons_of_neg (by simpa using this), List.append_nil]

theorem dropWhile_append_of_below (ha : Below address a) (hb : From address b) :
    (a ++ b).dropWhile (·.position < address) = b := by
  rw [List.dropWhile_append_of_pos (by simpa [Below] using ha)]
  cases b with
  | nil => rfl
  | cons s b =>
    have := (from_cons.1 hb).1
    rw [List.dropWhile_cons_of_neg (by simpa using this)]

theorem Increasing.split {statements : List Statement} (h : Increasing statements)
    (address : Nat) :
    ∃ a b, statements = a ++ b ∧ Below address a ∧ From address b := by
  induction statements with
  | nil => exact ⟨[], [], rfl, below_nil, from_nil⟩
  | cons s rest ih =>
    obtain ⟨hs, hrest⟩ := List.pairwise_cons.1 h
    by_cases hlt : s.position < address
    · obtain ⟨a, b, rfl, ha, hb⟩ := ih hrest
      exact ⟨s :: a, b, rfl, by simp [hlt, ha], hb⟩
    · refine ⟨[], s :: rest, rfl, below_nil, from_cons.2 ⟨by omega, fun t ht => ?_⟩⟩
      have := hs t ht
      omega

end Statement

def Node.isConditional : Node → Bool
  | .jumpUnless .. => true
  | _ => false

theorem Statement.eq_of_isConditional {s : Statement} (h : s.node.isConditional = true) :
    ∃ origin condition address, s = ⟨s.position, .jumpUnless origin condition address⟩ := by
  obtain ⟨position, node⟩ := s
  unfold Node.isConditional at h
  split at h
  · rename_i heq
    exact ⟨_, _, _, by rw [← heq]⟩
  · cases h

namespace Condition

open Statement

theorem splitAtAddress_append {address : Nat} {a b : List Statement} (ha : Below address a)
    (hb : From address b) : splitAtAddress address (a ++ b) = (a, b) := by
  rw [splitAtAddress, List.span_eq_takeWhile_dropWhile, takeWhile_append_of_below ha hb,
    dropWhile_append_of_below ha hb]

def jumpAddress? (s : Statement) : Option Nat :=
  match s.node with
  | .jump _ address => some address
  | _ => none

def endJump? (statements : List Statement) : Option Nat :=
  statements.getLast?.bind jumpAddress?

/-- What a scan passes of the statements behind the first part of a branch. -/
def passed : Option Nat → List Statement → List Statement
  | none, _ => []
  | some _, [] => []
  | some address, s :: rest => s :: rest.takeWhile (·.position < address)

def unpassed : Option Nat → List Statement → List Statement
  | none, statements => statements
  | some _, [] => []
  | some address, _ :: rest => rest.dropWhile (·.position < address)

theorem passed_append_unpassed (jump? : Option Nat) (statements : List Statement) :
    passed jump? statements ++ unpassed jump? statements = statements := by
  cases jump? with
  | none => rfl
  | some address =>
    cases statements with
    | nil => rfl
    | cons s rest => rw [passed, unpassed, List.cons_append, List.takeWhile_append_dropWhile]

theorem unpassed_suffix (jump? : Option Nat) (statements : List Statement) :
    ∃ passed, statements = passed ++ unpassed jump? statements :=
  ⟨passed jump? statements, (passed_append_unpassed jump? statements).symm⟩

theorem unpassed_append_of_ne_nil {address : Nat} {elsePart behind : List Statement}
    (hne : elsePart ≠ []) (helse : Below address elsePart) (hbehind : From address behind) :
    unpassed (some address) (elsePart ++ behind) = behind := by
  cases elsePart with
  | nil => exact absurd rfl hne
  | cons s elsePart => exact dropWhile_append_of_below (below_cons.1 helse).2 hbehind

theorem unpassed_of_below {address : Nat} {statements : List Statement}
    (h : Below address statements) : unpassed (some address) statements = [] := by
  cases statements with
  | nil => rfl
  | cons s rest =>
    have hdrop := dropWhile_append_of_below (below_cons.1 h).2 from_nil
    rwa [List.append_nil] at hdrop

theorem endJump?_concat_jump (before : List Statement) (position origin address : Nat) :
    endJump? (before ++ [⟨position, .jump origin address⟩]) = some address := by
  simp [endJump?, jumpAddress?]

theorem lastJump?_concat_jump (before : List Statement) (position origin address : Nat) :
    lastJump? (before ++ [⟨position, .jump origin address⟩]) =
      some (⟨position, .jump origin address⟩, address) := by
  simp [lastJump?]

theorem Scan.next_below (loopEnd? jump? : Option Nat) (inElse : Bool) {limit : Nat} {s : Statement}
    (h : s.position < limit) :
    Scan.next loopEnd? ⟨some limit, jump?, inElse⟩ s =
      (⟨some limit, jumpAddress? s, inElse⟩, false) := by
  rw [Scan.next, if_pos (by simpa using h)]
  rfl

/-- Behind the second part of a branch the scan starts anew. -/
theorem Scan.next_behind_else (loopEnd? jump? : Option Nat) {limit : Nat} {s : Statement}
    (h : limit ≤ s.position) :
    Scan.next loopEnd? ⟨some limit, jump?, true⟩ s = Scan.next loopEnd? {} s := by
  have hlimit : ¬ (some limit).any (s.position < ·) = true := by simpa using h
  rw [Scan.next, if_neg hlimit]
  rfl

theorem heads_below (loopEnd? jump? : Option Nat) (inElse : Bool) {limit : Nat}
    {passed : List Statement} (h : Below limit passed) (rest : List Statement) :
    heads loopEnd? ⟨some limit, jump?, inElse⟩ (passed ++ rest) =
      heads loopEnd? ⟨some limit, passed.foldl (fun _ s => jumpAddress? s) jump?, inElse⟩ rest := by
  induction passed generalizing jump? with
  | nil => rfl
  | cons s passed ih =>
    obtain ⟨hs, hpassed⟩ := below_cons.1 h
    rw [List.cons_append, heads, Scan.next_below _ _ _ hs]
    exact ih _ hpassed

theorem foldl_jumpAddress? (passed : List Statement) :
    passed.foldl (fun _ s => jumpAddress? s) none = endJump? passed := by
  rcases List.eq_nil_or_concat passed with rfl | ⟨a, s, rfl⟩
  · rfl
  · simp [endJump?]

theorem heads_stale (loopEnd? : Option Nat) {limit : Nat} {rest : List Statement}
    (h : From limit rest) :
    heads loopEnd? ⟨some limit, none, false⟩ rest = heads loopEnd? {} rest := by
  induction rest with
  | nil => rfl
  | cons s rest ih =>
    obtain ⟨hs, hrest⟩ := from_cons.1 h
    have hlimit : ¬ (some limit).any (s.position < ·) = true := by simpa using hs
    rw [heads, heads, Scan.next, Scan.next, if_neg hlimit, if_neg (by simp)]
    simp only [Bool.false_eq_true, if_false]
    split
    · rfl
    · exact ih hrest

theorem heads_behind_else (loopEnd? jump? : Option Nat) {limit : Nat} {rest : List Statement}
    (h : From limit rest) :
    heads loopEnd? ⟨some limit, jump?, true⟩ rest = heads loopEnd? {} rest := by
  cases rest with
  | nil => rfl
  | cons s rest =>
    rw [heads, heads, Scan.next_behind_else _ _ (from_cons.1 h).1]

theorem heads_behind_then (loopEnd? jump? : Option Nat) {limit : Nat} {rest : List Statement}
    (h : From limit rest) (hinc : Increasing rest) :
    heads loopEnd? ⟨some limit, jump?, false⟩ rest = heads loopEnd? {} (unpassed jump? rest) := by
  cases jump? with
  | none => exact heads_stale loopEnd? h
  | some address =>
    cases rest with
    | nil => rfl
    | cons s rest =>
      obtain ⟨hs, _⟩ := from_cons.1 h
      obtain ⟨passed, behind, rfl, hpassed, hbehind⟩ :=
        Increasing.split (List.pairwise_cons.1 hinc).2 address
      have hlimit : ¬ (some limit).any (s.position < ·) = true := by simpa using hs
      rw [heads, Scan.next, if_neg hlimit]
      simp only [Bool.false_eq_true, if_false]
      rw [heads_below _ _ _ hpassed, heads_behind_else _ _ hbehind, unpassed,
        dropWhile_append_of_below hpassed hbehind]

theorem exists_of_mem_heads {loopEnd? : Option Nat} {scan : Scan} {statements : List Statement}
    {position : Nat} (h : position ∈ heads loopEnd? scan statements) :
    ∃ s ∈ statements, s.position = position := by
  induction statements generalizing scan with
  | nil => cases h
  | cons s rest ih =>
    rcases hnext : scan.next loopEnd? s with ⟨scan', isHead⟩
    rw [heads, hnext] at h
    cases isHead with
    | true =>
      rcases List.mem_cons.1 h with rfl | hrest
      · exact ⟨s, by simp, rfl⟩
      · obtain ⟨t, ht, heq⟩ := ih hrest
        exact ⟨t, by simp [ht], heq⟩
    | false =>
      obtain ⟨t, ht, heq⟩ := ih h
      exact ⟨t, by simp [ht], heq⟩

theorem splitAtHead_cons_of_ne {position : Nat} {s : Statement} (h : s.position ≠ position)
    (rest : List Statement) :
    splitAtHead position (s :: rest) =
      (splitAtHead position rest).map fun found => (s :: found.1, found.2) := by
  conv => lhs; unfold splitAtHead
  split
  · rename_i heq
    cases heq
  · rename_i heq
    cases heq
    rw [if_neg h]
  · rename_i heq
    cases heq
    rfl

theorem splitAtHead_append {position : Nat} {before : List Statement}
    (h : ∀ s ∈ before, s.position ≠ position) (statements : List Statement) :
    splitAtHead position (before ++ statements) =
      (splitAtHead position statements).map fun found => (before ++ found.1, found.2) := by
  induction before with
  | nil => simp
  | cons s before ih =>
    rw [List.cons_append, splitAtHead_cons_of_ne (h s (by simp)),
      ih (fun t ht => h t (by simp [ht])), Option.map_map]
    rfl

theorem lift_append {recover : List Statement → List Statement} (loopEnd? : Option Nat)
    {position : Nat} {before : List Statement} (h : ∀ s ∈ before, s.position ≠ position)
    (statements : List Statement) :
    lift recover loopEnd? (before ++ statements) position =
      before ++ lift recover loopEnd? statements position := by
  unfold lift
  rw [splitAtHead_append h]
  cases splitAtHead position statements with
  | none => rfl
  | some found =>
    obtain ⟨before', origin, condition, address, after⟩ := found
    simp only [Option.map_some]
    split
    · simp
    · split
      · simp
      · split <;> simp

def branches (loopEnd? : Option Nat) (statements : List Statement) : List Statement :=
  (heads loopEnd? {} statements).foldl (lift (recover loopEnd?) loopEnd?) statements

theorem recover_eq_branches (loopEnd? : Option Nat) (statements : List Statement) :
    recover loopEnd? statements = branches loopEnd? (statements.map (inside recover loopEnd?)) :=
  recover_eq loopEnd? statements

theorem foldl_lift_append {recover : List Statement → List Statement} (loopEnd? : Option Nat)
    {positions : List Nat} {before : List Statement}
    (h : ∀ position ∈ positions, ∀ s ∈ before, s.position ≠ position)
    (statements : List Statement) :
    positions.foldl (lift recover loopEnd?) (before ++ statements) =
      before ++ positions.foldl (lift recover loopEnd?) statements := by
  induction positions generalizing statements with
  | nil => rfl
  | cons position positions ih =>
    rw [List.foldl_cons, List.foldl_cons, lift_append loopEnd? (h position (by simp))]
    exact ih (fun p hp => h p (by simp [hp])) _

theorem foldl_heads_append (loopEnd? : Option Nat) (before : List Statement)
    {statements : List Statement} (h : ∀ s ∈ before, ∀ t ∈ statements, s.position < t.position) :
    (heads loopEnd? {} statements).foldl (lift (recover loopEnd?) loopEnd?) (before ++ statements) =
      before ++ branches loopEnd? statements := by
  refine foldl_lift_append loopEnd? (fun position hp s hs => ?_) statements
  obtain ⟨t, ht, rfl⟩ := exists_of_mem_heads hp
  exact Nat.ne_of_lt (h s hs t ht)

section NotConditional

/-! Statements that are no conditional jumps start no branches. -/

variable {loopEnd? : Option Nat} {statements : List Statement}

theorem Scan.next_of_not_conditional {s : Statement} (h : s.node.isConditional = false) (scan : Scan) :
    (scan.next loopEnd? s).2 = false := by
  unfold Scan.next
  generalize (if scan.inElse = true then {} else scan : Scan) = scan'
  split
  · rfl
  · dsimp only
    split
    · rfl
    · split
      · rename_i hnode
        rw [hnode] at h
        cases h
      · rfl

theorem heads_of_not_conditional (h : ∀ s ∈ statements, s.node.isConditional = false) (scan : Scan) :
    heads loopEnd? scan statements = [] := by
  induction statements generalizing scan with
  | nil => rfl
  | cons s rest ih =>
    rw [heads]
    simp only [Scan.next_of_not_conditional (h s (by simp)) scan, Bool.false_eq_true, if_false]
    exact ih (fun t ht => h t (by simp [ht])) _

theorem branches_of_not_conditional (h : ∀ s ∈ statements, s.node.isConditional = false) :
    branches loopEnd? statements = statements := by
  rw [branches, heads_of_not_conditional h]
  rfl

/-- Before the first conditional jump a scan has found nothing. -/
theorem heads_append_of_not_conditional {before : List Statement}
    (h : ∀ s ∈ before, s.node.isConditional = false) (rest : List Statement) :
    heads loopEnd? {} (before ++ rest) = heads loopEnd? {} rest := by
  induction before with
  | nil => rfl
  | cons s before ih =>
    have hnext : Scan.next loopEnd? {} s = ({}, false) := by
      have hs := h s (by simp)
      obtain ⟨position, node⟩ := s
      cases node <;> first | rfl | cases hs
    rw [List.cons_append, heads, hnext]
    exact ih fun t ht => h t (by simp [ht])

end NotConditional

theorem branches_cons (loopEnd? : Option Nat) {s : Statement} {rest : List Statement}
    (h : Increasing (s :: rest)) (hs : ∀ origin condition address,
      s.node ≠ .jumpUnless origin condition address) :
    branches loopEnd? (s :: rest) = s :: branches loopEnd? rest := by
  have hheads : heads loopEnd? {} (s :: rest) = heads loopEnd? {} rest := by
    have hnext : Scan.next loopEnd? {} s = ({}, false) := by
      rw [Scan.next, if_neg (by simp)]
      simp only [Bool.false_eq_true, if_false]
    rw [heads, hnext]
    rfl
  rw [branches, hheads]
  exact foldl_heads_append loopEnd? [s]
    (by simpa using (List.pairwise_cons.1 h).1)

section Head

variable {recover : List Statement → List Statement} {loopEnd? : Option Nat}
  {position origin address : Nat} {condition : Node} {thenPart rest : List Statement}

theorem splitAtHead_head :
    splitAtHead position (⟨position, .jumpUnless origin condition address⟩ :: rest) =
      some ([], origin, condition, address, rest) := by
  rw [splitAtHead, if_pos rfl]

theorem lift_leaving (h : leavesLoop loopEnd? address = true) :
    lift recover loopEnd? (⟨position, .jumpUnless origin condition address⟩ :: rest) position =
      ⟨position, .branch origin (.unary origin .not condition) [⟨position, .exitLoop origin⟩] []⟩ ::
        rest := by
  simp [lift, splitAtHead_head, h]

variable (h : leavesLoop loopEnd? address = false) (hthen : Below address thenPart)
  (hrest : From address rest)
include h hthen hrest

/-- A first part that does not end with a jump is all of the branch. -/
theorem lift_then (hjump : lastJump? (recover (breakBeforeLast loopEnd? thenPart)) = none) :
    lift recover loopEnd?
        (⟨position, .jumpUnless origin condition address⟩ :: (thenPart ++ rest)) position =
      ⟨position, .branch origin condition (recover (breakBeforeLast loopEnd? thenPart)) []⟩ ::
        rest := by
  simp [lift, splitAtHead_head, h, splitAtAddress_append hthen hrest, hjump]

theorem lift_then_exit {jump : Statement} {target : Nat}
    (hjump : lastJump? (recover (breakBeforeLast loopEnd? thenPart)) = some (jump, target))
    (htarget : leavesLoop loopEnd? target = true) :
    lift recover loopEnd?
        (⟨position, .jumpUnless origin condition address⟩ :: (thenPart ++ rest)) position =
      ⟨position, .branch origin condition
        ((recover (breakBeforeLast loopEnd? thenPart)).dropLast ++
          [⟨jump.position, .exitLoop jump.position⟩]) []⟩ :: rest := by
  simp [lift, splitAtHead_head, h, splitAtAddress_append hthen hrest, hjump, htarget]

theorem lift_then_else {jump : Statement} {target : Nat} {elsePart behind : List Statement}
    (hjump : lastJump? (recover (breakBeforeLast loopEnd? thenPart)) = some (jump, target))
    (htarget : leavesLoop loopEnd? target = false) (heq : rest = elsePart ++ behind)
    (helse : Below target elsePart) (hbehind : From target behind) :
    lift recover loopEnd?
        (⟨position, .jumpUnless origin condition address⟩ :: (thenPart ++ rest)) position =
      ⟨position, .branch origin condition
        (recover (breakBeforeLast loopEnd? thenPart)).dropLast
        (recover (breakBeforeLast loopEnd? elsePart))⟩ :: behind := by
  subst heq
  simp [lift, splitAtHead_head, h, splitAtAddress_append hthen hrest, hjump, htarget,
    splitAtAddress_append helse hbehind]

theorem heads_head
    (hinc : Increasing (⟨position, .jumpUnless origin condition address⟩ :: (thenPart ++ rest))) :
    heads loopEnd? {} (⟨position, .jumpUnless origin condition address⟩ :: (thenPart ++ rest)) =
      position :: heads loopEnd? {} (unpassed (endJump? thenPart) rest) := by
  have hnext : Scan.next loopEnd? {} ⟨position, .jumpUnless origin condition address⟩ =
      (⟨some address, none, false⟩, true) := by
    simp [Scan.next, h]
  have hincRest : Increasing rest :=
    (List.pairwise_append.1 (List.pairwise_cons.1 hinc).2).2.1
  rw [heads, hnext]
  simp only [if_true]
  rw [heads_below _ _ _ hthen, foldl_jumpAddress?, heads_behind_then _ _ hrest hincRest]

/-- The branch of the first conditional jump is made first, then those behind it. -/
theorem branches_head
    (hinc : Increasing (⟨position, .jumpUnless origin condition address⟩ :: (thenPart ++ rest))) :
    branches loopEnd? (⟨position, .jumpUnless origin condition address⟩ :: (thenPart ++ rest)) =
      (heads loopEnd? {} (unpassed (endJump? thenPart) rest)).foldl
        (lift (Condition.recover loopEnd?) loopEnd?)
        (lift (Condition.recover loopEnd?) loopEnd?
          (⟨position, .jumpUnless origin condition address⟩ :: (thenPart ++ rest)) position) := by
  rw [branches, heads_head h hthen hrest hinc, List.foldl_cons]

end Head

theorem branches_leaving {loopEnd? : Option Nat} {position origin address : Nat} {condition : Node}
    {rest : List Statement} (h : leavesLoop loopEnd? address = true)
    (hinc : Increasing (⟨position, .jumpUnless origin condition address⟩ :: rest)) :
    branches loopEnd? (⟨position, .jumpUnless origin condition address⟩ :: rest) =
      ⟨position, .branch origin (.unary origin .not condition) [⟨position, .exitLoop origin⟩] []⟩ ::
        branches loopEnd? rest := by
  have hnext : Scan.next loopEnd? {} ⟨position, .jumpUnless origin condition address⟩ =
      ({}, true) := by
    simp [Scan.next, h]
  rw [branches, heads, hnext]
  simp only [if_true, List.foldl_cons]
  rw [lift_leaving h]
  exact foldl_heads_append loopEnd? [_] (by simpa using (List.pairwise_cons.1 hinc).1)

end Condition

end LingoSource
