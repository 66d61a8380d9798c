import LingoSource.Proofs.Loop.Counting
import LingoSource.Proofs.Meaning.StackMachine
import Mathlib

/-!
The rounds of a loop. A meaning tells what expressions are worth in a state and what assignments make of
it. A counted loop is read as `v <= last` with steps of one, or as `v >= last` with steps of minus one. The
loop that it is recovered from goes through the same values of `v` if its parts say so, and for integers
and comparisons only then.
-/
set_option autoImplicit false

namespace LingoSource

/-- Where a value is kept. Words of one kind and name have one cell, wherever they are read. -/
abbrev Cell := LeafKind × String

def Node.cell? : Node → Option Cell
  | .leaf .constant _ _ => none
  | .leaf kind name _ => some (kind, name)
  | _ => none

def BinaryOp.relation? : BinaryOp → Option (Int → Int → Bool)
  | .lt => some fun a b => a < b
  | .ltEq => some fun a b => a ≤ b
  | .gt => some fun a b => b < a
  | .gtEq => some fun a b => b ≤ a
  | .eq => some fun a b => a = b
  | .ntEq => some fun a b => a ≠ b
  | _ => none

theorem BinaryOp.eq_of_relation? {op op' : BinaryOp} {r r' : Int → Int → Bool}
    (h : op.relation? = some r) (h' : op'.relation? = some r') (heq : ∀ a b, r a b = r' a b) :
    op = op' := by
  have hequal := heq 0 0
  have hless := heq 0 1
  have hmore := heq 1 0
  cases op <;> cases h <;> cases op' <;> cases h' <;> first | rfl | simp at hequal hless hmore

/-- Values, and states that keep them in cells. Whatever is no word and no operation on words may be
worth anything. -/
structure Meaning (State α : Type) extends Interpretation α where
  constant : String → α
  other : State → Node → α
  truth : α → Bool
  get : State → Cell → α
  set : State → Cell → α → State
  constant_toString (n : Int) : constant (toString n) = integer n
  binary_add (a b : Int) : binary .add (integer a) (integer b) = integer (a + b)
  truth_binary {op : BinaryOp} {r : Int → Int → Bool} (h : op.relation? = some r) (a b : Int) :
    truth (binary op (integer a) (integer b)) = r a b
  get_set (s : State) (p : Cell) (a : α) : get (set s p a) p = a
  get_set_of_ne (s : State) {p q : Cell} (h : q ≠ p) (a : α) : get (set s p a) q = get s q

namespace Meaning

variable {State α : Type} (M : Meaning State α)

def value (s : State) : Node → α
  | .leaf .constant text _ => M.constant text
  | .leaf kind name _ => M.get s (kind, name)
  | .unary _ op operand => M.unary op (value s operand)
  | .binary _ op left right => M.binary op (value s left) (value s right)
  | node => M.other s node

def execute (s : State) : Node → State
  | .assign _ left right =>
    match left.cell? with
    | some p => M.set s p (M.value s right)
    | none => s
  | _ => s

/-- Different integers are different values, since they compare differently. -/
theorem integer_injective {a b : Int} (h : M.integer a = M.integer b) : a = b := by
  have heq : BinaryOp.eq.relation? = some fun a b => decide (a = b) := rfl
  have hab := M.truth_binary heq a b
  rw [h, M.truth_binary heq b b] at hab
  simpa using hab.symm

variable {M} {s : State} {node : Node} {p : Cell} {name : String}

theorem value_of_cell? (h : node.cell? = some p) : M.value s node = M.get s p := by
  unfold Node.cell? at h
  split at h
  · cases h
  · rename_i hconstant
    cases h
    unfold value
    split <;> simp_all
  · cases h

theorem value_set_of_ne (hword : node.word? = some name) (h : node.cell? ≠ some p) (a : α) :
    M.value (M.set s p a) node = M.value s node := by
  cases node with
  | leaf kind name position =>
    cases hcell : (Node.leaf kind name position).cell? with
    | none =>
      cases kind <;> first | rfl | cases hcell
    | some q =>
      have hne : q ≠ p := fun heq => h (hcell.trans (congrArg some heq))
      rw [value_of_cell? hcell, value_of_cell? hcell, M.get_set_of_ne s hne]
  | _ => cases hword

def integers : Meaning (Cell → Int) Int where
  integer n := n
  unary _ a := a
  binary op a b :=
    match op.relation? with
    | some r => if r a b then 1 else 0
    | none => a + b
  constant text := text.toInt?.getD 0
  other _ _ := 0
  truth a := a ≠ 0
  get s p := s p
  set s p a := Function.update s p a
  constant_toString n := by rw [show (toString n).toInt? = some n from Int.toInt?_repr n]; rfl
  binary_add _ _ := rfl
  truth_binary h a b := by simp [h]
  get_set s p a := Function.update_self p a s
  get_set_of_ne s _ _ h a := Function.update_of_ne h a s

end Meaning

namespace Loop

variable {State α : Type} {M : Meaning State α}

/-- The state in which a loop starts a round, if it comes to that. The body may leave the loop. -/
def rounds (test : State → Bool) (pass : State → Option State) : Nat → State → Option State
  | 0, s => if test s then some s else none
  | n + 1, s => if test s then (pass s).bind (rounds test pass n) else none

section Rounds

variable {test : State → Bool} {pass : State → Option State} {s s' : State} {n : Nat}

theorem isSome_rounds_zero (test : State → Bool) (pass : State → Option State) (s : State) :
    (rounds test pass 0 s).isSome = test s := by
  rw [rounds]
  cases test s <;> rfl

theorem rounds_zero (h : test s = true) : rounds test pass 0 s = some s := by
  rw [rounds, if_pos h]

theorem rounds_zero_of_not (h : test s = false) : rounds test pass 0 s = none := by
  rw [rounds, h]
  rfl

theorem eq_of_rounds_zero (h : rounds test pass 0 s = some s') : s' = s := by
  rw [rounds] at h
  split at h <;> cases h
  rfl

theorem rounds_succ (h : test s = true) (hpass : pass s = some s') :
    rounds test pass (n + 1) s = rounds test pass n s' := by
  rw [rounds, if_pos h, hpass, Option.bind_some]

end Rounds

namespace Counting

variable (c : Counting)

def holds (M : Meaning State α) (s : State) : Bool :=
  M.truth (M.value s c.test)

/-- What a round makes of a state. `pass` is what the body does in front of the step. -/
def turn (M : Meaning State α) (pass : State → Option State) (s : State) : Option State :=
  (pass s).map fun s => M.execute s c.step

theorem turn_some (M : Meaning State α) (s : State) :
    c.turn M some s = some (M.execute s c.step) :=
  rfl

def round (M : Meaning State α) (pass : State → Option State) (n : Nat) (s : State) :
    Option State :=
  rounds (c.holds M) (c.turn M pass) n (M.execute s c.setting)

def sign : Int :=
  if c.up then 1 else -1

/-- The loop that is written for it: `v <= last` and `v = 1 + v`, or `v >= last` and `v = -1 + v`. -/
def written : Counting where
  name := c.name
  setOrigin := c.setOrigin
  counter := c.counter
  first := c.first
  testOrigin := c.testOrigin
  op := if c.up then .ltEq else .gtEq
  compared := c.counter
  last := c.last
  stepOrigin := c.stepOrigin
  stepped := c.counter
  sumOrigin := c.sumOrigin
  increment := .leaf .constant (toString c.sign) 0
  summand := c.counter
  word_counter := c.word_counter
  word_compared := c.word_counter
  word_stepped := c.word_counter
  word_summand := c.word_counter

def between (first last : Int) : Counting :=
  { c with
    first := .leaf .constant (toString first) 0
    last := .leaf .constant (toString last) 0 }

theorem setting_written : c.written.setting = c.setting := rfl

theorem step_between (first last : Int) : (c.between first last).step = c.step := rfl

theorem step_written_between (first last : Int) :
    (c.between first last).written.step = c.written.step := rfl

/-- The parts of the loop say what is written for it, of one cell. -/
structure Agrees (M : Meaning State α) : Prop where
  compared : c.compared.cell? = c.counter.cell?
  stepped : c.stepped.cell? = c.counter.cell?
  summand : c.summand.cell? = c.counter.cell?
  op : c.op = if c.up then .ltEq else .gtEq
  increment : ∀ s, M.value s c.increment = M.integer c.sign

/-- Whatever integers it goes between and whatever its body does, as long as that keeps the counter, the
loop goes through the values of the loop that is written for it. -/
def Preserves (M : Meaning State α) (p : Cell) : Prop :=
  ∀ (first last : Int) (pass : State → Option State),
    (∀ s s', pass s = some s' → M.get s' p = M.get s p) →
      ∀ n s, ((c.between first last).round M pass n s).map (M.get · p) =
        ((c.between first last).written.round M pass n s).map (M.get · p)

/-- A body keeps the counter and the value that it is compared with, which does not depend on the counter
either. -/
structure Keeps (M : Meaning State α) (p : Cell) (pass : State → Option State) : Prop where
  counter : ∀ s s', pass s = some s' → M.get s' p = M.get s p
  last : ∀ s s', pass s = some s' → M.value s' c.last = M.value s c.last
  apart : ∀ s a, M.value (M.set s p a) c.last = M.value s c.last

def within (a last : Int) : Bool :=
  if c.up then a ≤ last else last ≤ a

variable {c}

theorem round_eq_of_agrees {p : Cell} (hp : c.counter.cell? = some p) (h : c.Agrees M)
    (pass : State → Option State) : c.round M pass = c.written.round M pass := by
  have hholds : c.holds M = c.written.holds M := funext fun s => by
    simp only [holds, test, written, Meaning.value, h.op, Meaning.value_of_cell? hp,
      Meaning.value_of_cell? (h.compared.trans hp)]
  have hturn : c.turn M pass = c.written.turn M pass := funext fun s => by
    simp only [turn, step, written, Meaning.execute, Meaning.value, hp, h.stepped.trans hp,
      Meaning.value_of_cell? hp, Meaning.value_of_cell? (h.summand.trans hp), h.increment,
      M.constant_toString]
  funext n s
  rw [round, round, hholds, hturn]
  rfl

theorem sign_ne_zero (c : Counting) : c.sign ≠ 0 := by
  unfold sign
  split <;> decide

theorem within_self (c : Counting) (a : Int) : c.within a a = true := by
  unfold within
  split <;> simp

theorem within_add_sign (c : Counting) (a : Int) : c.within a (a + c.sign) = true := by
  unfold within sign
  split <;> simp

theorem within_sign_zero (c : Counting) : c.within c.sign 0 = false := by
  unfold within sign
  split <;> rfl

theorem relation?_op_written (c : Counting) : c.written.op.relation? = some c.within := by
  unfold written within
  cases c.up <;> rfl

section Integers

variable {p : Cell} {s : State} {a b : Int}

theorem holds_of_relation? {r : Int → Int → Bool} (hop : c.op.relation? = some r)
    (hcompared : c.compared.cell? = some p) (ha : M.get s p = M.integer a)
    (hb : M.value s c.last = M.integer b) : c.holds M s = r a b := by
  have hvalue : M.value s c.compared = M.integer a := (Meaning.value_of_cell? hcompared).trans ha
  rw [← M.truth_binary hop a b, ← hvalue, ← hb]
  rfl

theorem get_step {k : Int} (hstepped : c.stepped.cell? = some p) (hsummand : c.summand.cell? = some p)
    (hk : M.value s c.increment = M.integer k) (ha : M.get s p = M.integer a) :
    M.get (M.execute s c.step) p = M.integer (a + k) := by
  have hvalue : M.value s c.summand = M.integer a := (Meaning.value_of_cell? hsummand).trans ha
  simp only [step, Meaning.execute, Meaning.value, hstepped, M.get_set, hk, hvalue, M.binary_add,
    Int.add_comm]

theorem holds_written (hp : c.counter.cell? = some p) (ha : M.get s p = M.integer a)
    (hb : M.value s c.last = M.integer b) : c.written.holds M s = c.within a b :=
  holds_of_relation? (c := c.written) c.relation?_op_written hp ha hb

theorem get_step_written (hp : c.counter.cell? = some p) (ha : M.get s p = M.integer a) :
    M.get (M.execute s c.written.step) p = M.integer (a + c.sign) :=
  get_step (c := c.written) hp hp (M.constant_toString c.sign) ha

/-- What a round of the loop as written makes of the counter and of what it is compared with. -/
theorem Keeps.turn {pass : State → Option State} {s' : State} (hkeeps : c.Keeps M p pass)
    (hp : c.counter.cell? = some p) (ha : M.get s p = M.integer a)
    (hb : M.value s c.last = M.integer b) (h : c.written.turn M pass s = some s') :
    M.get s' p = M.integer (a + c.sign) ∧ M.value s' c.last = M.integer b := by
  obtain ⟨t, ht, rfl⟩ := Option.map_eq_some_iff.1 h
  have hlast : M.value (M.execute t c.written.step) c.last = M.value t c.last := by
    rw [Counting.step, Meaning.execute, written, hp]
    exact hkeeps.apart t _
  exact ⟨get_step_written hp ((hkeeps.counter s t ht).trans ha),
    hlast.trans ((hkeeps.last s t ht).trans hb)⟩

theorem Keeps.rounds {pass : State → Option State} {s' : State} {n : Nat}
    (hkeeps : c.Keeps M p pass) (hp : c.counter.cell? = some p) (ha : M.get s p = M.integer a)
    (hb : M.value s c.last = M.integer b)
    (h : Loop.rounds (c.written.holds M) (c.written.turn M pass) n s = some s') :
    M.get s' p = M.integer (a + n * c.sign) ∧ c.within (a + n * c.sign) b = true := by
  induction n generalizing s a with
  | zero =>
    rw [Loop.rounds, holds_written hp ha hb] at h
    split at h
    · cases h
      exact ⟨by simpa using ha, by simpa⟩
    · cases h
  | succ n ih =>
    rw [Loop.rounds] at h
    split at h
    · obtain ⟨t, ht, hrounds⟩ := Option.bind_eq_some_iff.1 h
      obtain ⟨hcounter, hlast⟩ := hkeeps.turn hp ha hb ht
      have hsum : a + c.sign + n * c.sign = a + (n + 1 : Nat) * c.sign := by
        rw [Int.natCast_succ, Int.add_mul, Int.one_mul]
        omega
      rw [← hsum]
      exact ih hcounter hlast hrounds
    · cases h

/-- The counter goes through `first`, `first + 1`, and so on, or down, while it is not past `last`. -/
theorem get_of_round {pass : State → Option State} {s' : State} {n : Nat}
    (hp : c.counter.cell? = some p) (hkeeps : c.Keeps M p pass) (ha : M.value s c.first = M.integer a)
    (hb : M.value s c.last = M.integer b) (h : c.written.round M pass n s = some s') :
    M.get s' p = M.integer (a + n * c.sign) ∧ c.within (a + n * c.sign) b = true := by
  have hset : M.execute s c.written.setting = M.set s p (M.integer a) := by
    rw [setting, Meaning.execute, written, hp, ← ha]
  rw [round, hset] at h
  exact hkeeps.rounds hp (M.get_set s p _) ((hkeeps.apart s _).trans hb) h

end Integers

section Preserves

variable {p : Cell}

theorem execute_setting_between (hp : c.counter.cell? = some p) (s : State) (a b : Int) :
    M.execute s (c.between a b).setting = M.set s p (M.integer a) := by
  rw [setting, Meaning.execute, between, hp, ← M.constant_toString]
  rfl

theorem holds_between (s : State) (a b : Int) :
    (c.between a b).holds M s = M.truth (M.binary c.op (M.value s c.compared) (M.integer b)) := by
  rw [← M.constant_toString]
  rfl

theorem holds_written_between (hp : c.counter.cell? = some p) {s : State} {a : Int}
    (ha : M.get s p = M.integer a) (first last : Int) :
    (c.between first last).written.holds M s = c.within a last :=
  holds_written hp ha (M.constant_toString last)

variable (hp : c.counter.cell? = some p) (h : c.Preserves M p)
include hp h

theorem Preserves.test (s : State) (a b : Int) :
    M.truth (M.binary c.op (M.value (M.set s p (M.integer a)) c.compared) (M.integer b)) =
      c.within a b := by
  have hround := congrArg Option.isSome (h a b some (fun s s' heq => by rw [Option.some.inj heq]) 0 s)
  rwa [Option.isSome_map, Option.isSome_map, round, round, isSome_rounds_zero, isSome_rounds_zero,
    setting_written, execute_setting_between hp, holds_written_between hp (M.get_set ..),
    holds_between] at hround

/-- A round later the counter is one step on, or else the loop would have ended or had another value. -/
theorem Preserves.step (s : State) (a : Int) :
    M.get (M.execute (M.set s p (M.integer a)) c.step) p = M.integer (a + c.sign) := by
  let loop := c.between a (a + c.sign)
  let t := M.set s p (M.integer a)
  have hround := h a (a + c.sign) some (fun s s' heq => by rw [Option.some.inj heq]) 1 s
  have hsetting : M.execute s loop.setting = t := execute_setting_between hp s a _
  have hcounter : M.get (M.execute t c.written.step) p = M.integer (a + c.sign) :=
    get_step_written hp (M.get_set s p (M.integer a))
  have hholds : loop.holds M t = true := by
    rw [holds_between, h.test hp, c.within_add_sign]
  have hwritten : loop.written.holds M t = true := by
    rw [holds_written_between hp (M.get_set ..), c.within_add_sign]
  have hagain : loop.written.holds M (M.execute t c.written.step) = true := by
    rw [holds_written_between hp hcounter, c.within_self]
  rw [round, round, setting_written, hsetting, rounds_succ hholds (loop.turn_some M t),
    rounds_succ hwritten (loop.written.turn_some M t), step_between, step_written_between,
    rounds_zero hagain, Option.map_some, hcounter] at hround
  obtain ⟨u, hu, hget⟩ := Option.map_eq_some_iff.1 hround
  rw [← hget, eq_of_rounds_zero hu]

end Preserves

/-- For a comparison and a constant step, the values are the same only if the parts say what is written. -/
theorem agrees_of_preserves {p : Cell} [Nonempty State] (hp : c.counter.cell? = some p)
    (hop : c.op.relation?.isSome) (hincrement : ∃ k, ∀ s, M.value s c.increment = M.integer k)
    (h : c.Preserves M p) : c.Agrees M := by
  obtain ⟨s⟩ := ‹Nonempty State›
  obtain ⟨r, hr⟩ := Option.isSome_iff_exists.1 hop
  obtain ⟨k, hk⟩ := hincrement
  have hcompared : c.compared.cell? = some p := by
    by_contra hne
    -- the test would not depend on the counter
    have htest := fun a b => h.test hp s a b
    simp only [Meaning.value_set_of_ne c.word_compared hne] at htest
    have hfalse := (htest 0 0).symm.trans (htest c.sign 0)
    rw [c.within_self, c.within_sign_zero] at hfalse
    cases hfalse
  have hstepped : c.stepped.cell? = some p := by
    by_contra hne
    -- the step would leave the counter as it is
    have hsame : M.get (M.execute (M.set s p (M.integer 0)) c.step) p = M.integer 0 := by
      rw [Counting.step, Meaning.execute]
      split
      · rename_i q hq
        rw [M.get_set_of_ne _ (fun heq => hne (hq.trans (congrArg some heq.symm))), M.get_set]
      · exact M.get_set s p _
    have hsign := M.integer_injective ((h.step hp s 0).symm.trans hsame)
    exact c.sign_ne_zero (by simpa using hsign)
  have hsum : ∀ a, M.binary .add (M.integer k) (M.value (M.set s p (M.integer a)) c.summand) =
      M.integer (a + c.sign) := fun a => by
    rw [← h.step hp s a, Counting.step, Meaning.execute, hstepped]
    simp only [Meaning.value, M.get_set, hk]
  have hsummand : c.summand.cell? = some p := by
    by_contra hne
    -- the sum would be the same for two values of the counter
    have hzero := hsum 0
    have hlater := hsum c.sign
    rw [Meaning.value_set_of_ne c.word_summand hne] at hzero hlater
    have hsign := M.integer_injective (hzero.symm.trans hlater)
    exact c.sign_ne_zero (by omega)
  refine ⟨hcompared.trans hp.symm, hstepped.trans hp.symm, hsummand.trans hp.symm, ?_, fun s => ?_⟩
  · refine BinaryOp.eq_of_relation? hr c.relation?_op_written fun a b => ?_
    have htest := h.test hp s a b
    rwa [Meaning.value_of_cell? hcompared, M.get_set, M.truth_binary hr] at htest
  · have hzero := hsum 0
    rw [Meaning.value_of_cell? hsummand, M.get_set, M.binary_add] at hzero
    rw [hk, show k = c.sign by simpa using M.integer_injective hzero]

theorem preserves_of_agrees {p : Cell} (hp : c.counter.cell? = some p) (h : c.Agrees M) :
    c.Preserves M p := by
  intro first last pass _ n s
  have hbetween : (c.between first last).Agrees M :=
    ⟨h.compared, h.stepped, h.summand, h.op, h.increment⟩
  rw [round_eq_of_agrees (c := c.between first last) hp hbetween]

end Counting

/-- A loop that comes out counted was counted before or is made of a setting, a test and a step. If these
say what is written for it, it is the same loop, round for round. A body that keeps the counter and what it
is compared with then runs with `first`, `first + 1`, and so on, or down, up to `last`. For a comparison and
a constant step, the values of the counter are those of the loop that is written only if the parts say so. -/
theorem counted_rounds {statements : List Statement} {s : Statement} (hs : s ∈ recover statements)
    {depth origin start stop : Nat} {name : String} {first last : Node} {up : Bool}
    {condition : Node} {body : List Statement}
    (h : s.node.StandsIn depth
      (.loop origin start stop (.counted name first last up) condition body)) :
    ∃ previous? position kind oldCondition oldBody,
      Meets statements previous? ⟨position, .loop origin start stop kind oldCondition oldBody⟩ ∧
        (kind = .counted name first last up ∨
          ∃ c : Counting, c.kind = .counted name first last up ∧
            (∃ rest, body = recover rest ∧
              Counts c previous? (whileCondition ⟨kind, oldCondition, oldBody⟩) rest) ∧
            ∀ {State α : Type} (M : Meaning State α) (p : Cell), c.counter.cell? = some p →
              (c.Agrees M → ∀ pass n s, c.round M pass n s = c.written.round M pass n s ∧
                ∀ a b s', c.Keeps M p pass → M.value s first = M.integer a →
                  M.value s last = M.integer b → c.round M pass n s = some s' →
                    M.get s' p = M.integer (a + n * c.sign) ∧ c.within (a + n * c.sign) b = true) ∧
              (Nonempty State → c.op.relation?.isSome →
                (∃ k, ∀ s, M.value s c.increment = M.integer k) →
                  (c.Preserves M p ↔ c.Agrees M))) := by
  obtain ⟨previous?, position, kind, oldCondition, oldBody, hmeets, hcounting⟩ := exists_counting hs h
  refine ⟨previous?, position, kind, oldCondition, oldBody, hmeets, hcounting.imp_right ?_⟩
  rintro ⟨c, hkind, hcounts⟩
  refine ⟨c, hkind, hcounts, fun M p hp => ⟨fun hagrees pass n s => ?_, fun _ hop hincrement => ?_⟩⟩
  · have hround : c.round M pass = c.written.round M pass := Counting.round_eq_of_agrees hp hagrees pass
    cases hkind
    refine ⟨by rw [hround], fun a b s' hkeeps ha hb hs' => ?_⟩
    exact Counting.get_of_round hp hkeeps ha hb (hround ▸ hs')
  · exact ⟨Counting.agrees_of_preserves hp hop hincrement, Counting.preserves_of_agrees hp⟩

/-- `set i = 1`, a loop while `i` compares with an integer, and `set i = 1 + i` at its end. -/
def Counting.fromOne (op : BinaryOp) (last : Int) : Counting where
  name := "i"
  setOrigin := 2
  counter := .leaf .localVariable "i" 0
  first := .leaf .constant "1" 0
  testOrigin := 8
  op
  compared := .leaf .localVariable "i" 0
  last := .leaf .constant (toString last) 6
  stepOrigin := 21
  stepped := .leaf .localVariable "i" 0
  sumOrigin := 20
  increment := .leaf .constant "1" 16
  summand := .leaf .localVariable "i" 0
  word_counter := rfl
  word_compared := rfl
  word_stepped := rfl
  word_summand := rfl

def Counting.emitted (c : Counting) : List Statement :=
  [⟨2, c.setting⟩, ⟨23, .loop 23 4 23 .whileTrue (.leaf .constant "1" 23)
    [⟨9, .branch 9 (.unary 9 .not c.test) [⟨9, .exitLoop 9⟩] []⟩,
      ⟨14, .call 14 "beep" .argListNoRet [] false⟩, ⟨21, c.step⟩]⟩]

theorem recover_emitted (op : BinaryOp) (last : Int) :
    recover (Counting.fromOne op last).emitted =
      [⟨23, .loop 23 4 23 (Counting.fromOne op last).kind (Counting.fromOne op last).test
        [⟨14, .call 14 "beep" .argListNoRet [] false⟩]⟩] := by
  rfl

theorem counted_rounds_to_ten :
    (Counting.fromOne .ltEq 10).Agrees Meaning.integers ∧ ∃ previous? position kind oldCondition oldBody,
      Meets (Counting.fromOne .ltEq 10).emitted previous?
          ⟨position, .loop 23 4 23 kind oldCondition oldBody⟩ ∧
        (kind = (Counting.fromOne .ltEq 10).kind ∨
          ∃ c : Counting, c.kind = (Counting.fromOne .ltEq 10).kind ∧
            ∀ (p : Cell), c.counter.cell? = some p → c.Agrees .integers → ∀ pass n s,
              c.round .integers pass n s = c.written.round .integers pass n s) := by
  have hmem : (⟨23, .loop 23 4 23 (Counting.fromOne .ltEq 10).kind (Counting.fromOne .ltEq 10).test
      [⟨14, .call 14 "beep" .argListNoRet [] false⟩]⟩ : Statement) ∈
        recover (Counting.fromOne .ltEq 10).emitted := by
    rw [recover_emitted]
    exact List.mem_singleton_self _
  obtain ⟨previous?, position, kind, oldCondition, oldBody, hmeets, hcounting⟩ :=
    counted_rounds hmem .self
  refine ⟨⟨rfl, rfl, rfl, rfl, fun _ => Meaning.integers.constant_toString 1⟩,
    previous?, position, kind, oldCondition, oldBody, hmeets, hcounting.imp_right ?_⟩
  rintro ⟨c, hkind, -, hrounds⟩
  exact ⟨c, hkind, fun p hp hagrees pass n s => ((hrounds .integers p hp).1 hagrees pass n s).1⟩

/-- A loop while `i < 3` becomes one from 1 to 3, which has a round for 3. -/
theorem counted_rounds_below_three :
    recover (Counting.fromOne .lt 3).emitted =
        [⟨23, .loop 23 4 23 (Counting.fromOne .lt 3).kind (Counting.fromOne .lt 3).test
          [⟨14, .call 14 "beep" .argListNoRet [] false⟩]⟩] ∧
      ((Counting.fromOne .lt 3).round .integers some 2 fun _ => 0).map (· (.localVariable, "i")) =
        none ∧
      ((Counting.fromOne .lt 3).written.round .integers some 2 fun _ => 0).map
        (· (.localVariable, "i")) = some 3 := by
  let M := Meaning.integers
  let c := Counting.fromOne .lt 3
  let p : Cell := (.localVariable, "i")
  have hone : ∀ s, M.value s c.increment = M.integer 1 := fun _ => M.constant_toString 1
  have hthree : ∀ s, M.value s c.last = M.integer 3 := fun _ => M.constant_toString 3
  have hset : M.get (M.execute (fun _ => 0) c.setting) p = M.integer 1 :=
    (M.get_set ..).trans (M.constant_toString 1)
  have hholds : ∀ {s a}, M.get s p = M.integer a → c.holds M s = decide (a < 3) := fun ha =>
    Counting.holds_of_relation? rfl rfl ha (hthree _)
  have hwritten : ∀ {s a}, M.get s p = M.integer a → c.written.holds M s = decide (a ≤ 3) :=
    fun ha => Counting.holds_written rfl ha (hthree _)
  have hended : c.round M some 2 (fun _ => 0) = none := by
    have htwo := Counting.get_step (c := c) rfl rfl (hone _) hset
    have hend := Counting.get_step (c := c) rfl rfl (hone _) htwo
    rw [Counting.round, rounds_succ (hholds hset) (c.turn_some ..),
      rounds_succ (hholds htwo) (c.turn_some ..), rounds_zero_of_not (hholds hend)]
  have hgoes : ∃ s, c.written.round M some 2 (fun _ => 0) = some s ∧ M.get s p = M.integer 3 := by
    have htwo := Counting.get_step_written (c := c) rfl hset
    have hend := Counting.get_step_written (c := c) rfl htwo
    refine ⟨_, ?_, hend⟩
    rw [Counting.round, c.setting_written, rounds_succ (hwritten hset) (c.written.turn_some ..),
      rounds_succ (hwritten htwo) (c.written.turn_some ..)]
    exact rounds_zero (hwritten hend)
  obtain ⟨s, hs, hget⟩ := hgoes
  exact ⟨recover_emitted .lt 3, congrArg (Option.map (· p)) hended,
    (congrArg (Option.map (· p)) hs).trans (congrArg some hget)⟩

end Loop

end LingoSource
