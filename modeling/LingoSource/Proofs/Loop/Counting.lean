import LingoSource.Proofs.Loop.Unfolding
import LingoSource.Proofs.Tree.Blocks

/-!
Where counted loops come from. The recognition of loops meets every statement together with the one
before it, and what comes out of it, however deep, is made of such a pair. A counted loop that was none
before is made of three statements that a word of one name goes through: it is set in front of the loop,
compared in the condition and stepped at the end.
-/
set_option autoImplicit false

namespace LingoSource.Loop

open Statement

def pairs (previous? : Option Statement) : List Statement → List (Option Statement × Statement)
  | [] => []
  | s :: rest => (previous?, s) :: pairs (some (inside recover previous? s).1) rest

def parts (previous? : Option Statement) (s : Statement) : List (List Statement) :=
  match s.node with
  | .loop _ _ _ kind condition body =>
    [(eachElement (counted previous? (whileCondition ⟨kind, condition, body⟩)).1).body]
  | .branch _ _ thenBody elseBody => [thenBody, elseBody]
  | .tell _ _ body => [body]
  | _ => []

inductive Meets (statements : List Statement) : Option Statement → Statement → Prop
  | top {previous? : Option Statement} {s : Statement} (h : (previous?, s) ∈ pairs none statements) :
      Meets statements previous? s
  | inner {outer? previous? : Option Statement} {t s : Statement} {part : List Statement}
      (h : Meets statements outer? t) (hpart : part ∈ parts outer? t)
      (hs : (previous?, s) ∈ pairs none part) : Meets statements previous? s

theorem bodies_inside (treat : List Statement → List Statement) (previous? : Option Statement)
    (s : Statement) :
    (inside treat previous? s).1.node.bodies = (parts previous? s).map treat := by
  obtain ⟨position, node⟩ := s
  cases node <;> rfl

theorem through_cons (treat : List Statement → List Statement) (previous? : Option Statement)
    (s : Statement) (rest : List Statement) :
    through treat previous? (s :: rest) =
      (if (inside treat previous? s).2 then [] else previous?.toList) ++
        through treat (some (inside treat previous? s).1) rest :=
  rfl

theorem mem_through {previous? : Option Statement} {statements : List Statement} {s : Statement}
    (h : s ∈ through recover previous? statements) :
    s ∈ previous? ∨
      ∃ pair ∈ pairs previous? statements, s = (inside recover pair.1 pair.2).1 := by
  induction statements generalizing previous? with
  | nil => exact .inl (by simpa [through] using h)
  | cons t rest ih =>
    rw [through_cons, List.mem_append] at h
    rcases h with h | h
    · generalize (inside recover previous? t).2 = takesPrevious at h
      cases takesPrevious with
      | true => cases h
      | false => exact .inl (by simpa using h)
    · refine .inr ?_
      rcases ih h with heq | ⟨pair, hpair, heq⟩
      · exact ⟨_, List.mem_cons_self .., (Option.some.inj heq).symm⟩
      · exact ⟨pair, List.mem_cons_of_mem _ hpair, heq⟩

theorem mem_recover {statements : List Statement} {s : Statement} (h : s ∈ recover statements) :
    ∃ pair ∈ pairs none statements, s = (inside recover pair.1 pair.2).1 := by
  rw [recover_eq] at h
  exact (mem_through h).resolve_left (by simp)

theorem exists_of_standsIn {statements : List Statement} {s : Statement} (hs : s ∈ recover statements)
    {depth : Nat} {node : Node} (h : s.node.StandsIn depth node) :
    ∃ previous? t, Meets statements previous? t ∧ node = (inside recover previous? t).1.node := by
  induction h with
  | self =>
    obtain ⟨⟨previous?, t⟩, hpair, rfl⟩ := mem_recover hs
    exact ⟨previous?, t, .top hpair, rfl⟩
  | inner _ hbody hmem ih =>
    obtain ⟨outer?, t, hmeets, rfl⟩ := ih
    rw [bodies_inside] at hbody
    obtain ⟨part, hpart, rfl⟩ := List.mem_map.1 hbody
    obtain ⟨⟨previous?, u⟩, hpair, rfl⟩ := mem_recover hmem
    exact ⟨previous?, u, hmeets.inner hpart hpair, rfl⟩

/-- The parts of a counted loop: `set counter = first`, `while compared op last` and, at the end of the
body, `set stepped = increment + summand`. -/
structure Counting where
  name : String
  setOrigin : Nat
  counter : Node
  first : Node
  testOrigin : Nat
  op : BinaryOp
  compared : Node
  last : Node
  stepOrigin : Nat
  stepped : Node
  sumOrigin : Nat
  increment : Node
  summand : Node
  word_counter : counter.word? = some name
  word_compared : compared.word? = some name
  word_stepped : stepped.word? = some name
  word_summand : summand.word? = some name

namespace Counting

variable (c : Counting)

def setting : Node :=
  .assign c.setOrigin c.counter c.first

def test : Node :=
  .binary c.testOrigin c.op c.compared c.last

def step : Node :=
  .assign c.stepOrigin c.stepped (.binary c.sumOrigin .add c.increment c.summand)

/-- A step of `-1` counts down, any other one counts up. -/
def up : Bool :=
  !c.increment.isConstant "-1"

def kind : LoopKind :=
  .counted c.name c.first c.last c.up

end Counting

/-- A loop with its condition found and the statement before it are the parts of a counted loop, around
the rest of its body. -/
structure Counts (c : Counting) (previous? : Option Statement) (s : Shape) (body : List Statement) :
    Prop where
  setting : previous?.map (·.node) = some c.setting
  test : s.condition = c.test
  step : ∃ position, s.body = body ++ [⟨position, c.step⟩]

theorem exists_of_countedRange? {previous : Statement} {s : Shape} {kind : LoopKind}
    (h : countedRange? previous s = some kind) :
    ∃ c : Counting, c.kind = kind ∧ Counts c (some previous) s s.body.dropLast := by
  unfold countedRange? at h
  split at h
  · rename_i hprevious hcondition hlast
    obtain ⟨step, hstep, hnode⟩ := Option.map_eq_some_iff.1 hlast
    obtain ⟨body, hbody⟩ := List.getLast?_eq_some_iff.1 hstep
    obtain ⟨position, node⟩ := step
    obtain rfl : node = _ := hnode
    rw [hbody, List.dropLast_concat]
    split at h
    · rename_i name hname
      split at h
      · rename_i hwords
        simp only [Bool.and_eq_true, decide_eq_true_eq] at hwords
        obtain ⟨⟨hcompared, hstepped⟩, hsummand⟩ := hwords
        exact ⟨⟨name, _, _, _, _, _, _, _, _, _, _, _, _, hname, hcompared, hstepped, hsummand⟩,
          Option.some.inj h, congrArg some hprevious, hcondition, position, hbody⟩
      · cases h
    · cases h
  · cases h

theorem kind_whileCondition (s : Shape) : (whileCondition s).kind = s.kind := by
  unfold whileCondition
  split <;> rfl

theorem eachElement_cases (s : Shape) :
    eachElement s = s ∨ ∃ name list, (eachElement s).kind = .each name list := by
  unfold eachElement
  split
  · split
    · split
      · exact .inr ⟨_, _, rfl⟩
      · exact .inl rfl
    · exact .inl rfl
  · exact .inl rfl

theorem counting_of_counted {previous? : Option Statement} {s : Shape} {name : String}
    {first last : Node} {up : Bool}
    (h : (eachElement (counted previous? s).1).kind = .counted name first last up) :
    s.kind = .counted name first last up ∨
      ∃ c : Counting, c.kind = .counted name first last up ∧
        Counts c previous? s (eachElement (counted previous? s).1).body := by
  rcases eachElement_cases (counted previous? s).1 with heq | ⟨other, list, heq⟩
  · rw [heq] at h ⊢
    unfold counted at h ⊢
    split at h
    · rename_i kind hkind
      obtain ⟨previous, rfl, hrange⟩ := Option.bind_eq_some_iff.1 hkind
      obtain ⟨c, rfl, hcounts⟩ := exists_of_countedRange? hrange
      exact .inr ⟨c, h, by simpa [hkind] using hcounts⟩
    · exact .inl h
  · rw [heq] at h
    cases h

/-- A counted loop in the result was counted before, or stood behind its setting with its test in front
and its step at the end of its body. -/
theorem exists_counting {statements : List Statement} {s : Statement} (hs : s ∈ recover statements)
    {depth origin start stop : Nat} {name : String} {first last : Node} {up : Bool}
    {condition : Node} {body : List Statement}
    (h : s.node.StandsIn depth
      (.loop origin start stop (.counted name first last up) condition body)) :
    ∃ previous? position kind oldCondition oldBody,
      Meets statements previous? ⟨position, .loop origin start stop kind oldCondition oldBody⟩ ∧
        (kind = .counted name first last up ∨
          ∃ c : Counting, c.kind = .counted name first last up ∧
            ∃ rest, body = recover rest ∧
              Counts c previous? (whileCondition ⟨kind, oldCondition, oldBody⟩) rest) := by
  obtain ⟨previous?, ⟨position, node⟩, hmeets, heq⟩ := exists_of_standsIn hs h
  cases node with
  | loop oldOrigin oldStart oldStop kind oldCondition oldBody =>
    simp only [inside, Node.loop.injEq] at heq
    obtain ⟨rfl, rfl, rfl, hkind, -, hbody⟩ := heq
    refine ⟨previous?, position, kind, oldCondition, oldBody, hmeets, ?_⟩
    rcases counting_of_counted hkind.symm with hold | ⟨c, hc, hcounts⟩
    · exact .inl ((kind_whileCondition _).symm.trans hold)
    · exact .inr ⟨c, hc, _, hbody, hcounts⟩
  | _ => cases heq

end LingoSource.Loop
