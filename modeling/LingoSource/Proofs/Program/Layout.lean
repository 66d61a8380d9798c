import LingoSource.Proofs.Program.State

set_option autoImplicit false

namespace LingoSource

open Statement

namespace Statement

variable {a b : List Statement} {s : Statement}

structure Span (start stop : Nat) (statements : List Statement) : Prop where
  start_le : From start statements
  lt_stop : Below stop statements
  increasing : Increasing statements

namespace Span

variable {start middle stop : Nat}

theorem nil (start stop : Nat) : Span start stop [] :=
  ⟨from_nil, below_nil, List.Pairwise.nil⟩

theorem singleton (hstart : start ≤ s.position) (hstop : s.position < stop) :
    Span start stop [s] :=
  ⟨by simpa using hstart, by simpa using hstop, List.pairwise_singleton _ _⟩

theorem mono {lower upper : Nat} (h : Span start stop a) (hlower : lower ≤ start)
    (hupper : stop ≤ upper) : Span lower upper a :=
  ⟨h.start_le.mono hlower, h.lt_stop.mono hupper, h.increasing⟩

theorem append (ha : Span start middle a) (hb : Span middle stop b) (hstart : start ≤ middle)
    (hstop : middle ≤ stop) : Span start stop (a ++ b) where
  start_le := from_append.2 ⟨ha.start_le, hb.start_le.mono hstart⟩
  lt_stop := below_append.2 ⟨ha.lt_stop.mono hstop, hb.lt_stop⟩
  increasing := List.pairwise_append.2 ⟨ha.increasing, hb.increasing, fun s hs t ht =>
    Nat.lt_of_lt_of_le (ha.lt_stop s hs) (hb.start_le t ht)⟩

theorem cons (middle : Nat) (h : Span middle stop a) (hstart : start ≤ s.position) (hs : s.position < middle)
    (hstop : middle ≤ stop) : Span start stop (s :: a) :=
  append (a := [s]) (singleton hstart hs) h (by omega) hstop

end Span

/-- A jump at the end of a list goes to an address, if there may be one, and no assignment stands
there. -/
def EndsTo (inLoop : Bool) (address : Nat) (statements : List Statement) : Prop :=
  ∀ x ∈ statements.getLast?,
    (∀ origin target, x.node = .jump origin target →
      inLoop = true ∧ target = address ∧ origin = x.position) ∧
      ∀ origin left right, x.node ≠ .assign origin left right

theorem getLast?_append_of_ne_nil (a : List Statement) (h : b ≠ []) :
    (a ++ b).getLast? = b.getLast? := by
  rw [List.getLast?_append, Option.or_of_isSome (by simpa using h)]

theorem EndsTo.append {inLoop : Bool} {address : Nat} (ha : b = [] → EndsTo inLoop address a)
    (hb : EndsTo inLoop address b) : EndsTo inLoop address (a ++ b) := by
  cases b with
  | nil => simpa using ha rfl
  | cons t b => rwa [EndsTo, getLast?_append_of_ne_nil a (by simp)]

end Statement

namespace Block

variable (s : Scope) (behind : Nat) (p : Placed) (earlier passes visits segment offset : Nat)

def raw (b : Block) : List Statement := b.state s behind p 0 0 visits 1 offset

def rawAll (blocks : List Block) : List Statement := stateAll s behind p 0 0 visits 1 offset blocks

theorem le_nextSegment (next : Bool) (b : Block) (rest : List Block) :
    segment ≤ b.nextSegment next segment rest := by
  unfold nextSegment
  split <;> omega

theorem state_of_lt (h : passes < segment) (b : Block) :
    b.state s behind p earlier passes visits segment offset = b.raw s behind p visits offset := by
  have hseg : ¬ segment ≤ passes := by omega
  cases b <;> simp [raw, state, hseg]

theorem stateAll_of_lt (h : passes < segment) (blocks : List Block) :
    stateAll s behind p earlier passes visits segment offset blocks =
      rawAll s behind p visits offset blocks := by
  have hall (earlier passes segment : Nat) (h : passes < segment) (offset : Nat) :
      stateAll s behind p earlier passes visits segment offset blocks =
        stateAll s behind p 0 0 visits 1 offset blocks := by
    induction blocks generalizing earlier passes segment offset with
    | nil => rfl
    | cons b rest ih =>
      have hle := le_nextSegment segment p.next b rest
      have hone := le_nextSegment 1 p.next b rest
      rw [stateAll, stateAll, state_of_lt _ _ _ _ _ _ _ _ h, state_of_lt _ _ _ _ _ _ _ _ Nat.one_pos,
        ih _ _ _ (by omega), ih 0 0 (b.nextSegment p.next 1 rest) (by omega)]
  exact hall earlier passes segment h offset

@[simp] theorem rawAll_nil : rawAll s behind p visits offset [] = [] := rfl

theorem rawAll_cons (b : Block) (rest : List Block) :
    rawAll s behind p visits offset (b :: rest) =
      b.raw s behind (p.before (flatAll rest)) visits offset ++
        rawAll s behind p visits (offset + b.size) rest := by
  have hle := le_nextSegment 1 p.next b rest
  rw [rawAll, stateAll, stateAll_of_lt _ _ _ _ _ _ _ _ (by omega)]
  rfl

theorem raw_ifThen (condition : Push) (thenPart : List Block) :
    (ifThen condition thenPart).raw s behind p visits offset =
      ⟨offset + condition.size, .jumpUnless (offset + condition.size) (condition.node offset)
        (offset + condition.size + 3 + sizeAll thenPart)⟩ ::
        rawAll s behind p visits (offset + condition.size + 3) thenPart := by
  simp [raw, state, rawAll]

theorem raw_ifElse (condition : Push) (thenPart elsePart : List Block) :
    (ifElse condition thenPart elsePart).raw s behind p visits offset =
      ⟨offset + condition.size, .jumpUnless (offset + condition.size) (condition.node offset)
        (offset + condition.size + 3 + sizeAll thenPart + 3)⟩ ::
        (rawAll s behind {} visits (offset + condition.size + 3) thenPart ++
          ⟨offset + condition.size + 3 + sizeAll thenPart,
            .jump (offset + condition.size + 3 + sizeAll thenPart)
              (offset + condition.size + 3 + sizeAll thenPart + 3 + sizeAll elsePart)⟩ ::
            rawAll s behind p visits (offset + condition.size + 3 + sizeAll thenPart + 3)
              elsePart) := by
  simp [raw, state, rawAll]

mutual

theorem span_state (p : Placed) (earlier passes visits segment offset : Nat) :
    (b : Block) → Span offset (offset + b.size)
      (b.state s behind p earlier passes visits segment offset)
  | call _ | exitLoop => .singleton (by simp) (by simp [size])
  | ifThen condition thenPart => by
    have hthen := span_stateAll p 0 0 visits 1 (offset + condition.size + 3) thenPart
    simp only [state, size]
    split
    · exact .singleton (by simp) (by simp only; omega)
    · exact (hthen.mono (Nat.le_refl _) (by omega)).cons _ (by simp) (by simp) (by omega)
  | ifElse condition thenPart elsePart => by
    have hthen := span_stateAll {} 0 0 visits 1 (offset + condition.size + 3) thenPart
    have helse := span_stateAll p 0 0 visits 1
      (offset + condition.size + 3 + sizeAll thenPart + 3) elsePart
    simp only [state, size]
    split
    · exact .singleton (by simp) (by simp only; omega)
    · refine Span.cons (offset + condition.size + 3) (hthen.append (Span.cons _
        (helse.mono (Nat.le_refl _) (by omega)) (Nat.le_refl _) ?_ ?_) ?_ ?_) ?_ ?_ ?_
      all_goals try simp only
      all_goals omega
  | tell _ body => .singleton (by simp) (by simp only [size]; omega)
  | whileLess _ _ body =>
    .singleton (by simp only [loopStatement]; omega) (by simp only [loopStatement, size]; omega)
  | counted _ _ _ _ body =>
    Span.cons (offset + 4)
      (.singleton (by simp only [loopStatement]; omega)
        (by simp only [loopStatement, size]; omega))
      (by simp) (by simp) (by simp only [size]; omega)

theorem span_stateAll (p : Placed) (earlier passes visits segment offset : Nat) :
    (blocks : List Block) → Span offset (offset + sizeAll blocks)
      (stateAll s behind p earlier passes visits segment offset blocks)
  | [] => .nil _ _
  | b :: rest => by
    have hrest := span_stateAll p earlier passes visits (b.nextSegment p.next segment rest)
      (offset + b.size) rest
    rw [Nat.add_assoc] at hrest
    exact (span_state _ earlier passes visits segment offset b).append hrest (by omega)
      (by simp only [sizeAll]; omega)

end

theorem span_rawAll (blocks : List Block) :
    Span offset (offset + sizeAll blocks) (rawAll s behind p visits offset blocks) :=
  span_stateAll s behind p 0 0 visits 1 offset blocks

theorem state_ne_nil (b : Block) :
    b.state s behind p earlier passes visits segment offset ≠ [] := by
  cases b <;> simp only [state] <;> first | split <;> simp | simp

theorem stateAll_eq_nil {blocks : List Block} :
    stateAll s behind p earlier passes visits segment offset blocks = [] ↔ blocks = [] := by
  cases blocks with
  | nil => simp [stateAll]
  | cons b rest => simp [stateAll, state_ne_nil]

mutual

theorem endsTo_state {inLoop : Bool} (p : Placed) (earlier passes visits segment offset : Nat) :
    (b : Block) → b.WellFormed inLoop →
      EndsTo inLoop behind (b.state s behind p earlier passes visits segment offset)
  | call _, _ | tell _ _, _ | whileLess _ _ _, _ | counted _ _ _ _ _, _ => by
    simp [EndsTo, state, loopStatement]
  | exitLoop, h => by
    have hloop : inLoop = true := h
    cases hlast : p.last <;> simp [EndsTo, state, hlast, hloop]
  | ifThen condition thenPart, h => by
    have hthen := endsTo_stateAll p 0 0 visits 1 (offset + condition.size + 3) thenPart h
    simp only [state]
    split
    · simp [EndsTo]
    · exact EndsTo.append (a := [_]) (fun _ => by simp [EndsTo]) hthen
  | ifElse condition thenPart elsePart, h => by
    have helse := endsTo_stateAll p 0 0 visits 1
      (offset + condition.size + 3 + sizeAll thenPart + 3) elsePart h.2.2
    simp only [state]
    split
    · simp [EndsTo]
    · refine EndsTo.append (a := [_]) (by simp) (EndsTo.append (by simp)
        (EndsTo.append (a := [_]) (fun hnil => ?_) helse))
      exact absurd ((stateAll_eq_nil s behind p 0 0 visits 1 _).1 hnil) h.1

theorem endsTo_stateAll {inLoop : Bool} (p : Placed)
    (earlier passes visits segment offset : Nat) :
    (blocks : List Block) → WellFormedAll inLoop blocks →
      EndsTo inLoop behind (stateAll s behind p earlier passes visits segment offset blocks)
  | [], _ => by simp [EndsTo, stateAll]
  | b :: rest, h =>
    .append (fun _ => endsTo_state _ earlier passes visits segment offset b h.1)
      (endsTo_stateAll p earlier passes visits (b.nextSegment p.next segment rest)
        (offset + b.size) rest h.2)

end

theorem endJump?_append_of_ne_nil (a : List Statement) {b : List Statement} (h : b ≠ []) :
    Condition.endJump? (a ++ b) = Condition.endJump? b := by
  rw [Condition.endJump?, getLast?_append_of_ne_nil a h, Condition.endJump?]

theorem rawAll_eq_nil {blocks : List Block} :
    rawAll s behind p visits offset blocks = [] ↔ blocks = [] :=
  stateAll_eq_nil s behind p 0 0 visits 1 offset

mutual

/-- Before any branch is made, a block ends with a jump where it ends with an exit. -/
theorem endJump?_raw {inLoop : Bool} (p : Placed) (offset : Nat) :
    (b : Block) → b.WellFormed inLoop →
      Condition.endJump? (b.raw s behind p visits offset) =
        if b.endsWithExit && !p.last then some behind else none
  | call _, _ | tell _ _, _ | whileLess _ _ _, _ | counted _ _ _ _ _, _ => by
    simp [raw, state, endsWithExit, Condition.endJump?, Condition.jumpAddress?, loopStatement]
  | exitLoop, _ => by
    cases hlast : p.last <;>
      simp [raw, state, endsWithExit, Condition.endJump?, Condition.jumpAddress?, hlast]
  | ifThen condition thenPart, h => by
    have hthen := endJump?_rawAll p (offset + condition.size + 3) thenPart h
    rw [raw_ifThen, endsWithExit]
    cases thenPart with
    | nil => rfl
    | cons b rest =>
      rw [← hthen, ← List.singleton_append,
        endJump?_append_of_ne_nil _ (by simp [rawAll_eq_nil])]
  | ifElse condition thenPart elsePart, h => by
    have helse := endJump?_rawAll p (offset + condition.size + 3 + sizeAll thenPart + 3) elsePart
      h.2.2
    have hne := mt (rawAll_eq_nil s behind p visits
      (offset + condition.size + 3 + sizeAll thenPart + 3)).1 h.1
    rw [raw_ifElse, endsWithExit, ← helse, ← List.singleton_append,
      endJump?_append_of_ne_nil _ (by simp), endJump?_append_of_ne_nil _ (by simp),
      ← List.singleton_append, endJump?_append_of_ne_nil _ hne]

theorem endJump?_rawAll {inLoop : Bool} (p : Placed) (offset : Nat) :
    (blocks : List Block) → WellFormedAll inLoop blocks →
      Condition.endJump? (rawAll s behind p visits offset blocks) =
        if endsWithExitAll blocks && !p.last then some behind else none
  | [], _ => rfl
  | b :: rest, h => by
    have hb := endJump?_raw (p.before (flatAll rest)) offset b h.1
    have hrest := endJump?_rawAll p (offset + b.size) rest h.2
    rw [rawAll_cons, endsWithExitAll]
    cases rest with
    | nil => simpa [flatAll, Placed.before] using hb
    | cons c rest =>
      rw [endJump?_append_of_ne_nil _ (by simp [rawAll_eq_nil]), hrest]
      rfl

end

mutual

theorem inLoop_of_endsWithExit {inLoop : Bool} :
    (b : Block) → b.WellFormed inLoop → b.endsWithExit = true → inLoop = true
  | exitLoop, h, _ => h
  | ifThen _ thenPart, h, hends => inLoop_of_endsWithExitAll thenPart h hends
  | ifElse _ _ elsePart, h, hends => inLoop_of_endsWithExitAll elsePart h.2.2 hends
  | call _, _, hends | tell _ _, _, hends | whileLess _ _ _, _, hends
  | counted _ _ _ _ _, _, hends => by cases hends

theorem inLoop_of_endsWithExitAll {inLoop : Bool} :
    (blocks : List Block) → WellFormedAll inLoop blocks → endsWithExitAll blocks = true →
      inLoop = true
  | [], _, hends => by cases hends
  | b :: rest, h, hends => by
    rw [endsWithExitAll] at hends
    split at hends
    · exact inLoop_of_endsWithExit b h.1 hends
    · exact inLoop_of_endsWithExitAll rest h.2 hends

end

mutual

theorem length_raw (p : Placed) (offset : Nat) :
    (b : Block) → (b.raw s behind p visits offset).length = b.flat
  | call _ | exitLoop | tell _ _ | whileLess _ _ _ | counted _ _ _ _ _ => rfl
  | ifThen condition thenPart => by
    rw [raw_ifThen, List.length_cons, length_rawAll, flat]
    omega
  | ifElse condition thenPart elsePart => by
    rw [raw_ifElse, List.length_cons, List.length_append, List.length_cons, length_rawAll,
      length_rawAll, flat]
    omega

theorem length_rawAll (p : Placed) (offset : Nat) :
    (blocks : List Block) → (rawAll s behind p visits offset blocks).length = flatAll blocks
  | [] => rfl
  | b :: rest => by
    rw [rawAll_cons, List.length_append, length_raw, length_rawAll, flatAll]

end

end Block

end LingoSource
