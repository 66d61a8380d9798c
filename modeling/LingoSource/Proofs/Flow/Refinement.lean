import LingoSource.Proofs.Flow.Lifting
import LingoSource.Proofs.Loop.Unfolding

set_option autoImplicit false

namespace LingoSource

open Statement

mutual

def Node.Loopless : Node → Prop
  | .loop .. | .tell .. => False
  | .branch _ _ thenBody elseBody => Statement.LooplessAll thenBody ∧ Statement.LooplessAll elseBody
  | _ => True

def Statement.LooplessAll : List Statement → Prop
  | [] => True
  | ⟨_, node⟩ :: rest => node.Loopless ∧ Statement.LooplessAll rest

end

theorem Statement.looplessAll_cons {s : Statement} {rest : List Statement} :
    LooplessAll (s :: rest) ↔ s.node.Loopless ∧ LooplessAll rest := by
  obtain ⟨position, node⟩ := s
  rw [LooplessAll]

theorem Lifts.loopless {tail statements lifted : List Statement} (h : Lifts tail statements lifted)
    (hforward : ∀ s ∈ statements, s.Forward) : LooplessAll lifted := by
  induction h with
  | nil => trivial
  | keep s h ih =>
    have hs := hforward s (by simp)
    refine looplessAll_cons.2 ⟨?_, ih fun t ht => hforward t (by simp [ht])⟩
    unfold Forward at hs
    split at hs
    · simp_all [Node.Loopless]
    · simp_all [Node.Loopless]
    · simp_all [Node.Loopless]
    · cases hs
  | oneWay _ _ _ _ ih₁ ih₂ =>
    exact looplessAll_cons.2 ⟨⟨ih₁ fun t ht => hforward t (by simp [ht]), trivial⟩,
      ih₂ fun t ht => hforward t (by simp [ht])⟩
  | twoWay _ _ _ _ _ _ _ ih₁ ih₂ ih₃ =>
    exact looplessAll_cons.2 ⟨⟨ih₁ fun t ht => hforward t (by simp [ht]),
      ih₂ fun t ht => hforward t (by simp [ht])⟩, ih₃ fun t ht => hforward t (by simp [ht])⟩

namespace Loop

theorem inside_of_loopless {recover : List Statement → List Statement} {s : Statement}
    (h : s.node.Loopless)
    (hrecover : ∀ part, weightAll part < s.node.weight → LooplessAll part → recover part = part)
    (previous? : Option Statement) : inside recover previous? s = (s, false) := by
  obtain ⟨position, node⟩ := s
  cases node with
  | loop => exact h.elim
  | tell => exact h.elim
  | branch origin condition thenBody elseBody =>
    simp only [Node.weight] at hrecover
    simp only [inside]
    rw [hrecover thenBody (by omega) h.1, hrecover elseBody (by omega) h.2]
  | _ => rfl

theorem recover_of_loopless {statements : List Statement} (h : LooplessAll statements) :
    recover statements = statements := by
  induction hn : weightAll statements using Nat.strongRecOn generalizing statements with
  | ind n ih =>
    subst hn
    have hthrough (part : List Statement) (hle : weightAll part ≤ weightAll statements)
        (hpart : LooplessAll part) (previous? : Option Statement) :
        through recover previous? part = previous?.toList ++ part := by
      induction part generalizing previous? with
      | nil => simp [through]
      | cons s rest ihPart =>
        obtain ⟨hs, hrest⟩ := looplessAll_cons.1 hpart
        rw [weightAll_cons] at hle
        have hinside := inside_of_loopless hs
          (fun body hb hl => ih (weightAll body) (by omega) hl rfl) previous?
        have hweight := s.node.weight_pos
        simp only [through, hinside, Bool.false_eq_true, if_false]
        rw [ihPart (by omega) hrest (some s)]
        rfl
    rw [recover_eq, hthrough statements (Nat.le_refl _) h none]
    rfl

end Loop

namespace Exit

mutual

theorem recoverNode_of_loopless : (node : Node) → node.Loopless → recoverNode none node = node
  | .loop .., h | .tell .., h => h.elim
  | .branch _ _ thenBody elseBody, h => by
    rw [recoverNode, recover_of_loopless thenBody h.1, recover_of_loopless elseBody h.2]
  | .jump _ _, _ => rfl
  | .leaf .., _ | .unary .., _ | .binary .., _ | .assign .., _ | .put .., _ | .chunk .., _
  | .chunkRange .., _ | .aspect .., _ | .property .., _ | .builtinProperty .., _
  | .menuItemOf .., _ | .menuItemsOf .., _ | .arguments .., _ | .list .., _
  | .propertyList .., _ | .call .., _ | .methodCall .., _ | .jumpUnless .., _
  | .exitLoop .., _ => rfl

theorem recover_of_loopless :
    (statements : List Statement) → LooplessAll statements → recover none statements = statements
  | [], _ => rfl
  | ⟨_, node⟩ :: rest, h => by
    rw [recover, recoverNode_of_loopless node h.1, recover_of_loopless rest h.2]

end

theorem firstJump?_cons_eq_none {s : Statement} {rest : List Statement} :
    firstJump? (s :: rest) = none ↔ jumpIn? s.position s.node = none ∧ firstJump? rest = none := by
  obtain ⟨position, node⟩ := s
  rw [firstJump?, Option.or_eq_none_iff]

theorem firstJump?_of_check {statements : List Statement} (h : check statements = .ok ()) :
    firstJump? statements = none := by
  unfold check at h
  split at h
  · cases h
  · assumption

end Exit

theorem Statement.JumpProgram.eq_of_recoverFlow {statements tree : List Statement}
    (h : JumpProgram statements) (hok : recoverFlow statements = .ok tree) :
    Lifts [] statements tree ∧ Exit.firstJump? tree = none := by
  have hlifts := Condition.lifts_recover statements h.increasing h.forward
  have hloopless := hlifts.loopless h.forward
  have hstructured : structured statements = Condition.recover none statements := by
    rw [structured, Loop.recover_of_loopless hloopless, Exit.recover_of_loopless _ hloopless]
  unfold recoverFlow at hok
  rw [hstructured] at hok
  cases hcheck : Exit.check (Condition.recover none statements) with
  | error e =>
    simp only [hcheck] at hok
    cases hok
  | ok u =>
    simp only [hcheck] at hok
    cases hok
    exact ⟨hlifts, Exit.firstJump?_of_check hcheck⟩

theorem Statement.below_of_positions {address : Nat} {a b : List Statement}
    (h : a.map position = b.map position) (hb : Below address b) : Below address a := by
  have hmap : ∀ l : List Statement, Below address l ↔ ∀ p ∈ l.map position, p < address := by
    simp [Below]
  rwa [hmap, h, ← hmap]

/-- Whatever lies behind statements, cut to the ends of blocks they have the trace of a tree. `ends`
are the ends of the blocks around them, and `tail` is what follows them in the innermost of these. -/
def Statement.CutsTo (ends : List Nat) (tail statements tree : List Statement) : Prop :=
  ∃ program, program.map position = statements.map position ∧
    ∀ behind, Past ends behind →
      cut ends (statements ++ (tail ++ behind)) = program ++ cut ends (tail ++ behind) ∧
      ∀ truth, trace truth (program ++ cut ends (tail ++ behind)) =
        trace truth tree ++ trace truth (cut ends (tail ++ behind))

namespace Statement.CutsTo

variable {ends : List Nat} {tail rest tree : List Statement} {position origin address : Nat}
  {condition : Node} {thenPart thenBody : List Statement}

theorem nil (ends : List Nat) (tail : List Statement) : CutsTo ends tail [] [] :=
  ⟨[], rfl, fun behind _ => ⟨rfl, fun truth => by simp [trace]⟩⟩

theorem call {name : String} {kind : ListKind} {args : List Node} {inTell : Bool}
    (hheld : Held ends [⟨position, .call origin name kind args inTell⟩])
    (h : CutsTo ends tail rest tree) :
    CutsTo ends tail (⟨position, .call origin name kind args inTell⟩ :: rest)
      (⟨position, .call origin name kind args inTell⟩ :: tree) := by
  obtain ⟨program, hpositions, hprogram⟩ := h
  refine ⟨⟨position, .call origin name kind args inTell⟩ :: program, by simp [hpositions],
    fun behind hbehind => ?_⟩
  obtain ⟨hcut, htrace⟩ := hprogram behind hbehind
  refine ⟨?_, fun truth => ?_⟩
  · rw [List.cons_append, cut_call hheld rfl, hcut, List.cons_append]
  · rw [List.cons_append, trace_call, htrace, trace_call, List.cons_append]

/-- A conditional jump over a part. When it is taken, it ends up behind the part. -/
theorem oneWay (hheld : Held ends (⟨position, .jumpUnless origin condition address⟩ :: thenPart))
    (hthen : Below address thenPart) (hrest : From address (rest ++ tail))
    (hbody : CutsTo (within ends address :: ends) [] thenPart thenBody)
    (htree : CutsTo ends tail rest tree) :
    CutsTo ends tail (⟨position, .jumpUnless origin condition address⟩ :: (thenPart ++ rest))
      (⟨position, .branch origin condition thenBody []⟩ :: tree) := by
  obtain ⟨hheldHead, hheldThen⟩ := held_append (a := [_]).1 hheld
  have hbelow := hthen.within hheldThen
  have hle := within_le ends address
  have hpast {behind : List Statement} (h : Past ends behind) := h.from_within address
  generalize hstop : within ends address = stop at hbody hbelow hle hpast
  obtain ⟨first, hfirst, hfirstCut⟩ := hbody
  obtain ⟨last, hlast, hlastCut⟩ := htree
  refine ⟨⟨position, .jumpUnless origin condition stop⟩ :: (first ++ last), by simp [hfirst, hlast],
    fun behind hbehind => ?_⟩
  have hfrom : From stop (rest ++ (tail ++ behind)) := by
    rw [← List.append_assoc]
    exact from_append.2 ⟨hrest.mono hle, hpast hbehind⟩
  obtain ⟨hthenCut, hthenTrace⟩ := hfirstCut _ (past_cons.2 hfrom)
  obtain ⟨hrestCut, hrestTrace⟩ := hlastCut behind hbehind
  rw [List.nil_append, cut_of_from hfrom, hrestCut] at hthenCut hthenTrace
  refine ⟨?_, fun truth => ?_⟩
  · rw [List.cons_append, cut_jumpUnless hheldHead, hstop, List.append_assoc, hthenCut,
      List.cons_append, List.append_assoc]
  · have hbehindStop : From stop (last ++ cut ends (tail ++ behind)) := by
      rw [← hrestCut]
      exact from_cut.2 hfrom
    rw [List.cons_append, List.append_assoc, trace_jumpUnless truth _ _ _
      (below_of_positions hfirst hbelow) hbehindStop, hthenTrace, hrestTrace, trace]
    split <;> simp [trace]

theorem twoWay {passed passedOrigin target : Nat} {elsePart elseBody : List Statement}
    (hheld : Held ends (⟨position, .jumpUnless origin condition address⟩ ::
      (thenPart ++ ⟨passed, .jump passedOrigin target⟩ :: elsePart)))
    (hthen : Below address (thenPart ++ [⟨passed, .jump passedOrigin target⟩]))
    (hfrom : From address (elsePart ++ (rest ++ tail))) (helse : Below target elsePart)
    (hrest : From target (rest ++ tail))
    (hbody : CutsTo (within ends address :: ends) [⟨passed, .jump passedOrigin target⟩] thenPart
      thenBody)
    (helseBody : CutsTo (within ends target :: ends) [] elsePart elseBody)
    (htree : CutsTo ends tail rest tree) :
    CutsTo ends tail
      (⟨position, .jumpUnless origin condition address⟩ ::
        (thenPart ++ ⟨passed, .jump passedOrigin target⟩ :: (elsePart ++ rest)))
      (⟨position, .branch origin condition thenBody elseBody⟩ :: tree) := by
  obtain ⟨hheldHead, hheldParts⟩ := held_append (a := [_]).1 hheld
  obtain ⟨hheldThen, hheldPassed⟩ := held_append.1 hheldParts
  obtain ⟨hheldJump, hheldElse⟩ := held_append (a := [_]).1 hheldPassed
  have hbelow := hthen.within (held_append.2 ⟨hheldThen, hheldJump⟩)
  have hbelowElse := helse.within hheldElse
  have hle := within_le ends address
  have hleTarget := within_le ends target
  have hpast {behind : List Statement} (h : Past ends behind) := h.from_within address
  have hpastTarget {behind : List Statement} (h : Past ends behind) := h.from_within target
  generalize hstop : within ends address = stop at hbody hbelow hle hpast
  generalize hend : within ends target = stopElse at helseBody hbelowElse hleTarget hpastTarget
  obtain ⟨first, hfirst, hfirstCut⟩ := hbody
  obtain ⟨second, hsecond, hsecondCut⟩ := helseBody
  obtain ⟨last, hlast, hlastCut⟩ := htree
  refine ⟨⟨position, .jumpUnless origin condition stop⟩ ::
    (first ++ ⟨passed, .jump passedOrigin stopElse⟩ :: (second ++ last)),
    by simp [hfirst, hsecond, hlast], fun behind hbehind => ?_⟩
  have hfromElse : From stop (elsePart ++ (rest ++ (tail ++ behind))) := by
    rw [← List.append_assoc rest, ← List.append_assoc]
    exact from_append.2 ⟨hfrom.mono hle, hpast hbehind⟩
  have hfromRest : From stopElse (rest ++ (tail ++ behind)) := by
    rw [← List.append_assoc]
    exact from_append.2 ⟨hrest.mono hleTarget, hpastTarget hbehind⟩
  obtain ⟨hthenCut, hthenTrace⟩ := hfirstCut _ (past_cons.2 hfromElse)
  obtain ⟨helseCut, helseTrace⟩ := hsecondCut _ (past_cons.2 hfromRest)
  obtain ⟨hrestCut, hrestTrace⟩ := hlastCut behind hbehind
  have hjumpBelow : passed < stop := (below_cons.1 (below_append.1 hbelow).2).1
  rw [List.nil_append, cut_of_from hfromRest, hrestCut] at helseCut helseTrace
  rw [List.singleton_append, cut_jump hjumpBelow, hend, helseCut] at hthenCut hthenTrace
  have hbehindStop : From stop (second ++ (last ++ cut ends (tail ++ behind))) := by
    rw [← helseCut]
    exact from_cut.2 hfromElse
  have hbehindElse : From stopElse (last ++ cut ends (tail ++ behind)) := by
    rw [← hrestCut]
    exact from_cut.2 hfromRest
  refine ⟨?_, fun truth => ?_⟩
  · rw [List.cons_append, cut_jumpUnless hheldHead, hstop]
    simp only [List.append_assoc, List.cons_append, hthenCut]
  · have hpart : Below stop (first ++ [⟨passed, .jump passedOrigin stopElse⟩]) :=
      below_append.2 ⟨below_of_positions hfirst (below_append.1 hbelow).1, by simpa using hjumpBelow⟩
    -- the jump at the end of the first part passes over the second one
    have hpassed := trace_jump truth passed passedOrigin (below_of_positions hsecond hbelowElse)
      hbehindElse
    have hhead := trace_jumpUnless truth position origin condition hpart hbehindStop
    simp only [List.cons_append, List.append_assoc, List.nil_append] at hhead ⊢
    rw [hhead, hthenTrace, hpassed, helseTrace, hrestTrace, trace]
    split <;> simp

end Statement.CutsTo

/-- Whatever the recovery makes of a block, it has the trace of the cut block, if no jump is left. -/
theorem Lifts.cutsTo {tail statements lifted : List Statement} (h : Lifts tail statements lifted)
    (hforward : ∀ s ∈ statements, s.Forward) (hjump : Exit.firstJump? lifted = none)
    (ends : List Nat) (hheld : Held ends statements) : CutsTo ends tail statements lifted := by
  induction h generalizing ends with
  | nil => exact .nil ends _
  | keep s h ih =>
    obtain ⟨hs, hrest⟩ := Exit.firstJump?_cons_eq_none.1 hjump
    obtain ⟨hheldHead, hheldRest⟩ := held_append (a := [s]).1 hheld
    have htree := ih (fun t ht => hforward t (by simp [ht])) hrest ends hheldRest
    have hcall := hforward s (by simp)
    obtain ⟨position, node⟩ := s
    cases node with
    | call => exact .call hheldHead htree
    | jump => cases hs
    | jumpUnless => cases hs
    | _ => exact hcall.elim
  | oneWay hthen hrest h₁ h₂ ih₁ ih₂ =>
    obtain ⟨hbranch, hlifted⟩ := Exit.firstJump?_cons_eq_none.1 hjump
    have hbody := (Option.or_eq_none_iff.1 hbranch).1
    rw [← List.cons_append] at hheld
    obtain ⟨hheldThen, hheldRest⟩ := held_append.1 hheld
    have hheldPart := (held_append (a := [_]).1 hheldThen).2
    exact .oneWay hheldThen hthen hrest
      (ih₁ (fun t ht => hforward t (by simp [ht])) hbody _ (held_stop.2 (hthen.within hheldPart)))
      (ih₂ (fun t ht => hforward t (by simp [ht])) hlifted ends hheldRest)
  | @twoWay tail thenPart thenBody elsePart elseBody rest lifted position origin address passed
      passedOrigin target condition hthen hfrom helse hrest h₁ h₂ h₃ ih₁ ih₂ ih₃ =>
    obtain ⟨hbranch, hlifted⟩ := Exit.firstJump?_cons_eq_none.1 hjump
    obtain ⟨hbody, helseBody⟩ := Option.or_eq_none_iff.1 hbranch
    have hheldAll : Held ends ((⟨position, .jumpUnless origin condition address⟩ ::
        (thenPart ++ ⟨passed, .jump passedOrigin target⟩ :: elsePart)) ++ rest) := by
      simpa using hheld
    obtain ⟨hheldParts, hheldRest⟩ := held_append.1 hheldAll
    obtain ⟨hheldThen, hheldElse⟩ := held_append.1 (held_append (a := [_]).1 hheldParts).2
    have hbelow := (below_append.1 hthen).1.within hheldThen
    have hbelowElse := helse.within (held_append (a := [_]).1 hheldElse).2
    exact .twoWay hheldParts hthen hfrom helse hrest
      (ih₁ (fun t ht => hforward t (by simp [ht])) hbody _ (held_stop.2 hbelow))
      (ih₂ (fun t ht => hforward t (by simp [ht])) helseBody _ (held_stop.2 hbelowElse))
      (ih₃ (fun t ht => hforward t (by simp [ht])) hlifted ends hheldRest)

/-- The recovery of a jump program never changes what it does but by cutting addresses. If it
succeeds, the tree has the trace of the program whose addresses are cut to the ends of the blocks
that the jumps stand in; so it has the trace of the program exactly where cutting does not change
it, and always if no jump leaves its block. -/
theorem Statement.JumpProgram.trace_eq {statements tree : List Statement}
    (h : JumpProgram statements) (hok : recoverFlow statements = .ok tree) :
    (∀ truth, trace truth tree = trace truth (cut [] statements)) ∧
    (∀ truth, trace truth tree = trace truth statements ↔
      trace truth (cut [] statements) = trace truth statements) ∧
    (cut [] statements = statements → ∀ truth, trace truth tree = trace truth statements) := by
  obtain ⟨hlifts, hjump⟩ := h.eq_of_recoverFlow hok
  obtain ⟨program, -, hprogram⟩ := hlifts.cutsTo h.forward hjump [] (by simp [Held])
  obtain ⟨hcut, htrace⟩ := hprogram [] (by simp [Past])
  simp only [List.append_nil, cut] at hcut htrace
  have heq (truth : Nat → Node → Bool) : trace truth tree = trace truth (cut [] statements) := by
    rw [hcut, htrace]
    simp [trace]
  refine ⟨heq, fun truth => ?_, fun hnested truth => ?_⟩
  · rw [heq]
  · rw [heq, hnested]

def Statement.crossing : List Statement :=
  let call (name : String) : Node := .call 0 name .argListNoRet [] false
  [⟨0, .jumpUnless 0 (.leaf .constant "a" 0) 20⟩, ⟨5, .jumpUnless 5 (.leaf .constant "b" 3) 30⟩,
    ⟨10, call "first"⟩, ⟨20, call "second"⟩, ⟨30, call "third"⟩]

def Statement.crossingTree : List Statement :=
  let call (name : String) : Node := .call 0 name .argListNoRet [] false
  [⟨0, .branch 0 (.leaf .constant "a" 0)
      [⟨5, .branch 5 (.leaf .constant "b" 3) [⟨10, call "first"⟩] []⟩] []⟩,
    ⟨20, call "second"⟩, ⟨30, call "third"⟩]

/-- If the first condition holds and the second does not, the program calls `third` only, but its
tree calls `second` before. -/
theorem Statement.trace_crossing :
    recoverFlow crossing = .ok crossingTree ∧
    trace (fun position _ => position = 0) crossingTree =
      trace (fun position _ => position = 0) (cut [] crossing) ∧
    trace (fun position _ => position = 0) crossingTree ≠
      trace (fun position _ => position = 0) crossing := by
  have hprogram : JumpProgram crossing :=
    ⟨by simp [crossing, Increasing], by simp [crossing, Forward]⟩
  have htree : recoverFlow crossing = .ok crossingTree := rfl
  refine ⟨htree, (hprogram.trace_eq htree).1 _, ?_⟩
  simp [crossing, crossingTree, trace]

end LingoSource
