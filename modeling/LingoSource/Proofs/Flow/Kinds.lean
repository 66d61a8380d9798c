import LingoSource.Proofs.Condition.Unfolding
import LingoSource.Recovery.Exit

/-!
The passes over control flow write the kinds of loops and never read them. Resetting all kinds before
a pass changes the kinds that come out of it and nothing else.
-/
set_option autoImplicit false

namespace LingoSource

mutual

/-- The node with all loops back to the kind that they are emitted with. -/
def Node.plain : Node → Node
  | .loop origin start stop _ condition body =>
    .loop origin start stop .whileTrue condition (Statement.plainAll body)
  | .tell origin target body => .tell origin target (Statement.plainAll body)
  | .branch origin condition thenBody elseBody =>
    .branch origin condition (Statement.plainAll thenBody) (Statement.plainAll elseBody)
  | node => node

def Statement.plainAll : List Statement → List Statement
  | [] => []
  | ⟨position, node⟩ :: rest => ⟨position, node.plain⟩ :: Statement.plainAll rest

end

def Statement.plain (s : Statement) : Statement :=
  ⟨s.position, s.node.plain⟩

namespace Statement

@[simp] theorem position_plain (s : Statement) : s.plain.position = s.position := rfl

@[simp] theorem node_plain (s : Statement) : s.plain.node = s.node.plain := rfl

@[simp] theorem plainAll_nil : plainAll [] = [] := by rw [plainAll]

@[simp] theorem plainAll_cons (s : Statement) (rest : List Statement) :
    plainAll (s :: rest) = s.plain :: plainAll rest := by
  obtain ⟨position, node⟩ := s
  rw [plainAll, plain]

theorem plainAll_eq_map (statements : List Statement) :
    plainAll statements = statements.map plain := by
  induction statements with
  | nil => simp
  | cons s rest ih => simp [ih]

@[simp] theorem plainAll_append (a b : List Statement) :
    plainAll (a ++ b) = plainAll a ++ plainAll b := by
  simp [plainAll_eq_map]

theorem plainAll_dropLast (statements : List Statement) :
    plainAll statements.dropLast = (plainAll statements).dropLast := by
  simp [plainAll_eq_map, List.map_dropLast]

end Statement

open Statement

mutual

theorem Node.plain_plain : (node : Node) → node.plain.plain = node.plain
  | .loop .. => by simp only [Node.plain, Statement.plainAll_plainAll]
  | .tell .. => by simp only [Node.plain, Statement.plainAll_plainAll]
  | .branch .. => by simp only [Node.plain, Statement.plainAll_plainAll]
  | .leaf .. | .unary .. | .binary .. | .assign .. | .put .. | .chunk .. | .chunkRange ..
  | .aspect .. | .property .. | .builtinProperty .. | .menuItemOf .. | .menuItemsOf ..
  | .arguments .. | .list .. | .propertyList .. | .call .. | .methodCall .. | .jump ..
  | .jumpUnless .. | .exitLoop .. => rfl

theorem Statement.plainAll_plainAll :
    (statements : List Statement) → plainAll (plainAll statements) = plainAll statements
  | [] => rfl
  | ⟨position, node⟩ :: rest => by
    simp only [plainAll, node.plain_plain, Statement.plainAll_plainAll rest]

end

mutual

theorem Node.weight_plain : (node : Node) → node.plain.weight = node.weight
  | .loop .. => by simp only [Node.plain, Node.weight, Statement.weightAll_plainAll]
  | .tell .. => by simp only [Node.plain, Node.weight, Statement.weightAll_plainAll]
  | .branch .. => by simp only [Node.plain, Node.weight, Statement.weightAll_plainAll]
  | .leaf .. | .unary .. | .binary .. | .assign .. | .put .. | .chunk .. | .chunkRange ..
  | .aspect .. | .property .. | .builtinProperty .. | .menuItemOf .. | .menuItemsOf ..
  | .arguments .. | .list .. | .propertyList .. | .call .. | .methodCall .. | .jump ..
  | .jumpUnless .. | .exitLoop .. => rfl

theorem Statement.weightAll_plainAll :
    (statements : List Statement) → weightAll (plainAll statements) = weightAll statements
  | [] => rfl
  | ⟨position, node⟩ :: rest => by
    simp only [plainAll, weightAll, node.weight_plain, Statement.weightAll_plainAll rest]

end

namespace Condition

variable (loopEnd? : Option Nat)

theorem breakBeforeLast_plainAll (statements : List Statement) :
    breakBeforeLast loopEnd? (plainAll statements) =
      plainAll (breakBeforeLast loopEnd? statements) := by
  induction statements with
  | nil => rfl
  | cons s rest ih =>
    match rest with
    | [] => simp [breakBeforeLast]
    | [t] =>
      obtain ⟨position, node⟩ := s
      cases node
      case jump =>
        simp only [plainAll_cons, plainAll_nil, breakBeforeLast, plain, Node.plain]
        split <;> simp [plain, Node.plain]
      all_goals simp [breakBeforeLast, plain, Node.plain]
    | t :: u :: rest =>
      simp only [plainAll_cons, breakBeforeLast] at ih ⊢
      rw [ih]

theorem splitAtHead_plainAll (position : Nat) (statements : List Statement) :
    splitAtHead position (plainAll statements) =
      (splitAtHead position statements).map fun (before, origin, condition, address, after) =>
        (plainAll before, origin, condition, address, plainAll after) := by
  induction statements with
  | nil => rfl
  | cons s rest ih =>
    obtain ⟨p, node⟩ := s
    cases node
    case jumpUnless =>
      simp only [plainAll_cons, plain, Node.plain, splitAtHead, ih]
      split <;> simp [plain, Node.plain, Function.comp_def]
    all_goals
      simp [plain, Node.plain, splitAtHead, ih, Function.comp_def]

theorem splitAtAddress_plainAll (address : Nat) (statements : List Statement) :
    splitAtAddress address (plainAll statements) =
      (plainAll (splitAtAddress address statements).1,
        plainAll (splitAtAddress address statements).2) := by
  simp only [splitAtAddress, List.span_eq_takeWhile_dropWhile, plainAll_eq_map,
    List.takeWhile_map, List.dropWhile_map, Function.comp_def, position_plain]
  rfl

theorem lastJump?_plainAll (statements : List Statement) :
    lastJump? (plainAll statements) = lastJump? statements := by
  rcases List.eq_nil_or_concat statements with rfl | ⟨before, s, rfl⟩
  · rfl
  · obtain ⟨position, node⟩ := s
    simp only [List.concat_eq_append, plainAll_append, plainAll_cons, plainAll_nil, lastJump?,
      List.getLast?_concat]
    cases node <;> rfl

theorem heads_plainAll (scan : Scan) (statements : List Statement) :
    heads loopEnd? scan (plainAll statements) = heads loopEnd? scan statements := by
  induction statements generalizing scan with
  | nil => rfl
  | cons s rest ih =>
    have hnext : scan.next loopEnd? s.plain = scan.next loopEnd? s := by
      obtain ⟨position, node⟩ := s
      cases node <;> rfl
    simp only [plainAll_cons, heads, hnext, ih, position_plain]

theorem lift_plainAll {treat : List Statement → List Statement}
    (h : ∀ part, treat (plainAll part) = plainAll (treat part)) (statements : List Statement)
    (position : Nat) :
    lift treat loopEnd? (plainAll statements) position =
      plainAll (lift treat loopEnd? statements position) := by
  unfold lift
  rw [splitAtHead_plainAll]
  rcases splitAtHead position statements with _ | ⟨before, origin, condition, address, after⟩
  · rfl
  · simp only [Option.map_some]
    split
    · simp [plain, Node.plain]
    · simp only [splitAtAddress_plainAll, breakBeforeLast_plainAll, h, lastJump?_plainAll]
      split
      · simp [plain, Node.plain]
      · split
        · simp [plain, Node.plain, plainAll_dropLast]
        · simp [plain, Node.plain, plainAll_dropLast]

theorem inside_plain {treat : Option Nat → List Statement → List Statement}
    (h : ∀ loopEnd? part, treat loopEnd? (plainAll part) = plainAll (treat loopEnd? part))
    (s : Statement) : inside treat loopEnd? s.plain = (inside treat loopEnd? s).plain := by
  obtain ⟨position, node⟩ := s
  cases node <;> simp [inside, plain, Node.plain, h]

theorem recoverWithin_plainAll (fuel : Nat) (statements : List Statement) :
    recoverWithin fuel loopEnd? (plainAll statements) =
      plainAll (recoverWithin fuel loopEnd? statements) := by
  induction fuel generalizing loopEnd? statements with
  | zero => rfl
  | succ fuel ih =>
    have hmap : (plainAll statements).map (inside (recoverWithin fuel) loopEnd?) =
        plainAll (statements.map (inside (recoverWithin fuel) loopEnd?)) := by
      simp only [plainAll_eq_map, List.map_map]
      exact List.map_congr_left fun s _ => inside_plain loopEnd? ih s
    simp only [recoverWithin, hmap, heads_plainAll]
    generalize heads loopEnd? {} _ = positions
    generalize statements.map _ = lifted
    induction positions generalizing lifted with
    | nil => rfl
    | cons position positions ihrest =>
      rw [List.foldl_cons, lift_plainAll loopEnd? (ih loopEnd?), ihrest, List.foldl_cons]

theorem recover_plainAll (statements : List Statement) :
    recover loopEnd? (plainAll statements) = plainAll (recover loopEnd? statements) := by
  rw [recover, weightAll_plainAll, recoverWithin_plainAll, recover]

end Condition

namespace Loop

def Shape.plain (s : Shape) : Shape :=
  ⟨.whileTrue, s.condition, plainAll s.body⟩

theorem plain_plain (s : Shape) : s.plain.plain = s.plain := by
  simp only [Shape.plain, plainAll_plainAll]

def exitCondition? : Node → Option Node
  | .branch _ (.unary _ .not condition) [⟨_, .exitLoop _⟩] [] => some condition
  | _ => none

theorem whileCondition_eq (s : Shape) :
    whileCondition s = match s.body with
      | [] => s
      | first :: body =>
        match exitCondition? first.node with
        | some condition => { s with condition, body }
        | none => s := by
  obtain ⟨kind, old, body⟩ := s
  rcases body with _ | ⟨⟨position, node⟩, body⟩
  · rfl
  · unfold whileCondition exitCondition?
    split
    · rename_i hbody
      cases hbody
      rfl
    · rename_i hne
      dsimp only at hne ⊢
      split
      · rename_i hcondition
        split at hcondition
        · exact (hne _ _ _ _ _ _ _ rfl).elim
        · cases hcondition
      · rfl

theorem exitCondition?_plain (node : Node) : exitCondition? node.plain = exitCondition? node := by
  cases node
  case branch origin condition a b =>
    rw [Node.plain]
    rcases a with _ | ⟨⟨position, exit⟩, _ | ⟨s, a⟩⟩
    · simp [exitCondition?]
    · cases b
      · cases exit
        case loop | branch | tell => simp [exitCondition?, plain, Node.plain]
        all_goals rfl
      · simp [exitCondition?, plain]
    · simp [exitCondition?, plain]
  all_goals rfl

theorem whileCondition_plain (s : Shape) :
    whileCondition s.plain = (whileCondition s).plain := by
  obtain ⟨kind, old, body⟩ := s
  rw [whileCondition_eq, whileCondition_eq]
  rcases body with _ | ⟨first, body⟩
  · rfl
  · simp only [Shape.plain, plainAll_cons, node_plain, exitCondition?_plain]
    split <;> simp

theorem countedRange?_plain (previous : Statement) (s : Shape) :
    countedRange? previous.plain s.plain = countedRange? previous s := by
  obtain ⟨place, node⟩ := previous
  obtain ⟨kind, condition, body⟩ := s
  have hlast : (plainAll body).getLast?.map Statement.node =
      (body.getLast?.map Statement.node).map Node.plain := by
    rw [plainAll_eq_map, List.getLast?_map, Option.map_map, Option.map_map]
    rfl
  simp only [countedRange?, Shape.plain, hlast, node_plain]
  generalize body.getLast?.map Statement.node = last
  cases node
  case assign =>
    rcases last with _ | last
    · rfl
    · cases last
      case loop | branch | tell => cases condition <;> rfl
      all_goals rfl
  all_goals rfl

theorem plain_eq_iff {s t : Shape} :
    s.plain = t.plain ↔ s.condition = t.condition ∧ plainAll s.body = plainAll t.body := by
  simp [Shape.plain]

theorem counted_plain {previous? previous'? : Option Statement}
    (hprevious : previous?.map plain = previous'?.map plain) (s : Shape) :
    (counted previous? s.plain).1.plain = (counted previous'? s).1.plain ∧
      (counted previous? s.plain).2 = (counted previous'? s).2 := by
  have hrange : previous?.bind (countedRange? · s.plain) = previous'?.bind (countedRange? · s) := by
    rcases previous? with _ | previous <;> rcases previous'? with _ | previous'
    · rfl
    · cases hprevious
    · cases hprevious
    · have hplain : previous.plain = previous'.plain := by simpa using hprevious
      rw [Option.bind_some, Option.bind_some, ← countedRange?_plain, plain_plain, hplain,
        countedRange?_plain]
  unfold counted
  rw [hrange]
  split
  · simp [Shape.plain, plainAll_dropLast, plainAll_plainAll]
  · simp [Shape.plain, plainAll_plainAll]

def elementKind? (condition first : Node) : Option LoopKind :=
  match condition, first with
  | .binary _ _ one (.call _ "count" _ (counted :: _) _),
      .assign _ element (.call _ "getAt" _ (list :: index :: _) _) =>
    match element.word? with
    | some name =>
      if one.isConstant "1" && counted.sameReference list && index.word? = some "1" then
        some (.each name list)
      else none
    | none => none
  | _, _ => none

theorem eachElement_eq (s : Shape) :
    eachElement s = match s.body with
      | [] => s
      | first :: body =>
        match elementKind? s.condition first.node with
        | some kind => { s with kind, body }
        | none => s := by
  obtain ⟨kind, condition, body⟩ := s
  rcases body with _ | ⟨⟨position, node⟩, body⟩
  · simp [eachElement]
  · unfold eachElement elementKind?
    split
    · rename_i hcondition hbody
      obtain rfl : condition = _ := hcondition
      cases hbody
      dsimp only
      split
      · rename_i hname
        simp only [hname]
        split <;> rfl
      · rename_i hname
        simp only [hname]
    · rename_i hne
      dsimp only at hne ⊢
      split
      · rename_i hkind
        split at hkind
        · exact (hne _ _ _ _ _ _ _ _ _ _ _ _ _ _ _ _ _ _ rfl rfl).elim
        · cases hkind
      · rfl

theorem elementKind?_plain (condition node : Node) :
    elementKind? condition node.plain = elementKind? condition node := by
  cases node
  case loop | branch | tell =>
    rw [Node.plain]
    unfold elementKind?
    split
    · contradiction
    · split
      · contradiction
      · rfl
  all_goals rfl

theorem eachElement_plain (s : Shape) : (eachElement s.plain).plain = (eachElement s).plain := by
  obtain ⟨kind, condition, body⟩ := s
  rw [eachElement_eq, eachElement_eq]
  rcases body with _ | ⟨first, body⟩
  · exact plain_plain _
  · simp only [Shape.plain, plainAll_cons, node_plain, elementKind?_plain]
    split <;> simp [plainAll_plainAll, Statement.plain, Node.plain_plain]

theorem eachElement_congr {s t : Shape} (h : s.plain = t.plain) :
    (eachElement s).plain = (eachElement t).plain := by
  rw [← eachElement_plain s, h, eachElement_plain t]

variable {treat : List Statement → List Statement}

/-- What is alike up to the kinds of loops is treated alike. -/
def Blind (treat : List Statement → List Statement) : Prop :=
  ∀ part, plainAll (treat (plainAll part)) = plainAll (treat part)

theorem Blind.congr (h : Blind treat) {a b : List Statement} (hab : plainAll a = plainAll b) :
    plainAll (treat a) = plainAll (treat b) := by
  rw [← h a, hab, h b]

theorem inside_plain (h : Blind treat) {previous? previous'? : Option Statement}
    (hprevious : previous?.map plain = previous'?.map plain) (s : Statement) :
    (inside treat previous? s.plain).1.plain = (inside treat previous'? s).1.plain ∧
      (inside treat previous? s.plain).2 = (inside treat previous'? s).2 := by
  obtain ⟨position, node⟩ := s
  cases node
  case loop origin start stop kind condition body =>
    have hwhile := whileCondition_plain ⟨kind, condition, body⟩
    obtain ⟨hshape, htakes⟩ := counted_plain hprevious (whileCondition ⟨kind, condition, body⟩)
    rw [← hwhile, show Shape.plain ⟨kind, condition, body⟩ =
      ⟨.whileTrue, condition, plainAll body⟩ from rfl] at hshape htakes
    obtain ⟨hcondition, hbody⟩ := plain_eq_iff.1 (eachElement_congr hshape)
    refine ⟨?_, htakes⟩
    simp only [inside, Statement.plain, Node.plain]
    rw [h.congr hbody, hcondition]
  case branch origin condition a b =>
    simp [inside, Statement.plain, Node.plain, h a, h b]
  case tell origin target body =>
    simp [inside, Statement.plain, Node.plain, h body]
  all_goals simp [inside, Statement.plain, Node.plain]

theorem through_plain (h : Blind treat) {previous? previous'? : Option Statement}
    (hprevious : previous?.map plain = previous'?.map plain) (statements : List Statement) :
    plainAll (through treat previous? (plainAll statements)) =
      plainAll (through treat previous'? statements) := by
  induction statements generalizing previous? previous'? with
  | nil =>
    simp only [plainAll_nil, through]
    cases previous? <;> cases previous'? <;> simp_all
  | cons s rest ih =>
    obtain ⟨hs, htakes⟩ := inside_plain h hprevious s
    have hlast : (some (inside treat previous? s.plain).1).map plain =
        (some (inside treat previous'? s).1).map plain := congrArg some hs
    have hrest := ih hlast
    simp only [plainAll_cons, through, htakes, plainAll_append, hrest]
    congr 1
    split
    · rfl
    · cases previous? <;> cases previous'? <;> simp_all

theorem blind_recoverWithin (fuel : Nat) : Blind (recoverWithin fuel) := by
  induction fuel with
  | zero => exact fun part => plainAll_plainAll part
  | succ fuel ih => exact fun part => through_plain ih rfl part

theorem blind_recover : Blind recover := by
  intro statements
  rw [recover, weightAll_plainAll, blind_recoverWithin, recover]

end Loop

namespace Exit

mutual

theorem recoverNode_plain (loopEnd? : Option Nat) :
    (node : Node) → recoverNode loopEnd? node.plain = (recoverNode loopEnd? node).plain
  | .jump .. => by
    simp only [Node.plain, recoverNode]
    split <;> rfl
  | .loop .. => by simp only [Node.plain, recoverNode, Exit.recover_plainAll]
  | .branch .. => by simp only [Node.plain, recoverNode, Exit.recover_plainAll]
  | .tell .. => by simp only [Node.plain, recoverNode, Exit.recover_plainAll]
  | .leaf .. | .unary .. | .binary .. | .assign .. | .put .. | .chunk .. | .chunkRange ..
  | .aspect .. | .property .. | .builtinProperty .. | .menuItemOf .. | .menuItemsOf ..
  | .arguments .. | .list .. | .propertyList .. | .call .. | .methodCall .. | .jumpUnless ..
  | .exitLoop .. => rfl

theorem recover_plainAll (loopEnd? : Option Nat) : (statements : List Statement) →
    recover loopEnd? (plainAll statements) = plainAll (recover loopEnd? statements)
  | [] => by simp [recover]
  | ⟨position, node⟩ :: rest => by
    simp only [plainAll, recover, Exit.recoverNode_plain, Exit.recover_plainAll]

end

end Exit

/-- The kinds that loops have before the control flow is recovered have no effect but on the kinds of
loops. -/
theorem Statement.plainAll_structured (statements : List Statement) :
    plainAll (structured (plainAll statements)) = plainAll (structured statements) := by
  unfold structured
  rw [← Exit.recover_plainAll, Condition.recover_plainAll, Loop.blind_recover,
    Exit.recover_plainAll]

end LingoSource
