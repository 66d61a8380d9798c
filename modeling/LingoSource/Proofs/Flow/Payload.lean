import LingoSource.Proofs.Flow.Kinds
import LingoSource.Proofs.Flow.Rewriting
import LingoSource.Proofs.Loop.Recognition

/-!
What the recovery of control flow keeps. The payload of statements is what they do in the order in
which it is written: everything but jumps, branches and exits. The passes over jumps keep all of it;
the recognition of loops takes assignments away and nothing else, and it takes some away exactly when
it finds a loop to be counted or over the elements of a list.
-/
set_option autoImplicit false

namespace LingoSource

/-- Blocks count by their position; what they hold follows. -/
inductive Payload
  | statement (s : Statement)
  | loop (position : Nat)
  | tell (position : Nat)

namespace Payload

def isAssign : Payload → Bool
  | .statement s =>
    match s.node with
    | .assign .. => true
    | _ => false
  | _ => false

/-- One payload comes from another by taking assignments away, `any` telling whether there are any. -/
inductive Loses : (any : Bool) → List Payload → List Payload → Prop
  | refl (items : List Payload) : Loses false items items
  | assign {item : Payload} (h : item.isAssign = true) : Loses true [item] []
  | trans {any any' : Bool} {a b c : List Payload} (h : Loses any a b) (h' : Loses any' b c) :
      Loses (any || any') a c
  | append {any any' : Bool} {a a' b b' : List Payload} (h : Loses any a a')
      (h' : Loses any' b b') : Loses (any || any') (a ++ b) (a' ++ b')

namespace Loses

variable {any : Bool} {a b : List Payload}

theorem cons (item : Payload) (h : Loses any a b) : Loses any (item :: a) (item :: b) :=
  append (.refl [item]) h

theorem filter_not_isAssign (h : Loses any a b) :
    b.filter (!·.isAssign) = a.filter (!·.isAssign) := by
  induction h with
  | refl => rfl
  | assign h => simp [h]
  | trans _ _ ih ih' => rw [ih', ih]
  | append _ _ ih ih' => rw [List.filter_append, List.filter_append, ih, ih']

theorem sublist (h : Loses any a b) : b.Sublist a := by
  induction h with
  | refl => exact .refl _
  | assign => exact List.nil_sublist _
  | trans _ _ ih ih' => exact ih'.trans ih
  | append _ _ ih ih' => exact ih.append ih'

theorem length_filter_isAssign_iff (h : Loses any a b) :
    (b.filter (·.isAssign)).length = (a.filter (·.isAssign)).length ↔ any = false := by
  induction h with
  | refl => simp
  | assign h => simp [h]
  | trans h h' ih ih' =>
    have hle := (h.sublist.filter (·.isAssign)).length_le
    have hle' := (h'.sublist.filter (·.isAssign)).length_le
    rw [Bool.or_eq_false_iff, ← ih, ← ih']
    omega
  | append h h' ih ih' =>
    have hle := (h.sublist.filter (·.isAssign)).length_le
    have hle' := (h'.sublist.filter (·.isAssign)).length_le
    rw [Bool.or_eq_false_iff, ← ih, ← ih', List.filter_append, List.filter_append,
      List.length_append, List.length_append]
    omega

theorem filter_isAssign_eq_iff (h : Loses any a b) :
    b.filter (·.isAssign) = a.filter (·.isAssign) ↔ any = false :=
  ⟨fun heq => h.length_filter_isAssign_iff.1 (congrArg List.length heq), fun hany =>
    (h.sublist.filter _).eq_of_length (h.length_filter_isAssign_iff.2 hany)⟩

end Loses

end Payload

mutual

def Node.payload (position : Nat) : Node → List Payload
  | .loop _ _ _ _ _ body => .loop position :: Statement.payload body
  | .tell _ _ body => .tell position :: Statement.payload body
  | .branch _ _ thenBody elseBody => Statement.payload thenBody ++ Statement.payload elseBody
  | .jump .. | .jumpUnless .. | .exitLoop .. => []
  | node => [.statement ⟨position, node⟩]

def Statement.payload : List Statement → List Payload
  | [] => []
  | ⟨position, node⟩ :: rest => node.payload position ++ Statement.payload rest

end

mutual

def Node.kinds : Node → List LoopKind
  | .loop _ _ _ kind _ body => kind :: Statement.kinds body
  | .tell _ _ body => Statement.kinds body
  | .branch _ _ thenBody elseBody => Statement.kinds thenBody ++ Statement.kinds elseBody
  | _ => []

def Statement.kinds : List Statement → List LoopKind
  | [] => []
  | ⟨_, node⟩ :: rest => node.kinds ++ Statement.kinds rest

end

namespace Statement

@[simp] theorem payload_nil : payload [] = [] := by rw [payload]

@[simp] theorem payload_cons (s : Statement) (rest : List Statement) :
    payload (s :: rest) = s.node.payload s.position ++ payload rest := by
  obtain ⟨position, node⟩ := s
  rw [payload]

@[simp] theorem payload_append (a b : List Statement) :
    payload (a ++ b) = payload a ++ payload b := by
  induction a with
  | nil => simp
  | cons s a ih => simp [ih]

@[simp] theorem kinds_nil : kinds [] = [] := by rw [kinds]

@[simp] theorem kinds_cons (s : Statement) (rest : List Statement) :
    kinds (s :: rest) = s.node.kinds ++ kinds rest := by
  obtain ⟨position, node⟩ := s
  rw [kinds]

@[simp] theorem kinds_append (a b : List Statement) : kinds (a ++ b) = kinds a ++ kinds b := by
  induction a with
  | nil => simp
  | cons s a ih => simp [ih]

def OnlyWhile (statements : List Statement) : Prop :=
  ∀ kind ∈ kinds statements, kind = .whileTrue

theorem Rewrites.payload_eq {loopEnd? : Option Nat} {a b : List Statement}
    (h : Rewrites loopEnd? a b) : payload b = payload a := by
  induction h with
  | refl => rfl
  | trans _ _ ih ih' => rw [ih', ih]
  | append _ _ ih ih' => simp [ih, ih']
  | loop _ _ _ _ _ _ _ ih | tell _ _ _ _ ih => simp [Node.payload, ih]
  | branch _ _ _ _ _ ih ih' => simp [Node.payload, ih, ih']
  | exit | exitUnless | oneWay | twoWay => simp [Node.payload]

theorem Rewrites.kinds_eq {loopEnd? : Option Nat} {a b : List Statement}
    (h : Rewrites loopEnd? a b) : kinds b = kinds a := by
  induction h with
  | refl => rfl
  | trans _ _ ih ih' => rw [ih', ih]
  | append _ _ ih ih' => simp [ih, ih']
  | loop _ _ _ _ _ _ _ ih | tell _ _ _ _ ih => simp [Node.kinds, ih]
  | branch _ _ _ _ _ ih ih' => simp [Node.kinds, ih, ih']
  | exit | exitUnless | oneWay | twoWay => simp [Node.kinds]

variable {found : Bool} {a b : List Statement}

theorem loses_assign {s : Statement} {origin : Nat} {left right : Node}
    (h : s.node = .assign origin left right) : Payload.Loses true (payload [s]) [] := by
  obtain ⟨position, node⟩ := s
  obtain rfl : node = .assign origin left right := h
  exact .assign rfl

theorem Recognizes.loses (h : Recognizes found a b) :
    Payload.Loses found (payload a) (payload b) := by
  induction h with
  | refl => exact .refl _
  | trans _ _ ih ih' => exact ih.trans ih'
  | append _ _ ih ih' => simpa using ih.append ih'
  | loop position _ _ _ _ _ _ ih => simpa [Node.payload] using ih.cons (.loop position)
  | tell position _ _ _ ih => simpa [Node.payload] using ih.cons (.tell position)
  | branch _ _ _ _ _ ih ih' => simpa [Node.payload] using ih.append ih'
  | whileCondition _ _ _ _ _ _ _ _ hfirst hlast =>
    simpa [Node.payload, hfirst, hlast] using Payload.Loses.refl _
  | counted position _ _ _ _ _ _ body hbefore hstep =>
    have hbody := (Payload.Loses.refl (payload body)).append (loses_assign hstep)
    simpa [Node.payload] using (loses_assign hbefore).append (hbody.cons (.loop position))
  | each position _ _ _ _ _ _ body hfirst =>
    have hbody := (loses_assign hfirst).append (Payload.Loses.refl (payload body))
    simpa [Node.payload] using hbody.cons (.loop position)

theorem Recognizes.onlyWhile_iff (h : Recognizes found a b) :
    OnlyWhile b ↔ OnlyWhile a ∧ found = false := by
  induction h with
  | refl => simp
  | trans _ _ ih ih' => rw [Bool.or_eq_false_iff, ih', ih, and_assoc]
  | append _ _ ih ih' =>
    simp only [OnlyWhile, kinds_append, List.forall_mem_append, Bool.or_eq_false_iff] at *
    rw [ih, ih']
    tauto
  | loop _ _ _ _ _ _ _ ih | tell _ _ _ _ ih =>
    simp only [OnlyWhile] at ih
    simp [OnlyWhile, Node.kinds, ih, and_assoc]
  | branch _ _ _ _ _ ih ih' =>
    simp only [OnlyWhile] at ih ih'
    simp only [OnlyWhile, kinds_cons, kinds_nil, Node.kinds, List.append_nil,
      List.forall_mem_append, Bool.or_eq_false_iff, ih, ih']
    tauto
  | whileCondition _ _ _ _ _ _ _ _ hfirst hlast => simp [OnlyWhile, Node.kinds, hfirst, hlast]
  | counted | each => simp [OnlyWhile, Node.kinds]

end Statement

mutual

theorem Node.payload_plain (position : Nat) :
    (node : Node) → node.plain.payload position = node.payload position
  | .loop .. => by simp only [Node.plain, Node.payload, Statement.payload_plainAll]
  | .tell .. => by simp only [Node.plain, Node.payload, Statement.payload_plainAll]
  | .branch .. => by simp only [Node.plain, Node.payload, Statement.payload_plainAll]
  | .leaf .. | .unary .. | .binary .. | .assign .. | .put .. | .chunk .. | .chunkRange ..
  | .aspect .. | .property .. | .builtinProperty .. | .menuItemOf .. | .menuItemsOf ..
  | .arguments .. | .list .. | .propertyList .. | .call .. | .methodCall .. | .jump ..
  | .jumpUnless .. | .exitLoop .. => rfl

theorem Statement.payload_plainAll : (statements : List Statement) →
    Statement.payload (Statement.plainAll statements) = Statement.payload statements
  | [] => by simp
  | ⟨position, node⟩ :: rest => by
    simp only [Statement.plainAll, Statement.payload, node.payload_plain,
      Statement.payload_plainAll rest]

end

mutual

theorem Node.kinds_plain : (node : Node) → ∀ kind ∈ node.plain.kinds, kind = .whileTrue
  | .loop _ _ _ _ _ body => by
    simpa only [Node.plain, Node.kinds, List.forall_mem_cons, true_and, Statement.OnlyWhile] using
      Statement.onlyWhile_plainAll body
  | .tell _ _ body => by
    simpa only [Node.plain, Node.kinds, Statement.OnlyWhile] using
      Statement.onlyWhile_plainAll body
  | .branch _ _ a b => by
    simpa only [Node.plain, Node.kinds, List.forall_mem_append] using
      ⟨Statement.onlyWhile_plainAll a, Statement.onlyWhile_plainAll b⟩
  | .leaf .. | .unary .. | .binary .. | .assign .. | .put .. | .chunk .. | .chunkRange ..
  | .aspect .. | .property .. | .builtinProperty .. | .menuItemOf .. | .menuItemsOf ..
  | .arguments .. | .list .. | .propertyList .. | .call .. | .methodCall .. | .jump ..
  | .jumpUnless .. | .exitLoop .. => by simp [Node.plain, Node.kinds]

theorem Statement.onlyWhile_plainAll :
    (statements : List Statement) → Statement.OnlyWhile (Statement.plainAll statements)
  | [] => by simp [Statement.OnlyWhile]
  | ⟨position, node⟩ :: rest => by
    simpa only [Statement.OnlyWhile, Statement.plainAll, Statement.kinds, List.forall_mem_append]
      using ⟨node.kinds_plain, Statement.onlyWhile_plainAll rest⟩

end

namespace Statement

theorem recognizes_structured (statements : List Statement) : ∃ found,
    Payload.Loses found (payload statements) (payload (structured statements)) ∧
      (OnlyWhile (structured statements) ↔ OnlyWhile statements ∧ found = false) := by
  have hcondition := Condition.rewrites_recover none statements
  obtain ⟨found, hloop⟩ := Loop.recognizes_recover (Condition.recover none statements)
  have hexit := Exit.rewrites_recover none (Loop.recover (Condition.recover none statements))
  refine ⟨found, ?_, ?_⟩
  · rw [structured, hexit.payload_eq, ← hcondition.payload_eq]
    exact hloop.loses
  · have hkinds := hloop.onlyWhile_iff
    simp only [OnlyWhile, hcondition.kinds_eq] at hkinds
    simpa only [OnlyWhile, structured, hexit.kinds_eq] using hkinds

/-- The recovery of control flow keeps the payload but for assignments, and all of it exactly when it
finds no loop that is counted or over the elements of a list, whatever kinds the loops had before.
Its passes over jumps keep the whole payload. -/
theorem payload_structured (statements : List Statement) :
    (∀ tree, recoverFlow statements = .ok tree → tree = structured statements) ∧
      (payload (structured statements)).filter (!·.isAssign) =
        (payload statements).filter (!·.isAssign) ∧
      ((payload (structured statements)).filter (·.isAssign)).Sublist
        ((payload statements).filter (·.isAssign)) ∧
      ((payload (structured statements)).filter (·.isAssign) =
          (payload statements).filter (·.isAssign) ↔
        ∀ kind ∈ kinds (structured (plainAll statements)), kind = .whileTrue) ∧
      ∀ loopEnd?, payload (Condition.recover loopEnd? statements) = payload statements ∧
        payload (Condition.breakBeforeLast loopEnd? statements) = payload statements ∧
        payload (Exit.recover loopEnd? statements) = payload statements := by
  obtain ⟨found, hloses, -⟩ := recognizes_structured statements
  obtain ⟨found', hplain, hkinds⟩ := recognizes_structured (plainAll statements)
  refine ⟨fun tree h => (recoverFlow_eq_ok_iff.1 h).1, hloses.filter_not_isAssign,
    hloses.sublist.filter _, ?_, fun loopEnd? => ⟨?_, ?_, ?_⟩⟩
  · -- the kinds before are not looked at, so they may as well all be plain
    have hsame : payload (structured (plainAll statements)) = payload (structured statements) := by
      rw [← payload_plainAll, plainAll_structured, payload_plainAll]
    rw [hsame, payload_plainAll] at hplain
    rw [hplain.filter_isAssign_eq_iff]
    exact ⟨fun hfound => hkinds.2 ⟨onlyWhile_plainAll statements, hfound⟩, fun h => (hkinds.1 h).2⟩
  · exact (Condition.rewrites_recover loopEnd? statements).payload_eq
  · exact (Condition.rewrites_breakBeforeLast loopEnd? statements).payload_eq
  · exact (Exit.rewrites_recover loopEnd? statements).payload_eq

/-- A loop that is counted already and is found to be the same once more: its kind does not change,
and two assignments are gone. -/
theorem payload_structured_countedAgain :
    ¬ ∀ statements : List Statement, kinds (structured statements) = kinds statements →
      (payload (structured statements)).filter (·.isAssign) =
        (payload statements).filter (·.isAssign) := by
  let counter : Node := .leaf .localVariable "i" 0
  let number (text : String) : Node := .leaf .constant text 0
  let condition : Node := .binary 4 .ltEq counter (number "10")
  let step : Node := .assign 8 counter (.binary 7 .add (number "1") counter)
  let kind : LoopKind := .counted "i" (number "1") (number "10") true
  intro h
  have hkept := h [⟨2, .assign 2 counter (number "1")⟩,
    ⟨10, .loop 10 4 10 kind condition [⟨8, step⟩]⟩] rfl
  exact absurd (congrArg List.length hkept) (by decide)

end Statement

end LingoSource
