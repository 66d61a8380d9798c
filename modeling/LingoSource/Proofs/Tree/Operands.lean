import LingoSource.Proofs.Flow.Rewriting
import LingoSource.Proofs.Loop.Recognition
import LingoSource.Proofs.Tree.Blocks

set_option autoImplicit false

namespace LingoSource

variable {P : Node → Prop}

def LoopKind.OperandsIn (P : Node → Prop) : LoopKind → Prop
  | .whileTrue => True
  | .counted name first last _ => (∃ node, P node ∧ node.word? = some name) ∧ P first ∧ P last
  | .each name list => (∃ node, P node ∧ node.word? = some name) ∧ P list

mutual

/-- The expressions in a statement are in a class, at every depth; so is a node that is none. -/
def Node.OperandsIn (P : Node → Prop) : Node → Prop
  | .assign _ left right | .put _ _ left right => P left ∧ P right
  | .loop _ _ _ kind condition body => kind.OperandsIn P ∧ P condition ∧ Statement.OperandsIn P body
  | .branch _ condition thenBody elseBody =>
    P condition ∧ Statement.OperandsIn P thenBody ∧ Statement.OperandsIn P elseBody
  | .tell _ target body => P target ∧ Statement.OperandsIn P body
  | .jumpUnless _ condition _ => P condition
  | .jump .. | .exitLoop _ => True
  | node => P node

def Statement.OperandsIn (P : Node → Prop) : List Statement → Prop
  | [] => True
  | ⟨_, node⟩ :: rest => node.OperandsIn P ∧ Statement.OperandsIn P rest

end

/-- What takes a node apart that the recovery of control flow takes apart stays in the class. -/
structure Node.Opens (P : Node → Prop) : Prop where
  not_iff {origin : Nat} {operand : Node} : P (.unary origin .not operand) ↔ P operand
  of_binary {origin : Nat} {op : BinaryOp} {left right : Node} (h : P (.binary origin op left right)) :
    P right
  of_call {origin : Nat} {name : String} {kind : ListKind} {args : List Node} {inTell : Bool}
    (h : P (.call origin name kind args inTell)) : ∀ a ∈ args, P a

namespace Statement

variable {a b : List Statement}

theorem operandsIn_iff : OperandsIn P a ↔ ∀ s ∈ a, s.node.OperandsIn P := by
  induction a with
  | nil => simp [OperandsIn]
  | cons s rest ih =>
    obtain ⟨position, node⟩ := s
    rw [OperandsIn, ih, List.forall_mem_cons]

theorem operandsIn_cons {s : Statement} :
    OperandsIn P (s :: a) ↔ s.node.OperandsIn P ∧ OperandsIn P a := by
  obtain ⟨position, node⟩ := s
  rw [OperandsIn]

theorem operandsIn_append : OperandsIn P (a ++ b) ↔ OperandsIn P a ∧ OperandsIn P b := by
  simp only [operandsIn_iff, List.forall_mem_append]

theorem Rewrites.operandsIn {loopEnd? : Option Nat} (hP : Node.Opens P) (h : Rewrites loopEnd? a b)
    (ha : OperandsIn P a) : OperandsIn P b := by
  induction h with
  | refl => exact ha
  | trans _ _ ih ih' => exact ih' (ih ha)
  | append _ _ ih ih' =>
    obtain ⟨ha, hb⟩ := operandsIn_append.1 ha
    exact operandsIn_append.2 ⟨ih ha, ih' hb⟩
  | loop _ _ _ _ _ _ _ ih =>
    simp only [OperandsIn, Node.OperandsIn] at ha ⊢
    exact ⟨⟨ha.1.1, ha.1.2.1, ih ha.1.2.2⟩, ha.2⟩
  | tell _ _ _ _ ih =>
    simp only [OperandsIn, Node.OperandsIn] at ha ⊢
    exact ⟨⟨ha.1.1, ih ha.1.2⟩, ha.2⟩
  | branch _ _ _ _ _ ih ih' =>
    simp only [OperandsIn, Node.OperandsIn] at ha ⊢
    exact ⟨⟨ha.1.1, ih ha.1.2.1, ih' ha.1.2.2⟩, ha.2⟩
  | exit => simp [OperandsIn, Node.OperandsIn]
  | exitUnless =>
    simpa [OperandsIn, Node.OperandsIn, hP.not_iff] using ha
  | oneWay => simpa [OperandsIn, Node.OperandsIn] using ha
  | twoWay =>
    simp only [OperandsIn, Node.OperandsIn, operandsIn_append] at ha ⊢
    exact ⟨⟨ha.1, ha.2.1, ha.2.2.2⟩, trivial⟩

theorem Recognizes.operandsIn {found : Bool} (hP : Node.Opens P) (h : Recognizes found a b)
    (ha : OperandsIn P a) : OperandsIn P b := by
  induction h with
  | refl => exact ha
  | trans _ _ ih ih' => exact ih' (ih ha)
  | append _ _ ih ih' =>
    obtain ⟨ha, hb⟩ := operandsIn_append.1 ha
    exact operandsIn_append.2 ⟨ih ha, ih' hb⟩
  | loop _ _ _ _ _ _ _ ih =>
    simp only [OperandsIn, Node.OperandsIn] at ha ⊢
    exact ⟨⟨ha.1.1, ha.1.2.1, ih ha.1.2.2⟩, ha.2⟩
  | tell _ _ _ _ ih =>
    simp only [OperandsIn, Node.OperandsIn] at ha ⊢
    exact ⟨⟨ha.1.1, ih ha.1.2⟩, ha.2⟩
  | branch _ _ _ _ _ ih ih' =>
    simp only [OperandsIn, Node.OperandsIn] at ha ⊢
    exact ⟨⟨ha.1.1, ih ha.1.2.1, ih' ha.1.2.2⟩, ha.2⟩
  | whileCondition _ _ _ _ _ _ _ _ hfirst =>
    simp only [OperandsIn, Node.OperandsIn, operandsIn_cons, hfirst, hP.not_iff] at ha ⊢
    exact ⟨⟨ha.1.1, ha.1.2.2.1.1, ha.1.2.2.2⟩, trivial⟩
  | counted _ _ _ _ _ _ _ _ hbefore hstep hname =>
    simp only [OperandsIn, Node.OperandsIn, operandsIn_cons, operandsIn_append, hbefore, hstep] at ha ⊢
    obtain ⟨⟨hcounter, hfirst⟩, ⟨-, hcondition, hbody, -⟩, -⟩ := ha
    exact ⟨⟨⟨⟨_, hcounter, hname⟩, hfirst, hP.of_binary hcondition⟩, hcondition, hbody⟩, trivial⟩
  | each _ _ _ _ _ _ _ _ hfirst hname =>
    simp only [OperandsIn, Node.OperandsIn, operandsIn_cons, hfirst] at ha ⊢
    obtain ⟨⟨-, hcondition, ⟨helement, hcall⟩, hbody⟩, -⟩ := ha
    exact ⟨⟨⟨⟨_, helement, hname⟩, hP.of_call hcall _ (List.mem_cons_self ..)⟩, hcondition, hbody⟩,
      trivial⟩

theorem operandsIn_recoverFlow (hP : Node.Opens P) (ha : OperandsIn P a) (hok : recoverFlow a = .ok b) :
    OperandsIn P b := by
  obtain ⟨rfl, -⟩ := recoverFlow_eq_ok_iff.1 hok
  obtain ⟨found, hrecognizes⟩ := Loop.recognizes_recover (Condition.recover none a)
  exact (Exit.rewrites_recover none _).operandsIn hP
    (hrecognizes.operandsIn hP ((Condition.rewrites_recover none a).operandsIn hP ha))

end Statement

theorem Node.OperandsIn.standsIn {root node : Node} {depth : Nat} (h : root.OperandsIn P)
    (hstands : root.StandsIn depth node) : node.OperandsIn P := by
  induction hstands with
  | self => exact h
  | @inner _ outer body s _ hbody hs ih =>
    have hall : Statement.OperandsIn P body := by
      cases outer with
      | loop | tell =>
        simp only [Node.OperandsIn] at ih
        obtain rfl := List.mem_singleton.1 hbody
        simp only [ih]
      | branch =>
        simp only [Node.OperandsIn] at ih
        rcases List.mem_cons.1 hbody with rfl | hbody
        · exact ih.2.1
        · obtain rfl := List.mem_singleton.1 hbody
          exact ih.2.2
      | _ => cases hbody
    exact Statement.operandsIn_iff.1 hall s hs

end LingoSource
