import LingoSource.Proofs.Flow.Kinds
import LingoSource.Proofs.Flow.Rewriting
import LingoSource.Proofs.Loop.Counting
import LingoSource.Proofs.Recovery.Outcome
import LingoSource.Recovery.Exit

/-!
Where the variable of a loop comes from. All that a recovered `repeat with` keeps of its variable is a
name. It is the name of a word that was assigned: in front of the loop and at the end of its body where
the loop counts, at the start of the body where it takes the elements of a list.
-/
set_option autoImplicit false

namespace LingoSource

open Statement

def LoopKind.variableName? : LoopKind → Option String
  | .whileTrue => none
  | .counted name _ _ _ => some name
  | .each name _ => some name

namespace Loop

/-- A loop with its condition found, behind another statement, is recognized as one of a kind, by an
assignment to a node. -/
inductive Sets (previous? : Option Statement) (s : Shape) : LoopKind → Node → Prop
  | setting {c : Counting} {body : List Statement} (h : Counts c previous? s body) :
      Sets previous? s c.kind c.counter
  | step {c : Counting} {body : List Statement} (h : Counts c previous? s body) :
      Sets previous? s c.kind c.stepped
  | taking {position origin read : Nat} {kind : ListKind} {name : String} {element list index : Node}
      {rest : List Node} {inTell : Bool}
      (h : s.body.head? = some ⟨position, .assign origin element
        (.call read "getAt" kind (list :: index :: rest) inTell)⟩)
      (hname : element.word? = some name) : Sets previous? s (.each name list) element

def Became (statements : List Statement) (start stop : Nat) (kind : LoopKind) (n : Node) : Prop :=
  ∃ previous? position origin condition body,
    Meets statements previous? ⟨position, .loop origin start stop .whileTrue condition body⟩ ∧
      Sets previous? (whileCondition ⟨.whileTrue, condition, body⟩) kind n

variable {previous? : Option Statement} {s : Shape} {kind : LoopKind} {n : Node}

theorem Sets.word?_eq (h : Sets previous? s kind n) : n.word? = kind.variableName? := by
  cases h with
  | @setting c _ _ => exact c.word_counter
  | @step c _ _ => exact c.word_stepped
  | taking _ hname => exact hname

theorem head?_of_counted {first : Statement}
    (h : (counted previous? s).1.body.head? = some first) : s.body.head? = some first := by
  unfold counted at h
  split at h
  · obtain ⟨last, hbody⟩ := List.dropLast_prefix s.body
    rw [← hbody, List.head?_append, h, Option.some_or]
  · exact h

theorem eachElement_eq_or (s : Shape) :
    eachElement s = s ∨ ∃ position origin read kind name element list index rest inTell,
      s.body.head? = some ⟨position, .assign origin element
        (.call read "getAt" kind (list :: index :: rest) inTell)⟩ ∧
        element.word? = some name ∧ (eachElement s).kind = .each name list := by
  unfold eachElement
  split
  · rename_i hbody
    split
    · rename_i hname
      split
      · exact .inr ⟨_, _, _, _, _, _, _, _, _, _, congrArg List.head? hbody, hname, rfl⟩
      · exact .inl rfl
    · exact .inl rfl
  · exact .inl rfl

theorem exists_sets (hs : s.kind = .whileTrue)
    (hkind : (eachElement (counted previous? s).1).kind ≠ .whileTrue) :
    ∃ n, Sets previous? s (eachElement (counted previous? s).1).kind n := by
  rcases eachElement_eq_or (counted previous? s).1 with
    heq | ⟨_, _, _, _, _, element, _, _, _, _, hbody, hname, heq⟩
  · rw [heq] at hkind ⊢
    cases hrange : previous?.bind (countedRange? · s) with
    | none => simp [counted, hrange, hs] at hkind
    | some kind =>
      obtain ⟨previous, rfl, hrange'⟩ := Option.bind_eq_some_iff.1 hrange
      obtain ⟨c, rfl, hcounts⟩ := exists_of_countedRange? hrange'
      refine ⟨c.counter, ?_⟩
      simpa [counted, hrange] using Sets.setting hcounts
  · exact ⟨element, heq ▸ .taking (head?_of_counted hbody) hname⟩

theorem body_whileCondition_sublist (s : Shape) : (whileCondition s).body.Sublist s.body := by
  unfold whileCondition
  split
  · rename_i hbody
    rw [hbody]
    exact List.sublist_cons_self _ _
  · exact .refl _

theorem body_counted_sublist (previous? : Option Statement) (s : Shape) :
    (counted previous? s).1.body.Sublist s.body := by
  unfold counted
  split
  · exact List.dropLast_sublist s.body
  · exact .refl _

theorem body_eachElement_sublist (s : Shape) : (eachElement s).body.Sublist s.body := by
  unfold eachElement
  split
  · rename_i hbody
    split
    · split
      · rw [hbody]
        exact List.sublist_cons_self _ _
      · exact .refl _
    · exact .refl _
  · exact .refl _

theorem mem_of_mem_pairs {statements : List Statement} {pair : Option Statement × Statement}
    (h : pair ∈ pairs previous? statements) : pair.2 ∈ statements := by
  induction statements generalizing previous? with
  | nil => cases h
  | cons s rest ih =>
    rcases List.mem_cons.1 h with rfl | h
    · exact List.mem_cons_self ..
    · exact List.mem_cons_of_mem _ (ih h)

theorem plainAll_eq_self_iff {statements : List Statement} :
    plainAll statements = statements ↔ ∀ t ∈ statements, t.plain = t := by
  induction statements with
  | nil => simp
  | cons s rest ih => rw [plainAll_cons, List.cons.injEq, ih, List.forall_mem_cons]

theorem plainAll_eq_of_mem_bodies {node : Node} (h : node.plain = node) {body : List Statement}
    (hbody : body ∈ node.bodies) : plainAll body = body := by
  cases node with
  | loop | tell =>
    rw [Node.plain] at h
    obtain rfl := List.mem_singleton.1 hbody
    injection h
  | branch =>
    rw [Node.plain] at h
    injection h with _ _ hthen helse
    rcases List.mem_cons.1 hbody with rfl | hbody
    · exact hthen
    · obtain rfl := List.mem_singleton.1 hbody
      exact helse
  | _ => cases hbody

theorem exists_body_of_mem_parts {t u : Statement} {part : List Statement}
    (hpart : part ∈ parts previous? t) (hu : u ∈ part) : ∃ body ∈ t.node.bodies, u ∈ body := by
  obtain ⟨position, node⟩ := t
  cases node with
  | loop _ _ _ kind condition body =>
    obtain rfl := List.mem_singleton.1 hpart
    have hsublist := ((body_eachElement_sublist _).trans (body_counted_sublist previous? _)).trans
      (body_whileCondition_sublist ⟨kind, condition, body⟩)
    exact ⟨body, List.mem_singleton_self _, hsublist.subset hu⟩
  | branch | tell => exact ⟨part, hpart, hu⟩
  | _ => cases hpart

theorem Meets.plain_eq {statements : List Statement} (h : plainAll statements = statements)
    {t : Statement} (hmeets : Meets statements previous? t) : t.plain = t := by
  induction hmeets with
  | top hpair => exact plainAll_eq_self_iff.1 h _ (mem_of_mem_pairs hpair)
  | inner _ hpart hpair ih =>
    obtain ⟨body, hbody, hu⟩ := exists_body_of_mem_parts hpart (mem_of_mem_pairs hpair)
    have hplain := plainAll_eq_of_mem_bodies (congrArg Statement.node ih) hbody
    exact plainAll_eq_self_iff.1 hplain _ hu

/-- Where no loop is of a kind before the recognition, every loop of a kind in its result got that by an
assignment. -/
theorem exists_became {statements : List Statement} (h : plainAll statements = statements)
    {t : Statement} (ht : t ∈ recover statements) {depth origin start stop : Nat} {condition : Node}
    {body : List Statement}
    (hloop : t.node.StandsIn depth (.loop origin start stop kind condition body))
    (hkind : kind ≠ .whileTrue) : ∃ n, Became statements start stop kind n := by
  obtain ⟨previous?, ⟨position, node⟩, hmeets, heq⟩ := exists_of_standsIn ht hloop
  cases node with
  | loop _ _ _ oldKind oldCondition oldBody =>
    simp only [inside, Node.loop.injEq] at heq
    obtain ⟨-, rfl, rfl, rfl, -, -⟩ := heq
    have hplain := congrArg Statement.node (hmeets.plain_eq h)
    rw [node_plain, Node.plain] at hplain
    obtain rfl : LoopKind.whileTrue = oldKind := by injection hplain
    obtain ⟨n, hsets⟩ := exists_sets (kind_whileCondition _) hkind
    exact ⟨n, previous?, position, _, _, _, hmeets, hsets⟩
  | _ => cases heq

end Loop

namespace Exit

theorem bodies_recoverNode (loopEnd? : Option Nat) (node : Node) :
    ∃ inner?, (recoverNode loopEnd? node).bodies = node.bodies.map (recover inner?) := by
  cases node with
  | loop _ _ stop => exact ⟨some stop, rfl⟩
  | branch | tell => exact ⟨loopEnd?, rfl⟩
  | jump =>
    refine ⟨none, ?_⟩
    rw [recoverNode]
    split <;> rfl
  | _ => exact ⟨none, rfl⟩

theorem exists_of_mem_recover {loopEnd? : Option Nat} {statements : List Statement} {t : Statement}
    (h : t ∈ recover loopEnd? statements) :
    ∃ s ∈ statements, t.node = recoverNode loopEnd? s.node := by
  induction statements with
  | nil => cases h
  | cons s rest ih =>
    obtain ⟨position, node⟩ := s
    rw [recover] at h
    rcases List.mem_cons.1 h with rfl | h
    · exact ⟨_, List.mem_cons_self .., rfl⟩
    · obtain ⟨s, hs, heq⟩ := ih h
      exact ⟨s, List.mem_cons_of_mem _ hs, heq⟩

theorem exists_of_standsIn {loopEnd? : Option Nat} {root : Node} {depth : Nat} {node : Node}
    (h : (recoverNode loopEnd? root).StandsIn depth node) :
    ∃ inner? old, root.StandsIn depth old ∧ node = recoverNode inner? old := by
  induction h with
  | self => exact ⟨loopEnd?, root, .self, rfl⟩
  | inner _ hbody hs ih =>
    obtain ⟨inner?, old, hold, rfl⟩ := ih
    obtain ⟨deeper?, hbodies⟩ := bodies_recoverNode inner? old
    rw [hbodies] at hbody
    obtain ⟨oldBody, hmem, rfl⟩ := List.mem_map.1 hbody
    obtain ⟨u, hu, heq⟩ := exists_of_mem_recover hs
    exact ⟨deeper?, u.node, hold.inner hmem hu, heq⟩

end Exit

namespace Instruction

theorem Emission.plainAll_eq {P : Node → Prop} {offset : Nat} {a b : List Statement}
    (h : Emission P offset a b) (ha : plainAll a = a) : plainAll b = b := by
  have hall := Loop.plainAll_eq_self_iff.1 ha
  cases h with
  | keep => exact ha
  | emit _ hnode =>
    rw [plainAll_append, ha]
    cases hnode <;> simp [plain, Node.plain]
  | @closeLoop _ start hle =>
    have hfilter (p : Statement → Bool) : plainAll (a.filter p) = a.filter p :=
      Loop.plainAll_eq_self_iff.2 fun t ht => hall t (List.mem_filter.1 ht).1
    rw [plainAll_append, hfilter]
    simp only [plainAll_cons, plainAll_nil, plain, Node.plain, hfilter]
  | closeTell before position origin target body after =>
    have hbefore : plainAll before = before :=
      Loop.plainAll_eq_self_iff.2 fun t ht => hall t (List.mem_append_left _ ht)
    have hafter : plainAll after = after :=
      Loop.plainAll_eq_self_iff.2 fun t ht =>
        hall t (List.mem_append_right _ (List.mem_cons_of_mem _ ht))
    have htell := congrArg Statement.node (hall ⟨position, .tell origin target body⟩ (by simp))
    have hbody : plainAll body = body := Loop.plainAll_eq_of_mem_bodies htell (List.mem_singleton_self _)
    simp only [plainAll_append, plainAll_cons, plainAll_nil, plain, Node.plain, hbefore, hbody, hafter]

end Instruction

/-- The variable of every loop in a recovered script was assigned: the loop got its kind by an assignment
to a word of the name that it keeps. -/
theorem Script.exists_became {names script : Bytes} {s : Script}
    (hok : Script.ofBytes names script = .ok s) {f : Function} (hf : f ∈ s.functions) :
    ∃ emitted, recoverFlow emitted = .ok f.statements ∧
      ∀ t ∈ f.statements, ∀ depth origin start stop kind condition body,
        t.node.StandsIn depth (.loop origin start stop kind condition body) → kind ≠ .whileTrue →
          ∃ n, Loop.Became (Condition.recover none emitted) start stop kind n := by
  obtain ⟨c₁, c₂, h, hrecover⟩ := Script.exists_of_ofBytes hok hf
  obtain ⟨m, tree, hsteps, hflow, rfl, -⟩ := Handler.exists_steps_of_recover hrecover
  refine ⟨m.function.statements, hflow, fun t ht depth origin start stop kind condition body hloop
    hkind => ?_⟩
  have hplain : plainAll m.function.statements = m.function.statements :=
    (hsteps.keep Node.closed_true (fun _ _ _ he => he.plainAll_eq) (Machine.within_true _) rfl).2
  have hconditions : plainAll (Condition.recover none m.function.statements) =
      Condition.recover none m.function.statements := by
    rw [← Condition.recover_plainAll, hplain]
  obtain ⟨rfl, -⟩ := recoverFlow_eq_ok_iff.1 hflow
  obtain ⟨u, hu, heq⟩ := Exit.exists_of_mem_recover ht
  rw [heq] at hloop
  obtain ⟨inner?, old, hold, hnode⟩ := Exit.exists_of_standsIn hloop
  cases old with
  | loop =>
    obtain ⟨rfl, rfl, rfl, rfl, rfl, -⟩ := Node.loop.inj hnode
    exact Loop.exists_became hconditions hu hold hkind
  | jump =>
    rw [Exit.recoverNode] at hnode
    split at hnode <;> cases hnode
  | _ => cases hnode

end LingoSource
