import LingoSource.Recovery.Loop

set_option autoImplicit false

namespace LingoSource

/-- One list of statements comes from another by the recognition of loops, `found` telling whether
any of them was found to be counted or over the elements of a list. -/
inductive Statement.Recognizes : (found : Bool) → List Statement → List Statement → Prop
  | refl (statements : List Statement) : Recognizes false statements statements
  | trans {found found' : Bool} {a b c : List Statement} (h : Recognizes found a b)
      (h' : Recognizes found' b c) : Recognizes (found || found') a c
  | append {found found' : Bool} {a a' b b' : List Statement} (h : Recognizes found a a')
      (h' : Recognizes found' b b') : Recognizes (found || found') (a ++ b) (a' ++ b')
  | loop {found : Bool} (position origin start stop : Nat) (kind : LoopKind) (condition : Node)
      {body body' : List Statement} (h : Recognizes found body body') :
      Recognizes found [⟨position, .loop origin start stop kind condition body⟩]
        [⟨position, .loop origin start stop kind condition body'⟩]
  | tell {found : Bool} (position origin : Nat) (target : Node) {body body' : List Statement}
      (h : Recognizes found body body') :
      Recognizes found [⟨position, .tell origin target body⟩]
        [⟨position, .tell origin target body'⟩]
  | branch {found found' : Bool} (position origin : Nat) (condition : Node)
      {a a' b b' : List Statement} (h : Recognizes found a a') (h' : Recognizes found' b b') :
      Recognizes (found || found') [⟨position, .branch origin condition a b⟩]
        [⟨position, .branch origin condition a' b'⟩]
  | whileCondition (position origin start stop : Nat) (kind : LoopKind) (old condition : Node)
      {first last : Statement} {o o' o'' : Nat} (body : List Statement)
      (hfirst : first.node = .branch o (.unary o' .not condition) [last] [])
      (hlast : last.node = .exitLoop o'') :
      Recognizes false [⟨position, .loop origin start stop kind old (first :: body)⟩]
        [⟨position, .loop origin start stop kind condition body⟩]
  | counted (position origin start stop : Nat) (kind : LoopKind) (name : String) (up : Bool)
      {before step : Statement} {o o' o'' : Nat} {op : BinaryOp}
      {counter first compared last stepped value : Node} (body : List Statement)
      (hbefore : before.node = .assign o counter first)
      (hstep : step.node = .assign o' stepped value) (hname : counter.word? = some name) :
      Recognizes true [before, ⟨position, .loop origin start stop kind
          (.binary o'' op compared last) (body ++ [step])⟩]
        [⟨position, .loop origin start stop (.counted name first last up)
          (.binary o'' op compared last) body⟩]
  | each (position origin start stop : Nat) (kind : LoopKind) (name : String) (condition : Node)
      {first : Statement} {o o' : Nat} {callee : String} {listKind : ListKind} {inTell : Bool}
      {element list : Node} {rest : List Node} (body : List Statement)
      (hfirst : first.node = .assign o element (.call o' callee listKind (list :: rest) inTell))
      (hname : element.word? = some name) :
      Recognizes true [⟨position, .loop origin start stop kind condition (first :: body)⟩]
        [⟨position, .loop origin start stop (.each name list) condition body⟩]

namespace Loop

open Statement

def Shape.loop (position origin start stop : Nat) (s : Shape) : Statement :=
  ⟨position, .loop origin start stop s.kind s.condition s.body⟩

variable (position origin start stop : Nat)

theorem recognizes_whileCondition (s : Shape) :
    Recognizes false [s.loop position origin start stop]
      [(whileCondition s).loop position origin start stop] := by
  obtain ⟨kind, old, body⟩ := s
  unfold whileCondition
  split
  · rename_i hbody
    obtain rfl := hbody
    exact .whileCondition _ _ _ _ _ _ _ _ rfl rfl
  · exact .refl _

theorem recognizes_counted (previous? : Option Statement) (s : Shape) :
    ∃ found, Recognizes found (previous?.toList ++ [s.loop position origin start stop])
      ((if (counted previous? s).2 then [] else previous?.toList) ++
        [(counted previous? s).1.loop position origin start stop]) := by
  unfold counted
  split
  · rename_i kind hkind
    obtain ⟨previous, rfl, hrange⟩ := Option.bind_eq_some_iff.1 hkind
    obtain ⟨oldKind, condition, body⟩ := s
    unfold countedRange? at hrange
    split at hrange
    · rename_i hprevious hcondition hlast
      obtain ⟨step, hstep, hnode⟩ := Option.map_eq_some_iff.1 hlast
      obtain ⟨before, rfl⟩ := List.getLast?_eq_some_iff.1 hstep
      obtain rfl := hcondition
      split at hrange
      · rename_i hname
        split at hrange
        · cases hrange
          refine ⟨true, ?_⟩
          simp only [List.dropLast_concat]
          exact .counted _ _ _ _ _ _ _ before hprevious hnode hname
        · cases hrange
      · cases hrange
    · cases hrange
  · exact ⟨false, .refl _⟩

theorem recognizes_eachElement (s : Shape) :
    ∃ found, Recognizes found [s.loop position origin start stop]
      [(eachElement s).loop position origin start stop] := by
  obtain ⟨kind, condition, body⟩ := s
  unfold eachElement
  split
  · rename_i hcondition hbody
    obtain rfl := hbody
    split
    · rename_i hname
      split
      · exact ⟨true, .each _ _ _ _ _ _ _ _ rfl hname⟩
      · exact ⟨false, .refl _⟩
    · exact ⟨false, .refl _⟩
  · exact ⟨false, .refl _⟩

variable {treat : List Statement → List Statement}

theorem recognizes_inside (h : ∀ part, ∃ found, Recognizes found part (treat part))
    (previous? : Option Statement) (s : Statement) :
    ∃ found, Recognizes found (previous?.toList ++ [s])
      ((if (inside treat previous? s).2 then [] else previous?.toList) ++
        [(inside treat previous? s).1]) := by
  obtain ⟨position, node⟩ := s
  cases node with
  | loop origin start stop kind condition body =>
    let shape := whileCondition ⟨kind, condition, body⟩
    obtain ⟨found, hcounted⟩ :=
      recognizes_counted position origin start stop previous? shape
    obtain ⟨found', heach⟩ :=
      recognizes_eachElement position origin start stop (counted previous? shape).1
    obtain ⟨found'', hbody⟩ := h (eachElement (counted previous? shape).1).body
    have hwhile := recognizes_whileCondition position origin start stop ⟨kind, condition, body⟩
    exact ⟨_, (((Recognizes.refl _).append hwhile).trans hcounted).trans
      ((Recognizes.refl _).append (heach.trans (.loop _ _ _ _ _ _ hbody)))⟩
  | branch origin condition thenBody elseBody =>
    obtain ⟨found, hthen⟩ := h thenBody
    obtain ⟨found', helse⟩ := h elseBody
    exact ⟨_, (Recognizes.refl _).append (.branch _ _ _ hthen helse)⟩
  | tell origin target body =>
    obtain ⟨found, hbody⟩ := h body
    exact ⟨_, (Recognizes.refl _).append (.tell _ _ _ hbody)⟩
  | _ => exact ⟨false, .refl _⟩

theorem recognizes_through (h : ∀ part, ∃ found, Recognizes found part (treat part))
    (previous? : Option Statement) (statements : List Statement) :
    ∃ found, Recognizes found (previous?.toList ++ statements)
      (through treat previous? statements) := by
  induction statements generalizing previous? with
  | nil => exact ⟨false, by simpa [through] using Recognizes.refl _⟩
  | cons s rest ih =>
    obtain ⟨found, hs⟩ := recognizes_inside h previous? s
    obtain ⟨found', hrest⟩ := ih (some (inside treat previous? s).1)
    have hfront := hs.append (.refl rest)
    rw [List.append_assoc, List.append_assoc] at hfront
    exact ⟨_, hfront.trans ((Recognizes.refl _).append hrest)⟩

theorem recognizes_recoverWithin (fuel : Nat) (statements : List Statement) :
    ∃ found, Recognizes found statements (recoverWithin fuel statements) := by
  induction fuel generalizing statements with
  | zero => exact ⟨false, .refl _⟩
  | succ fuel ih => exact recognizes_through ih none statements

theorem recognizes_recover (statements : List Statement) :
    ∃ found, Recognizes found statements (recover statements) :=
  recognizes_recoverWithin _ _

end Loop

end LingoSource
