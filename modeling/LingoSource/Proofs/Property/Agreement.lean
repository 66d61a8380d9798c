import LingoSource.Proofs.Property.Identifier

set_option autoImplicit false

namespace LingoSource

open Text

/-- The properties that have an instruction to read and one to write them, but those of a field: the write there
names a cast member (`writing_of_fieldReading`). -/
inductive PropertyKind
  | special
  | system
  | numbered (family : Family)
  | movie (number : Nat)
  | object (number : Nat)

namespace PropertyKind

def reading (offset : Nat) : PropertyKind → Instruction
  | .special => ⟨offset, .get, 0x00⟩
  | .system => ⟨offset, .get, 0x07⟩
  | .numbered family => family.reading offset
  | .movie number => ⟨offset, .getMovieProp, number⟩
  | .object number => ⟨offset, .getObjProp, number⟩

def writing (offset : Nat) : PropertyKind → Instruction
  | .special => ⟨offset, .set, 0x00⟩
  | .system => ⟨offset, .set, 0x07⟩
  | .numbered family => family.writing offset
  | .movie number => ⟨offset, .setMovieProp, number⟩
  | .object number => ⟨offset, .setObjProp, number⟩

/-- The operands of the write: those of the read, and the value where the instruction takes it from. -/
def withValue (value : Node) (operands : List Node) : PropertyKind → List Node
  | .special | .system => operands ++ [value]
  | .numbered _ => operands.take 1 ++ value :: operands.drop 1
  | .movie _ | .object _ => value :: operands

def systemOwner (c : Context) (owner : String) : String :=
  if c.tells.isEmpty then owner else "tell_obj"

inductive Reads (c : Context) (offset : Nat) : PropertyKind → List Node → Node → Prop
  | property {number : Node} {index : Nat} {name : String} (hindex : number.index? = some index)
    (hname : Vocabulary.specialProperties[index]? = some name) :
    Reads c offset .special [number] (.leaf .propertyName name offset)
  | dateTime {number : Node} {index : Nat} {name : String} (hindex : number.index? = some index)
    (hproperty : Vocabulary.specialProperties[index]? = none)
    (hname : Vocabulary.dateTimeFunctions[index - 6]? = some name) :
    Reads c offset .special [number] (.leaf .dateTimeFunction name offset)
  | lastPart {number of : Node} {index : Nat} {part : String} (hindex : number.index? = some index)
    (hproperty : Vocabulary.specialProperties[index]? = none)
    (hdateTime : Vocabulary.dateTimeFunctions[index - 6]? = none)
    (hpart : Vocabulary.textParts[index - 11]? = some part) :
    Reads c offset .special [number, of] (.aspect offset .last (some part) of)
  | system {number : Node} {index : Nat} {name owner : String} (hindex : number.index? = some index)
    (hname : Vocabulary.systemProperties[index]? = some (name, owner)) :
    Reads c offset .system [number]
      (.property offset (.leaf .localVariable (systemOwner c owner) offset) name)
  | numbered {object : Object} {number : Node} {name : String}
    (hname : number.index?.bind (object.family.properties[·]?) = some name) :
    Reads c offset (.numbered object.family) (number :: object.ids) (object.property offset name)
  | ofMovie {number : Nat} {name owner : String} (hname : c.names[number]? = some name)
    (howner : Vocabulary.moviePropertyOwners.lookup name = some owner) :
    Reads c offset (.movie number) []
      (.property offset (.leaf .localVariable owner offset) name)
  | movie {number : Nat} {name : String} (hname : c.names[number]? = some name)
    (howner : Vocabulary.moviePropertyOwners.lookup name = none) :
    Reads c offset (.movie number) [] (.leaf .propertyName name offset)
  | object {number : Nat} {object : Node} {name : String}
    (hname : c.names[number]? = some name) :
    Reads c offset (.object number) [object] (.property offset object name)

inductive Writes (c : Context) (offset : Nat) : PropertyKind → List Node → Node → Prop
  | same {kind : PropertyKind} {operands : List Node} {node : Node}
    (hkind : ∀ number, kind ≠ .movie number) (h : Reads c offset kind operands node) :
    Writes c offset kind operands node
  | declared {number : Nat} {name : String} (hname : c.names[number]? = some name)
    (hdeclared : name ∈ c.properties) :
    Writes c offset (.movie number) [] (.property offset (.leaf .raw "me" offset) name)
  | movie {number : Nat} {name : String} (hname : c.names[number]? = some name)
    (hdeclared : name ∉ c.properties) :
    Writes c offset (.movie number) [] (.leaf .propertyName name offset)

section Steps

open Instruction

variable {m m' : Machine} {i : Instruction} {node : Node}

theorem specialProperty_eq_ok_iff :
    i.specialProperty.run m = .ok node m' ↔
      ∃ operands rest, m.stack = operands ++ rest ∧ Reads m.context i.offset .special operands node ∧
        m' = { m with stack := rest } := by
  constructor
  · intro h
    obtain ⟨index, _, hpop, hrest⟩ := run_bind_eq_ok h
    obtain ⟨number, stack, hstack, hindex, rfl⟩ := popIndex_eq_ok_iff.1 hpop
    split at hrest
    · rename_i name hname
      obtain ⟨rfl, rfl⟩ := run_pure_eq_ok_iff.1 hrest
      exact ⟨[number], stack, hstack, .property hindex hname, rfl⟩
    · rename_i hproperty
      split at hrest
      · rename_i name hname
        obtain ⟨rfl, rfl⟩ := run_pure_eq_ok_iff.1 hrest
        exact ⟨[number], stack, hstack, .dateTime hindex hproperty hname, rfl⟩
      · rename_i hdateTime
        obtain ⟨part, _, hlook, hof⟩ := run_bind_eq_ok hrest
        obtain ⟨hpart, rfl⟩ := lookUp_eq_ok hlook
        obtain ⟨of, _, hof, hnode⟩ := run_bind_eq_ok hof
        obtain ⟨rest, hstack', rfl⟩ := pop_eq_ok hof
        obtain ⟨rfl, rfl⟩ := run_pure_eq_ok_iff.1 hnode
        obtain rfl : stack = of :: rest := hstack'
        exact ⟨[number, of], rest, hstack, .lastPart hindex hproperty hdateTime hpart, rfl⟩
  · rintro ⟨operands, rest, hstack, h, rfl⟩
    cases h with
    | property hindex hname =>
      refine run_bind_eq_ok_iff.2 ⟨_, _, popIndex_eq_ok_iff.2 ⟨_, _, hstack, hindex, rfl⟩, ?_⟩
      simp [hname, leaf]
    | dateTime hindex hproperty hname =>
      refine run_bind_eq_ok_iff.2 ⟨_, _, popIndex_eq_ok_iff.2 ⟨_, _, hstack, hindex, rfl⟩, ?_⟩
      simp [hproperty, hname, leaf]
    | lastPart hindex hproperty hdateTime hpart =>
      refine run_bind_eq_ok_iff.2 ⟨_, _, popIndex_eq_ok_iff.2 ⟨_, _, hstack, hindex, rfl⟩, ?_⟩
      simp only [hproperty, hdateTime]
      exact run_bind_eq_ok_iff.2 ⟨_, _, run_lookUp i _ hpart _,
        run_bind_eq_ok_iff.2 ⟨_, _, run_pop i rfl, rfl⟩⟩

theorem systemProperty_eq_ok_iff :
    i.systemProperty.run m = .ok node m' ↔
      ∃ operands rest, m.stack = operands ++ rest ∧ Reads m.context i.offset .system operands node ∧
        m' = { m with stack := rest } := by
  constructor
  · intro h
    obtain ⟨index, _, hpop, hrest⟩ := run_bind_eq_ok h
    obtain ⟨number, stack, hstack, hindex, rfl⟩ := popIndex_eq_ok_iff.1 hpop
    obtain ⟨⟨name, owner⟩, _, hlook, hnode⟩ := run_bind_eq_ok hrest
    obtain ⟨hname, rfl⟩ := lookUp_eq_ok hlook
    cases hnode
    exact ⟨[number], stack, hstack, .system hindex hname, rfl⟩
  · rintro ⟨operands, rest, hstack, h, rfl⟩
    cases h with
    | system hindex hname =>
      refine run_bind_eq_ok_iff.2 ⟨_, _, popIndex_eq_ok_iff.2 ⟨_, _, hstack, hindex, rfl⟩, ?_⟩
      exact run_bind_eq_ok_iff.2 ⟨_, _, run_lookUp i _ hname _, rfl⟩

theorem reading_eq_ok_iff {kind : PropertyKind} {offset : Nat} :
    (kind.reading offset).step.run m = .ok () m' ↔
      ∃ operands rest node, m.stack = operands ++ rest ∧ Reads m.context offset kind operands node ∧
        m' = { m with stack := node :: rest } := by
  constructor
  · intro h
    cases kind with
    | special =>
      obtain ⟨node, _, hnode, hpush⟩ := run_bind_eq_ok h
      obtain ⟨operands, rest, hstack, hreads, rfl⟩ := specialProperty_eq_ok_iff.1 hnode
      exact ⟨operands, rest, node, hstack, hreads, push_eq_ok_iff.1 hpush⟩
    | system =>
      obtain ⟨node, _, hnode, hpush⟩ := run_bind_eq_ok h
      obtain ⟨operands, rest, hstack, hreads, rfl⟩ := systemProperty_eq_ok_iff.1 hnode
      exact ⟨operands, rest, node, hstack, hreads, push_eq_ok_iff.1 hpush⟩
    | numbered family =>
      obtain ⟨object, number, rest, name, rfl, hstack, hname, hm⟩ := Family.reading_eq_ok_iff.1 h
      exact ⟨number :: object.ids, rest, _, hstack, .numbered hname, hm⟩
    | movie number =>
      obtain ⟨name, _, hlook, hpush⟩ := run_bind_eq_ok h
      obtain ⟨hname, rfl⟩ := nameAt_eq_ok_iff.1 hlook
      split at hpush
      · rename_i owner howner
        exact ⟨[], _, _, rfl, .ofMovie hname howner, push_eq_ok_iff.1 hpush⟩
      · rename_i howner
        exact ⟨[], _, _, rfl, .movie hname howner, push_eq_ok_iff.1 hpush⟩
    | object number =>
      obtain ⟨name, _, hlook, hpop⟩ := run_bind_eq_ok h
      obtain ⟨hname, rfl⟩ := nameAt_eq_ok_iff.1 hlook
      obtain ⟨object, _, hobject, hpush⟩ := run_bind_eq_ok hpop
      obtain ⟨rest, hstack, rfl⟩ := pop_eq_ok hobject
      exact ⟨[object], rest, _, hstack, .object hname, push_eq_ok_iff.1 hpush⟩
  · rintro ⟨operands, rest, node, hstack, h, rfl⟩
    cases kind with
    | special =>
      have hnode := specialProperty_eq_ok_iff (i := reading offset .special).2 ⟨_, _, hstack, h, rfl⟩
      exact run_bind_eq_ok_iff.2 ⟨_, _, hnode, rfl⟩
    | system =>
      have hnode := systemProperty_eq_ok_iff (i := reading offset .system).2 ⟨_, _, hstack, h, rfl⟩
      exact run_bind_eq_ok_iff.2 ⟨_, _, hnode, rfl⟩
    | numbered family =>
      cases h with
      | numbered hname => exact Family.reading_eq_ok_iff.2 ⟨_, _, _, _, rfl, hstack, hname, rfl⟩
    | movie number =>
      cases h with
      | ofMovie hname howner =>
        obtain rfl : m.stack = rest := hstack
        refine run_bind_eq_ok_iff.2 ⟨_, _, nameAt_eq_ok_iff.2 ⟨hname, rfl⟩, ?_⟩
        rw [howner]
        rfl
      | movie hname howner =>
        obtain rfl : m.stack = rest := hstack
        refine run_bind_eq_ok_iff.2 ⟨_, _, nameAt_eq_ok_iff.2 ⟨hname, rfl⟩, ?_⟩
        rw [howner]
        rfl
    | object number =>
      cases h with
      | object hname =>
        exact run_bind_eq_ok_iff.2 ⟨_, _, nameAt_eq_ok_iff.2 ⟨hname, rfl⟩,
          run_bind_eq_ok_iff.2 ⟨_, _, run_pop _ hstack, rfl⟩⟩

theorem propertyTarget_eq_ok_iff {name : String} :
    (i.propertyTarget name).run m = .ok node m' ↔
      node = (if name ∈ m.context.properties then .property i.offset (i.leaf .raw "me") name
        else i.leaf .propertyName name) ∧ m' = m := by
  change ((if name ∈ m.context.properties then pure _ else pure _ : Recovering Node)).run m = _ ↔ _
  split
  · exact run_pure_eq_ok_iff
  · exact run_pure_eq_ok_iff

theorem writing_eq_ok_iff {kind : PropertyKind} {offset : Nat} :
    (kind.writing offset).step.run m = .ok () m' ↔
      ∃ operands value rest left, m.stack = kind.withValue value operands ++ rest ∧
        Writes m.context offset kind operands left ∧
        m' = { m with
          stack := rest
          function.statements := m.function.statements ++
            [⟨offset, .assign offset left value⟩] } := by
  constructor
  · intro h
    cases kind with
    | special =>
      obtain ⟨left, _, hleft, hassign⟩ := run_bind_eq_ok h
      obtain ⟨operands, _, hstack, hreads, rfl⟩ := specialProperty_eq_ok_iff.1 hleft
      obtain ⟨value, rest, rfl, hm⟩ := assign_eq_ok_iff.1 hassign
      exact ⟨operands, value, rest, left, by simp [withValue, hstack], .same nofun hreads, hm⟩
    | system =>
      obtain ⟨left, _, hleft, hassign⟩ := run_bind_eq_ok h
      obtain ⟨operands, _, hstack, hreads, rfl⟩ := systemProperty_eq_ok_iff.1 hleft
      obtain ⟨value, rest, rfl, hm⟩ := assign_eq_ok_iff.1 hassign
      exact ⟨operands, value, rest, left, by simp [withValue, hstack], .same nofun hreads, hm⟩
    | numbered family =>
      obtain ⟨object, number, value, rest, name, rfl, hstack, hname, hm⟩ :=
        Family.writing_eq_ok_iff.1 h
      exact ⟨number :: object.ids, value, rest, _, hstack, .same nofun (.numbered hname), hm⟩
    | movie number =>
      obtain ⟨name, _, hlook, htarget⟩ := run_bind_eq_ok h
      obtain ⟨hname, rfl⟩ := nameAt_eq_ok_iff.1 hlook
      obtain ⟨left, _, hleft, hassign⟩ := run_bind_eq_ok htarget
      obtain ⟨hleft, rfl⟩ := propertyTarget_eq_ok_iff.1 hleft
      obtain ⟨value, rest, hstack, hm⟩ := assign_eq_ok_iff.1 hassign
      refine ⟨[], value, rest, left, hstack, ?_, hm⟩
      split at hleft
      · rename_i hdeclared
        rw [hleft]
        exact .declared hname hdeclared
      · rename_i hdeclared
        rw [hleft]
        exact .movie hname hdeclared
    | object number =>
      obtain ⟨name, _, hlook, hpop⟩ := run_bind_eq_ok h
      obtain ⟨hname, rfl⟩ := nameAt_eq_ok_iff.1 hlook
      obtain ⟨value, _, hvalue, hpop⟩ := run_bind_eq_ok hpop
      obtain ⟨stack, hstack, rfl⟩ := pop_eq_ok hvalue
      obtain ⟨object, _, hobject, hemit⟩ := run_bind_eq_ok hpop
      obtain ⟨rest, rfl, rfl⟩ := pop_eq_ok hobject
      exact ⟨[object], value, rest, _, hstack, .same nofun (.object hname), emit_eq_ok_iff.1 hemit⟩
  · rintro ⟨operands, value, rest, left, hstack, h, rfl⟩
    cases h with
    | same hkind h =>
      cases kind with
      | special =>
        have hleft := specialProperty_eq_ok_iff (i := writing offset .special).2
          ⟨operands, value :: rest, by simpa [withValue] using hstack, h, rfl⟩
        exact run_bind_eq_ok_iff.2 ⟨_, _, hleft, assign_eq_ok_iff.2 ⟨value, rest, rfl, rfl⟩⟩
      | system =>
        have hleft := systemProperty_eq_ok_iff (i := writing offset .system).2
          ⟨operands, value :: rest, by simpa [withValue] using hstack, h, rfl⟩
        exact run_bind_eq_ok_iff.2 ⟨_, _, hleft, assign_eq_ok_iff.2 ⟨value, rest, rfl, rfl⟩⟩
      | numbered family =>
        cases h with
        | numbered hname => exact Family.writing_eq_ok_iff.2 ⟨_, _, _, _, _, rfl, hstack, hname, rfl⟩
      | movie number => exact absurd rfl (hkind number)
      | object number =>
        cases h with
        | object hname =>
          exact run_bind_eq_ok_iff.2 ⟨_, _, nameAt_eq_ok_iff.2 ⟨hname, rfl⟩,
            run_bind_eq_ok_iff.2 ⟨_, _, run_pop _ hstack,
              run_bind_eq_ok_iff.2 ⟨_, _, run_pop _ rfl, rfl⟩⟩⟩
    | declared hname hdeclared | movie hname hdeclared =>
      refine run_bind_eq_ok_iff.2 ⟨_, _, nameAt_eq_ok_iff.2 ⟨hname, rfl⟩, ?_⟩
      refine run_bind_eq_ok_iff.2 ⟨_, _, propertyTarget_eq_ok_iff.2 ⟨rfl, rfl⟩, ?_⟩
      simp only [hdeclared, ↓reduceIte]
      exact assign_eq_ok_iff.2 ⟨value, rest, hstack, rfl⟩

end Steps

def SameInLingo (c : Context) : PropertyKind → Prop
  | .movie number => ∀ name ∈ c.names[number]?, name ∈ c.properties → name = "ancestor"
  | _ => True

def SameInJavaScript (c : Context) : PropertyKind → Prop
  | .movie number => ∀ name ∈ c.names[number]?, name ≠ "updateMovieEnabled" ∧
      (name ∈ c.properties → (Vocabulary.propertyOwners.lookup name).getD "me" = "me")
  | _ => True

/-- What is assigned to has the texts of what is read, where the kind of the property allows it. -/
def Agrees (c : Context) (kind : PropertyKind) (left node : Node) : Prop :=
  (Lingo.expression left = Lingo.expression node ↔ kind.SameInLingo c) ∧
    ∀ scope, (JavaScript.text scope .plain left = JavaScript.text scope .plain node ↔
      kind.SameInJavaScript c)

section Texts

variable {c : Context} {kind : PropertyKind} {operands : List Node} {node : Node} {offset : Nat}

/-- Apart from properties of the movie, the texts of what is read do not depend on the instruction. -/
theorem Reads.moved (h : Reads c offset kind operands node) (hkind : ∀ number, kind ≠ .movie number)
    (offset' : Nat) :
    ∃ node', Reads c offset' kind operands node' ∧
      Lingo.expression node' = Lingo.expression node ∧
      ∀ scope, JavaScript.text scope .plain node' = JavaScript.text scope .plain node := by
  cases h with
  | property hindex hname => exact ⟨_, .property hindex hname, rfl, fun _ => rfl⟩
  | dateTime hindex hproperty hname =>
    exact ⟨_, .dateTime hindex hproperty hname, rfl, fun _ => rfl⟩
  | lastPart hindex hproperty hdateTime hpart =>
    exact ⟨_, .lastPart hindex hproperty hdateTime hpart, rfl, fun _ => rfl⟩
  | system hindex hname => exact ⟨_, .system hindex hname, rfl, fun _ => rfl⟩
  | @numbered object _ name hname =>
    refine ⟨_, .numbered hname, ?_, fun scope => ?_⟩
    · have hlingo := Accessor.expression_node (.property object name)
      exact (hlingo offset').trans (hlingo offset).symm
    · have htext := (Accessor.text_node (.property object name) · scope)
      exact (htext offset').trans (htext offset).symm
  | ofMovie | movie => exact absurd rfl (hkind _)
  | object hname => exact ⟨_, .object hname, rfl, fun _ => rfl⟩

theorem self_ne (scope : JavaScript.Scope) {owner : String} (h : owner ≠ "this")
    (hme : owner ≠ "me") : scope.self ≠ owner := by
  unfold JavaScript.Scope.self
  split
  · exact h.symm
  · exact hme.symm

theorem text_declared (scope : JavaScript.Scope) (name : String) :
    JavaScript.text scope .plain (.property offset (.leaf .raw "me" offset) name) =
      scope.self ++ "." ++ name := by
  have hself : JavaScript.text scope .plain (.leaf .raw "me" offset) = scope.self := rfl
  rw [JavaScript.text_property, hself, if_neg (self_ne scope (by decide) (by decide))]

theorem dotted_eq_iff {a b name : String} : a ++ "." ++ name = b ++ "." ++ name ↔ a = b := by
  rw [← String.toList_inj, ← String.toList_inj]
  simp

theorem moviePropertyOwners_lookup_eq_some {name owner : String}
    (h : Vocabulary.moviePropertyOwners.lookup name = some owner) :
    name = "updateMovieEnabled" ∧ owner = "_movie" := by
  have hall : ∀ entry ∈ Vocabulary.moviePropertyOwners,
      entry.1 = "updateMovieEnabled" ∧ entry.2 = "_movie" := by decide
  exact hall (name, owner) (mem_of_lookup h)

theorem text_propertyName (scope : JavaScript.Scope) (name : String) :
    JavaScript.text scope .plain (.leaf .propertyName name offset) =
      (if (Vocabulary.propertyOwners.lookup name).getD "me" = "me" then scope.self
        else (Vocabulary.propertyOwners.lookup name).getD "me") ++ "." ++ name := rfl

theorem self_eq_owner_iff (scope : JavaScript.Scope) (name : String) :
    scope.self = (if (Vocabulary.propertyOwners.lookup name).getD "me" = "me" then scope.self
      else (Vocabulary.propertyOwners.lookup name).getD "me") ↔
      (Vocabulary.propertyOwners.lookup name).getD "me" = "me" := by
  have howner := JavaScript.owner_mem name
  generalize (Vocabulary.propertyOwners.lookup name).getD "me" = owner at howner
  split
  · rename_i hme
    exact iff_of_true rfl hme
  · rename_i hme
    refine iff_of_false (self_ne scope ?_ hme) hme
    rintro rfl
    exact absurd howner (by decide)

theorem expression_ofMovie : Lingo.expression
    (.property offset (.leaf .localVariable "_movie" offset) "updateMovieEnabled") =
      "the updateMovieEnabled" := by
  change (if "_movie" = "me" then "updateMovieEnabled"
    else if startsWith "_movie" "_" || decide ("_movie" = "tell_obj") then
      "the " ++ "updateMovieEnabled"
    else "the " ++ "updateMovieEnabled" ++ " of " ++ "_movie") = _
  decide +kernel

theorem Reads.movie_agrees {number : Nat} (h : Reads c offset (.movie number) operands node)
    (offset' : Nat) :
    ∃ left, Writes c offset' (.movie number) operands left ∧ Agrees c (.movie number) left node := by
  -- The read looks for an owner of the name, the write whether the script declares it: four cases.
  cases h with
  | @ofMovie _ name owner hname howner =>
    obtain ⟨rfl, rfl⟩ := moviePropertyOwners_lookup_eq_some howner
    have hnode (scope : JavaScript.Scope) : JavaScript.text scope .plain
        (.property offset (.leaf .localVariable "_movie" offset) "updateMovieEnabled") =
          "_movie" ++ "." ++ "updateMovieEnabled" := rfl
    have hself (scope : JavaScript.Scope) : scope.self ≠ "_movie" :=
      self_ne scope (by decide) (by decide)
    by_cases hdeclared : "updateMovieEnabled" ∈ c.properties
    · refine ⟨_, .declared hname hdeclared, ?_, fun scope => ?_⟩
      · rw [expression_ofMovie]
        change "updateMovieEnabled" = "the updateMovieEnabled" ↔ _
        exact iff_of_false (by decide) (by simp [SameInLingo, hname, hdeclared])
      · rw [text_declared, hnode, dotted_eq_iff]
        exact iff_of_false (hself scope) (by simp [SameInJavaScript, hname])
    · refine ⟨_, .movie hname hdeclared, ?_, fun scope => ?_⟩
      · rw [expression_ofMovie]
        exact iff_of_true rfl (by simp [SameInLingo, hname, hdeclared])
      · rw [text_propertyName, hnode, dotted_eq_iff]
        exact iff_of_false (hself scope) (by simp [SameInJavaScript, hname])
  | @movie _ name hname howner =>
    have hne : name ≠ "updateMovieEnabled" := by
      rintro rfl
      cases howner
    by_cases hdeclared : name ∈ c.properties
    · refine ⟨_, .declared hname hdeclared, ?_, fun scope => ?_⟩
      · have hsame : SameInLingo c (.movie number) ↔ name = "ancestor" := by
          simp [SameInLingo, hname, hdeclared]
        rw [hsame]
        exact eq_marked_iff (by decide) name (name = "ancestor")
      · have hsame : SameInJavaScript c (.movie number) ↔
            (Vocabulary.propertyOwners.lookup name).getD "me" = "me" := by
          simp [SameInJavaScript, hname, hdeclared, hne]
        rw [hsame, text_declared, text_propertyName, dotted_eq_iff, self_eq_owner_iff]
    · exact ⟨_, .movie hname hdeclared, iff_of_true rfl (by simp [SameInLingo, hname, hdeclared]),
        fun scope => iff_of_true rfl (by simp [SameInJavaScript, hname, hdeclared, hne])⟩

theorem Reads.agrees (h : Reads c offset kind operands node) (offset' : Nat) :
    ∃ left, Writes c offset' kind operands left ∧ Agrees c kind left node := by
  have hsame (hkind : ∀ number, kind ≠ .movie number) :
      kind.SameInLingo c ∧ kind.SameInJavaScript c := by
    cases kind with
    | movie number => exact absurd rfl (hkind number)
    | special | system | numbered | object => exact ⟨trivial, trivial⟩
  by_cases hmovie : ∃ number, kind = .movie number
  · obtain ⟨number, rfl⟩ := hmovie
    exact h.movie_agrees offset'
  · have hkind (number : Nat) : kind ≠ .movie number := fun heq => hmovie ⟨number, heq⟩
    obtain ⟨left, hleft, hlingo, hjavaScript⟩ := h.moved hkind offset'
    exact ⟨left, .same hkind hleft, iff_of_true hlingo (hsame hkind).1,
      fun scope => iff_of_true (hjavaScript scope) (hsame hkind).2⟩

end Texts

section Field

open Instruction

def fieldReading (offset : Nat) : Instruction := ⟨offset, .get, 0x0b⟩

def fieldWriting (offset : Nat) : Instruction := ⟨offset, .set, 0x0b⟩

variable {m m' : Machine} {offset : Nat}

theorem fieldReading_eq_ok_iff :
    (fieldReading offset).step.run m = .ok () m' ↔
      ∃ number id rest name, m.stack = number :: id :: rest ∧
        number.index?.bind (Vocabulary.castProperties[·]?) = some name ∧
        m' = { m with stack := .property offset (.unary offset .field id) name :: rest } := by
  have hstep : (fieldReading offset).step = (do
      let name ← (fieldReading offset).popPropertyName .castProperties Vocabulary.castProperties
      let object ← (fieldReading offset).popField
      push (.property offset object name)) := rfl
  rw [hstep]
  simp only [popField, run_bind_eq_ok_iff, popPropertyName_eq_ok_iff, pop_eq_ok_iff,
    run_pure_eq_ok_iff, push_eq_ok_iff]
  constructor
  · rintro ⟨name, _, ⟨number, _, hstack, hname, rfl⟩, _, _, ⟨id, _, ⟨rest, rfl, rfl⟩, rfl, rfl⟩, rfl⟩
    exact ⟨number, id, rest, name, hstack, hname, rfl⟩
  · rintro ⟨number, id, rest, name, hstack, hname, rfl⟩
    exact ⟨name, _, ⟨number, _, hstack, hname, rfl⟩, _, _, ⟨id, _, ⟨rest, rfl, rfl⟩, rfl, rfl⟩, rfl⟩

theorem fieldWriting_eq_ok_iff :
    (fieldWriting offset).step.run m = .ok () m' ↔
      (Family.writing .cast offset).step.run m = .ok () m' := by
  have hstep : (fieldWriting offset).step = (fieldWriting offset).writeProperty .castProperties
      Vocabulary.castProperties ((fieldWriting offset).objectOf .cast) := rfl
  have hcast : (Family.writing .cast offset).step =
      (Family.writing .cast offset).writeProperty .castProperties Vocabulary.castProperties
        ((Family.writing .cast offset).objectOf .cast) := rfl
  rw [hstep, hcast, writeProperty, writeProperty]
  simp only [run_bind_eq_ok_iff, popPropertyName_eq_ok_iff, pop_eq_ok_iff, objectOf_eq_ok_iff,
    emit_eq_ok_iff]
  rfl

theorem expression_field (offset : Nat) (id : Node) (name : String) :
    Lingo.expression (.property offset (.unary offset .field id) name) =
      "the " ++ name ++ " of " ++ ("field " ++ Lingo.expression id) := by
  have hfield : Lingo.expression (.unary offset .field id) = "field " ++ Lingo.expression id := rfl
  rw [Lingo.expression_property (by simp [hfield]) (by simp [hfield, ← String.toList_inj]), hfield]

theorem text_field (scope : JavaScript.Scope) (offset : Nat) (id : Node) (name : String) :
    JavaScript.text scope .plain (.property offset (.unary offset .field id) name) =
      "field(" ++ JavaScript.text scope .plain id ++ ")" ++ "." ++ name := by
  have hfield : JavaScript.text scope .plain (.unary offset .field id) =
      "field(" ++ JavaScript.text scope .plain id ++ ")" := JavaScript.text_unary scope offset .field id
  rw [JavaScript.text_property, hfield, if_neg (by simp [← String.toList_inj])]

/-- A property that is read of a field is written as one of a cast member, which has another text in either
language. -/
theorem writing_of_fieldReading {operands rest : List Node} {node : Node}
    (h : (fieldReading offset).step.run { m with stack := operands ++ rest } =
      .ok () { m with stack := node :: rest })
    (offset' : Nat) (value : Node) :
    ∃ number id name, operands = [number, id] ∧
      node = .property offset (.unary offset .field id) name ∧
      (fieldWriting offset').step.run { m with stack := number :: value :: id :: rest } =
        .ok () { m with
          stack := rest
          function.statements := m.function.statements ++
            [⟨offset', .assign offset' ((Object.cast id).property offset' name) value⟩] } ∧
      Lingo.expression ((Object.cast id).property offset' name) ≠ Lingo.expression node ∧
      ∀ scope, JavaScript.text scope .plain ((Object.cast id).property offset' name) ≠
        JavaScript.text scope .plain node := by
  obtain ⟨number, id, rest', name, hstack, hname, hresult⟩ := fieldReading_eq_ok_iff.1 h
  obtain ⟨rfl, rfl⟩ : node = .property offset (.unary offset .field id) name ∧ rest = rest' := by
    simpa using congrArg Machine.stack hresult
  obtain rfl : operands = [number, id] := List.append_cancel_right hstack
  refine ⟨number, id, name, rfl, rfl, ?_, ?_, fun scope => ?_⟩
  · exact fieldWriting_eq_ok_iff.2
      (Family.writing_eq_ok_iff.2 ⟨.cast id, number, value, rest, name, rfl, rfl, hname, rfl⟩)
  · have hcast : Lingo.expression ((Object.cast id).property offset' name) =
        "the " ++ name ++ " of " ++ ("cast " ++ id.identifier) :=
      Accessor.expression_node (.property (.cast id) name) offset'
    rw [hcast, expression_field]
    simp [← String.toList_inj]
  · have hcast : JavaScript.text scope .plain ((Object.cast id).property offset' name) =
        "member(" ++ id.identifier ++ ")" ++ "." ++ name :=
      Accessor.text_node (.property (.cast id) name) offset' scope
    rw [hcast, text_field]
    simp [← String.toList_inj]

end Field

/-- If a property can be read, then the write takes the same operands, with the value in its place, and
assigns to what has the texts of the property; for a property of the movie this depends on what the
script declares. -/
theorem writing_of_reading {kind : PropertyKind} {m : Machine} {operands rest : List Node}
    {node : Node} {offset : Nat}
    (h : (kind.reading offset).step.run { m with stack := operands ++ rest } =
      .ok () { m with stack := node :: rest })
    (offset' : Nat) (value : Node) :
    ∃ left,
      (kind.writing offset').step.run { m with stack := kind.withValue value operands ++ rest } =
          .ok () { m with
            stack := rest
            function.statements := m.function.statements ++
              [⟨offset', .assign offset' left value⟩] } ∧
        (Lingo.expression left = Lingo.expression node ↔ kind.SameInLingo m.context) ∧
        ∀ scope, (JavaScript.text scope .plain left = JavaScript.text scope .plain node ↔
          kind.SameInJavaScript m.context) := by
  -- What the read leaves shows that it took these operands and no others.
  obtain ⟨operands', rest', node', hstack, hreads, hresult⟩ := reading_eq_ok_iff.1 h
  obtain ⟨rfl, rfl⟩ : node = node' ∧ rest = rest' := by simpa using congrArg Machine.stack hresult
  obtain rfl : operands = operands' := List.append_cancel_right hstack
  obtain ⟨left, hwrites, hagrees⟩ := hreads.agrees offset'
  exact ⟨left, writing_eq_ok_iff.2 ⟨operands, value, rest, left, rfl, hwrites, rfl⟩, hagrees⟩

theorem writing_of_reading_sprite :
    let kind := PropertyKind.numbered .sprite
    let operands := [Node.leaf .constant "27" 94, .leaf .localVariable "n" 92]
    let m : Machine := ⟨.create [] [] 1, { name := "h", position := 0 }, operands⟩
    let node := Node.property 96 (.leaf .sprite "n" 96) "width"
    (kind.reading 96).step.run m = .ok () { m with stack := [node] } ∧
      ∃ left,
        (kind.writing 106).step.run { m with stack := kind.withValue (.leaf .constant "5" 98) operands } =
            .ok () { m with
              stack := []
              function.statements := [⟨106, .assign 106 left (.leaf .constant "5" 98)⟩] } ∧
          Lingo.expression left = "the width of sprite n" ∧
          ∀ scope, JavaScript.text scope .plain left = "sprite(n).width" := by
  intro kind operands m node
  have hread : (kind.reading 96).step.run { m with stack := operands ++ [] } =
      .ok () { m with stack := node :: [] } := by rfl
  obtain ⟨left, hwrite, hlingo, hjavaScript⟩ :=
    writing_of_reading hread 106 (.leaf .constant "5" 98)
  refine ⟨hread, left, hwrite, (hlingo.2 trivial).trans (by decide +kernel), fun scope => ?_⟩
  refine ((hjavaScript scope).2 trivial).trans ?_
  rfl

/-- A property that the script declares is read as one of the movie and written as one of the object. -/
theorem writing_of_reading_declared :
    let kind := PropertyKind.movie 0
    let c : Context := { names := ["p"], constants := [], properties := ["p"], scale := 1 }
    let m : Machine := ⟨c, { name := "h", position := 0 }, []⟩
    let node := Node.leaf .propertyName "p" 92
    let left := Node.property 98 (.leaf .raw "me" 98) "p"
    let value := Node.leaf .constant "1" 96
    (kind.reading 92).step.run m = .ok () { m with stack := [node] } ∧
      (kind.writing 98).step.run { m with stack := kind.withValue value [] } =
        .ok () { m with
          stack := [], function.statements := [⟨98, .assign 98 left value⟩] } ∧
      Lingo.expression node = "the p" ∧ Lingo.expression left = "p" := by
  intro kind c m node left value
  exact ⟨rfl, rfl, by decide +kernel, by decide +kernel⟩

end PropertyKind

end LingoSource
