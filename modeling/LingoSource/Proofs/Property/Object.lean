import LingoSource.Proofs.Instruction.Success

set_option autoImplicit false

namespace LingoSource

namespace Instruction

variable {i : Instruction} {m m' : Machine}

theorem objectOf_eq_ok_iff {kind : LeafKind} {name : String} {node : Node} :
    (i.objectOf kind name).run m = .ok node m' ↔
      ∃ id rest, m.stack = id :: rest ∧
        node = .property i.offset (i.leaf kind id.identifier) name ∧ m' = { m with stack := rest } := by
  unfold objectOf
  simp only [run_bind_eq_ok_iff, popIdentifier_eq_ok_iff, run_pure_eq_ok_iff]
  constructor
  · rintro ⟨_, _, ⟨id, rest, hid, rfl, rfl⟩, rfl, rfl⟩
    exact ⟨id, rest, hid, rfl, rfl⟩
  · rintro ⟨id, rest, hid, rfl, rfl⟩
    exact ⟨_, _, ⟨id, rest, hid, rfl, rfl⟩, rfl, rfl⟩

theorem menuItemOf_eq_ok_iff {name : String} {node : Node} :
    (i.menuItemOf name).run m = .ok node m' ↔
      ∃ menu item rest, m.stack = menu :: item :: rest ∧
        node = .property i.offset (.menuItemOf i.offset (i.leaf .menu menu.identifier)
          (i.leaf .menuItem item.identifier)) name ∧ m' = { m with stack := rest } := by
  unfold menuItemOf
  simp only [run_bind_eq_ok_iff, popIdentifier_eq_ok_iff, run_pure_eq_ok_iff]
  constructor
  · rintro ⟨_, _, ⟨menu, stack, hmenu, rfl, rfl⟩, _, _, ⟨item, rest, hitem, rfl, rfl⟩, rfl, rfl⟩
    obtain rfl : stack = item :: rest := hitem
    exact ⟨menu, item, rest, hmenu, rfl, rfl⟩
  · rintro ⟨menu, item, rest, hstack, rfl, rfl⟩
    exact ⟨_, _, ⟨menu, item :: rest, hstack, rfl, rfl⟩, _, _, ⟨item, rest, rfl, rfl, rfl⟩, rfl, rfl⟩

end Instruction

inductive Family
  | menuItem
  | sound
  | sprite
  | cast
  | video
  deriving DecidableEq, Repr

namespace Family

def table : Family → IndexedTable
  | .menuItem => .menuItemProperties
  | .sound => .soundProperties
  | .sprite => .spriteProperties
  | .cast => .castProperties
  | .video => .videoProperties

def properties : Family → List String
  | .menuItem => Vocabulary.menuItemProperties
  | .sound => Vocabulary.soundProperties
  | .sprite => Vocabulary.spriteProperties
  | .cast => Vocabulary.castProperties
  | .video => Vocabulary.videoProperties

def code : Family → Nat
  | .menuItem => 0x03
  | .sound => 0x04
  | .sprite => 0x06
  | .cast => 0x09
  | .video => 0x0d

def reading (family : Family) (offset : Nat) : Instruction :=
  ⟨offset, .get, family.code⟩

def writing (family : Family) (offset : Nat) : Instruction :=
  ⟨offset, .set, family.code⟩

def owner (family : Family) (i : Instruction) (name : String) : Recovering Node :=
  match family with
  | .menuItem => i.menuItemOf name
  | .sound => i.objectOf .soundChannel name
  | .sprite => i.objectOf .sprite name
  | .cast | .video => i.objectOf .cast name

theorem step_reading (family : Family) (offset : Nat) :
    (family.reading offset).step =
      (family.reading offset).readProperty family.table family.properties
        (family.owner (family.reading offset)) := by
  cases family <;> rfl

theorem step_writing (family : Family) (offset : Nat) :
    (family.writing offset).step =
      (family.writing offset).writeProperty family.table family.properties
        (family.owner (family.writing offset)) := by
  cases family <;> rfl

end Family

inductive Object
  | menuItem (menu item : Node)
  | sound (id : Node)
  | sprite (id : Node)
  | cast (id : Node)
  | video (id : Node)

namespace Object

def family : Object → Family
  | .menuItem .. => .menuItem
  | .sound _ => .sound
  | .sprite _ => .sprite
  | .cast _ => .cast
  | .video _ => .video

/-- The top of the stack comes first. -/
def ids : Object → List Node
  | .menuItem menu item => [menu, item]
  | .sound id | .sprite id | .cast id | .video id => [id]

def node (offset : Nat) : Object → Node
  | .menuItem menu item =>
    .menuItemOf offset (.leaf .menu menu.identifier offset) (.leaf .menuItem item.identifier offset)
  | .sound id => .leaf .soundChannel id.identifier offset
  | .sprite id => .leaf .sprite id.identifier offset
  | .cast id | .video id => .leaf .cast id.identifier offset

def property (object : Object) (offset : Nat) (name : String) : Node :=
  .property offset (object.node offset) name

end Object

namespace Family

open Instruction

variable {family : Family} {i : Instruction} {m m' : Machine}

theorem owner_eq_ok_iff {name : String} {node : Node} :
    (family.owner i name).run m = .ok node m' ↔
      ∃ object : Object, ∃ rest, object.family = family ∧ m.stack = object.ids ++ rest ∧
        node = object.property i.offset name ∧ m' = { m with stack := rest } := by
  constructor
  · intro h
    cases family with
    | menuItem =>
      obtain ⟨menu, item, rest, hstack, hnode, hm⟩ := menuItemOf_eq_ok_iff.1 h
      exact ⟨.menuItem menu item, rest, rfl, hstack, hnode, hm⟩
    | sound =>
      obtain ⟨id, rest, hstack, hnode, hm⟩ := objectOf_eq_ok_iff.1 h
      exact ⟨.sound id, rest, rfl, hstack, hnode, hm⟩
    | sprite =>
      obtain ⟨id, rest, hstack, hnode, hm⟩ := objectOf_eq_ok_iff.1 h
      exact ⟨.sprite id, rest, rfl, hstack, hnode, hm⟩
    | cast =>
      obtain ⟨id, rest, hstack, hnode, hm⟩ := objectOf_eq_ok_iff.1 h
      exact ⟨.cast id, rest, rfl, hstack, hnode, hm⟩
    | video =>
      obtain ⟨id, rest, hstack, hnode, hm⟩ := objectOf_eq_ok_iff.1 h
      exact ⟨.video id, rest, rfl, hstack, hnode, hm⟩
  · rintro ⟨object, rest, rfl, hstack, hnode, hm⟩
    cases object with
    | menuItem menu item => exact menuItemOf_eq_ok_iff.2 ⟨menu, item, rest, hstack, hnode, hm⟩
    | sound id | sprite id | cast id | video id =>
      exact objectOf_eq_ok_iff.2 ⟨id, rest, hstack, hnode, hm⟩

theorem reading_eq_ok_iff {offset : Nat} :
    (family.reading offset).step.run m = .ok () m' ↔
      ∃ object : Object, ∃ number rest name, object.family = family ∧
        m.stack = number :: (object.ids ++ rest) ∧
        number.index?.bind (family.properties[·]?) = some name ∧
        m' = { m with stack := object.property offset name :: rest } := by
  rw [step_reading, readProperty]
  simp only [run_bind_eq_ok_iff, popPropertyName_eq_ok_iff, owner_eq_ok_iff, push_eq_ok_iff]
  constructor
  · rintro ⟨name, _, ⟨number, _, hstack, hname, rfl⟩, _, _, ⟨object, rest, hfamily, rfl, rfl, rfl⟩,
      rfl⟩
    exact ⟨object, number, rest, name, hfamily, hstack, hname, rfl⟩
  · rintro ⟨object, number, rest, name, hfamily, hstack, hname, rfl⟩
    exact ⟨name, _, ⟨number, _, hstack, hname, rfl⟩, _, _, ⟨object, rest, hfamily, rfl, rfl, rfl⟩,
      rfl⟩

/-- The value lies below the number and above the expressions that identify the object. -/
theorem writing_eq_ok_iff {offset : Nat} :
    (family.writing offset).step.run m = .ok () m' ↔
      ∃ object : Object, ∃ number value rest name, object.family = family ∧
        m.stack = number :: value :: (object.ids ++ rest) ∧
        number.index?.bind (family.properties[·]?) = some name ∧
        m' = { m with
          stack := rest
          function.statements := m.function.statements ++
            [⟨offset, .assign offset (object.property offset name) value⟩] } := by
  rw [step_writing, writeProperty]
  simp only [run_bind_eq_ok_iff, popPropertyName_eq_ok_iff, pop_eq_ok_iff, owner_eq_ok_iff,
    emit_eq_ok_iff]
  constructor
  · rintro ⟨name, _, ⟨number, _, hstack, hname, rfl⟩, value, _, ⟨_, rfl, rfl⟩, _, _,
      ⟨object, rest, hfamily, rfl, rfl, rfl⟩, rfl⟩
    exact ⟨object, number, value, rest, name, hfamily, hstack, hname, rfl⟩
  · rintro ⟨object, number, value, rest, name, hfamily, hstack, hname, rfl⟩
    exact ⟨name, _, ⟨number, _, hstack, hname, rfl⟩, value, _, ⟨_, rfl, rfl⟩, _, _,
      ⟨object, rest, hfamily, rfl, rfl, rfl⟩, rfl⟩

end Family

end LingoSource
