import LingoSource.Command.Directory
import LingoSource.Proofs.Bytes.Image

set_option autoImplicit false

namespace LingoSource

namespace Directory

variable {d d' : Directory} {location : List String} {name place next : FileName} {part path : String}
  {content : Bytes}

def Fits (d : Directory) (location : List String) (name : FileName) : Prop :=
  d.content? name = none → d.holds location name = false

theorem holds_put (h : d.holds location place = true) :
    (d.put name content).holds location place = true := by
  unfold holds at h ⊢
  rw [Bool.or_eq_true] at h ⊢
  refine h.imp_right fun h => ?_
  rw [List.any_eq_true] at h ⊢
  obtain ⟨file, hmem, hbelow⟩ := h
  by_cases hfile : file.1 = name
  · rw [hfile] at hbelow
    exact ⟨(name, content), List.mem_cons_self, hbelow⟩
  · exact ⟨file, List.mem_cons_of_mem _ (List.mem_filter.2 ⟨hmem, by simpa using hfile⟩), hbelow⟩

def IsName (part : String) : Prop :=
  ¬(part = "" ∨ part = ".") ∧ part ≠ ".." ∧ ¬Path.partLimit < part.utf8ByteSize

/-- What an entry leads to: a file, a directory, or a place for a file. -/
inductive Found (d : Directory) (location : List String) (name : FileName) : Place → Prop
  | file {content : Bytes} : d.content? name = some content → Found d location name (.file name content)
  | directory : d.content? name = none → d.holds location name = true →
    Found d location name (.directory name)
  | vacant : d.content? name = none → d.holds location name = false → Found d location name (.vacant name)

theorem found_of_step (hpart : IsName part) {found : Place}
    (h : d.step location place part = .ok found) :
    d.Found location (FileName.settled location (place ++ [part])) found := by
  unfold step at h
  rw [if_neg hpart.1, if_neg hpart.2.1, if_neg hpart.2.2] at h
  dsimp only at h
  split at h
  · rename_i hcontent
    cases h
    exact .file hcontent
  · rename_i hcontent
    by_cases hholds : d.holds location (FileName.settled location (place ++ [part])) = true
    · rw [if_pos hholds] at h
      cases h
      exact .directory hcontent hholds
    · rw [if_neg hholds] at h
      cases h
      exact .vacant hcontent (Bool.eq_false_iff.2 hholds)

theorem step_of_found (hpart : IsName part) {found : Place}
    (h : d.Found location (FileName.settled location (place ++ [part])) found) :
    d.step location place part = .ok found := by
  unfold step
  rw [if_neg hpart.1, if_neg hpart.2.1, if_neg hpart.2.2]
  dsimp only
  cases h with
  | file hcontent => rw [hcontent]
  | directory hcontent hholds =>
    rw [hcontent]
    dsimp only
    rw [if_pos hholds]
  | vacant hcontent hholds =>
    rw [hcontent]
    dsimp only
    rw [if_neg (Bool.eq_false_iff.1 hholds)]

/-- A part that is no name leads to a directory, whatever files there are. -/
theorem step_cases {found : Place} (h : d.step location place part = .ok found) :
    IsName part ∨
      ∃ next, found = .directory next ∧ ∀ e : Directory, e.step location place part = .ok found := by
  by_cases hhere : part = "" ∨ part = "."
  · have hstep (e : Directory) : e.step location place part = .ok (.directory place) := by
      rw [step, if_pos hhere]
    rw [hstep] at h
    cases h
    exact .inr ⟨place, rfl, hstep⟩
  by_cases habove : part = ".."
  · have hstep (e : Directory) :
        e.step location place part = .ok (.directory (place.above location)) := by
      rw [step, if_neg hhere, if_pos habove]
    rw [hstep] at h
    cases h
    exact .inr ⟨place.above location, rfl, hstep⟩
  by_cases hlong : Path.partLimit < part.utf8ByteSize
  · rw [step, if_neg hhere, if_neg habove, if_pos hlong] at h
    cases h
  · exact .inl ⟨hhere, habove, hlong⟩

theorem step_put (hname : d.Fits location name)
    (h : d.step location place part = .ok (.directory next)) :
    (d.put name content).step location place part = .ok (.directory next) := by
  rcases step_cases h with hpart | ⟨_, _, hstep⟩
  · cases found_of_step hpart h with
    | directory hcontent hholds =>
      have hne : FileName.settled location (place ++ [part]) ≠ name := fun heq => by
        rw [heq] at hcontent hholds
        rw [hname hcontent] at hholds
        cases hholds
      exact step_of_found hpart
        (.directory (by rw [content?_put, if_neg hne, hcontent]) (holds_put hholds))
  · exact hstep _

theorem enter_put (hname : d.Fits location name) {way : List String}
    (h : d.enter location place way = .ok next) :
    (d.put name content).enter location place way = .ok next := by
  induction way generalizing place with
  | nil => exact h
  | cons part way ih =>
    unfold enter at h ⊢
    split at h
    · rename_i directory hstep
      rw [step_put hname hstep]
      exact ih h
    all_goals cases h

theorem step_put_self (content : Bytes) (h : d.step location place part = .ok (.vacant name) ∨
    ∃ old, d.step location place part = .ok (.file name old)) :
    d.Fits location name ∧
      (d.put name content).step location place part = .ok (.file name content) := by
  have hpart : IsName part := by
    rcases h with h | ⟨_, h⟩ <;> rcases step_cases h with hpart | ⟨_, hfound, _⟩
    · exact hpart
    · cases hfound
    · exact hpart
    · cases hfound
  have hput : (d.put name content).content? name = some content := by rw [content?_put, if_pos rfl]
  rcases h with h | ⟨old, h⟩
  · cases found_of_step hpart h with
    | vacant hcontent hholds => exact ⟨fun _ => hholds, step_of_found hpart (.file hput)⟩
  · cases found_of_step hpart h with
    | file hcontent =>
      refine ⟨fun hnone => ?_, step_of_found hpart (.file hput)⟩
      rw [hcontent] at hnone
      cases hnone

/-- Whether one directory is another with the file of a path replaced or made. -/
structure Replaced (d d' : Directory) (location : List String) (path : String) (content : Bytes) :
    Prop where
  readAt_eq : d'.readAt location path = .ok content
  content?_eq : ∃ name, ∀ other,
    d'.content? other = if other = name then some content else d.content? other

theorem replaced_of_write (h : d.write location path content = .ok d') :
    d.Replaced d' location path content := by
  unfold write at h
  obtain ⟨p, hp, h⟩ := bind_eq_ok h
  obtain ⟨place, hplace, h⟩ := bind_eq_ok h
  split at h
  · cases h
  · rename_i hopen
    obtain ⟨found, hstep, h⟩ := bind_eq_ok h
    obtain ⟨name, hfound, rfl⟩ : ∃ name, (d.step location place p.last = .ok (.vacant name) ∨
        ∃ old, d.step location place p.last = .ok (.file name old)) ∧ d' = d.put name content := by
      cases found with
      | file name old =>
        cases h
        exact ⟨name, .inr ⟨old, hstep⟩, rfl⟩
      | vacant name =>
        cases h
        exact ⟨name, .inl hstep, rfl⟩
      | directory name => cases h
    obtain ⟨hname, hself⟩ := step_put_self content hfound
    refine ⟨?_, name, fun other => content?_put d name other content⟩
    unfold readAt find enterPath
    rw [hp, ok_bind, enter_put hname hplace, ok_bind, hself, ok_bind]
    dsimp only
    rw [if_neg hopen]
    rfl

end Directory

namespace Host

variable {host : Host} {d d' : Directory} {path : String} {content : Bytes}

theorem answer_eq_ok_iff {α : Type} {access : Access} {result : Except FileError α} {a : α} :
    host.answer access path result = .ok a ↔ host.refuses access path = none ∧ result = .ok a := by
  unfold answer
  cases host.refuses access path <;> simp

theorem replaced_of_write (h : host.write d path content = .ok d') :
    d.Replaced d' host.location path content :=
  Directory.replaced_of_write (answer_eq_ok_iff.1 h).2

end Host

end LingoSource
