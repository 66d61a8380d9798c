import LingoSource.Recovery.Context

/-!
What becomes of the scale. It only narrows. As long as every operand counts entries of one width, it stays
a multiple of that width, and the first operand of just one entry brings it down to the width, whatever
came before. Until then an operand may stand for an entry that lies too far in front.
-/
set_option autoImplicit false

namespace LingoSource.Context

section Narrowed

variable {scale width raw : Nat} {raws : List Nat}

theorem dvd_narrowed (hscale : width ∣ scale) (hraw : width ∣ raw) : width ∣ narrowed scale raw := by
  unfold narrowed
  split
  · exact hscale
  · exact (Nat.dvd_mod_iff hscale).2 hraw

theorem narrowed_of_dvd (h : scale ∣ raw) : narrowed scale raw = scale := by
  rw [narrowed, if_pos (Nat.mod_eq_zero_of_dvd h)]

/-- An operand of one entry shows the width of the entries. -/
theorem narrowed_width (hpos : 0 < scale) (hscale : width ∣ scale) : narrowed scale width = width := by
  rcases Nat.lt_or_eq_of_le (Nat.le_of_dvd hpos hscale) with hlt | rfl
  · have hmod : width % scale = width := Nat.mod_eq_of_lt hlt
    have hwidth := Nat.pos_of_dvd_of_pos hscale hpos
    rw [narrowed, hmod, if_neg (by omega)]
  · exact narrowed_of_dvd (Nat.dvd_refl width)

theorem div_narrowed_eq_iff (hpos : 0 < scale) (hscale : width ∣ scale) (hraw : width ∣ raw) :
    raw / narrowed scale raw = raw / width ↔ raw = 0 ∨ narrowed scale raw = width := by
  have hwidth := Nat.pos_of_dvd_of_pos hscale hpos
  have hnarrowed := narrowed_pos hpos raw
  obtain ⟨times, htimes⟩ := dvd_narrowed hscale hraw
  obtain ⟨index, rfl⟩ := hraw
  rw [htimes] at hnarrowed ⊢
  have htimesPos : 0 < times := Nat.pos_of_mul_pos_left hnarrowed
  rw [Nat.mul_div_mul_left _ _ hwidth, Nat.mul_div_cancel_left _ hwidth]
  rcases Nat.lt_or_eq_of_le htimesPos with hlt | rfl
  · constructor
    · intro h
      rcases Nat.eq_zero_or_pos index with rfl | hindex
      · exact .inl (Nat.mul_zero width)
      · exact absurd h (Nat.ne_of_lt (Nat.div_lt_self hindex hlt))
    · rintro (hraw | hone)
      · rw [(Nat.mul_eq_zero.1 hraw).resolve_left (by omega), Nat.zero_div]
      · exact absurd (Nat.eq_of_mul_eq_mul_left hwidth (hone.trans (Nat.mul_one width).symm))
          (Nat.ne_of_gt hlt)
  · simp

theorem foldl_narrowed_pos (h : 0 < scale) (raws : List Nat) : 0 < raws.foldl narrowed scale := by
  induction raws generalizing scale with
  | nil => exact h
  | cons raw raws ih => exact ih (narrowed_pos h raw)

theorem foldl_narrowed_of_dvd (h : ∀ raw ∈ raws, scale ∣ raw) : raws.foldl narrowed scale = scale := by
  induction raws with
  | nil => rfl
  | cons raw raws ih =>
    rw [List.foldl_cons, narrowed_of_dvd (h raw (by simp))]
    exact ih fun raw' hraw' => h raw' (by simp [hraw'])

theorem dvd_foldl_narrowed (hscale : width ∣ scale) (hraws : ∀ raw ∈ raws, width ∣ raw) :
    width ∣ raws.foldl narrowed scale := by
  induction raws generalizing scale with
  | nil => exact hscale
  | cons raw raws ih =>
    exact ih (dvd_narrowed hscale (hraws raw (by simp))) fun raw' hraw' => hraws raw' (by simp [hraw'])

theorem foldl_narrowed_eq (hpos : 0 < scale) (hscale : width ∣ scale)
    (hraws : ∀ raw ∈ raws, width ∣ raw) (hmem : width ∈ raws) : raws.foldl narrowed scale = width := by
  obtain ⟨before, behind, rfl⟩ := List.append_of_mem hmem
  have hbefore : width ∣ before.foldl narrowed scale :=
    dvd_foldl_narrowed hscale fun raw hraw => hraws raw (by simp [hraw])
  rw [List.foldl_append, List.foldl_cons,
    narrowed_width (foldl_narrowed_pos hpos before) hbefore]
  exact foldl_narrowed_of_dvd fun raw hraw => hraws raw (by simp [hraw])

end Narrowed

def descaleAll (c : Context) (raws : List Nat) : Context :=
  raws.foldl (fun c raw => (c.descale raw).2) c

theorem scale_descaleAll (c : Context) (raws : List Nat) :
    (c.descaleAll raws).scale = raws.foldl narrowed c.scale := by
  induction raws generalizing c with
  | nil => rfl
  | cons raw raws ih => exact ih (c.descale raw).2

/-- A new context starts with a scale of at least one. Every operand keeps it so and never widens it, and
its index is the operand divided by the scale that it leaves. If operands are multiples of a divisor of the
first scale and this is one of them, then it is the scale in the end, in whatever order they come. -/
theorem descaleAll_converges (names constants : List String) (width : Nat) :
    let c : Context := create names constants width
    1 ≤ c.scale ∧
    (∀ (before : List Nat) (raw : Nat),
      let c' := c.descaleAll before
      let (index, next) := c'.descale raw
      1 ≤ next.scale ∧ next.scale ≤ c'.scale ∧ index = raw / next.scale) ∧
    ∀ (raws : List Nat) (entry : Nat), entry ∣ c.scale → (∀ raw ∈ raws, entry ∣ raw) →
      entry ∈ raws → (c.descaleAll raws).scale = entry := by
  intro c
  have hpos : 0 < c.scale := Nat.le_max_right width 1
  refine ⟨hpos, fun before raw => ?_, fun raws entry hentry hraws hmem => ?_⟩
  · have hbefore : 0 < (c.descaleAll before).scale := by
      rw [scale_descaleAll]
      exact foldl_narrowed_pos hpos before
    exact ⟨narrowed_pos hbefore raw, narrowed_le hbefore raw, rfl⟩
  · rw [scale_descaleAll]
    exact foldl_narrowed_eq hpos hentry hraws hmem

/-- Records of six bytes and entries of two: the remainder four comes before the remainder two. -/
theorem descaleAll_converges_sixToTwo :
    2 ∣ (create [] [] 6).scale ∧ (∀ raw ∈ [4, 10, 2, 6], 2 ∣ raw) ∧ 2 ∈ [4, 10, 2, 6] ∧
      ((create [] [] 6).descaleAll [4]).scale = 4 ∧
      ((create [] [] 6).descaleAll [4, 10, 2, 6]).scale = 2 := by
  refine ⟨by decide, by decide, by decide, rfl, ?_⟩
  exact (descaleAll_converges [] [] 6).2.2 [4, 10, 2, 6] 2 (by decide) (by decide) (by decide)

end LingoSource.Context
