import LingoSource.Text.Case

set_option autoImplicit false

namespace LingoSource

def withoutApostrophe (sequences : List (Nat × List Nat)) (runs : List CaseRun) : Bool :=
  sequences.all (39 ∉ ·.2) &&
    runs.all fun run => !(run.first + run.distance ≤ 39 && 39 ≤ run.last + run.distance)

theorem withoutApostrophe_lower : withoutApostrophe lowerSequences lowerRuns = true := by
  decide +kernel

theorem withoutApostrophe_upper : withoutApostrophe upperSequences upperRuns = true := by
  decide +kernel

theorem eq_of_ofNat_eq_apostrophe {n : Nat} (h : Char.ofNat n = '\'') : n = 39 := by
  unfold Char.ofNat at h
  by_cases hvalid : n.isValidChar
  · rw [dif_pos hvalid] at h
    exact congrArg Char.toNat h
  · rw [dif_neg hvalid] at h
    cases h

variable {sequences : List (Nat × List Nat)} {runs : List CaseRun}

theorem not_mem_caseImage (h : withoutApostrophe sequences runs = true) {c : Char} (hc : c ≠ '\'') :
    '\'' ∉ caseImage sequences runs c := by
  obtain ⟨hsequences, hruns⟩ := Bool.and_eq_true_iff.1 h
  unfold caseImage
  split
  · rename_i image himage
    obtain ⟨before, after, hmem, -⟩ := List.lookup_eq_some_iff.1 himage
    have himage39 : 39 ∉ image := by
      simpa using List.all_eq_true.1 hsequences (c.toNat, image) (by simp [hmem])
    intro hmem
    obtain ⟨n, hn, heq⟩ := List.mem_map.1 hmem
    exact himage39 (eq_of_ofNat_eq_apostrophe heq ▸ hn)
  · split
    · rename_i n hn
      obtain ⟨run, hrun, himage⟩ := List.exists_of_findSome?_eq_some hn
      have hrange := List.all_eq_true.1 hruns run hrun
      intro hmem
      have h39 := eq_of_ofNat_eq_apostrophe (List.mem_singleton.1 hmem).symm
      unfold CaseRun.image? at himage
      split at himage
      · rename_i hbounds
        obtain rfl := Option.some.inj himage
        simp only [Bool.not_eq_true', Bool.and_eq_false_iff, decide_eq_false_iff_not] at hrange
        omega
      · cases himage
    · intro hmem
      exact hc (List.mem_singleton.1 hmem).symm

theorem count_lowerCase_le (c : Char) : (lowerCase c).count '\'' ≤ [c].count '\'' := by
  by_cases hc : c = '\''
  · subst hc
    decide +kernel
  · rw [lowerCase, List.count_eq_zero.2 (not_mem_caseImage withoutApostrophe_lower hc)]
    exact Nat.zero_le _

theorem count_upperCase_le (c : Char) : (upperCase c).count '\'' ≤ [c].count '\'' := by
  by_cases hc : c = '\''
  · subst hc
    decide +kernel
  · rw [upperCase, List.count_eq_zero.2 (not_mem_caseImage withoutApostrophe_upper hc)]
    exact Nat.zero_le _

theorem count_flatMap_lowerCase_le (s : List Char) :
    (s.flatMap lowerCase).count '\'' ≤ s.count '\'' := by
  induction s with
  | nil => exact Nat.le_refl _
  | cons c s ih =>
    have hc := count_lowerCase_le c
    rw [List.flatMap_cons, List.count_append, ← List.singleton_append, List.count_append]
    omega

/-- Capitalizing a word adds no apostrophe. -/
theorem count_capitalized_le (s : String) : (capitalized s).toList.count '\'' ≤ s.toList.count '\'' := by
  unfold capitalized
  split
  · exact Nat.zero_le _
  · rename_i c rest hs
    have hc := count_upperCase_le c
    have hrest := count_flatMap_lowerCase_le rest
    rw [hs, String.toList_ofList, List.count_append, ← List.singleton_append, List.count_append]
    omega

end LingoSource
