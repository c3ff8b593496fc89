import Mathlib.Data.List.Infix

/-! The occurrences of a pattern in a list, from left to right and not overlapping, and the list in
which the first of them are replaced. -/

namespace Substitution
variable {α : Type*} [DecidableEq α]

/-- Where the pattern is first found. -/
def firstAt (pat : List α) : List α → Option ℕ
  | [] => if pat = [] then some 0 else none
  | c :: s => if pat <+: c :: s then some 0 else (firstAt pat s).map (· + 1)

/-- The list in which the first `n` occurrences are replaced, if there are so many. -/
def replaceFirst (pat value : List α) : ℕ → List α → Option (List α)
  | 0, s => some s
  | n + 1, s =>
    (firstAt pat s).bind fun i =>
      (replaceFirst pat value n (s.drop (i + pat.length))).map fun rest =>
        s.take i ++ (value ++ rest)

/-- Where the replacement of the occurrence with the index `k` begins. -/
def place (pat value : List α) : ℕ → List α → Option ℕ
  | 0, s => firstAt pat s
  | k + 1, s =>
    (firstAt pat s).bind fun i =>
      (place pat value k (s.drop (i + pat.length))).map (i + value.length + ·)

/-- `n` searches for the pattern, the first in `lead ++ rest` and each other one in the value and
the list behind the occurrence found before, pass over what stands in front of the list. -/
def PassesOver (pat value : List α) : ℕ → List α → List α → Prop
  | 0, _, _ => True
  | n + 1, lead, rest =>
    firstAt pat (lead ++ rest) = (firstAt pat rest).map (lead.length + ·) ∧
      ∀ i ∈ firstAt pat rest, PassesOver pat value n value (rest.drop (i + pat.length))

variable {pat value s lead rest : List α} {n i : ℕ}

theorem firstAt_begin (h : pat <+: s) : firstAt pat s = some 0 := by
  cases s with
  | nil => exact if_pos (List.prefix_nil.mp h)
  | cons c s => exact if_pos h

theorem prefix_of_firstAt (h : firstAt pat s = some i) : pat <+: s.drop i := by
  induction s generalizing i with
  | nil =>
    unfold firstAt at h
    split at h
    · rename_i hnil
      cases h
      rw [hnil]
      exact List.nil_prefix
    · cases h
  | cons c s ih =>
    unfold firstAt at h
    split at h
    · rename_i hleading
      cases h
      exact hleading
    · obtain ⟨j, hj, rfl⟩ := Option.map_eq_some_iff.mp h
      exact ih hj

theorem firstAt_le (h : firstAt pat s = some i) : i + pat.length ≤ s.length := by
  have hle := (prefix_of_firstAt h).length_le
  rw [List.length_drop] at hle
  rcases Nat.lt_or_ge s.length i with hlt | hge
  · -- only an empty pattern could be found behind the end, and it is found at once
    have hnil : pat = [] := List.length_eq_zero_iff.mp (by omega)
    rw [firstAt_begin (by rw [hnil]; exact List.nil_prefix)] at h
    cases h
    omega
  · omega

/-- A search that begins further to the left finds the pattern as well. -/
theorem firstAt_append_isSome (lead : List α) (h : firstAt pat s = some i) :
    ∃ j, firstAt pat (lead ++ s) = some j := by
  induction lead with
  | nil => exact ⟨i, h⟩
  | cons c lead ih =>
    obtain ⟨j, hj⟩ := ih
    rw [List.cons_append]
    unfold firstAt
    split
    · exact ⟨0, rfl⟩
    · exact ⟨j + 1, by rw [hj]; rfl⟩

theorem firstAt_append (h : firstAt pat s = some i) (behind : List α) :
    firstAt pat (s ++ behind) = some i := by
  induction s generalizing i with
  | nil =>
    unfold firstAt at h
    split at h
    · rename_i hnil
      cases h
      exact firstAt_begin (by rw [hnil]; exact List.nil_prefix)
    · cases h
  | cons c s ih =>
    by_cases hleading : pat <+: c :: s
    · rw [firstAt_begin hleading] at h
      cases h
      exact firstAt_begin (hleading.trans (List.prefix_append _ _))
    · rw [firstAt, if_neg hleading] at h
      obtain ⟨j, hj, rfl⟩ := Option.map_eq_some_iff.mp h
      -- what is found later in the longer text is not found at its begin
      have hle := firstAt_le hj
      have hnot : ¬pat <+: c :: (s ++ behind) := by
        intro hlong
        apply hleading
        apply List.prefix_of_prefix_length_le hlong (List.prefix_append (c :: s) behind)
        rw [List.length_cons]
        omega
      rw [List.cons_append, firstAt, if_neg hnot, ih hj]
      rfl

theorem replaceFirst_succ {new : List α} (h : replaceFirst pat value (n + 1) s = some new) :
    ∃ i rest, firstAt pat s = some i ∧
      replaceFirst pat value n (s.drop (i + pat.length)) = some rest ∧
      new = s.take i ++ (value ++ rest) := by
  obtain ⟨i, hi, hnew⟩ := Option.bind_eq_some_iff.mp h
  obtain ⟨rest, hrest, rfl⟩ := Option.map_eq_some_iff.mp hnew
  exact ⟨i, rest, hi, hrest, rfl⟩

theorem replaceFirst_of_firstAt (h : firstAt pat s = some i) :
    replaceFirst pat value (n + 1) s =
      (replaceFirst pat value n (s.drop (i + pat.length))).map fun rest =>
        s.take i ++ (value ++ rest) := by
  rw [replaceFirst, h]
  rfl

theorem place_of_firstAt (h : firstAt pat s = some i) :
    place pat value (n + 1) s =
      (place pat value n (s.drop (i + pat.length))).map (i + value.length + ·) := by
  rw [place, h]
  rfl

/-- The occurrences do not overlap. -/
theorem mul_length_le {new : List α} (h : replaceFirst pat value n s = some new) :
    n * pat.length ≤ s.length := by
  induction n generalizing s new with
  | zero => simp
  | succ n ih =>
    obtain ⟨i, rest, hi, hrest, -⟩ := replaceFirst_succ h
    have hle := firstAt_le hi
    have hbehind := ih hrest
    rw [List.length_drop] at hbehind
    rw [Nat.add_mul, Nat.one_mul]
    omega

end Substitution
