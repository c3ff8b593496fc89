import Mathlib.Data.List.Infix

/-! Readers that are run again on everything received so far. `cuts` lists what such a reader sees
before the last piece of a message has arrived, and `answers` what it says on the way. -/

namespace Segmentation
variable {α β : Type*}

/-- What has been received at each inner cut of a message that arrives in `pieces`. -/
def cuts : List (List α) → List (List α)
  | [] => []
  | [_] => []
  | p :: q :: ps => p :: (cuts (q :: ps)).map (p ++ ·)

/-- What `f` says after each piece, when it is run on all that has been received. -/
def answers (f : List α → β) (pieces : List (List α)) : List β :=
  (cuts pieces ++ [pieces.flatten]).map f

@[simp] theorem cuts_nil : cuts ([] : List (List α)) = [] := rfl

@[simp] theorem cuts_singleton (p : List α) : cuts [p] = [] := rfl

@[simp] theorem cuts_cons_cons (p q : List α) (ps : List (List α)) :
    cuts (p :: q :: ps) = p :: (cuts (q :: ps)).map (p ++ ·) := rfl

theorem cuts_length (pieces : List (List α)) : (cuts pieces).length = pieces.length - 1 := by
  match pieces with
  | [] => rfl
  | [_] => rfl
  | p :: q :: ps =>
    rw [cuts_cons_cons, List.length_cons, List.length_map, cuts_length (q :: ps)]
    simp

theorem isPrefix_of_mem_cuts {pieces : List (List α)} {c : List α} (h : c ∈ cuts pieces) :
    c <+: pieces.flatten := by
  match pieces with
  | [] => cases h
  | [_] => cases h
  | p :: q :: ps =>
    rw [cuts_cons_cons, List.mem_cons] at h
    rw [List.flatten_cons]
    rcases h with rfl | h
    · exact List.prefix_append _ _
    · obtain ⟨d, hd, rfl⟩ := List.mem_map.mp h
      exact (List.prefix_append_right_inj p).mpr (isPrefix_of_mem_cuts hd)

theorem mem_cuts_ne_nil {pieces : List (List α)} (hp : ∀ p ∈ pieces, p ≠ [])
    {c : List α} (h : c ∈ cuts pieces) : c ≠ [] := by
  match pieces with
  | [] => cases h
  | [_] => cases h
  | p :: q :: ps =>
    have hne : p ≠ [] := hp p (List.mem_cons_self ..)
    rw [cuts_cons_cons, List.mem_cons] at h
    rcases h with rfl | h
    · exact hne
    · obtain ⟨d, _, rfl⟩ := List.mem_map.mp h
      simp [hne]

theorem mem_cuts_length_lt {pieces : List (List α)} (hp : ∀ p ∈ pieces, p ≠ [])
    {c : List α} (h : c ∈ cuts pieces) : c.length < pieces.flatten.length := by
  match pieces with
  | [] => cases h
  | [_] => cases h
  | p :: q :: ps =>
    have hq : q ≠ [] := hp q (by simp)
    have hpos : 0 < q.length := List.length_pos_iff.mpr hq
    rw [cuts_cons_cons, List.mem_cons] at h
    rw [List.flatten_cons, List.length_append]
    rcases h with rfl | h
    · rw [List.flatten_cons, List.length_append]
      omega
    · obtain ⟨d, hd, rfl⟩ := List.mem_map.mp h
      have := mem_cuts_length_lt (fun r hr => hp r (List.mem_cons_of_mem _ hr)) hd
      rw [List.length_append]
      omega

/-- A reader says `more` at every inner cut exactly when its answers on the way are all `more`. -/
theorem answers_eq_iff (f : List α → β) (pieces : List (List α)) (more last : β)
    (hlast : f pieces.flatten = last) :
    answers f pieces = List.replicate (pieces.length - 1) more ++ [last] ↔
      ∀ c ∈ cuts pieces, f c = more := by
  unfold answers
  rw [List.map_append, List.map_singleton, hlast, List.append_left_inj, List.eq_replicate_iff]
  simp [cuts_length]

end Segmentation
