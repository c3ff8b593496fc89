import Mathlib.Algebra.Group.Basic

/-! Sums of every `c`th element that ends at a place, and how a block of them is made by doubling. -/

namespace PrefixSums
variable {α : Type*} [AddCommMonoid α] {c : ℕ} {f g : ℕ → α}

/-- The sum of the last `m` elements. -/
def window (c : ℕ) (f : ℕ → α) : ℕ → ℕ → α
  | 0, _ => 0
  | m + 1, k => f k + if c ≤ k then window c f m (k - c) else 0

/-- The sum of all of them. -/
def running (c : ℕ) (f : ℕ → α) (k : ℕ) : α := window c f (k + 1) k

theorem window_of_lt {m n k : ℕ} (hm : k < c * m) (hn : k < c * n) :
    window c f m k = window c f n k := by
  induction m generalizing n k with
  | zero => cases hm
  | succ m ih =>
    cases n with
    | zero => cases hn
    | succ n =>
      rw [window, window]
      congr 1
      split
      · rw [Nat.mul_succ] at hm hn
        exact ih (by omega) (by omega)
      · rfl

theorem window_eq_running (hc : 0 < c) {m k : ℕ} (h : k < c * m) :
    window c f m k = running c f k :=
  window_of_lt h (Nat.lt_of_lt_of_le (Nat.lt_succ_self k) (Nat.le_mul_of_pos_left _ hc))

theorem running_step (hc : 0 < c) (k : ℕ) :
    running c f k = f k + if c ≤ k then running c f (k - c) else 0 := by
  rw [running, window]
  congr 1
  split
  · rename_i hle
    have hlt : k - c < k := Nat.sub_lt (Nat.lt_of_lt_of_le hc hle) hc
    exact window_eq_running hc (Nat.lt_of_lt_of_le hlt (Nat.le_mul_of_pos_left k hc))
  · rfl

/-- Two windows side by side. -/
theorem window_add (m n k : ℕ) :
    window c f (m + n) k = window c f m k + if c * m ≤ k then window c f n (k - c * m) else 0 := by
  induction m generalizing k with
  | zero =>
    rw [Nat.zero_add, Nat.mul_zero, if_pos (Nat.zero_le k), Nat.sub_zero, window, zero_add]
  | succ m ih =>
    rw [Nat.succ_add, window, window, Nat.mul_succ]
    by_cases hc : c ≤ k
    · rw [if_pos hc, if_pos hc, ih, add_assoc]
      congr 2
      have hiff : c * m ≤ k - c ↔ c * m + c ≤ k := by omega
      simp only [hiff]
      split
      · congr 1
        omega
      · rfl
    · have hnot : ¬c * m + c ≤ k := fun hle => hc (Nat.le_trans (Nat.le_add_left c (c * m)) hle)
      rw [if_neg hc, if_neg hc, if_neg hnot, add_zero, add_zero]

/-- The sums of a block, from those of the block alone and the last ones in front of it. -/
theorem running_block (hc : 0 < c) {p : ℕ} (hp : c ∣ p) (k : ℕ) :
    running c f (p + k) =
      running c (fun j => f (p + j)) k + if c ≤ p then running c f (p - c + k % c) else 0 := by
  induction k using Nat.strongRecOn with
  | ind k ih =>
    by_cases hk : c ≤ k
    · have hplace : p + k - c = p + (k - c) := Nat.add_sub_assoc hk p
      have hmod : (k - c) % c = k % c := (Nat.mod_eq_sub_mod hk).symm
      rw [running_step hc (p + k), if_pos (Nat.le_trans hk (Nat.le_add_left k p)), hplace,
        ih (k - c) (Nat.sub_lt (Nat.lt_of_lt_of_le hc hk) hc), hmod, ← add_assoc,
        running_step hc k, if_pos hk]
    · have hmod : k % c = k := Nat.mod_eq_of_lt (Nat.lt_of_not_le hk)
      rw [running_step hc (p + k), running_step hc k, if_neg hk, add_zero, hmod]
      congr 1
      by_cases hle : c ≤ p
      · have hplace : p + k - c = p - c + k := Nat.sub_add_comm hle
        rw [if_pos (Nat.le_trans hle (Nat.le_add_right p k)), if_pos hle, hplace]
      · obtain rfl : p = 0 := Nat.eq_zero_of_dvd_of_lt hp (Nat.lt_of_not_le hle)
        rw [Nat.zero_add, if_neg hk, if_neg hle]

/-- The sums of every `c`th element, taken out. -/
theorem running_taken {j : ℕ} (hj : j < c) (k : ℕ) :
    running 1 (fun k => f (c * k + j)) k = running c f (c * k + j) := by
  induction k with
  | zero =>
    rw [running_step Nat.one_pos, running_step (Nat.zero_lt_of_lt hj), if_neg (by decide),
      if_neg (by rw [Nat.mul_zero, Nat.zero_add]; exact Nat.not_le_of_lt hj)]
  | succ k ih =>
    have hplace : c * (k + 1) + j - c = c * k + j := by
      rw [Nat.mul_succ]
      omega
    have hle : c ≤ c * (k + 1) + j := by
      rw [Nat.mul_succ]
      omega
    rw [running_step Nat.one_pos, running_step (Nat.zero_lt_of_lt hj), if_pos (Nat.le_add_left 1 k),
      if_pos hle, Nat.add_sub_cancel, ih, hplace]

end PrefixSums
