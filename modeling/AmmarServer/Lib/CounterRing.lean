import Mathlib.Data.UInt
import Mathlib.Logic.Function.Basic

/-! A ring of cells whose number is a power of two, with counters of 32 bits that run on: the cell of
a counter is found by a mask, also where the counter has wrapped around. -/

namespace CounterRing
variable {α : Type*}

/-- One less than the number of cells. -/
def Mask (mask : UInt32) : Prop := ∃ bits < 32, mask.toNat = 2 ^ bits - 1

def cellOf (mask counter : UInt32) : UInt32 := counter &&& mask

/-- What the cells of `n` counters hold, from `counter` on. -/
def contents (cells : UInt32 → α) (mask counter : UInt32) : ℕ → List α
  | 0 => []
  | n + 1 => cells (cellOf mask counter) :: contents cells mask (counter + 1) n

variable {cells cells' : UInt32 → α} {mask counter : UInt32} {n : ℕ}

theorem cellOf_toNat {bits : ℕ} (hmask : mask.toNat = 2 ^ bits - 1) (counter : UInt32) :
    (cellOf mask counter).toNat = counter.toNat % 2 ^ bits := by
  unfold cellOf
  rw [UInt32.toNat_and, hmask, Nat.and_two_pow_sub_one_eq_mod]

/-- Counters that are less than a round apart have different cells. -/
theorem cellOf_add_ne (hmask : Mask mask) {i j : ℕ} (hij : i < j) (hround : j ≤ i + mask.toNat) :
    cellOf mask (counter + UInt32.ofNat i) ≠ cellOf mask (counter + UInt32.ofNat j) := by
  obtain ⟨bits, hbits, hmask⟩ := hmask
  intro heq
  have hcells := congrArg UInt32.toNat heq
  have hdvd : 2 ^ bits ∣ 2 ^ 32 := Nat.pow_dvd_pow 2 hbits.le
  have hmod : ∀ k : ℕ, (counter + UInt32.ofNat k).toNat % 2 ^ bits =
      (counter.toNat + k) % 2 ^ bits := by
    intro k
    rw [UInt32.toNat_add, UInt32.toNat_ofNat', Nat.mod_mod_of_dvd _ hdvd, Nat.add_mod,
      Nat.mod_mod_of_dvd _ hdvd, ← Nat.add_mod]
  rw [cellOf_toNat hmask, cellOf_toNat hmask, hmod, hmod] at hcells
  have hpos := Nat.two_pow_pos bits
  have hzero : (j - i) % 2 ^ bits = 0 := by
    have hsub := Nat.sub_mod_eq_zero_of_mod_eq hcells.symm
    rwa [Nat.add_sub_add_left] at hsub
  have hsmall : j - i < 2 ^ bits := by omega
  rw [Nat.mod_eq_of_lt hsmall] at hzero
  omega

theorem counter_succ (counter : UInt32) (n : ℕ) :
    counter + 1 + UInt32.ofNat n = counter + UInt32.ofNat (n + 1) := by
  rw [UInt32.add_assoc, UInt32.ofNat_add, UInt32.add_comm (UInt32.ofNat n)]
  rfl

theorem contents_congr
    (h : ∀ i < n, cells' (cellOf mask (counter + UInt32.ofNat i)) =
      cells (cellOf mask (counter + UInt32.ofNat i))) :
    contents cells' mask counter n = contents cells mask counter n := by
  induction n generalizing counter with
  | zero => rfl
  | succ n ih =>
    have hfirst := h 0 (Nat.succ_pos n)
    rw [show UInt32.ofNat 0 = 0 from rfl, UInt32.add_zero] at hfirst
    unfold contents
    rw [hfirst, ih fun i hi => ?_]
    rw [counter_succ]
    exact h (i + 1) (Nat.succ_lt_succ hi)

theorem contents_add (cells : UInt32 → α) (mask counter : UInt32) (m n : ℕ) :
    contents cells mask counter (m + n) =
      contents cells mask counter m ++ contents cells mask (counter + UInt32.ofNat m) n := by
  induction m generalizing counter with
  | zero =>
    rw [Nat.zero_add, show UInt32.ofNat 0 = 0 from rfl, UInt32.add_zero]
    rfl
  | succ m ih =>
    rw [Nat.succ_add, contents, ih, counter_succ]
    rfl

/-- A cell behind the others is filled. -/
theorem contents_push {a : α}
    (hcell : cells' (cellOf mask (counter + UInt32.ofNat n)) = a)
    (hothers : ∀ i < n, cells' (cellOf mask (counter + UInt32.ofNat i)) =
      cells (cellOf mask (counter + UInt32.ofNat i))) :
    contents cells' mask counter (n + 1) = contents cells mask counter n ++ [a] := by
  rw [contents_add, contents_congr hothers]
  unfold contents contents
  rw [hcell]

end CounterRing
