import Mathlib.Tactic.IntervalCases
import AmmarServer.Lib.TextFiles

/-! Decimal numerals: how they grow by a digit, and what a run of digits is. -/

namespace TextFile
open Bytes

theorem decimal_of_lt {d : ℕ} (hd : d < 10) : decimal d = [UInt8.ofNat (48 + d)] := by
  unfold decimal
  rw [Nat.toDigits_of_lt_base hd]
  interval_cases d <;> rfl

theorem decimal_append {n d : ℕ} (hn : 0 < n) (hd : d < 10) :
    decimal (n * 10 + d) = decimal n ++ [UInt8.ofNat (48 + d)] := by
  rw [← decimal_of_lt hd]
  unfold decimal
  rw [Nat.mul_comm, ← Nat.toDigits_append_toDigits (by decide) hn hd, List.map_append]

/-- A positive number does not begin with a zero. -/
theorem decimal_head {n : ℕ} (hn : 0 < n) : ∃ c s, decimal n = c :: s ∧ c ≠ 48 := by
  induction n using Nat.strongRecOn with
  | ind n ih =>
    rcases Nat.lt_or_ge n 10 with hlt | hge
    · rw [decimal_of_lt hlt]
      refine ⟨_, [], rfl, ?_⟩
      interval_cases n <;> decide
    · have hsplit : n = n / 10 * 10 + n % 10 := by omega
      obtain ⟨c, s, hs, hc⟩ := ih (n / 10) (by omega) (by omega)
      rw [hsplit, decimal_append (by omega) (Nat.mod_lt _ (by decide)), hs]
      exact ⟨c, s ++ _, rfl, hc⟩

/-- The number that a run of digits denotes. -/
def number (s : List UInt8) : ℕ := s.foldl (fun n c => n * 10 + (c.toNat - 48)) 0

theorem number_append (s : List UInt8) (c : UInt8) :
    number (s ++ [c]) = number s * 10 + (c.toNat - 48) := by
  unfold number
  rw [List.foldl_append]
  rfl

theorem number_decimal (n : ℕ) : number (decimal n) = n := foldl_toDigits n

theorem number_zeros (z : ℕ) (s : List UInt8) : number (List.replicate z 48 ++ s) = number s := by
  induction z with
  | zero => rfl
  | succ z ih => exact ih

theorem digit_eq {c : UInt8} (hc : isDigit c = true) :
    c.toNat - 48 < 10 ∧ c = UInt8.ofNat (48 + (c.toNat - 48)) := by
  revert c
  apply forall_byte
  decide +kernel

/-- A run of digits is zeros, and behind them the number that it denotes if that is positive. -/
theorem zeros_of_isDigit {s : List UInt8} (hs : ∀ c ∈ s, isDigit c = true) :
    (number s = 0 ∧ s = List.replicate s.length 48) ∨
      ∃ z, 0 < number s ∧ s = List.replicate z 48 ++ decimal (number s) := by
  induction s using List.reverseRecOn with
  | nil => exact .inl ⟨rfl, rfl⟩
  | append_singleton s c ih =>
    obtain ⟨hfront, hlast⟩ := List.forall_mem_append.mp hs
    have hc : isDigit c = true := hlast c (List.mem_singleton_self c)
    obtain ⟨hdigit, hbyte⟩ := digit_eq hc
    rw [number_append]
    rcases ih hfront with ⟨hzero, hzeros⟩ | ⟨z, hpos, hspelt⟩
    · rw [hzero, Nat.zero_mul, Nat.zero_add]
      rcases Nat.eq_zero_or_pos (c.toNat - 48) with hnull | hsome
      · refine .inl ⟨hnull, ?_⟩
        rw [hnull] at hbyte
        rw [hzeros, hbyte, List.length_append, List.length_replicate, List.length_singleton,
          List.replicate_add]
        rfl
      · refine .inr ⟨s.length, hsome, ?_⟩
        rw [decimal_of_lt hdigit, ← hbyte, ← hzeros]
    · refine .inr ⟨z, by omega, ?_⟩
      rw [decimal_append hpos hdigit, ← List.append_assoc, ← hspelt, ← hbyte]

end TextFile
