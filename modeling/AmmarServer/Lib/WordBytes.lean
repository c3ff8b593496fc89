import Mathlib.Data.Nat.Bitwise
import Mathlib.Data.UInt

/-! Bytes packed into one word, the first one lowest, and the tests of all its bytes at once by a
subtraction that borrows only from the first byte that passes. -/

namespace WordBytes

variable {bytes : List UInt8} {n : UInt8} {c : UInt8} {i : ℕ}

def word : List UInt8 → ℕ
  | [] => 0
  | c :: bytes => 2 ^ 8 * word bytes + c.toNat

theorem word_lt (bytes : List UInt8) : word bytes < 2 ^ (8 * bytes.length) := by
  induction bytes with
  | nil => exact Nat.one_pos
  | cons c bytes ih =>
    have hc := c.toNat_lt
    rw [word, List.length_cons, Nat.mul_succ, Nat.pow_add]
    omega

theorem testBit_word_cons (c : UInt8) (bytes : List UInt8) (i : ℕ) :
    (word (c :: bytes)).testBit i =
      if i < 8 then c.toNat.testBit i else (word bytes).testBit (i - 8) :=
  Nat.testBit_two_pow_mul_add _ c.toNat_lt i

/-- The same byte in every place. -/
def splat (n : UInt8) (places : ℕ) : ℕ := word (List.replicate places n)

theorem splat_succ (n : UInt8) (places : ℕ) :
    splat n (places + 1) = 2 ^ 8 * splat n places + n.toNat := rfl

theorem word_xor (bytes : List UInt8) (n : UInt8) :
    word (bytes.map (· ^^^ n)) = word bytes ^^^ splat n bytes.length := by
  induction bytes with
  | nil => exact (Nat.zero_xor 0).symm
  | cons c bytes ih =>
    apply Nat.eq_of_testBit_eq
    intro i
    rw [List.map_cons, testBit_word_cons, Nat.testBit_xor, testBit_word_cons, List.length_cons,
      splat, List.replicate_succ, testBit_word_cons]
    split
    · rw [UInt8.toNat_xor, Nat.testBit_xor]
    · rw [ih, Nat.testBit_xor]
      rfl

/-- The highest bit of some byte is set. -/
def Marked (places w : ℕ) : Prop := ∃ i < places, w.testBit (8 * i + 7) = true

theorem marked_or {places a b : ℕ} :
    Marked places (a ||| b) ↔ Marked places a ∨ Marked places b := by
  unfold Marked
  simp only [Nat.testBit_or, Bool.or_eq_true, and_or_left, exists_or]

/-- The word less the same byte everywhere, without its last borrow. -/
def less (n : UInt8) (bytes : List UInt8) : ℕ :=
  (2 ^ (8 * bytes.length) - splat n bytes.length + word bytes) % 2 ^ (8 * bytes.length)

theorem less_mod (c n : UInt8) (bytes : List UInt8) :
    less n (c :: bytes) % 2 ^ 8 = (2 ^ 8 - n.toNat + c.toNat) % 2 ^ 8 := by
  have hsplat := word_lt (List.replicate bytes.length n)
  have hn := n.toNat_lt
  rw [List.length_replicate] at hsplat
  change splat n bytes.length < _ at hsplat
  unfold less
  rw [List.length_cons, Nat.mul_succ, Nat.pow_add, Nat.mod_mul_left_mod, splat_succ, word]
  generalize 2 ^ (8 * bytes.length) = size at hsplat ⊢
  omega

/-- A byte that does not pass lends nothing. -/
theorem less_cons (hge : n ≤ c) (bytes : List UInt8) :
    less n (c :: bytes) = 2 ^ 8 * less n bytes + (c.toNat - n.toNat) := by
  have hsplat := word_lt (List.replicate bytes.length n)
  have hc := c.toNat_lt
  have hnc : n.toNat ≤ c.toNat := hge
  rw [List.length_replicate] at hsplat
  change splat n bytes.length < _ at hsplat
  unfold less
  rw [List.length_cons, Nat.mul_succ, Nat.pow_add, splat_succ, word, Nat.mul_comm, Nat.mod_mul]
  generalize 2 ^ (8 * bytes.length) = size at hsplat ⊢
  have hsum : 2 ^ 8 * size - (2 ^ 8 * splat n bytes.length + n.toNat) +
      (2 ^ 8 * word bytes + c.toNat) =
        (c.toNat - n.toNat) + 2 ^ 8 * (size - splat n bytes.length + word bytes) := by
    omega
  have hlow : c.toNat - n.toNat < 2 ^ 8 := by omega
  rw [hsum, Nat.add_mul_mod_self_left, Nat.mod_eq_of_lt hlow, Nat.add_mul_div_left _ _ (by decide),
    Nat.div_eq_of_lt hlow, Nat.zero_add]
  omega

theorem testBit_seven : ∀ c n : Fin 256, n.val ≤ 128 →
    (((2 ^ 8 - n.val + c.val) % 2 ^ 8).testBit 7 = true ∧ c.val.testBit 7 = false ↔
      c.val < n.val) := by
  intro c n hn
  have hc := c.isLt
  simp only [Nat.testBit_eq_decide_div_mod_eq, decide_eq_true_eq, decide_eq_false_iff_not]
  omega

/-- Below a byte up to 128 is found exactly, as a yes or no for the word. -/
theorem marked_less (hn : n ≤ 128) (bytes : List UInt8) :
    (∃ i < bytes.length, (less n bytes).testBit (8 * i + 7) = true ∧
        (word bytes).testBit (8 * i + 7) = false) ↔
      ∃ c ∈ bytes, c < n := by
  have hn' : n.toNat ≤ 128 := hn
  induction bytes with
  | nil => simp
  | cons c bytes ih =>
    have hfirst : (less n (c :: bytes)).testBit 7 = true ∧ c.toNat.testBit 7 = false ↔ c < n := by
      have hbit := testBit_seven ⟨c.toNat, c.toNat_lt⟩ ⟨n.toNat, n.toNat_lt⟩ hn'
      have hlow : (less n (c :: bytes)).testBit 7 =
          ((2 ^ 8 - n.toNat + c.toNat) % 2 ^ 8).testBit 7 := by
        rw [← less_mod c n bytes, Nat.testBit_mod_two_pow]
        rfl
      rw [hlow]
      exact hbit
    by_cases hc : c < n
    · refine iff_of_true ⟨0, by simp, ?_⟩ ⟨c, List.mem_cons_self .., hc⟩
      rw [testBit_word_cons]
      exact hfirst.mpr hc
    · have hge : n ≤ c := UInt8.not_lt.mp hc
      have hlow : c.toNat - n.toNat < 2 ^ 8 := by
        have := c.toNat_lt
        omega
      have hrest : (∃ c' ∈ c :: bytes, c' < n) ↔ ∃ c' ∈ bytes, c' < n := by
        simp [hc]
      refine Iff.trans ?_ (ih.trans hrest.symm)
      constructor
      · rintro ⟨i, hi, hbit⟩
        cases i with
        | zero =>
          rw [testBit_word_cons] at hbit
          exact absurd (hfirst.mp hbit) hc
        | succ i =>
          refine ⟨i, Nat.lt_of_succ_lt_succ hi, ?_⟩
          rw [less_cons hge, Nat.testBit_two_pow_mul_add _ hlow, testBit_word_cons] at hbit
          have hnot : ¬ 8 * (i + 1) + 7 < 8 := by omega
          rw [if_neg hnot, if_neg hnot] at hbit
          exact hbit
      · rintro ⟨i, hi, hbit⟩
        refine ⟨i + 1, Nat.succ_lt_succ hi, ?_⟩
        rw [less_cons hge, Nat.testBit_two_pow_mul_add _ hlow, testBit_word_cons]
        have hnot : ¬ 8 * (i + 1) + 7 < 8 := by omega
        rw [if_neg hnot, if_neg hnot]
        exact hbit

end WordBytes
