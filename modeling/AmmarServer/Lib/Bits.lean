import Mathlib.Data.Nat.Bitwise
import Mathlib.Data.List.Basic
import Mathlib.Data.UInt

/-! Strings of bits, the highest bit of a number or of a byte first. -/

namespace Bits

/-- A number in so many bits, the highest first. -/
def bitsOfNat (w n : ℕ) : List Bool := (List.range w).map fun i => n.testBit (w - 1 - i)

def bitsOfBytes (bytes : List UInt8) : List Bool := bytes.flatMap fun b => bitsOfNat 8 b.toNat

/-- The number that a string of bits spells. -/
def valueOfBits (bits : List Bool) : ℕ := bits.foldl (fun n bit => 2 * n + bit.toNat) 0

/-- The whole bytes of a string of bits. -/
def bytesOfBits (bits : List Bool) : List UInt8 :=
  (List.range (bits.length / 8)).map fun i => UInt8.ofNat (valueOfBits ((bits.drop (8 * i)).take 8))

/-! Numbers. -/

section Numbers
variable {b w : ℕ}

@[simp] theorem bitsOfNat_length (w n : ℕ) : (bitsOfNat w n).length = w := by
  rw [bitsOfNat, List.length_map, List.length_range]

/-- The bits of a number are those of its high part and of its low part. -/
theorem bitsOfNat_add (a b n : ℕ) : bitsOfNat (a + b) n = bitsOfNat a (n / 2 ^ b) ++ bitsOfNat b n := by
  have hhigh : ∀ i ∈ List.range a, n.testBit (a + b - 1 - i) = (n / 2 ^ b).testBit (a - 1 - i) := by
    intro i hi
    rw [Nat.testBit_div_two_pow]
    congr 1
    have hlt := List.mem_range.mp hi
    omega
  have hlow : ∀ i ∈ List.range b, n.testBit (a + b - 1 - (a + i)) = n.testBit (b - 1 - i) := by
    intro i _
    congr 1
    omega
  rw [bitsOfNat, List.range_add, List.map_append, List.map_map]
  exact congrArg₂ _ (List.map_congr_left hhigh) (List.map_congr_left hlow)

theorem bitsOfNat_mod (h : w ≤ b) (n : ℕ) : bitsOfNat w (n % 2 ^ b) = bitsOfNat w n := by
  apply List.map_congr_left
  intro i hi
  rw [Nat.testBit_mod_two_pow]
  have hlt := List.mem_range.mp hi
  rw [decide_eq_true (by omega), Bool.true_and]

theorem bitsOfNat_zero (w : ℕ) : bitsOfNat w 0 = List.replicate w false := by
  rw [bitsOfNat, List.eq_replicate_iff]
  refine ⟨by rw [List.length_map, List.length_range], fun bit hbit => ?_⟩
  obtain ⟨i, -, rfl⟩ := List.mem_map.mp hbit
  exact Nat.zero_testBit _

/-- The bits of a number are read back. -/
theorem valueOfBits_bitsOfNat (w n : ℕ) :
    valueOfBits (bitsOfNat w n) = n % 2 ^ w := by
  induction w generalizing n with
  | zero => rw [pow_zero, Nat.mod_one]; rfl
  | succ w ih =>
    have hlast : bitsOfNat 1 n = [n.testBit 0] := rfl
    rw [bitsOfNat_add, valueOfBits, List.foldl_append, ← valueOfBits, ih, hlast, pow_one, pow_succ]
    change 2 * (n / 2 % 2 ^ w) + (n.testBit 0).toNat = n % (2 ^ w * 2)
    rw [Nat.testBit_zero, Nat.mul_comm (2 ^ w) 2, Nat.mod_mul]
    have hbit : (decide (n % 2 = 1)).toNat = n % 2 := by
      rcases Nat.mod_two_eq_zero_or_one n with h | h <;> rw [h] <;> rfl
    rw [hbit, Nat.add_comm]

/-- A byte behind a number. -/
theorem bitsOfNat_behind (w : ℕ) {n m : ℕ} (hm : m < 2 ^ 8) :
    bitsOfNat (w + 8) (n * 256 + m) = bitsOfNat w n ++ bitsOfNat 8 m := by
  have hdiv : (n * 256 + m) / 2 ^ 8 = n := by omega
  have hmod : (n * 256 + m) % 2 ^ 8 = m := by omega
  rw [bitsOfNat_add, hdiv, ← bitsOfNat_mod (Nat.le_refl 8) (n * 256 + m), hmod]

/-- Zeros behind a number. -/
theorem bitsOfNat_zeros (w n k : ℕ) :
    bitsOfNat w n ++ List.replicate k false = bitsOfNat (w + k) (n * 2 ^ k) := by
  have hlow : bitsOfNat k (n * 2 ^ k) = List.replicate k false := by
    rw [← bitsOfNat_mod (Nat.le_refl k), Nat.mul_mod_left, bitsOfNat_zero]
  rw [bitsOfNat_add, Nat.mul_div_cancel _ (Nat.two_pow_pos k), hlow]

theorem valueOfBits_append (front bits : List Bool) :
    valueOfBits (front ++ bits) = valueOfBits front * 2 ^ bits.length + valueOfBits bits := by
  induction bits using List.reverseRecOn with
  | nil =>
    rw [List.append_nil, List.length_nil, pow_zero, Nat.mul_one]
    rfl
  | append_singleton bits bit ih =>
    have hlast : ∀ s, valueOfBits (s ++ [bit]) = 2 * valueOfBits s + bit.toNat := by
      intro s
      rw [valueOfBits, List.foldl_append]
      rfl
    rw [← List.append_assoc, hlast, hlast, ih, List.length_append, List.length_singleton, pow_succ,
      Nat.mul_add, Nat.add_assoc, Nat.mul_comm 2 (_ * _), Nat.mul_assoc]

theorem valueOfBits_lt (bits : List Bool) : valueOfBits bits < 2 ^ bits.length := by
  induction bits using List.reverseRecOn with
  | nil => exact Nat.one_pos
  | append_singleton bits bit ih =>
    have hbit : valueOfBits [bit] < 2 := by cases bit <;> decide
    rw [valueOfBits_append, List.length_append, List.length_singleton, pow_one, pow_succ]
    omega

theorem bitsOfNat_valueOfBits (bits : List Bool) : bitsOfNat bits.length (valueOfBits bits) = bits := by
  induction bits using List.reverseRecOn with
  | nil => rfl
  | append_singleton bits bit ih =>
    have hbit : valueOfBits [bit] < 2 := by cases bit <;> decide
    have hhigh : (valueOfBits bits * 2 ^ 1 + valueOfBits [bit]) / 2 ^ 1 = valueOfBits bits := by omega
    have hlow : bitsOfNat 1 (valueOfBits bits * 2 ^ 1 + valueOfBits [bit]) = [bit] := by
      have hmod : (valueOfBits bits * 2 ^ 1 + valueOfBits [bit]) % 2 ^ 1 = valueOfBits [bit] := by omega
      rw [← bitsOfNat_mod (Nat.le_refl 1), hmod]
      cases bit <;> rfl
    rw [valueOfBits_append, List.length_append, List.length_singleton, bitsOfNat_add, hhigh, ih, hlow]

end Numbers

/-! Bytes. -/

section Bytes

theorem bitsOfBytes_append (m n : List UInt8) :
    bitsOfBytes (m ++ n) = bitsOfBytes m ++ bitsOfBytes n := List.flatMap_append

theorem bitsOfBytes_cons (b : UInt8) (m : List UInt8) :
    bitsOfBytes (b :: m) = bitsOfNat 8 b.toNat ++ bitsOfBytes m := List.flatMap_cons

@[simp] theorem bitsOfBytes_length (m : List UInt8) : (bitsOfBytes m).length = 8 * m.length := by
  induction m with
  | nil => rfl
  | cons b m ih =>
    rw [bitsOfBytes_cons, List.length_append, ih, bitsOfNat_length, List.length_cons]
    omega

theorem bitsOfBytes_drop (m : List UInt8) (n : ℕ) :
    bitsOfBytes (m.drop n) = (bitsOfBytes m).drop (8 * n) := by
  rcases Nat.lt_or_ge n m.length with hlt | hge
  · have htake : (bitsOfBytes (m.take n)).length = 8 * n := by
      rw [bitsOfBytes_length, List.length_take_of_le (Nat.le_of_lt hlt)]
    conv_rhs => rw [← List.take_append_drop n m, bitsOfBytes_append]
    rw [← htake, List.drop_left]
  · rw [List.drop_eq_nil_of_le hge, List.drop_eq_nil_of_le (by rw [bitsOfBytes_length]; omega)]
    rfl

theorem bitsOfBytes_take (m : List UInt8) (n : ℕ) :
    bitsOfBytes (m.take n) = (bitsOfBytes m).take (8 * n) := by
  rcases Nat.lt_or_ge n m.length with hlt | hge
  · have htake : (bitsOfBytes (m.take n)).length = 8 * n := by
      rw [bitsOfBytes_length, List.length_take_of_le (Nat.le_of_lt hlt)]
    conv_rhs => rw [← List.take_append_drop n m, bitsOfBytes_append]
    rw [← htake, List.take_left]
  · rw [List.take_of_length_le hge, List.take_of_length_le (by rw [bitsOfBytes_length]; omega)]

theorem bitsOfBytes_zeros (n : ℕ) : bitsOfBytes (List.replicate n 0) = List.replicate (8 * n) false := by
  induction n with
  | zero => rfl
  | succ n ih =>
    have height : bitsOfNat 8 (0 : UInt8).toNat = List.replicate 8 false := bitsOfNat_zero 8
    rw [List.replicate_succ, bitsOfBytes_cons, ih, height, List.replicate_append_replicate]
    congr 1
    omega

/-- Different strings of bytes are different strings of bits. -/
theorem bitsOfBytes_injective {m n : List UInt8} (h : bitsOfBytes m = bitsOfBytes n) : m = n := by
  induction m generalizing n with
  | nil =>
    have hlength := congrArg List.length h
    rw [bitsOfBytes_length, bitsOfBytes_length] at hlength
    exact (List.length_eq_zero_iff.mp (by rw [List.length_nil] at hlength; omega)).symm
  | cons b m ih =>
    cases n with
    | nil =>
      have hlength := congrArg List.length h
      rw [bitsOfBytes_length, bitsOfBytes_length, List.length_cons, List.length_nil] at hlength
      omega
    | cons c n =>
      rw [bitsOfBytes_cons, bitsOfBytes_cons] at h
      obtain ⟨hbyte, hrest⟩ := List.append_inj h (by rw [bitsOfNat_length, bitsOfNat_length])
      have hvalue := congrArg valueOfBits hbyte
      rw [valueOfBits_bitsOfNat, valueOfBits_bitsOfNat, Nat.mod_eq_of_lt b.toNat_lt, Nat.mod_eq_of_lt c.toNat_lt]
        at hvalue
      rw [UInt8.toNat_inj.mp hvalue, ih hrest]

/-- The pieces of one length that a list is cut into. -/
theorem flatMap_pieces {α : Type*} (l : List α) (w n : ℕ) :
    (List.range n).flatMap (fun i => (l.drop (w * i)).take w) = l.take (w * n) := by
  induction n with
  | zero => rw [Nat.mul_zero, List.take_zero]; rfl
  | succ n ih =>
    rw [List.range_succ, List.flatMap_append, List.flatMap_singleton, ih, Nat.mul_succ, List.take_add]

/-- Bytes are read back from their bits, whatever bits of another byte stand behind them. -/
theorem bytesOfBits_bitsOfBytes (m : List UInt8) {rest : List Bool} (hrest : rest.length < 8) :
    bytesOfBits (bitsOfBytes m ++ rest) = m := by
  apply bitsOfBytes_injective
  have hcount : (bitsOfBytes m ++ rest).length / 8 = m.length := by
    rw [List.length_append, bitsOfBytes_length]
    omega
  have hbyte : ∀ i ∈ List.range m.length, bitsOfNat 8
      (UInt8.ofNat (valueOfBits (((bitsOfBytes m ++ rest).drop (8 * i)).take 8))).toNat =
        ((bitsOfBytes m ++ rest).drop (8 * i)).take 8 := by
    intro i hi
    have hlt := List.mem_range.mp hi
    have hlength : (((bitsOfBytes m ++ rest).drop (8 * i)).take 8).length = 8 := by
      rw [List.length_take, List.length_drop, List.length_append, bitsOfBytes_length]
      omega
    have hvalue := bitsOfNat_valueOfBits (((bitsOfBytes m ++ rest).drop (8 * i)).take 8)
    rw [hlength] at hvalue
    rw [UInt8.toNat_ofNat', bitsOfNat_mod (Nat.le_refl 8), hvalue]
  rw [bytesOfBits, hcount, bitsOfBytes, List.flatMap_map, List.flatMap_congr hbyte, flatMap_pieces]
  rw [← bitsOfBytes_length m, List.take_left]

end Bytes

end Bits
