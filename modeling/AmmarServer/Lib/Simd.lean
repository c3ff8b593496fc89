import Mathlib.Data.Fin.Basic
import Mathlib.Data.UInt
import Mathlib.Tactic.FinCases

/-! Vectors of 128 bits, their lanes of 8, 16 and 32 bits from the lowest, and the instructions on them. -/

namespace Simd

/-! The numbers of lanes. -/

scoped instance neZero4 : NeZero 4 := ⟨Nat.succ_ne_zero 3⟩

scoped instance neZero8 : NeZero 8 := ⟨Nat.succ_ne_zero 7⟩

scoped instance neZero16 : NeZero 16 := ⟨Nat.succ_ne_zero 15⟩

abbrev Vec := Fin 16 → UInt8

def word (v : Vec) (i : Fin 8) : UInt16 :=
  UInt16.ofNat ((v (Fin.ofNat 16 (2 * i))).toNat + 256 * (v (Fin.ofNat 16 (2 * i + 1))).toNat)

def ofWords (f : Fin 8 → UInt16) : Vec := fun k =>
  UInt8.ofNat ((f (Fin.ofNat 8 (k / 2))).toNat / if k.val % 2 = 0 then 1 else 256)

def dword (v : Vec) (i : Fin 4) : UInt32 :=
  UInt32.ofNat ((word v (Fin.ofNat 8 (2 * i))).toNat + 65536 * (word v (Fin.ofNat 8 (2 * i + 1))).toNat)

def ofDwords (f : Fin 4 → UInt32) : Vec := ofWords fun i =>
  UInt16.ofNat ((f (Fin.ofNat 4 (i / 2))).toNat / if i.val % 2 = 0 then 1 else 65536)

def zero : Vec := fun _ => 0

def set1Epi8 (b : UInt8) : Vec := fun _ => b

def set1Epi16 (w : UInt16) : Vec := ofWords fun _ => w

def set1Epi32 (d : UInt32) : Vec := ofDwords fun _ => d

/-- The bytes from the lowest. -/
def setrEpi8 (bytes : List UInt8) : Vec := fun k => bytes.getD k 0

def andSi128 (a b : Vec) : Vec := fun k => a k &&& b k

def orSi128 (a b : Vec) : Vec := fun k => a k ||| b k

def andnotSi128 (a b : Vec) : Vec := fun k => ~~~(a k) &&& b k

def cmpgtEpi8 (a b : Vec) : Vec := fun k => if (b k).toBitVec.toInt < (a k).toBitVec.toInt then 255 else 0

/-- A byte of the mask with its sign bit makes a zero. -/
def shuffleEpi8 (v mask : Vec) : Vec := fun k =>
  if 128 ≤ (mask k).toNat then 0 else v (Fin.ofNat 16 (mask k).toNat)

def unpackloEpi8 (a b : Vec) : Vec := fun k =>
  if k.val % 2 = 0 then a (Fin.ofNat 16 (k / 2)) else b (Fin.ofNat 16 (k / 2))

def unpackhiEpi8 (a b : Vec) : Vec := fun k =>
  if k.val % 2 = 0 then a (Fin.ofNat 16 (8 + k / 2)) else b (Fin.ofNat 16 (8 + k / 2))

def unpackloEpi16 (a b : Vec) : Vec := ofWords fun i =>
  if i.val % 2 = 0 then word a (Fin.ofNat 8 (i / 2)) else word b (Fin.ofNat 8 (i / 2))

def unpackhiEpi16 (a b : Vec) : Vec := ofWords fun i =>
  if i.val % 2 = 0 then word a (Fin.ofNat 8 (4 + i / 2)) else word b (Fin.ofNat 8 (4 + i / 2))

def addEpi16 (a b : Vec) : Vec := ofWords fun i => word a i + word b i

def subEpi16 (a b : Vec) : Vec := ofWords fun i => word a i - word b i

def mulloEpi16 (a b : Vec) : Vec := ofWords fun i => word a i * word b i

def signed16 (w : UInt16) : ℤ := w.toBitVec.toInt

def signed32 (d : UInt32) : ℤ := d.toBitVec.toInt

/-- The products of the signed words, added up in pairs. -/
def maddEpi16 (a b : Vec) : Vec := ofDwords fun i =>
  UInt32.ofBitVec (BitVec.ofInt 32
    (signed16 (word a (Fin.ofNat 8 (2 * i))) * signed16 (word b (Fin.ofNat 8 (2 * i))) +
      signed16 (word a (Fin.ofNat 8 (2 * i + 1))) * signed16 (word b (Fin.ofNat 8 (2 * i + 1)))))

def addEpi32 (a b : Vec) : Vec := ofDwords fun i => dword a i + dword b i

def srliEpi32 (v : Vec) (n : ℕ) : Vec := ofDwords fun i => UInt32.ofNat ((dword v i).toNat / 2 ^ n)

/-- Signed saturation of the double words of both. -/
def packsEpi32 (a b : Vec) : Vec := ofWords fun i =>
  UInt16.ofBitVec (BitVec.ofInt 16 (max (-32768) (min 32767
    (signed32 (dword (if i.val < 4 then a else b) (Fin.ofNat 4 i))))))

/-- Unsigned saturation of the signed words of both. -/
def packusEpi16 (a b : Vec) : Vec := fun k =>
  UInt8.ofNat (max 0 (min 255 (signed16 (word (if k.val < 8 then a else b) (Fin.ofNat 8 k))))).toNat

/-! The lanes of what an instruction makes. -/

section Lanes
variable {v a b mask : Vec}

theorem ofNat_val {n : ℕ} [NeZero n] (i : Fin n) : Fin.ofNat n i.val = i :=
  Fin.ext (Nat.mod_eq_of_lt i.isLt)

theorem ofNat_low {n m : ℕ} [NeZero n] [NeZero m] {i : Fin n} (h : i.val < m) :
    Fin.ofNat n (Fin.ofNat m i.val).val = i := by
  rw [Fin.val_ofNat, Nat.mod_eq_of_lt h, ofNat_val]

theorem ofNat_high {n m : ℕ} [NeZero n] [NeZero m] {i : Fin n} (h : m ≤ i.val) (hlt : i.val < 2 * m) :
    Fin.ofNat n (m + (Fin.ofNat m i.val).val) = i := by
  rw [Fin.val_ofNat, Nat.mod_eq_sub_mod h, Nat.mod_eq_of_lt (by omega), Nat.add_sub_cancel' h, ofNat_val]

theorem val_low (i : Fin 8) : (Fin.ofNat 16 (2 * i.val)).val = 2 * i.val := Nat.mod_eq_of_lt (by omega)

theorem val_high (i : Fin 8) : (Fin.ofNat 16 (2 * i.val + 1)).val = 2 * i.val + 1 := Nat.mod_eq_of_lt (by omega)

theorem half_low (i : ℕ) : 2 * i / 2 = i := by omega

theorem half_high (i : ℕ) : (2 * i + 1) / 2 = i := by omega

@[simp] theorem word_ofWords (f : Fin 8 → UInt16) (i : Fin 8) : word (ofWords f) i = f i := by
  have hlt := (f i).toNat_lt
  unfold word ofWords
  rw [val_low, val_high, half_low, half_high, ofNat_val, if_pos (by omega), if_neg (by omega)]
  apply UInt16.toNat_inj.mp
  simp only [UInt16.toNat_ofNat', UInt8.toNat_ofNat', Nat.div_one]
  omega

/-- The halves of a double word. -/
theorem word_ofDwords (f : Fin 4 → UInt32) (i : Fin 4) :
    word (ofDwords f) (Fin.ofNat 8 (2 * i)) = UInt16.ofNat (f i).toNat ∧
      word (ofDwords f) (Fin.ofNat 8 (2 * i + 1)) = UInt16.ofNat ((f i).toNat / 65536) := by
  have hlow : (Fin.ofNat 8 (2 * i.val)).val = 2 * i.val := Nat.mod_eq_of_lt (by omega)
  have hhigh : (Fin.ofNat 8 (2 * i.val + 1)).val = 2 * i.val + 1 := Nat.mod_eq_of_lt (by omega)
  unfold ofDwords
  rw [word_ofWords, word_ofWords, hlow, hhigh, half_low, half_high, ofNat_val, if_pos (by omega),
    if_neg (by omega), Nat.div_one]
  exact ⟨rfl, rfl⟩

@[simp] theorem dword_ofDwords (f : Fin 4 → UInt32) (i : Fin 4) : dword (ofDwords f) i = f i := by
  have hlt := (f i).toNat_lt
  unfold dword
  rw [(word_ofDwords f i).1, (word_ofDwords f i).2]
  apply UInt32.toNat_inj.mp
  simp only [UInt32.toNat_ofNat', UInt16.toNat_ofNat']
  omega

@[simp] theorem word_set1Epi16 (w : UInt16) (i : Fin 8) : word (set1Epi16 w) i = w := word_ofWords _ i

@[simp] theorem dword_set1Epi32 (d : UInt32) (i : Fin 4) : dword (set1Epi32 d) i = d := dword_ofDwords _ i

@[simp] theorem word_addEpi16 (i : Fin 8) : word (addEpi16 a b) i = word a i + word b i := word_ofWords _ i

@[simp] theorem word_subEpi16 (i : Fin 8) : word (subEpi16 a b) i = word a i - word b i := word_ofWords _ i

@[simp] theorem word_mulloEpi16 (i : Fin 8) : word (mulloEpi16 a b) i = word a i * word b i := word_ofWords _ i

/-- A byte is widened where it is unpacked with zeros. -/
theorem word_unpackloEpi8 (i : Fin 8) :
    word (unpackloEpi8 v zero) i = UInt16.ofNat (v (Fin.ofNat 16 i)).toNat := by
  unfold word unpackloEpi8
  rw [val_low, val_high, half_low, if_pos (by omega), if_neg (by omega)]
  rfl

theorem word_unpackhiEpi8 (i : Fin 8) :
    word (unpackhiEpi8 v zero) i = UInt16.ofNat (v (Fin.ofNat 16 (8 + i))).toNat := by
  unfold word unpackhiEpi8
  rw [val_low, val_high, half_low, if_pos (by omega), if_neg (by omega)]
  rfl

/-- A mask of pairs moves words. -/
theorem word_shuffleEpi8 {i j : Fin 8} (hlow : mask (Fin.ofNat 16 (2 * i)) = UInt8.ofNat (2 * j))
    (hhigh : mask (Fin.ofNat 16 (2 * i + 1)) = UInt8.ofNat (2 * j + 1)) :
    word (shuffleEpi8 v mask) i = word v j := by
  have hj := j.isLt
  have hmasklow : (mask (Fin.ofNat 16 (2 * i))).toNat = 2 * j := by
    rw [hlow, UInt8.toNat_ofNat']
    omega
  have hmaskhigh : (mask (Fin.ofNat 16 (2 * i + 1))).toNat = 2 * j + 1 := by
    rw [hhigh, UInt8.toNat_ofNat']
    omega
  unfold word shuffleEpi8
  rw [hmasklow, hmaskhigh, if_neg (by omega), if_neg (by omega)]

/-- A byte of two vectors in a row, the second taken where the place is above 15. -/
def gather (low high places : Vec) : Vec :=
  orSi128 (andnotSi128 (cmpgtEpi8 places (set1Epi8 15)) (shuffleEpi8 low places))
    (andSi128 (cmpgtEpi8 places (set1Epi8 15)) (shuffleEpi8 high places))

theorem gather_eq {low high places : Vec} {k : Fin 16} {f : ℕ → UInt8} (hlow : ∀ k : Fin 16, low k = f k)
    (hhigh : ∀ k : Fin 16, high k = f (16 + k)) (hplace : (places k).toNat < 32) :
    gather low high places k = f (places k).toNat := by
  have hint : (places k).toBitVec.toInt = (places k).toNat := by
    rw [BitVec.toInt_eq_toNat_of_lt]
    · rfl
    · change 2 * (places k).toNat < 2 ^ 8
      omega
  have hfifteen : (15 : UInt8).toBitVec.toInt = 15 := by decide
  unfold gather orSi128 andSi128 andnotSi128 cmpgtEpi8 shuffleEpi8 set1Epi8
  rw [hint, hfifteen, if_neg (by omega : ¬ 128 ≤ (places k).toNat), if_neg (by omega : ¬ 128 ≤ (places k).toNat)]
  by_cases hlarge : (15 : ℤ) < (places k).toNat
  · rw [if_pos hlarge, hhigh, Fin.val_ofNat]
    have hplace : 16 + (places k).toNat % 16 = (places k).toNat := by omega
    have hones : (255 : UInt8) = -1 := rfl
    rw [hplace, hones]
    simp
  · rw [if_neg hlarge, hlow, Fin.val_ofNat, Nat.mod_eq_of_lt (by omega)]
    simp

theorem signed16_eq {w : UInt16} (h : w.toNat < 32768) : signed16 w = w.toNat := by
  unfold signed16
  rw [BitVec.toInt_eq_toNat_of_lt]
  · rfl
  · change 2 * w.toNat < 2 ^ 16
    omega

theorem signed32_eq {d : UInt32} (h : d.toNat < 2 ^ 31) : signed32 d = d.toNat := by
  unfold signed32
  rw [BitVec.toInt_eq_toNat_of_lt]
  · rfl
  · change 2 * d.toNat < 2 ^ 32
    omega

/-- The products of small words are added up without a sign. -/
theorem dword_maddEpi16 {i : Fin 4} {a0 a1 b0 b1 : UInt16}
    (ha0 : word a (Fin.ofNat 8 (2 * i)) = a0) (ha1 : word a (Fin.ofNat 8 (2 * i + 1)) = a1)
    (hb0 : word b (Fin.ofNat 8 (2 * i)) = b0) (hb1 : word b (Fin.ofNat 8 (2 * i + 1)) = b1)
    (hsmall : a0.toNat < 32768 ∧ a1.toNat < 32768 ∧ b0.toNat < 32768 ∧ b1.toNat < 32768) :
    dword (maddEpi16 a b) i = UInt32.ofNat (a0.toNat * b0.toNat + a1.toNat * b1.toNat) := by
  unfold maddEpi16
  rw [dword_ofDwords, ha0, ha1, hb0, hb1, signed16_eq hsmall.1, signed16_eq hsmall.2.1,
    signed16_eq hsmall.2.2.1, signed16_eq hsmall.2.2.2, ← Int.natCast_mul, ← Int.natCast_mul,
    ← Int.natCast_add, BitVec.ofInt_natCast]
  rfl

theorem word_unpackloEpi16_even {i : Fin 4} :
    word (unpackloEpi16 a b) (Fin.ofNat 8 (2 * i)) = word a (Fin.ofNat 8 i) := by
  unfold unpackloEpi16
  rw [word_ofWords]
  fin_cases i <;> rfl

theorem word_unpackloEpi16_odd {i : Fin 4} :
    word (unpackloEpi16 a b) (Fin.ofNat 8 (2 * i + 1)) = word b (Fin.ofNat 8 i) := by
  unfold unpackloEpi16
  rw [word_ofWords]
  fin_cases i <;> rfl

theorem word_unpackhiEpi16_even {i : Fin 4} :
    word (unpackhiEpi16 a b) (Fin.ofNat 8 (2 * i)) = word a (Fin.ofNat 8 (4 + i)) := by
  unfold unpackhiEpi16
  rw [word_ofWords]
  fin_cases i <;> rfl

theorem word_unpackhiEpi16_odd {i : Fin 4} :
    word (unpackhiEpi16 a b) (Fin.ofNat 8 (2 * i + 1)) = word b (Fin.ofNat 8 (4 + i)) := by
  unfold unpackhiEpi16
  rw [word_ofWords]
  fin_cases i <;> rfl

/-- The halves of a double word that all lanes hold. -/
theorem word_set1Epi32 {low high : UInt16} {d : UInt32} (hd : d.toNat = low.toNat + 65536 * high.toNat)
    (i : Fin 4) : word (set1Epi32 d) (Fin.ofNat 8 (2 * i)) = low ∧
      word (set1Epi32 d) (Fin.ofNat 8 (2 * i + 1)) = high := by
  have hlow := low.toNat_lt
  have hhigh := high.toNat_lt
  obtain ⟨hfirst, hsecond⟩ := word_ofDwords (fun _ => d) i
  constructor
  · apply UInt16.toNat_inj.mp
    rw [set1Epi32, hfirst, UInt16.toNat_ofNat', hd]
    omega
  · apply UInt16.toNat_inj.mp
    rw [set1Epi32, hsecond, UInt16.toNat_ofNat', hd]
    omega

/-- A double word that a signed word holds is not saturated. -/
theorem word_packsEpi32 {i : Fin 8} {n : ℕ}
    (h : (dword (if i.val < 4 then a else b) (Fin.ofNat 4 i)).toNat = n) (hn : n < 32768) :
    (word (packsEpi32 a b) i).toNat = n := by
  unfold packsEpi32
  rw [word_ofWords, signed32_eq (by omega), h, min_eq_right (by omega), max_eq_right (by omega),
    BitVec.ofInt_natCast]
  change (BitVec.ofNat 16 n).toNat = n
  rw [BitVec.toNat_ofNat]
  omega

theorem packusEpi16_eq {k : Fin 16} {n : ℕ}
    (h : (word (if k.val < 8 then a else b) (Fin.ofNat 8 k)).toNat = n) (hn : n < 256) :
    packusEpi16 a b k = UInt8.ofNat n := by
  unfold packusEpi16
  rw [signed16_eq (by omega), h, min_eq_right (by omega), max_eq_right (by omega), Int.toNat_natCast]

end Lanes

/-! Vectors of 256 bits, whose instructions work on the halves. -/

structure Wide where
  lane0 : Vec
  lane1 : Vec

def Wide.map2 (f : Vec → Vec → Vec) (a b : Wide) : Wide := ⟨f a.lane0 b.lane0, f a.lane1 b.lane1⟩

def Wide.set1Epi32 (d : UInt32) : Wide := ⟨Simd.set1Epi32 d, Simd.set1Epi32 d⟩

def Wide.srliEpi32 (v : Wide) (n : ℕ) : Wide := ⟨Simd.srliEpi32 v.lane0 n, Simd.srliEpi32 v.lane1 n⟩

/-- A quarter of 64 bits. -/
def Wide.quad (v : Wide) (q : Fin 4) (k : ℕ) : UInt8 :=
  if q.val < 2 then v.lane0 (Fin.ofNat 16 (q * 8 + k)) else v.lane1 (Fin.ofNat 16 ((q - 2) * 8 + k))

/-- The quarters that are named, the last for the lowest place. -/
def Wide.permute4x64 (z y x w : Fin 4) (v : Wide) : Wide where
  lane0 := fun k => if k.val < 8 then v.quad w k else v.quad x (k - 8)
  lane1 := fun k => if k.val < 8 then v.quad y k else v.quad z (k - 8)

/-- The halves change places. -/
theorem Wide.permute4x64_swap (v : Wide) : Wide.permute4x64 1 0 3 2 v = ⟨v.lane1, v.lane0⟩ := by
  unfold permute4x64 quad
  congr 1
  · funext k
    fin_cases k <;> rfl
  · funext k
    fin_cases k <;> rfl

end Simd
