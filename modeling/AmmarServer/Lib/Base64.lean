import AmmarServer.Lib.Bits

/-! Base64 as RFC 4648 defines it, for an alphabet of 64 digits: groups of six bits, the last one filled
with zeros, and the padding behind them. -/

namespace Base64
open Bits

/-- The six bits at a place, zeros behind the last of them. -/
def group (bits : List Bool) (i : ℕ) : List Bool := ((bits ++ List.replicate 5 false).drop (6 * i)).take 6

def groups (bits : List Bool) : List ℕ :=
  (List.range ((bits.length + 5) / 6)).map fun i => valueOfBits (group bits i)

/-- The byte that stands for nothing. -/
def PAD : UInt8 := 61

def digit (alphabet : List UInt8) (v : ℕ) : UInt8 := alphabet.getD v PAD

/-- The digits of a string of bytes. -/
def digits (alphabet s : List UInt8) : List UInt8 := (groups (bitsOfBytes s)).map (digit alphabet)

/-- Four digits for three bytes. -/
def encode (alphabet s : List UInt8) : List UInt8 :=
  digits alphabet s ++ List.replicate ((3 - s.length % 3) % 3) PAD

def decode (alphabet text : List UInt8) : List UInt8 :=
  bytesOfBits ((text.filter (· ≠ PAD)).flatMap fun c => bitsOfNat 6 (alphabet.idxOf c))

/-- Sixty-four digits that can be told apart. -/
structure Alphabet (alphabet : List UInt8) : Prop where
  size : alphabet.length = 64
  distinct : alphabet.Nodup
  unpadded : PAD ∉ alphabet

/-! Groups. -/

section Groups
variable {bits front rest : List Bool}

@[simp] theorem length_groups (bits : List Bool) : (groups bits).length = (bits.length + 5) / 6 := by
  rw [groups, List.length_map, List.length_range]

theorem length_group {i : ℕ} (h : i < (bits.length + 5) / 6) : (group bits i).length = 6 := by
  rw [group, List.length_take, List.length_drop, List.length_append, List.length_replicate]
  omega

/-- A group that is full. -/
theorem group_eq {i : ℕ} (h : 6 * i + 6 ≤ bits.length) : group bits i = (bits.drop (6 * i)).take 6 := by
  rw [group, List.drop_append_of_le_length (by omega), List.take_append_of_le_length]
  rw [List.length_drop]
  omega

/-- A group that is full does not see what follows. -/
theorem group_append_left {i : ℕ} (h : 6 * i + 6 ≤ front.length) (rest : List Bool) :
    group (front ++ rest) i = group front i := by
  rw [group_eq h, group_eq (by rw [List.length_append]; omega), List.drop_append_of_le_length (by omega),
    List.take_append_of_le_length]
  rw [List.length_drop]
  omega

theorem lt_of_mem_groups {v : ℕ} (hv : v ∈ groups bits) : v < 64 := by
  obtain ⟨i, hi, rfl⟩ := List.mem_map.mp hv
  have hlt := valueOfBits_lt (group bits i)
  rwa [length_group (List.mem_range.mp hi)] at hlt

theorem group_append (hfront : front.length = 6) (i : ℕ) : group (front ++ rest) (i + 1) = group rest i := by
  have hplace : 6 * (i + 1) = front.length + 6 * i := by omega
  rw [group, List.append_assoc, hplace, ← List.drop_drop, List.drop_left, group]

theorem groups_append (hfront : front.length = 6) :
    groups (front ++ rest) = valueOfBits front :: groups rest := by
  have hcount : ((front ++ rest).length + 5) / 6 = (rest.length + 5) / 6 + 1 := by
    rw [List.length_append]
    omega
  have hfirst : group (front ++ rest) 0 = front := by
    rw [group_eq (by rw [List.length_append]; omega), Nat.mul_zero, List.drop_zero, ← hfront, List.take_left]
  have hmore : (fun i => valueOfBits (group (front ++ rest) i)) ∘ Nat.succ =
      fun i => valueOfBits (group rest i) := by
    funext i
    exact congrArg valueOfBits (group_append hfront i)
  rw [groups, hcount, List.range_succ_eq_map, List.map_cons, List.map_map, hmore, hfirst, groups]

theorem groups_append_whole {k : ℕ} (hfront : front.length = 6 * k) (rest : List Bool) :
    groups (front ++ rest) = groups front ++ groups rest := by
  induction k generalizing front with
  | zero =>
    rw [List.length_eq_zero_iff.mp hfront]
    rfl
  | succ k ih =>
    have hfirst : (front.take 6).length = 6 := List.length_take_of_le (by omega)
    have hmore : (front.drop 6).length = 6 * k := by
      rw [List.length_drop]
      omega
    conv_lhs => rw [← List.take_append_drop 6 front, List.append_assoc, groups_append hfirst, ih hmore]
    conv_rhs => rw [← List.take_append_drop 6 front, groups_append hfirst]
    rfl

/-- The groups of a number are its digits to the base 64. -/
theorem groups_bitsOfNat (k n : ℕ) :
    groups (bitsOfNat (6 * k) n) = (List.range k).map fun i => n / 2 ^ (6 * (k - 1 - i)) % 64 := by
  induction k with
  | zero =>
    apply List.length_eq_zero_iff.mp
    rw [length_groups, bitsOfNat_length]
  | succ k ih =>
    have hmore : (fun i => n / 2 ^ (6 * (k + 1 - 1 - i)) % 64) ∘ Nat.succ =
        fun i => n / 2 ^ (6 * (k - 1 - i)) % 64 := by
      funext i
      have hplace : k + 1 - 1 - (i + 1) = k - 1 - i := by omega
      exact congrArg (fun e => n / 2 ^ (6 * e) % 64) hplace
    rw [Nat.mul_succ, Nat.add_comm, bitsOfNat_add, groups_append (bitsOfNat_length 6 _),
      valueOfBits_bitsOfNat, ih, List.range_succ_eq_map, List.map_cons, List.map_map, hmore]
    rfl

/-- The last group may be filled beforehand. -/
theorem groups_fill {k : ℕ} (hk : bits.length + k = 6 * ((bits.length + 5) / 6)) :
    groups (bits ++ List.replicate k false) = groups bits := by
  have hcount : ((bits ++ List.replicate k false).length + 5) / 6 = (bits.length + 5) / 6 := by
    rw [List.length_append, List.length_replicate]
    omega
  rw [groups, hcount, groups]
  apply List.map_congr_left
  intro i hi
  have hlt := List.mem_range.mp hi
  have hlength : 6 * i + 6 ≤ (bits ++ List.replicate k false).length := by
    rw [List.length_append, List.length_replicate]
    omega
  have hsplit : bits ++ List.replicate 5 false =
      (bits ++ List.replicate k false) ++ List.replicate (5 - k) false := by
    rw [List.append_assoc, List.replicate_append_replicate]
    congr 2
    omega
  have hgroup : group bits i = ((bits ++ List.replicate k false).drop (6 * i)).take 6 := by
    rw [group, hsplit, List.drop_append_of_le_length (by omega), List.take_append_of_le_length]
    rw [List.length_drop]
    omega
  rw [group_eq hlength, hgroup]

/-- The bits of the groups are the bits they come from, and fewer than six zeros. -/
theorem flatMap_groups (bits : List Bool) : ∃ k < 6,
    (groups bits).flatMap (bitsOfNat 6) = bits ++ List.replicate k false := by
  refine ⟨6 * ((bits.length + 5) / 6) - bits.length, by omega, ?_⟩
  have hgroup : ∀ i ∈ List.range ((bits.length + 5) / 6),
      bitsOfNat 6 (valueOfBits (group bits i)) = group bits i := by
    intro i hi
    have hvalue := bitsOfNat_valueOfBits (group bits i)
    rwa [length_group (List.mem_range.mp hi)] at hvalue
  rw [groups, List.flatMap_map, List.flatMap_congr hgroup]
  change (List.range _).flatMap (fun i => ((bits ++ List.replicate 5 false).drop (6 * i)).take 6) = _
  rw [flatMap_pieces, List.take_append, List.take_of_length_le (by omega), List.take_replicate]
  congr 2
  omega

end Groups

/-! Digits. -/

section Digits
variable {alphabet s t : List UInt8}

theorem digit_mem (h : Alphabet alphabet) {v : ℕ} (hv : v < 64) : digit alphabet v ∈ alphabet := by
  rw [digit, List.getD_eq_getElem _ _ (by rwa [h.size])]
  exact List.getElem_mem _

theorem idxOf_digit (h : Alphabet alphabet) {v : ℕ} (hv : v < 64) :
    alphabet.idxOf (digit alphabet v) = v := by
  rw [digit, List.getD_eq_getElem _ _ (by rwa [h.size])]
  exact h.distinct.idxOf_getElem v _

theorem mem_digits (h : Alphabet alphabet) {c : UInt8} (hc : c ∈ digits alphabet s) : c ∈ alphabet := by
  obtain ⟨v, hv, rfl⟩ := List.mem_map.mp hc
  exact digit_mem h (lt_of_mem_groups hv)

/-- Digits are read back, padding or not. -/
theorem decode_digits (h : Alphabet alphabet) (s : List UInt8) (n : ℕ) :
    decode alphabet (digits alphabet s ++ List.replicate n PAD) = s := by
  have hdigits : (digits alphabet s).filter (· ≠ PAD) = digits alphabet s := by
    apply List.filter_eq_self.mpr
    intro c hc
    exact decide_eq_true fun hpad => h.unpadded (hpad ▸ mem_digits h hc)
  have hpad : (List.replicate n PAD).filter (· ≠ PAD) = [] := by
    apply List.filter_eq_nil_iff.mpr
    intro c hc
    rw [List.eq_of_mem_replicate hc]
    decide
  have hbits : ∀ v ∈ groups (bitsOfBytes s), bitsOfNat 6 (alphabet.idxOf (digit alphabet v)) = bitsOfNat 6 v :=
    fun v hv => by rw [idxOf_digit h (lt_of_mem_groups hv)]
  obtain ⟨k, hk, hgroups⟩ := flatMap_groups (bitsOfBytes s)
  rw [decode, List.filter_append, hdigits, hpad, List.append_nil, digits, List.flatMap_map,
    List.flatMap_congr hbits, hgroups]
  apply bytesOfBits_bitsOfBytes
  rw [List.length_replicate]
  omega

theorem decode_encode (h : Alphabet alphabet) (s : List UInt8) : decode alphabet (encode alphabet s) = s :=
  decode_digits h s _

/-- Digits without padding tell the bytes. -/
theorem digits_injective (h : Alphabet alphabet) (hsame : digits alphabet s = digits alphabet t) : s = t := by
  have hs := decode_digits h s 0
  rw [hsame, decode_digits h t 0] at hs
  exact hs.symm

theorem encode_append {k : ℕ} (hs : s.length = 3 * k) (t : List UInt8) :
    encode alphabet (s ++ t) = encode alphabet s ++ encode alphabet t := by
  have hbits : (bitsOfBytes s).length = 6 * (4 * k) := by
    rw [bitsOfBytes_length]
    omega
  have hwhole : (3 - s.length % 3) % 3 = 0 := by omega
  have hpad : (3 - (s ++ t).length % 3) % 3 = (3 - t.length % 3) % 3 := by
    rw [List.length_append]
    omega
  rw [encode, encode, encode, hpad, hwhole, digits, bitsOfBytes_append, groups_append_whole hbits,
    List.map_append, List.replicate_zero, List.append_nil, List.append_assoc]
  rfl

/-- Three bytes at a time. -/
theorem encode_triad (s : List UInt8) :
    encode alphabet (s.take 3) ++ encode alphabet (s.drop 3) = encode alphabet s := by
  rcases Nat.lt_or_ge s.length 3 with hlt | hge
  · rw [List.take_of_length_le (by omega), List.drop_of_length_le (by omega)]
    exact List.append_nil _
  · have hwhole : (s.take 3).length = 3 * 1 := List.length_take_of_le hge
    rw [← encode_append hwhole, List.take_append_drop]

end Digits

end Base64
