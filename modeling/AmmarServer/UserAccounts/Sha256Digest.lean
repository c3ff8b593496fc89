import AmmarServer.Lib.Fips180
import AmmarServer.UserAccounts.Sha256

/-! That the digests of `UserAccounts/sha256.c` are those of FIPS 180-4. -/

namespace AmmarServer.UserAccounts.Sha256
open Bits Fips180

/-! Words and constants. -/

theorem sig0_eq (x : UInt32) : (sig0 x).toBitVec = smallSigma0 x.toBitVec := rfl

theorem sig1_eq (x : UInt32) : (sig1 x).toBitVec = smallSigma1 x.toBitVec := rfl

theorem fraction_eq {e p c : ℕ} {w : UInt32} (he : 0 < e) (hle : c ^ e ≤ p * 2 ^ (32 * e))
    (hlt : p * 2 ^ (32 * e) < (c + 1) ^ e) (hw : c % 2 ^ 32 = w.toNat) : w.toBitVec = fraction e p := by
  apply BitVec.eq_of_toNat_eq
  rw [fraction, root_eq he hle hlt, BitVec.toNat_ofNat, hw]
  rfl

/-- The integer part of the cube root of a small number. -/
def cubeRoot (p : ℕ) : ℕ :=
  if p < 8 then 1 else if p < 27 then 2 else if p < 64 then 3 else if p < 125 then 4
  else if p < 216 then 5 else 6

theorem k_eq {t : ℕ} (ht : t < 64) : (k.getD t 0).toBitVec = K t := by
  have htable : ∀ t < 64, let c := cubeRoot (primes.getD t 0) * 2 ^ 32 + (k.getD t 0).toNat
      c ^ 3 ≤ primes.getD t 0 * 2 ^ 96 ∧ primes.getD t 0 * 2 ^ 96 < (c + 1) ^ 3 := by
    decide
  obtain ⟨hle, hlt⟩ := htable t ht
  apply fraction_eq (by decide) hle hlt
  rw [Nat.mul_comm, Nat.mul_add_mod]
  exact Nat.mod_eq_of_lt (k.getD t 0).toNat_lt

/-- The working variables of the standard. -/
def State.work (s : State) : Work :=
  ⟨s.a.toBitVec, s.b.toBitVec, s.c.toBitVec, s.d.toBitVec, s.e.toBitVec, s.f.toBitVec, s.g.toBitVec,
    s.h.toBitVec⟩

theorem work_sha256Init : sha256Init.state.work = initial := by
  have ha : (0x6a09e667 : UInt32).toBitVec = fraction 2 2 :=
    fraction_eq (c := 1 * 2 ^ 32 + 0x6a09e667) (by decide) (by decide) (by decide) (by decide)
  have hb : (0xbb67ae85 : UInt32).toBitVec = fraction 2 3 :=
    fraction_eq (c := 1 * 2 ^ 32 + 0xbb67ae85) (by decide) (by decide) (by decide) (by decide)
  have hc : (0x3c6ef372 : UInt32).toBitVec = fraction 2 5 :=
    fraction_eq (c := 2 * 2 ^ 32 + 0x3c6ef372) (by decide) (by decide) (by decide) (by decide)
  have hd : (0xa54ff53a : UInt32).toBitVec = fraction 2 7 :=
    fraction_eq (c := 2 * 2 ^ 32 + 0xa54ff53a) (by decide) (by decide) (by decide) (by decide)
  have he : (0x510e527f : UInt32).toBitVec = fraction 2 11 :=
    fraction_eq (c := 3 * 2 ^ 32 + 0x510e527f) (by decide) (by decide) (by decide) (by decide)
  have hf : (0x9b05688c : UInt32).toBitVec = fraction 2 13 :=
    fraction_eq (c := 3 * 2 ^ 32 + 0x9b05688c) (by decide) (by decide) (by decide) (by decide)
  have hg : (0x1f83d9ab : UInt32).toBitVec = fraction 2 17 :=
    fraction_eq (c := 4 * 2 ^ 32 + 0x1f83d9ab) (by decide) (by decide) (by decide) (by decide)
  have hh : (0x5be0cd19 : UInt32).toBitVec = fraction 2 19 :=
    fraction_eq (c := 4 * 2 ^ 32 + 0x5be0cd19) (by decide) (by decide) (by decide) (by decide)
  rw [initial, ← ha, ← hb, ← hc, ← hd, ← he, ← hf, ← hg, ← hh]
  rfl

/-! Big-endian bytes. -/

theorem shiftLeft_or {n m e : ℕ} (hm : m < 2 ^ e) : (n <<< e) ||| m = n * 2 ^ e + m := by
  rw [← Nat.shiftLeft_add_eq_or_of_lt hm, Nat.shiftLeft_eq]

theorem byte_behind (n m e : ℕ) : n * 2 ^ (e + 8) + m * 2 ^ e = (n * 256 + m) <<< e := by
  rw [Nat.shiftLeft_eq, Nat.add_mul, Nat.mul_assoc, Nat.pow_add, Nat.mul_comm (2 ^ e)]

theorem toNat_shifted (b : UInt8) {e : UInt32} {n : ℕ} (he : e.toNat % 32 = n) (hn : n ≤ 24) :
    (b.toUInt32 <<< e).toNat = b.toNat * 2 ^ n := by
  have hb := b.toNat_lt
  have hbound : b.toNat * 2 ^ n < 2 ^ 32 := by
    calc b.toNat * 2 ^ n ≤ b.toNat * 2 ^ 24 := Nat.mul_le_mul_left _ (Nat.pow_le_pow_right (by decide) hn)
      _ < 2 ^ 32 := by omega
  rw [UInt32.toNat_shiftLeft, UInt8.toNat_toUInt32, he, Nat.shiftLeft_eq, Nat.mod_eq_of_lt hbound]

theorem bigEndianWord_toNat (b0 b1 b2 b3 : UInt8) :
    ((b0.toUInt32 <<< 24) ||| (b1.toUInt32 <<< 16) ||| (b2.toUInt32 <<< 8) ||| b3.toUInt32).toNat =
      ((b0.toNat * 256 + b1.toNat) * 256 + b2.toNat) * 256 + b3.toNat := by
  have h1 := b1.toNat_lt
  have h2 := b2.toNat_lt
  have h3 := b3.toNat_lt
  have hfirst : b0.toNat * 2 ^ 24 + b1.toNat * 2 ^ 16 = (b0.toNat * 256 + b1.toNat) <<< 16 :=
    byte_behind _ _ 16
  have hsecond : (b0.toNat * 256 + b1.toNat) * 2 ^ 16 + b2.toNat * 2 ^ 8 =
      ((b0.toNat * 256 + b1.toNat) * 256 + b2.toNat) <<< 8 := byte_behind _ _ 8
  rw [UInt32.toNat_or, UInt32.toNat_or, UInt32.toNat_or, UInt8.toNat_toUInt32,
    toNat_shifted b0 (n := 24) rfl (by decide), toNat_shifted b1 (n := 16) rfl (by decide),
    toNat_shifted b2 (n := 8) rfl (by decide), ← Nat.shiftLeft_eq, shiftLeft_or (by omega), hfirst,
    shiftLeft_or (by omega), hsecond, shiftLeft_or h3]
  rfl

theorem wordOfBits_bytes (b0 b1 b2 b3 : UInt8) :
    wordOfBits (bitsOfBytes [b0, b1, b2, b3]) =
      ((b0.toUInt32 <<< 24) ||| (b1.toUInt32 <<< 16) ||| (b2.toUInt32 <<< 8) ||| b3.toUInt32).toBitVec := by
  have h1 := b1.toNat_lt
  have h2 := b2.toNat_lt
  have h3 := b3.toNat_lt
  have hbytes : bitsOfBytes [b0, b1, b2, b3] =
      bitsOfNat 32 (((b0.toNat * 256 + b1.toNat) * 256 + b2.toNat) * 256 + b3.toNat) := by
    rw [bitsOfBytes_cons, bitsOfBytes_cons, bitsOfBytes_cons, bitsOfBytes_cons,
      bitsOfNat_behind 24 b3.toNat_lt, bitsOfNat_behind 16 b2.toNat_lt, bitsOfNat_behind 8 b1.toNat_lt]
    simp only [List.append_assoc]
    rfl
  rw [hbytes, wordOfBits_bitsOfNat, ← bigEndianWord_toNat]
  exact BitVec.ofNat_toNat _ _

theorem bitsOfNat_byte {b : UInt8} {n : ℕ} (h : b.toNat = n % 2 ^ 8) : bitsOfNat 8 b.toNat = bitsOfNat 8 n := by
  rw [h, bitsOfNat_mod (Nat.le_refl 8)]

theorem bitsOfBytes_bigEndian32 (x : UInt32) : bitsOfBytes (bigEndianBytes32 x) = wordBits x.toBitVec := by
  have hbyte : ∀ {e : UInt32} {n : ℕ}, e.toNat % 32 = n →
      bitsOfNat 8 (x >>> e).toUInt8.toNat = bitsOfNat 8 (x.toNat / 2 ^ n) := by
    intro e n he
    apply bitsOfNat_byte
    rw [UInt32.toNat_toUInt8, UInt32.toNat_shiftRight, he, Nat.shiftRight_eq_div_pow]
  have hlast : bitsOfNat 8 x.toUInt8.toNat = bitsOfNat 8 x.toNat :=
    bitsOfNat_byte (UInt32.toNat_toUInt8 x)
  rw [bigEndianBytes32, bitsOfBytes_cons, bitsOfBytes_cons, bitsOfBytes_cons, bitsOfBytes_cons,
    hbyte (n := 24) rfl, hbyte (n := 16) rfl, hbyte (n := 8) rfl, hlast]
  change _ = bitsOfNat (8 + (8 + (8 + 8))) x.toNat
  rw [bitsOfNat_add, bitsOfNat_add 8 (8 + 8), bitsOfNat_add 8 8]
  rfl

theorem bitsOfBytes_bigEndian64 (x : UInt64) : bitsOfBytes (bigEndianBytes64 x) = bitsOfNat 64 x.toNat := by
  have hbyte : ∀ {e : UInt64} {n : ℕ}, e.toNat % 64 = n →
      bitsOfNat 8 (x >>> e).toUInt8.toNat = bitsOfNat 8 (x.toNat / 2 ^ n) := by
    intro e n he
    apply bitsOfNat_byte
    rw [UInt64.toNat_toUInt8, UInt64.toNat_shiftRight, he, Nat.shiftRight_eq_div_pow]
  have hlast : bitsOfNat 8 x.toUInt8.toNat = bitsOfNat 8 x.toNat :=
    bitsOfNat_byte (UInt64.toNat_toUInt8 x)
  rw [bigEndianBytes64]
  simp only [bitsOfBytes_cons]
  rw [hbyte (n := 56) rfl, hbyte (n := 48) rfl, hbyte (n := 40) rfl, hbyte (n := 32) rfl,
    hbyte (n := 24) rfl, hbyte (n := 16) rfl, hbyte (n := 8) rfl, hlast]
  change _ = bitsOfNat (8 + (8 + (8 + (8 + (8 + (8 + (8 + 8))))))) x.toNat
  simp only [bitsOfNat_add 8]
  rfl

/-! A block. -/

section Block
variable {data : List UInt8} {m : List UInt32} {W : ℕ → Word} {n : ℕ}

/-- The words of a list of bytes. -/
def byteWord (data : List UInt8) (t : ℕ) : Word := wordOfBits (((bitsOfBytes data).drop (32 * t)).take 32)

theorem map_bigEndian32 (h : data.length = 4 * n) :
    (bigEndian32 data).map UInt32.toBitVec = (List.range n).map (byteWord data) := by
  induction n generalizing data with
  | zero =>
    rw [List.length_eq_zero_iff.mp h]
    rfl
  | succ n ih =>
    match data, h with
    | b0 :: b1 :: b2 :: b3 :: rest, h =>
      have hrest : rest.length = 4 * n := by
        simp only [List.length_cons] at h
        omega
      have hbits : bitsOfBytes (b0 :: b1 :: b2 :: b3 :: rest) =
          bitsOfBytes [b0, b1, b2, b3] ++ bitsOfBytes rest := bitsOfBytes_append [b0, b1, b2, b3] rest
      have hlength : (bitsOfBytes [b0, b1, b2, b3]).length = 32 := bitsOfBytes_length _
      have hfirst : byteWord (b0 :: b1 :: b2 :: b3 :: rest) 0 =
          wordOfBits (bitsOfBytes [b0, b1, b2, b3]) := by
        rw [byteWord, hbits, Nat.mul_zero, List.drop_zero, ← hlength, List.take_left]
      have hmore : byteWord (b0 :: b1 :: b2 :: b3 :: rest) ∘ Nat.succ = byteWord rest := by
        funext t
        have hplace : 32 * (t + 1) = (bitsOfBytes [b0, b1, b2, b3]).length + 32 * t := by
          rw [hlength]
          omega
        rw [Function.comp, byteWord, hbits, Nat.succ_eq_add_one, hplace, ← List.drop_drop, List.drop_left]
        rfl
      rw [bigEndian32, List.map_cons, ih hrest, List.range_succ_eq_map, List.map_cons, List.map_map, hmore,
        hfirst, wordOfBits_bytes]

theorem getD_toBitVec (h : m.map UInt32.toBitVec = (List.range n).map W) {t : ℕ} (ht : t < n) :
    (m.getD t 0).toBitVec = W t := by
  have hlength : m.length = n := by
    have hlength := congrArg List.length h
    rwa [List.length_map, List.length_map, List.length_range] at hlength
  have hm : t < m.length := by rwa [hlength]
  have hword : (m.map UInt32.toBitVec)[t]? = ((List.range n).map W)[t]? := by rw [h]
  rw [List.getElem?_map, List.getElem?_map, List.getElem?_eq_getElem hm,
    List.getElem?_eq_getElem (by rwa [List.length_range]), List.getElem_range] at hword
  rw [List.getD_eq_getElem?_getD, List.getElem?_eq_getElem hm]
  exact Option.some.inj hword

theorem nextWord_eq {M : ℕ → Word} (h : m.map UInt32.toBitVec = (List.range n).map (schedule M))
    (hn : 16 ≤ n) : (nextWord m).toBitVec = schedule M n := by
  have hlength : m.length = n := by
    have hlength := congrArg List.length h
    rwa [List.length_map, List.length_map, List.length_range] at hlength
  rw [schedule_ge hn, ← getD_toBitVec h (by omega : n - 2 < n), ← getD_toBitVec h (by omega : n - 7 < n),
    ← getD_toBitVec h (by omega : n - 15 < n), ← getD_toBitVec h (by omega : n - 16 < n), ← sig0_eq,
    ← sig1_eq, nextWord, hlength]
  rfl

theorem map_nextWords {M : ℕ → Word} (h : m.map UInt32.toBitVec = (List.range 16).map (schedule M))
    (count : ℕ) : ((List.range count).foldl (fun m _ => m ++ [nextWord m]) m).map UInt32.toBitVec =
      (List.range (16 + count)).map (schedule M) := by
  induction count with
  | zero => exact h
  | succ count ih =>
    have hlast : ∀ m' : List UInt32, [nextWord m'].map UInt32.toBitVec = [(nextWord m').toBitVec] :=
      fun _ => rfl
    rw [List.range_succ, List.foldl_append, List.foldl_cons, List.foldl_nil, List.map_append, ih, hlast,
      nextWord_eq ih (Nat.le_add_right 16 count), ← Nat.add_assoc, List.range_succ, List.map_append]
    rfl

theorem round_eq {t : ℕ} (ht : t < 64) {w : UInt32} (hw : w.toBitVec = W t) (s : State) :
    (round s (k.getD t 0, w)).work = step W s.work t := by
  rw [step, ← hw, ← k_eq ht]
  rfl

theorem rounds_eq (h : m.map UInt32.toBitVec = (List.range 64).map W) (s : State) {count : ℕ}
    (hcount : count ≤ 64) :
    (((List.range count).map fun t => (k.getD t 0, m.getD t 0)).foldl round s).work =
      (List.range count).foldl (step W) s.work := by
  induction count with
  | zero => rfl
  | succ count ih =>
    have hlast : count < 64 := hcount
    rw [List.range_succ, List.map_append, List.foldl_append, List.foldl_append, ← ih (Nat.le_of_lt hlast)]
    exact round_eq hlast (getD_toBitVec h hlast) _

theorem work_sha256Transform (h : data.length = 64) (s : State) :
    (sha256Transform s data).work = compress s.work (byteWord data) := by
  have hfirst : (bigEndian32 data).map UInt32.toBitVec =
      (List.range 16).map (schedule (byteWord data)) := by
    rw [map_bigEndian32 (n := 16) h]
    apply List.map_congr_left
    intro t ht
    exact (schedule_lt (List.mem_range.mp ht)).symm
  have hwords := map_nextWords hfirst 48
  rw [compress, sha256Transform]
  generalize (List.range 48).foldl (fun m _ => m ++ [nextWord m]) (bigEndian32 data) = m at hwords
  have hlength : m.length = 64 := by
    have hlength := congrArg List.length hwords
    rwa [List.length_map, List.length_map, List.length_range] at hlength
  have hzip : k.zip m = (List.range 64).map fun t => (k.getD t 0, m.getD t 0) := by
    apply List.ext_getElem
    · rw [List.length_zip, hlength, List.length_map, List.length_range]
      rfl
    · intro t hzip _
      rw [List.length_zip, hlength] at hzip
      rw [List.getElem_zip, List.getElem_map, List.getElem_range, List.getD_eq_getElem, List.getD_eq_getElem]
  rw [hzip, ← rounds_eq hwords s (Nat.le_refl 64)]
  generalize ((List.range 64).map fun t => (k.getD t 0, m.getD t 0)).foldl round s = v
  simp only [State.work, UInt32.toBitVec_add, Work.mk.injEq]
  exact ⟨BitVec.add_comm _ _, BitVec.add_comm _ _, BitVec.add_comm _ _, BitVec.add_comm _ _,
    BitVec.add_comm _ _, BitVec.add_comm _ _, BitVec.add_comm _ _, BitVec.add_comm _ _⟩

end Block

end AmmarServer.UserAccounts.Sha256
