import AmmarServer.Lib.Bits
import Mathlib.Data.Nat.Find

/-! SHA-256 of a string of bits, as FIPS 180-4 defines it. -/

namespace Fips180
open Bits

abbrev Word := BitVec 32

/-! Section 4.1.2: the functions. -/

def rotr (n : ℕ) (x : Word) : Word := x.rotateRight n

def shr (n : ℕ) (x : Word) : Word := x >>> n

def choose (x y z : Word) : Word := (x &&& y) ^^^ (~~~x &&& z)

def majority (x y z : Word) : Word := (x &&& y) ^^^ (x &&& z) ^^^ (y &&& z)

def bigSigma0 (x : Word) : Word := rotr 2 x ^^^ rotr 13 x ^^^ rotr 22 x

def bigSigma1 (x : Word) : Word := rotr 6 x ^^^ rotr 11 x ^^^ rotr 25 x

def smallSigma0 (x : Word) : Word := rotr 7 x ^^^ rotr 18 x ^^^ shr 3 x

def smallSigma1 (x : Word) : Word := rotr 17 x ^^^ rotr 19 x ^^^ shr 10 x

/-! Sections 4.2.2 and 5.3.3: the constants. -/

/-- The first sixty-four primes. -/
def primes : List ℕ :=
  [2, 3, 5, 7, 11, 13, 17, 19, 23, 29, 31, 37, 41, 43, 47, 53, 59, 61, 67, 71, 73, 79, 83, 89, 97, 101,
   103, 107, 109, 113, 127, 131, 137, 139, 149, 151, 157, 163, 167, 173, 179, 181, 191, 193, 197, 199, 211,
   223, 227, 229, 233, 239, 241, 251, 257, 263, 269, 271, 277, 281, 283, 293, 307, 311]

/-- The integer part of a root. -/
def root (e n : ℕ) : ℕ := Nat.findGreatest (fun c => c ^ e ≤ n) n

/-- The first 32 bits of the fractional part of a root. -/
def fraction (e p : ℕ) : Word := BitVec.ofNat 32 (root e (p * 2 ^ (32 * e)))

def K (t : ℕ) : Word := fraction 3 (primes.getD t 0)

/-- The eight working variables, and the words of a hash value. -/
structure Work where
  (a b c d e f g h : Word)
deriving DecidableEq

def initial : Work :=
  { a := fraction 2 2
    b := fraction 2 3
    c := fraction 2 5
    d := fraction 2 7
    e := fraction 2 11
    f := fraction 2 13
    g := fraction 2 17
    h := fraction 2 19 }

/-! Sections 5.1.1 and 5.2.1: padding and parsing. -/

/-- One bit, the fewest zeros that leave 64 bits of a block, and the length. -/
def pad (m : List Bool) : List Bool :=
  m ++ true :: (List.replicate ((512 + 447 - m.length % 512) % 512) false ++ bitsOfNat 64 m.length)

def wordOfBits (bits : List Bool) : Word :=
  BitVec.ofNat 32 (valueOfBits bits)

/-- The word `t` of the block `i`. -/
def blockWord (m : List Bool) (i t : ℕ) : Word := wordOfBits ((m.drop (512 * i + 32 * t)).take 32)

/-! Section 6.2.2: the computation. -/

def schedule (M : ℕ → Word) (t : ℕ) : Word :=
  if t < 16 then M t
  else smallSigma1 (schedule M (t - 2)) + schedule M (t - 7) + smallSigma0 (schedule M (t - 15)) +
    schedule M (t - 16)
termination_by t

def step (W : ℕ → Word) (v : Work) (t : ℕ) : Work :=
  let t1 := v.h + bigSigma1 v.e + choose v.e v.f v.g + K t + W t
  let t2 := bigSigma0 v.a + majority v.a v.b v.c
  { a := t1 + t2
    b := v.a
    c := v.b
    d := v.c
    e := v.d + t1
    f := v.e
    g := v.f
    h := v.g }

def compress (H : Work) (M : ℕ → Word) : Work :=
  let v := (List.range 64).foldl (step (schedule M)) H
  { a := v.a + H.a
    b := v.b + H.b
    c := v.c + H.c
    d := v.d + H.d
    e := v.e + H.e
    f := v.f + H.f
    g := v.g + H.g
    h := v.h + H.h }

def wordBits (w : Word) : List Bool := bitsOfNat 32 w.toNat

def Work.bits (H : Work) : List Bool :=
  wordBits H.a ++ wordBits H.b ++ wordBits H.c ++ wordBits H.d ++ wordBits H.e ++ wordBits H.f ++
    wordBits H.g ++ wordBits H.h

/-- The message digest. -/
def sha256 (m : List Bool) : List Bool :=
  let padded := pad m
  ((List.range (padded.length / 512)).foldl (fun H i => compress H (blockWord padded i)) initial).bits

/-! Roots. -/

theorem root_eq {e n c : ℕ} (he : 0 < e) (hle : c ^ e ≤ n) (hlt : n < (c + 1) ^ e) : root e n = c := by
  have hcn : c ≤ n := Nat.le_trans (Nat.le_self_pow he.ne' c) hle
  apply Nat.le_antisymm
  · have hspec : (root e n) ^ e ≤ n := Nat.findGreatest_spec (P := fun c => c ^ e ≤ n) hcn hle
    have hpow : (root e n) ^ e < (c + 1) ^ e := Nat.lt_of_le_of_lt hspec hlt
    exact Nat.le_of_lt_succ ((Nat.pow_lt_pow_iff_left he.ne').mp hpow)
  · exact Nat.le_findGreatest hcn hle

/-! Words. -/

theorem wordOfBits_bitsOfNat (n : ℕ) : wordOfBits (bitsOfNat 32 n) = BitVec.ofNat 32 n := by
  rw [wordOfBits, valueOfBits_bitsOfNat]
  exact BitVec.eq_of_toNat_eq (by rw [BitVec.toNat_ofNat, BitVec.toNat_ofNat, Nat.mod_mod])

/-! Padding. -/

/-- Padding a string of bytes. -/
theorem pad_bitsOfBytes (m : List UInt8) :
    pad (bitsOfBytes m) = bitsOfBytes (m ++ 0x80 :: List.replicate ((64 + 55 - m.length % 64) % 64) 0) ++
      bitsOfNat 64 (8 * m.length) := by
  have hmark : bitsOfNat 8 (0x80 : UInt8).toNat = true :: List.replicate 7 false := by decide
  have hzeros : (512 + 447 - 8 * m.length % 512) % 512 = 7 + 8 * ((64 + 55 - m.length % 64) % 64) := by
    omega
  rw [pad, bitsOfBytes_append, bitsOfBytes_cons, bitsOfBytes_zeros, bitsOfBytes_length, hmark, hzeros,
    ← List.replicate_append_replicate]
  simp only [List.append_assoc, List.cons_append]

/-! The schedule. -/

theorem schedule_lt {M : ℕ → Word} {t : ℕ} (h : t < 16) : schedule M t = M t := by
  rw [schedule, if_pos h]

theorem schedule_ge {M : ℕ → Word} {t : ℕ} (h : 16 ≤ t) :
    schedule M t = smallSigma1 (schedule M (t - 2)) + schedule M (t - 7) +
      smallSigma0 (schedule M (t - 15)) + schedule M (t - 16) := by
  rw [schedule, if_neg (Nat.not_lt_of_le h)]

end Fips180
