import AmmarServer.Lib.Bytes
import Mathlib.Data.List.Basic
import Mathlib.Data.UInt

/-! The digests of `UserAccounts/sha256.c` and their spelling in hexadecimal digits. -/

namespace AmmarServer.UserAccounts.Sha256

def SHA256_DIGEST_SIZE : ℕ := 32

structure State where
  (a b c d e f g h : UInt32)
deriving DecidableEq, Repr

/-- `data` is what waits for its block to be full. -/
structure SHA256Context where
  data : List UInt8
  bitlen : UInt64
  state : State

def rotRight (x n : UInt32) : UInt32 := (x >>> n) ||| (x <<< (32 - n))

def ch (x y z : UInt32) : UInt32 := (x &&& y) ^^^ (~~~x &&& z)

def maj (x y z : UInt32) : UInt32 := (x &&& y) ^^^ (x &&& z) ^^^ (y &&& z)

def ep0 (x : UInt32) : UInt32 := rotRight x 2 ^^^ rotRight x 13 ^^^ rotRight x 22

def ep1 (x : UInt32) : UInt32 := rotRight x 6 ^^^ rotRight x 11 ^^^ rotRight x 25

def sig0 (x : UInt32) : UInt32 := rotRight x 7 ^^^ rotRight x 18 ^^^ (x >>> 3)

def sig1 (x : UInt32) : UInt32 := rotRight x 17 ^^^ rotRight x 19 ^^^ (x >>> 10)

def k : List UInt32 :=
  [0x428a2f98, 0x71374491, 0xb5c0fbcf, 0xe9b5dba5, 0x3956c25b, 0x59f111f1, 0x923f82a4, 0xab1c5ed5,
   0xd807aa98, 0x12835b01, 0x243185be, 0x550c7dc3, 0x72be5d74, 0x80deb1fe, 0x9bdc06a7, 0xc19bf174,
   0xe49b69c1, 0xefbe4786, 0x0fc19dc6, 0x240ca1cc, 0x2de92c6f, 0x4a7484aa, 0x5cb0a9dc, 0x76f988da,
   0x983e5152, 0xa831c66d, 0xb00327c8, 0xbf597fc7, 0xc6e00bf3, 0xd5a79147, 0x06ca6351, 0x14292967,
   0x27b70a85, 0x2e1b2138, 0x4d2c6dfc, 0x53380d13, 0x650a7354, 0x766a0abb, 0x81c2c92e, 0x92722c85,
   0xa2bfe8a1, 0xa81a664b, 0xc24b8b70, 0xc76c51a3, 0xd192e819, 0xd6990624, 0xf40e3585, 0x106aa070,
   0x19a4c116, 0x1e376c08, 0x2748774c, 0x34b0bcb5, 0x391c0cb3, 0x4ed8aa4a, 0x5b9cca4f, 0x682e6ff3,
   0x748f82ee, 0x78a5636f, 0x84c87814, 0x8cc70208, 0x90befffa, 0xa4506ceb, 0xbef9a3f7, 0xc67178f2]

def bigEndian32 : List UInt8 → List UInt32
  | b0 :: b1 :: b2 :: b3 :: rest =>
    ((b0.toUInt32 <<< 24) ||| (b1.toUInt32 <<< 16) ||| (b2.toUInt32 <<< 8) ||| b3.toUInt32) ::
      bigEndian32 rest
  | _ => []

def nextWord (m : List UInt32) : UInt32 :=
  let i := m.length
  sig1 (m.getD (i - 2) 0) + m.getD (i - 7) 0 + sig0 (m.getD (i - 15) 0) + m.getD (i - 16) 0

def round (s : State) (word : UInt32 × UInt32) : State :=
  let t1 := s.h + ep1 s.e + ch s.e s.f s.g + word.1 + word.2
  let t2 := ep0 s.a + maj s.a s.b s.c
  { a := t1 + t2
    b := s.a
    c := s.b
    d := s.c
    e := s.d + t1
    f := s.e
    g := s.f
    h := s.g }

def sha256Transform (state : State) (data : List UInt8) : State :=
  let m := (List.range 48).foldl (fun m _ => m ++ [nextWord m]) (bigEndian32 data)
  let s := (k.zip m).foldl round state
  { a := state.a + s.a
    b := state.b + s.b
    c := state.c + s.c
    d := state.d + s.d
    e := state.e + s.e
    f := state.f + s.f
    g := state.g + s.g
    h := state.h + s.h }

def sha256Init : SHA256Context :=
  { data := []
    bitlen := 0
    state :=
      { a := 0x6a09e667
        b := 0xbb67ae85
        c := 0x3c6ef372
        d := 0xa54ff53a
        e := 0x510e527f
        f := 0x9b05688c
        g := 0x1f83d9ab
        h := 0x5be0cd19 } }

def sha256Byte (ctx : SHA256Context) (byte : UInt8) : SHA256Context :=
  let data := ctx.data ++ [byte]
  if data.length = 64 then
    { data := []
      bitlen := ctx.bitlen + 512
      state := sha256Transform ctx.state data }
  else { ctx with data }

def sha256Update (ctx : SHA256Context) (data : List UInt8) : SHA256Context :=
  data.foldl sha256Byte ctx

def bigEndianBytes32 (x : UInt32) : List UInt8 :=
  [(x >>> 24).toUInt8, (x >>> 16).toUInt8, (x >>> 8).toUInt8, x.toUInt8]

def bigEndianBytes64 (x : UInt64) : List UInt8 :=
  [(x >>> 56).toUInt8, (x >>> 48).toUInt8, (x >>> 40).toUInt8, (x >>> 32).toUInt8,
   (x >>> 24).toUInt8, (x >>> 16).toUInt8, (x >>> 8).toUInt8, x.toUInt8]

def sha256Final (ctx : SHA256Context) : List UInt8 :=
  let datalen := ctx.data.length
  let (state, data) :=
    if datalen < 56 then (ctx.state, ctx.data ++ 0x80 :: List.replicate (55 - datalen) 0)
    else
      (sha256Transform ctx.state (ctx.data ++ 0x80 :: List.replicate (63 - datalen) 0),
        List.replicate 56 0)
  let bitlen := ctx.bitlen + UInt64.ofNat datalen * 8
  let s := sha256Transform state (data ++ bigEndianBytes64 bitlen)
  bigEndianBytes32 s.a ++ bigEndianBytes32 s.b ++ bigEndianBytes32 s.c ++ bigEndianBytes32 s.d ++
    bigEndianBytes32 s.e ++ bigEndianBytes32 s.f ++ bigEndianBytes32 s.g ++ bigEndianBytes32 s.h

def sha256Hash (data : List UInt8) : List UInt8 := sha256Final (sha256Update sha256Init data)

theorem length_sha256Hash (data : List UInt8) :
    (sha256Hash data).length = SHA256_DIGEST_SIZE := by
  unfold sha256Hash sha256Final
  rfl

-- the digest of "abc"
example : sha256Hash [97, 98, 99] =
    [0xba, 0x78, 0x16, 0xbf, 0x8f, 0x01, 0xcf, 0xea, 0x41, 0x41, 0x40, 0xde, 0x5d, 0xae, 0x22, 0x23,
     0xb0, 0x03, 0x61, 0xa3, 0x96, 0x17, 0x7a, 0x9c, 0xb4, 0x10, 0xff, 0x61, 0xf2, 0x00, 0x15,
     0xad] := by
  decide +kernel

/-- `hexChars[n]`. -/
def hexChar (n : UInt8) : UInt8 := if n < 10 then 48 + n else 87 + n

/-- `SHA256_ToHex` into `outHexSize` bytes. -/
def sha256ToHex (data : List UInt8) (outHexSize : ℕ) : List UInt8 :=
  if outHexSize < data.length * 2 + 1 then []
  else data.flatMap fun byte : UInt8 =>
    [hexChar (byte >>> 4 &&& 0xf), hexChar (byte &&& 0xf)]

/-- A hexadecimal digit as `sscanf` reads it. -/
def hexValue (c : UInt8) : Option UInt8 :=
  if 48 ≤ c ∧ c ≤ 57 then some (c - 48)
  else if 97 ≤ c ∧ c ≤ 102 then some (c - 87)
  else if 65 ≤ c ∧ c ≤ 70 then some (c - 55)
  else none

theorem hexDigits (byte : UInt8) :
    hexValue (hexChar (byte >>> 4 &&& 0xf)) = some (byte >>> 4) ∧
      hexValue (hexChar (byte &&& 0xf)) = some (byte &&& 0xf) ∧
      (byte >>> 4) * 16 + (byte &&& 0xf) = byte := by
  revert byte
  apply Bytes.forall_byte
  decide +kernel

/-- No digit ends a word or a salt. -/
theorem hexChar_bounds (byte : UInt8) :
    48 ≤ hexChar (byte &&& 0xf) ∧ hexChar (byte &&& 0xf) ≠ 58 := by
  revert byte
  apply Bytes.forall_byte
  decide +kernel

theorem sha256ToHex_eq {data : List UInt8} {outHexSize : ℕ}
    (hfits : data.length * 2 + 1 ≤ outHexSize) :
    sha256ToHex data outHexSize = data.flatMap fun byte : UInt8 =>
      [hexChar (byte >>> 4 &&& 0xf), hexChar (byte &&& 0xf)] := by
  unfold sha256ToHex
  rw [if_neg (not_lt.mpr hfits)]

theorem length_sha256ToHex {data : List UInt8} {outHexSize : ℕ}
    (hfits : data.length * 2 + 1 ≤ outHexSize) :
    (sha256ToHex data outHexSize).length = data.length * 2 := by
  rw [sha256ToHex_eq hfits, List.length_flatMap]
  simp

theorem mem_sha256ToHex {data : List UInt8} {outHexSize : ℕ} {c : UInt8}
    (hc : c ∈ sha256ToHex data outHexSize) : 48 ≤ c ∧ c ≠ 58 := by
  unfold sha256ToHex at hc
  split at hc
  · cases hc
  · obtain ⟨byte, -, hc⟩ := List.mem_flatMap.mp hc
    rcases List.mem_cons.mp hc with rfl | hc
    · exact hexChar_bounds _
    · rw [List.mem_singleton.mp hc]
      exact hexChar_bounds _

/-- The digits of a list of bytes tell the bytes. -/
theorem hexDigits_injective {data data' : List UInt8}
    (h : (data.flatMap fun byte : UInt8 =>
        [hexChar (byte >>> 4 &&& 0xf), hexChar (byte &&& 0xf)]) =
      data'.flatMap fun byte : UInt8 => [hexChar (byte >>> 4 &&& 0xf), hexChar (byte &&& 0xf)]) :
    data = data' := by
  induction data generalizing data' with
  | nil =>
    cases data' with
    | nil => rfl
    | cons byte' data' => simp at h
  | cons byte data ih =>
    cases data' with
    | nil => simp at h
    | cons byte' data' =>
      simp only [List.flatMap_cons, List.cons_append, List.nil_append, List.cons.injEq] at h
      obtain ⟨hhigh, hlow, hrest⟩ := h
      obtain ⟨hvalue, hvalue', hbyte⟩ := hexDigits byte
      obtain ⟨hother, hother', hbyte'⟩ := hexDigits byte'
      rw [hhigh, hother] at hvalue
      rw [hlow, hother'] at hvalue'
      rw [← hbyte, ← hbyte', Option.some.inj hvalue, Option.some.inj hvalue', ih hrest]

end AmmarServer.UserAccounts.Sha256
