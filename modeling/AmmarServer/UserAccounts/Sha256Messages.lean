import AmmarServer.UserAccounts.Sha256Digest
import Mathlib.Logic.Function.Basic

/-! Whole messages: the blocks that the updates leave behind, the padding of the last ones, and digests of
and into memory. -/

namespace AmmarServer.UserAccounts.Sha256
open Bits Fips180

/-! Memory. -/

/-- The bytes from a pointer on. -/
def load (mem : ℕ → UInt8) (pointer len : ℕ) : List UInt8 := (List.range len).map fun i => mem (pointer + i)

def store (mem : ℕ → UInt8) (pointer : ℕ) (bytes : List UInt8) : ℕ → UInt8 :=
  fun a => if pointer ≤ a ∧ a < pointer + bytes.length then bytes.getD (a - pointer) 0 else mem a

/-- `SHA256_Update`, whose loop reads one byte after the other. -/
def sha256UpdateFrom (ctx : SHA256Context) (mem : ℕ → UInt8) (data len : ℕ) : SHA256Context :=
  (List.range len).foldl (fun ctx i => sha256Byte ctx (mem (data + i))) ctx

/-- `SHA256_Hash`. The context is a variable of its own, and the digest is written when all is read. -/
def sha256HashInto (mem : ℕ → UInt8) (data len outDigest : ℕ) : ℕ → UInt8 :=
  store mem outDigest (sha256Final (sha256UpdateFrom sha256Init mem data len))

section Memory
variable {mem : ℕ → UInt8} {bytes : List UInt8} {pointer data len : ℕ}

theorem sha256UpdateFrom_eq (ctx : SHA256Context) :
    sha256UpdateFrom ctx mem data len = sha256Update ctx (load mem data len) := by
  rw [sha256UpdateFrom, sha256Update, load, List.foldl_map]

theorem load_store (mem : ℕ → UInt8) (pointer : ℕ) (bytes : List UInt8) :
    load (store mem pointer bytes) pointer bytes.length = bytes := by
  apply List.ext_getElem
  · rw [load, List.length_map, List.length_range]
  · intro i hi hbytes
    rw [load, List.length_map, List.length_range] at hi
    simp only [load, List.getElem_map, List.getElem_range, store]
    rw [if_pos ⟨Nat.le_add_right .., Nat.add_lt_add_left hi _⟩, Nat.add_sub_cancel_left,
      List.getD_eq_getElem _ _ hbytes]

theorem store_of_notMem {a : ℕ} (ha : a < pointer ∨ pointer + bytes.length ≤ a) :
    store mem pointer bytes a = mem a := by
  unfold store
  rw [if_neg]
  omega

end Memory

/-! Blocks. -/

section Blocks
variable {M M' : ℕ → Word} {P m : List UInt8} {n : ℕ} {ctx : SHA256Context}

theorem schedule_congr (h : ∀ t < 16, M t = M' t) (t : ℕ) : schedule M t = schedule M' t := by
  induction t using Nat.strong_induction_on with
  | _ t ih =>
    rcases Nat.lt_or_ge t 16 with hlt | hge
    · rw [schedule_lt hlt, schedule_lt hlt, h t hlt]
    · rw [schedule_ge hge, schedule_ge hge, ih (t - 2) (by omega), ih (t - 7) (by omega),
        ih (t - 15) (by omega), ih (t - 16) (by omega)]

theorem compress_congr (h : ∀ t < 16, M t = M' t) (H : Work) : compress H M = compress H M' := by
  have hschedule : schedule M = schedule M' := funext (schedule_congr h)
  rw [compress, compress, hschedule]

/-- The state behind the first blocks of a message. -/
def blocksState (P : List UInt8) (n : ℕ) : State :=
  (List.range n).foldl (fun s i => sha256Transform s ((P.drop (64 * i)).take 64)) sha256Init.state

theorem blocksState_succ (P : List UInt8) (n : ℕ) :
    blocksState P (n + 1) = sha256Transform (blocksState P n) ((P.drop (64 * n)).take 64) := by
  rw [blocksState, List.range_succ, List.foldl_append]
  rfl

theorem byteWord_block {i t : ℕ} (ht : t < 16) :
    byteWord ((P.drop (64 * i)).take 64) t = blockWord (bitsOfBytes P) i t := by
  have hplace : 8 * (64 * i) + 32 * t = 512 * i + 32 * t := by omega
  rw [byteWord, blockWord, bitsOfBytes_take, bitsOfBytes_drop, List.drop_take, List.take_take,
    List.drop_drop, Nat.min_eq_left (by omega), hplace]

theorem work_blocksState (h : 64 * n ≤ P.length) :
    (blocksState P n).work =
      (List.range n).foldl (fun H i => compress H (blockWord (bitsOfBytes P) i)) initial := by
  induction n with
  | zero => exact work_sha256Init
  | succ n ih =>
    have hblock : ((P.drop (64 * n)).take 64).length = 64 := by
      rw [List.length_take, List.length_drop]
      omega
    rw [blocksState_succ, work_sha256Transform hblock, ih (by omega), List.range_succ, List.foldl_append]
    exact compress_congr (fun t ht => byteWord_block ht) _

theorem blocksState_append (h : 64 * n ≤ m.length) (rest : List UInt8) :
    blocksState (m ++ rest) n = blocksState m n := by
  induction n with
  | zero => rw [blocksState, blocksState, List.range_zero, List.foldl_nil, List.foldl_nil]
  | succ n ih =>
    have hlength : 64 ≤ (m.drop (64 * n)).length := by
      rw [List.length_drop]
      omega
    rw [blocksState_succ, blocksState_succ, ih (by omega), List.drop_append_of_le_length (by omega),
      List.take_append_of_le_length hlength]

/-- A context that a message was fed to. -/
structure Fed (m : List UInt8) (ctx : SHA256Context) : Prop where
  data : ctx.data = m.drop (64 * (m.length / 64))
  state : ctx.state = blocksState m (m.length / 64)
  bitlen : ctx.bitlen = UInt64.ofNat (512 * (m.length / 64))

theorem Fed.byte (h : Fed m ctx) (byte : UInt8) : Fed (m ++ [byte]) (sha256Byte ctx byte) := by
  have hlength : (m ++ [byte]).length = m.length + 1 := List.length_append
  have hwhole : 64 * (m.length / 64) ≤ m.length := Nat.mul_div_le _ _
  have hdata : ctx.data ++ [byte] = (m ++ [byte]).drop (64 * (m.length / 64)) := by
    rw [h.data, List.drop_append_of_le_length hwhole]
  have hcount : (ctx.data ++ [byte]).length = m.length + 1 - 64 * (m.length / 64) := by
    rw [hdata, List.length_drop, hlength]
  unfold sha256Byte
  simp only
  split
  · rename_i hfull
    have hnext : (m.length + 1) / 64 = m.length / 64 + 1 := by omega
    have hblock : ctx.data ++ [byte] = ((m ++ [byte]).drop (64 * (m.length / 64))).take 64 := by
      rw [← hdata, List.take_of_length_le (Nat.le_of_eq hfull)]
    constructor
    · rw [hlength, hnext, List.drop_of_length_le (by omega)]
    · rw [hlength, hnext, blocksState_succ, blocksState_append hwhole, ← hblock, h.state]
    · rw [hlength, hnext, h.bitlen, Nat.mul_add, UInt64.ofNat_add]
      rfl
  · rename_i hroom
    have hsame : (m.length + 1) / 64 = m.length / 64 := by omega
    constructor
    · rw [hlength, hsame]
      exact hdata
    · rw [hlength, hsame, blocksState_append hwhole]
      exact h.state
    · rw [hlength, hsame]
      exact h.bitlen

theorem fed_sha256Update (m : List UInt8) : Fed m (sha256Update sha256Init m) := by
  induction m using List.reverseRecOn with
  | nil => exact ⟨rfl, rfl, rfl⟩
  | append_singleton m byte ih =>
    rw [sha256Update, List.foldl_append]
    exact ih.byte byte

end Blocks

/-! The last blocks. -/

section Digest
variable {m : List UInt8}

/-- A message with its padding. -/
def padBytes (m : List UInt8) : List UInt8 :=
  m ++ (0x80 :: List.replicate ((64 + 55 - m.length % 64) % 64) 0 ++
    bigEndianBytes64 (UInt64.ofNat (8 * m.length)))

theorem bitsOfBytes_padBytes (hm : 8 * m.length < 2 ^ 64) : bitsOfBytes (padBytes m) = pad (bitsOfBytes m) := by
  have hbits : (UInt64.ofNat (8 * m.length)).toNat = 8 * m.length := by
    rw [UInt64.toNat_ofNat', Nat.mod_eq_of_lt hm]
  rw [pad_bitsOfBytes, padBytes, ← List.append_assoc, bitsOfBytes_append, bitsOfBytes_bigEndian64, hbits]

/-- The words of a state, as they are written. -/
def digestBytes (s : State) : List UInt8 :=
  bigEndianBytes32 s.a ++ bigEndianBytes32 s.b ++ bigEndianBytes32 s.c ++ bigEndianBytes32 s.d ++
    bigEndianBytes32 s.e ++ bigEndianBytes32 s.f ++ bigEndianBytes32 s.g ++ bigEndianBytes32 s.h

theorem bitsOfBytes_digestBytes (s : State) : bitsOfBytes (digestBytes s) = s.work.bits := by
  unfold digestBytes
  simp only [bitsOfBytes_append, bitsOfBytes_bigEndian32]
  rfl

theorem sha256Final_eq {ctx : SHA256Context} (h : Fed m ctx) :
    sha256Final ctx = digestBytes (blocksState (padBytes m) ((padBytes m).length / 64)) := by
  have hwhole : 64 * (m.length / 64) ≤ m.length := Nat.mul_div_le _ _
  have hcount : ctx.data.length = m.length % 64 := by
    rw [h.data, List.length_drop]
    omega
  have hbitlen : ctx.bitlen + UInt64.ofNat ctx.data.length * 8 = UInt64.ofNat (8 * m.length) := by
    have height : (8 : UInt64) = UInt64.ofNat 8 := rfl
    rw [h.bitlen, hcount, height, ← UInt64.ofNat_mul, ← UInt64.ofNat_add]
    congr 1
    omega
  have hfront : blocksState (padBytes m) (m.length / 64) = ctx.state := by
    rw [padBytes, blocksState_append hwhole, h.state]
  have hdrop : (padBytes m).drop (64 * (m.length / 64)) = ctx.data ++
      (0x80 :: List.replicate ((64 + 55 - m.length % 64) % 64) 0 ++
        bigEndianBytes64 (UInt64.ofNat (8 * m.length))) := by
    rw [padBytes, List.drop_append_of_le_length hwhole, h.data]
  have hsize : (bigEndianBytes64 (UInt64.ofNat (8 * m.length))).length = 8 := rfl
  have hlength : (padBytes m).length =
      m.length + (1 + ((64 + 55 - m.length % 64) % 64) + 8) := by
    rw [padBytes, List.length_append, List.length_append, List.length_cons, List.length_replicate, hsize]
    omega
  rw [sha256Final, hbitlen]
  simp only
  split
  · rename_i hone
    have hzeros : (64 + 55 - m.length % 64) % 64 = 55 - ctx.data.length := by omega
    have hblocks : (padBytes m).length / 64 = m.length / 64 + 1 := by omega
    rw [hblocks, blocksState_succ, hfront, hdrop, hzeros, List.take_of_length_le, ← List.append_assoc]
    · rfl
    · rw [List.length_append, List.length_append, List.length_cons, List.length_replicate, hsize]
      omega
  · rename_i htwo
    have hzeros : (64 + 55 - m.length % 64) % 64 = (63 - ctx.data.length) + 56 := by omega
    have hblocks : (padBytes m).length / 64 = m.length / 64 + 1 + 1 := by omega
    have hfirst : (ctx.data ++ 0x80 :: List.replicate (63 - ctx.data.length) (0 : UInt8)).length = 64 := by
      rw [List.length_append, List.length_cons, List.length_replicate]
      omega
    have hsplit : (padBytes m).drop (64 * (m.length / 64)) =
        (ctx.data ++ 0x80 :: List.replicate (63 - ctx.data.length) 0) ++
          (List.replicate 56 0 ++ bigEndianBytes64 (UInt64.ofNat (8 * m.length))) := by
      rw [hdrop, hzeros, ← List.replicate_append_replicate]
      simp only [List.append_assoc, List.cons_append]
    have hsecond : (padBytes m).drop (64 * (m.length / 64 + 1)) =
        List.replicate 56 0 ++ bigEndianBytes64 (UInt64.ofNat (8 * m.length)) := by
      rw [Nat.mul_succ, ← List.drop_drop, hsplit, ← hfirst, List.drop_left]
    have htake : ((padBytes m).drop (64 * (m.length / 64))).take 64 =
        ctx.data ++ 0x80 :: List.replicate (63 - ctx.data.length) 0 := by
      rw [hsplit, ← hfirst, List.take_left]
    rw [hblocks, blocksState_succ, blocksState_succ, hfront, htake, hsecond, List.take_of_length_le]
    · rfl
    · rw [List.length_append, List.length_replicate, hsize]

/-- The digest of a message is the one of the standard. -/
theorem sha256Final_isSha256 {ctx : SHA256Context} (h : Fed m ctx) (hm : 8 * m.length < 2 ^ 64) :
    bitsOfBytes (sha256Final ctx) = sha256 (bitsOfBytes m) := by
  have hcount : (pad (bitsOfBytes m)).length / 512 = (padBytes m).length / 64 := by
    rw [← bitsOfBytes_padBytes hm, bitsOfBytes_length]
    omega
  rw [sha256Final_eq h, bitsOfBytes_digestBytes, work_blocksState (Nat.mul_div_le _ _), sha256, hcount,
    bitsOfBytes_padBytes hm]

theorem foldl_sha256Update (chunks : List (List UInt8)) (ctx : SHA256Context) :
    chunks.foldl sha256Update ctx = sha256Update ctx chunks.flatten := by
  induction chunks generalizing ctx with
  | nil => rfl
  | cons chunk chunks ih =>
    rw [List.foldl_cons, ih, List.flatten_cons]
    exact (List.foldl_append ..).symm

/-- The text of a byte in the digits of the number 16. -/
def hexText (bytes : List UInt8) : List UInt8 :=
  bytes.flatMap fun b => [Nat.digitChar (b.toNat / 16), Nat.digitChar (b.toNat % 16)].map
    fun c => UInt8.ofNat c.toNat

theorem hexChar_eq (byte : UInt8) :
    [hexChar (byte >>> 4 &&& 0xf), hexChar (byte &&& 0xf)] =
      [Nat.digitChar (byte.toNat / 16), Nat.digitChar (byte.toNat % 16)].map
        fun c => UInt8.ofNat c.toNat := by
  revert byte
  apply Bytes.forall_byte
  decide +kernel

theorem sha256ToHex_hexText {bytes : List UInt8} {outHexSize : ℕ}
    (hfits : bytes.length * 2 + 1 ≤ outHexSize) : sha256ToHex bytes outHexSize = hexText bytes := by
  rw [sha256ToHex_eq hfits, hexText]
  exact List.flatMap_congr fun byte _ => hexChar_eq byte

/-- `SHA256_Hash` into memory, over its own input or not. -/
theorem load_sha256HashInto {mem : ℕ → UInt8} {data outDigest : ℕ} (hdata : load mem data m.length = m) :
    load (sha256HashInto mem data m.length outDigest) outDigest SHA256_DIGEST_SIZE = sha256Hash m := by
  have hstored := load_store mem outDigest (sha256Hash m)
  rw [length_sha256Hash] at hstored
  rwa [sha256HashInto, sha256UpdateFrom_eq, hdata]

theorem sha256HashInto_of_notMem {mem : ℕ → UInt8} {data len outDigest a : ℕ}
    (ha : a < outDigest ∨ outDigest + SHA256_DIGEST_SIZE ≤ a) :
    sha256HashInto mem data len outDigest a = mem a := by
  apply store_of_notMem
  rw [sha256UpdateFrom_eq]
  exact (length_sha256Hash (load mem data len)).symm ▸ ha

end Digest

/-- What `UserAccounts/sha256.c` computes is SHA-256: in pieces, from memory into memory, and spelt in
hexadecimal digits. -/
theorem sha256_isSha256 (message : List UInt8) (hlength : 8 * message.length < 2 ^ 64) :
    (∀ chunks : List (List UInt8), chunks.flatten = message →
      bitsOfBytes (sha256Final (chunks.foldl sha256Update sha256Init)) = sha256 (bitsOfBytes message)) ∧
    ∀ (mem : ℕ → UInt8) (data outDigest : ℕ), load mem data message.length = message →
      let digest := load (sha256HashInto mem data message.length outDigest) outDigest SHA256_DIGEST_SIZE
      bitsOfBytes digest = sha256 (bitsOfBytes message) ∧
        (∀ a, a < outDigest ∨ outDigest + SHA256_DIGEST_SIZE ≤ a →
          sha256HashInto mem data message.length outDigest a = mem a) ∧
        ∀ outHexSize, SHA256_DIGEST_SIZE * 2 + 1 ≤ outHexSize →
          sha256ToHex digest outHexSize = hexText digest := by
  refine ⟨fun chunks hchunks => ?_, fun mem data outDigest hdata => ?_⟩
  · rw [foldl_sha256Update, hchunks]
    exact sha256Final_isSha256 (fed_sha256Update message) hlength
  · simp only
    rw [load_sha256HashInto hdata]
    refine ⟨sha256Final_isSha256 (fed_sha256Update message) hlength,
      fun a => sha256HashInto_of_notMem, fun outHexSize hfits => sha256ToHex_hexText ?_⟩
    rwa [length_sha256Hash]

/-- The digest of `abc` in two pieces, and written over it. -/
theorem abc_isSha256 :
    bitsOfBytes (sha256Final ([[97], [98, 99]].foldl sha256Update sha256Init)) =
        sha256 (bitsOfBytes [97, 98, 99]) ∧
      bitsOfBytes (load (sha256HashInto (fun a => [97, 98, 99].getD a 0) 0 3 0) 0 32) =
        sha256 (bitsOfBytes [97, 98, 99]) :=
  ⟨(sha256_isSha256 [97, 98, 99] (by decide)).1 _ rfl,
    ((sha256_isSha256 [97, 98, 99] (by decide)).2 _ 0 0 rfl).1⟩

end AmmarServer.UserAccounts.Sha256
