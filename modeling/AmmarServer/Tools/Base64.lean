import AmmarServer.Lib.Base64
import AmmarServer.Lib.CString

/-! The Base64 encoders of `tools/http_tools.c`: `encodeToBase64`, and the loop of
`AmmServer_GenerateSecureToken`. -/

namespace AmmarServer.Encoders
open Bits Base64 CString

/-! As the source has them. -/

def base64 : List UInt8 := ascii "ABCDEFGHIJKLMNOPQRSTUVWXYZabcdefghijklmnopqrstuvwxyz0123456789+/"

def base64url : List UInt8 := ascii "ABCDEFGHIJKLMNOPQRSTUVWXYZabcdefghijklmnopqrstuvwxyz0123456789-_"

/-- `sr` and `byte` behind the loop over at most three bytes. -/
def readTriad (src : List UInt8) (triad : ℕ) : UInt64 × ℕ :=
  ((src.drop triad).take 3).foldl (fun t c => ((t.1 <<< 8) ||| c.toUInt64, t.2 + 1)) (0, 0)

/-- `base64[sr&0x3f]`. -/
def lowDigit (sr : UInt64) : UInt8 := base64.getD (sr &&& 0x3f).toNat 0

/-- The `switch` over `byte`, whose cases fall through. -/
def quad (sr : UInt64) (byte : ℕ) : List UInt8 :=
  let dst : List UInt8 := [61, 61, 61, 61]
  let (dst, sr) := if byte = 3 then (dst.set 3 (lowDigit sr), sr >>> 6) else (dst, sr)
  let (dst, sr) := if byte = 3 ∨ byte = 2 then (dst.set 2 (lowDigit sr), sr >>> 6) else (dst, sr)
  if byte = 3 ∨ byte = 2 ∨ byte = 1 then
    let (dst, sr) := (dst.set 1 (lowDigit sr), sr >>> 6)
    dst.set 0 (lowDigit sr)
  else dst

/-- The loop over the triads. `dst` is the buffer from the pointer on, and `d_len` its size; `triad`
does not overflow, as 3 divides the greatest `unsigned`. -/
def encodeTriads (src : List UInt8) : ℕ → ℕ → List UInt8 → Bool × List UInt8
  | 0, _, dst => (true, dst)
  | fuel + 1, triad, dst =>
    if triad < src.length then
      let (sr, byte) := readTriad src triad
      let sr := sr <<< UInt64.ofNat ((6 - (8 * byte) % 6) % 6)
      if dst.length < 4 then (false, dst)
      else
        let (answer, rest) := encodeTriads src fuel (triad + 3) (dst.drop 4)
        (answer, quad sr byte ++ rest)
    else (true, dst)

/-- `encodeToBase64`: its answer, and the buffer, which it clears first. -/
def encodeToBase64 (src dst : List UInt8) : Bool × List UInt8 :=
  encodeTriads src src.length 0 (List.replicate dst.length 0)

/-- `out` is the memory from the pointer on. -/
structure TokenState where
  bitBuffer : UInt32
  bitCount : ℕ
  outPos : UInt32
  out : ℕ → UInt8

/-- `base64url[bits&0x3f]`. -/
def urlDigit (bits : UInt32) : UInt8 := base64url.getD (bits &&& 0x3f).toNat 0

/-- The inner loop, while there are six bits. -/
def emit (bitBuffer : UInt32) : ℕ → UInt32 → (ℕ → UInt8) → TokenState
  | bitCount + 6, outPos, out =>
    emit bitBuffer bitCount (outPos + 1)
      (Function.update out outPos.toNat (urlDigit (bitBuffer >>> UInt32.ofNat bitCount)))
  | bitCount, outPos, out => { bitBuffer, bitCount, outPos, out }

def pushByte (t : TokenState) (byte : UInt8) : TokenState :=
  emit ((t.bitBuffer <<< 8) ||| byte.toUInt32) (t.bitCount + 8) t.outPos t.out

/-- The loop over the random bytes, and what follows it. -/
def encodeToken (raw : List UInt8) (out : ℕ → UInt8) : ℕ → UInt8 :=
  let t := raw.foldl pushByte { bitBuffer := 0, bitCount := 0, outPos := 0, out }
  let t := if t.bitCount > 0 then
      { t with
        outPos := t.outPos + 1
        out := Function.update t.out t.outPos.toNat
          (urlDigit (t.bitBuffer <<< UInt32.ofNat (6 - t.bitCount))) }
    else t
  Function.update t.out t.outPos.toNat 0

/-- `AmmServer_GenerateSecureToken` with the bytes that `getrandom` and `/dev/urandom` deliver, if they
do. -/
def generateSecureToken (out : ℕ → UInt8) (outSize numRandomBytes : UInt32)
    (random : Option (List UInt8)) : Bool × (ℕ → UInt8) :=
  if numRandomBytes = 0 then (false, out)
  else
    let encodedLength := (numRandomBytes * 8 + 5) / 6
    if outSize < encodedLength + 1 then (false, out)
    else
      match random with
      | none => (false, out)
      | some raw => (true, encodeToken raw out)

theorem alphabet_base64 : Alphabet base64 := ⟨by decide, by decide, by decide⟩

theorem alphabet_base64url : Alphabet base64url := ⟨by decide, by decide, by decide⟩

/-! Triads. -/

section Triads
variable {sr : UInt64} {k byte : ℕ}

theorem toNat_push (hsr : sr.toNat < 2 ^ 56) (c : UInt8) :
    ((sr <<< 8) ||| c.toUInt64).toNat = sr.toNat * 256 + c.toNat := by
  have height : (8 : UInt64).toNat % 64 = 8 := rfl
  rw [UInt64.toNat_or, UInt64.toNat_shiftLeft, UInt8.toNat_toUInt64, height, Nat.shiftLeft_eq,
    Nat.mod_eq_of_lt (by omega), ← Nat.shiftLeft_eq, ← Nat.shiftLeft_add_eq_or_of_lt c.toNat_lt,
    Nat.shiftLeft_eq]

theorem toNat_align (hk : k < 64) (hsr : sr.toNat * 2 ^ k < 2 ^ 64) :
    (sr <<< UInt64.ofNat k).toNat = sr.toNat * 2 ^ k := by
  have hshift : (UInt64.ofNat k).toNat % 64 = k := by
    rw [UInt64.toNat_ofNat']
    omega
  rw [UInt64.toNat_shiftLeft, hshift, Nat.shiftLeft_eq, Nat.mod_eq_of_lt hsr]

theorem lowDigit_eq : lowDigit sr = digit base64 (sr.toNat % 64) := by
  have hmask : (sr &&& 0x3f).toNat = sr.toNat % 64 := by
    rw [UInt64.toNat_and]
    exact Nat.and_two_pow_sub_one_eq_mod _ 6
  have hsize : sr.toNat % 64 < base64.length := by
    rw [alphabet_base64.size]
    omega
  rw [lowDigit, hmask, digit, List.getD_eq_getElem _ _ hsize, List.getD_eq_getElem _ _ hsize]

theorem foldl_push {chunk : List UInt8} (h : chunk.length ≤ 7) :
    (chunk.foldl (fun (t : UInt64 × ℕ) c => ((t.1 <<< 8) ||| c.toUInt64, t.2 + 1)) (0, 0)).1.toNat =
        valueOfBits (bitsOfBytes chunk) ∧
      (chunk.foldl (fun (t : UInt64 × ℕ) c => ((t.1 <<< 8) ||| c.toUInt64, t.2 + 1)) (0, 0)).2 =
        chunk.length := by
  induction chunk using List.reverseRecOn with
  | nil => exact ⟨rfl, rfl⟩
  | append_singleton chunk c ih =>
    rw [List.length_append, List.length_singleton] at h
    obtain ⟨hvalue, hcount⟩ := ih (by omega)
    have hlast : bitsOfBytes [c] = bitsOfNat 8 c.toNat := List.append_nil _
    have hlt := valueOfBits_lt (bitsOfBytes chunk)
    rw [bitsOfBytes_length] at hlt
    have hsmall : valueOfBits (bitsOfBytes chunk) < 2 ^ 56 :=
      hlt.trans_le (Nat.pow_le_pow_right (by decide) (by omega))
    rw [List.foldl_append, List.foldl_cons, List.foldl_nil, bitsOfBytes_append, valueOfBits_append, hlast,
      bitsOfNat_length, valueOfBits_bitsOfNat, Nat.mod_eq_of_lt c.toNat_lt, List.length_append]
    refine ⟨?_, congrArg (· + 1) hcount⟩
    simp only
    rw [toNat_push (by rwa [hvalue]), hvalue]
    rfl

theorem quad_eq (hbyte : byte = 1 ∨ byte = 2 ∨ byte = 3) :
    quad sr byte = (groups (bitsOfNat (6 * (byte + 1)) sr.toNat)).map (digit base64) ++
      List.replicate (3 - byte) PAD := by
  rw [groups_bitsOfNat]
  rcases hbyte with rfl | rfl | rfl
  · simp [quad, lowDigit_eq, List.range_succ, PAD, Nat.shiftRight_eq_div_pow]
  · simp [quad, lowDigit_eq, List.range_succ, PAD, Nat.shiftRight_eq_div_pow, Nat.div_div_eq_div_mul]
  · simp [quad, lowDigit_eq, List.range_succ, PAD, Nat.shiftRight_eq_div_pow, Nat.div_div_eq_div_mul]

theorem quad_readTriad {src : List UInt8} {triad : ℕ} (h : triad < src.length) :
    quad ((readTriad src triad).1 <<< UInt64.ofNat ((6 - (8 * (readTriad src triad).2) % 6) % 6))
      (readTriad src triad).2 = encode base64 ((src.drop triad).take 3) := by
  have hcount : ((src.drop triad).take 3).length = 1 ∨ ((src.drop triad).take 3).length = 2 ∨
      ((src.drop triad).take 3).length = 3 := by
    rw [List.length_take, List.length_drop]
    omega
  obtain ⟨hvalue, hbyte⟩ := @foldl_push ((src.drop triad).take 3) (by omega)
  unfold readTriad
  generalize (src.drop triad).take 3 = chunk at hcount hvalue hbyte ⊢
  have hlt := valueOfBits_lt (bitsOfBytes chunk)
  rw [bitsOfBytes_length] at hlt
  have hroom : valueOfBits (bitsOfBytes chunk) < 2 ^ 24 :=
    hlt.trans_le (Nat.pow_le_pow_right (by decide) (by omega))
  have hfill : (6 - (8 * chunk.length) % 6) % 6 + 8 * chunk.length = 6 * (chunk.length + 1) := by omega
  have hsize : (6 - (8 * chunk.length) % 6) % 6 ≤ 4 := by omega
  have hpad : 3 - chunk.length = (3 - chunk.length % 3) % 3 := by omega
  have hpow : 2 ^ ((6 - (8 * chunk.length) % 6) % 6) ≤ 2 ^ 4 := Nat.pow_le_pow_right (by decide) hsize
  have hbits : groups (bitsOfBytes chunk) = groups (bitsOfNat (6 * (chunk.length + 1))
      (valueOfBits (bitsOfBytes chunk) * 2 ^ ((6 - (8 * chunk.length) % 6) % 6))) := by
    have hnumber := bitsOfNat_valueOfBits (bitsOfBytes chunk)
    rw [bitsOfBytes_length] at hnumber
    rw [← hfill, Nat.add_comm, ← bitsOfNat_zeros, hnumber, groups_fill]
    rw [bitsOfBytes_length]
    omega
  rw [hbyte, quad_eq hcount, toNat_align (by omega), hvalue, ← hbits, hpad]
  · rfl
  · rw [hvalue]
    calc _ ≤ valueOfBits (bitsOfBytes chunk) * 2 ^ 4 := Nat.mul_le_mul_left _ hpow
      _ < 2 ^ 64 := by omega

theorem encodeTriads_eq {src dst : List UInt8} {fuel triad : ℕ} (hfuel : src.length ≤ triad + fuel) :
    (encodeTriads src fuel triad dst).1 = decide (4 * (((src.drop triad).length + 2) / 3) ≤ dst.length) ∧
      (4 * (((src.drop triad).length + 2) / 3) ≤ dst.length →
        (encodeTriads src fuel triad dst).2 = encode base64 (src.drop triad) ++
          dst.drop (4 * (((src.drop triad).length + 2) / 3))) := by
  induction fuel generalizing triad dst with
  | zero =>
    rw [List.drop_of_length_le (by omega)]
    exact ⟨rfl, fun _ => rfl⟩
  | succ fuel ih =>
    rw [encodeTriads]
    split
    · rename_i hmore
      have hlength : (src.drop triad).length = src.length - triad := List.length_drop
      have hrest : (src.drop (triad + 3)).length = src.length - (triad + 3) := List.length_drop
      simp only
      split
      · rename_i hshort
        refine ⟨(decide_eq_false ?_).symm, fun hroom => absurd hshort ?_⟩
        · omega
        · omega
      · rename_i hroom
        obtain ⟨hanswer, hcontent⟩ := @ih (dst.drop 4) (triad + 3) (by omega)
        rw [List.length_drop (i := 4)] at hanswer hcontent
        refine ⟨?_, fun hfits => ?_⟩
        · simp only
          rw [hanswer, decide_eq_decide]
          omega
        · have hplace : 4 + 4 * (((src.drop (triad + 3)).length + 2) / 3) =
              4 * (((src.drop triad).length + 2) / 3) := by omega
          simp only
          rw [hcontent (by omega), quad_readTriad hmore, ← List.append_assoc, List.drop_drop, hplace,
            ← encode_triad (src.drop triad), List.drop_drop]
    · rw [List.drop_of_length_le (by omega)]
      exact ⟨rfl, fun _ => rfl⟩

end Triads

/-- `encodeToBase64` answers whether the encoding has room, and then leaves it with zeros behind it. -/
theorem encodeToBase64_eq (src dst : List UInt8) :
    (encodeToBase64 src dst).1 = decide (4 * ((src.length + 2) / 3) ≤ dst.length) ∧
      (4 * ((src.length + 2) / 3) ≤ dst.length → (encodeToBase64 src dst).2 =
        encode base64 src ++ List.replicate (dst.length - 4 * ((src.length + 2) / 3)) 0) := by
  have h := @encodeTriads_eq src (List.replicate dst.length 0) src.length 0 (Nat.le_add_left _ _)
  rwa [List.drop_zero, List.length_replicate, List.drop_replicate] at h

/-! Tokens. -/

section Tokens
variable {bits : List Bool} {k n bitCount : ℕ} {bitBuffer outPos : UInt32} {out out' : ℕ → UInt8}
  {t : TokenState}

theorem urlDigit_eq {v : UInt32} : urlDigit v = digit base64url (v.toNat % 64) := by
  have hmask : (v &&& 0x3f).toNat = v.toNat % 64 := by
    rw [UInt32.toNat_and]
    exact Nat.and_two_pow_sub_one_eq_mod _ 6
  have hsize : v.toNat % 64 < base64url.length := by
    rw [alphabet_base64url.size]
    omega
  rw [urlDigit, hmask, digit, List.getD_eq_getElem _ _ hsize, List.getD_eq_getElem _ _ hsize]

/-- After `k` digits for a string of bits: what is left of it are the low bits of the buffer. -/
structure Emitted (bits : List Bool) (k : ℕ) (out : ℕ → UInt8) (t : TokenState) : Prop where
  place : t.outPos.toNat = k
  count : t.bitCount + 6 * k = bits.length
  pending : t.bitBuffer.toNat % 2 ^ t.bitCount = valueOfBits (bits.drop (6 * k))
  written : ∀ j < k, t.out j = digit base64url (valueOfBits (group bits j))
  behind : ∀ j, k ≤ j → t.out j = out j

theorem Emitted.next (h : Emitted bits k out ⟨bitBuffer, n + 6, outPos, out'⟩) (hn : n < 32) :
    urlDigit (bitBuffer >>> UInt32.ofNat n) = digit base64url (valueOfBits (group bits k)) ∧
      bitBuffer.toNat % 2 ^ n = valueOfBits (bits.drop (6 * (k + 1))) := by
  have hcount : n + 6 + 6 * k = bits.length := h.count
  have hpending : bitBuffer.toNat % 2 ^ (n + 6) = valueOfBits (bits.drop (6 * k)) := h.pending
  have hshift : (UInt32.ofNat n).toNat % 32 = n := by
    rw [UInt32.toNat_ofNat']
    omega
  have hrest : (bits.drop (6 * k)).drop 6 = bits.drop (6 * (k + 1)) := by rw [List.drop_drop]; rfl
  have hlength : (bits.drop (6 * (k + 1))).length = n := by
    rw [List.length_drop]
    omega
  have hlt := valueOfBits_lt (bits.drop (6 * (k + 1)))
  rw [hlength] at hlt
  rw [← List.take_append_drop 6 (bits.drop (6 * k)), valueOfBits_append, hrest, hlength,
    ← group_eq (by omega), Nat.pow_add] at hpending
  constructor
  · rw [urlDigit_eq, UInt32.toNat_shiftRight, hshift, Nat.shiftRight_eq_div_pow]
    change digit base64url (bitBuffer.toNat / 2 ^ n % 2 ^ 6) = _
    rw [← Nat.mod_mul_right_div_self, hpending, Nat.mul_comm, Nat.mul_add_div (Nat.two_pow_pos n),
      Nat.div_eq_of_lt hlt, Nat.add_zero]
  · rw [← Nat.mod_mul_right_mod bitBuffer.toNat (2 ^ n) (2 ^ 6), hpending, Nat.mul_comm, Nat.mul_add_mod,
      Nat.mod_eq_of_lt hlt]

theorem Emitted.emit (h : Emitted bits k out ⟨bitBuffer, bitCount, outPos, out'⟩) (hcount : bitCount ≤ 13)
    (hroom : bits.length < 6 * 2 ^ 32) :
    Emitted bits (bits.length / 6) out (emit bitBuffer bitCount outPos out') := by
  induction bitCount, outPos, out' using emit.induct bitBuffer generalizing k with
  | case1 n outPos out' ih =>
    have hbits : n + 6 + 6 * k = bits.length := h.count
    have hplace : outPos.toNat = k := h.place
    obtain ⟨hdigit, hpending⟩ := h.next (by omega)
    rw [Encoders.emit]
    apply ih (k := k + 1) _ (by omega)
    constructor
    · have hone : (1 : UInt32).toNat = 1 := rfl
      change (outPos + 1).toNat = k + 1
      rw [UInt32.toNat_add, hone, hplace]
      exact Nat.mod_eq_of_lt (by omega)
    · change n + 6 * (k + 1) = bits.length
      omega
    · exact hpending
    · intro j hj
      change Function.update out' outPos.toNat _ j = _
      rw [hplace]
      rcases Nat.lt_succ_iff_lt_or_eq.mp hj with hlt | rfl
      · rw [Function.update_of_ne (Nat.ne_of_lt hlt)]
        exact h.written j hlt
      · rw [Function.update_self, hdigit]
    · intro j hj
      change Function.update out' outPos.toNat _ j = _
      rw [hplace, Function.update_of_ne (by omega)]
      exact h.behind j (by omega)
  | case2 bitCount outPos out' hfew =>
    have hlt : bitCount < 6 := by
      by_contra hge
      exact hfew (bitCount - 6) (by omega)
    have hbits : bitCount + 6 * k = bits.length := h.count
    obtain rfl : k = bits.length / 6 := by omega
    have hstop : Encoders.emit bitBuffer bitCount outPos out' = ⟨bitBuffer, bitCount, outPos, out'⟩ := by
      unfold Encoders.emit
      split
      · omega
      · rfl
    rw [hstop]
    exact h

theorem toNat_pushed (byte : UInt8) :
    ((bitBuffer <<< 8) ||| byte.toUInt32).toNat = bitBuffer.toNat * 256 % 2 ^ 32 + byte.toNat := by
  have height : (8 : UInt32).toNat % 32 = 8 := rfl
  have hshift : bitBuffer.toNat * 2 ^ 8 % 2 ^ 32 = (bitBuffer.toNat % 2 ^ 24) <<< 8 := by
    rw [Nat.shiftLeft_eq]
    omega
  rw [UInt32.toNat_or, UInt32.toNat_shiftLeft, UInt8.toNat_toUInt32, height, Nat.shiftLeft_eq, hshift,
    ← Nat.shiftLeft_add_eq_or_of_lt byte.toNat_lt, ← hshift]
  rfl

theorem pending_pushed {m : ℕ} (hm : m + 8 ≤ 32) (byte : UInt8) :
    ((bitBuffer <<< 8) ||| byte.toUInt32).toNat % 2 ^ (m + 8) =
      bitBuffer.toNat % 2 ^ m * 2 ^ 8 + byte.toNat := by
  have hbyte := byte.toNat_lt
  have hlow := Nat.mod_lt bitBuffer.toNat (Nat.two_pow_pos m)
  have hsplit : bitBuffer.toNat * 256 + byte.toNat =
      2 ^ (m + 8) * (bitBuffer.toNat / 2 ^ m) + (bitBuffer.toNat % 2 ^ m * 2 ^ 8 + byte.toNat) := by
    conv_lhs => rw [← Nat.div_add_mod bitBuffer.toNat (2 ^ m)]
    rw [Nat.add_mul, Nat.mul_right_comm, Nat.pow_add, Nat.add_assoc]
    rfl
  have hfits : bitBuffer.toNat % 2 ^ m * 2 ^ 8 + byte.toNat < 2 ^ (m + 8) := by
    rw [Nat.pow_add]
    omega
  rw [toNat_pushed, Nat.add_mod, Nat.mod_mod_of_dvd _ (Nat.pow_dvd_pow 2 hm), ← Nat.add_mod, hsplit,
    Nat.mul_add_mod, Nat.mod_eq_of_lt hfits]

theorem Emitted.pushByte (h : Emitted bits (bits.length / 6) out t) (byte : UInt8)
    (hroom : (bits ++ bitsOfNat 8 byte.toNat).length < 6 * 2 ^ 32) :
    Emitted (bits ++ bitsOfNat 8 byte.toNat) ((bits ++ bitsOfNat 8 byte.toNat).length / 6) out
      (pushByte t byte) := by
  have hcount := h.count
  have hlength : (bits ++ bitsOfNat 8 byte.toNat).length = bits.length + 8 := by
    rw [List.length_append, bitsOfNat_length]
  apply Emitted.emit (k := bits.length / 6) _ (by omega) hroom
  constructor
  · exact h.place
  · change t.bitCount + 8 + _ = _
    omega
  · change ((t.bitBuffer <<< 8) ||| byte.toUInt32).toNat % 2 ^ (t.bitCount + 8) = _
    rw [pending_pushed (by omega), h.pending, List.drop_append_of_le_length (by omega), valueOfBits_append,
      bitsOfNat_length, valueOfBits_bitsOfNat, Nat.mod_eq_of_lt byte.toNat_lt]
  · intro j hj
    rw [group_append_left (by omega)]
    exact h.written j hj
  · exact h.behind

theorem emitted_foldl {raw : List UInt8} (hroom : (bitsOfBytes raw).length < 6 * 2 ^ 32) :
    Emitted (bitsOfBytes raw) ((bitsOfBytes raw).length / 6) out
      (raw.foldl Encoders.pushByte { bitBuffer := 0, bitCount := 0, outPos := 0, out }) := by
  induction raw using List.reverseRecOn with
  | nil =>
    constructor
    · rfl
    · rfl
    · rfl
    · exact fun j hj => absurd hj (Nat.not_lt_zero j)
    · exact fun j _ => rfl
  | append_singleton raw byte ih =>
    have hlast : bitsOfBytes [byte] = bitsOfNat 8 byte.toNat := List.append_nil _
    rw [bitsOfBytes_append, hlast] at hroom ⊢
    have hshort := hroom
    rw [List.length_append] at hshort
    rw [List.foldl_append]
    exact (ih (by omega)).pushByte byte hroom

theorem Emitted.last (h : Emitted bits (bits.length / 6) out t) (hmore : 0 < t.bitCount) :
    urlDigit (t.bitBuffer <<< UInt32.ofNat (6 - t.bitCount)) =
      digit base64url (valueOfBits (group bits (bits.length / 6))) := by
  have hcount := h.count
  have hshift : (UInt32.ofNat (6 - t.bitCount)).toNat % 32 = 6 - t.bitCount := by
    rw [UInt32.toNat_ofNat']
    omega
  have hlength : (bits.drop (6 * (bits.length / 6))).length = t.bitCount := by
    rw [List.length_drop]
    omega
  have hgroup : group bits (bits.length / 6) =
      bits.drop (6 * (bits.length / 6)) ++ List.replicate (6 - t.bitCount) false := by
    rw [group, List.drop_append_of_le_length (by omega), List.take_append, hlength,
      List.take_of_length_le (by omega), List.take_replicate, Nat.min_eq_left (by omega)]
  have hzeros : valueOfBits (List.replicate (6 - t.bitCount) false) = 0 := by
    rw [← bitsOfNat_zero, valueOfBits_bitsOfNat, Nat.zero_mod]
  have hsix : 2 ^ 6 = 2 ^ t.bitCount * 2 ^ (6 - t.bitCount) := by
    rw [← Nat.pow_add]
    congr 1
    omega
  rw [urlDigit_eq, UInt32.toNat_shiftLeft, hshift, Nat.shiftLeft_eq, hgroup, valueOfBits_append, hzeros,
    List.length_replicate, Nat.add_zero, ← h.pending]
  change digit base64url (_ % 2 ^ 32 % 2 ^ 6) = _
  rw [Nat.mod_mod_of_dvd _ (Nat.pow_dvd_pow 2 (by decide)), hsix, Nat.mul_mod_mul_right]

/-- What the loop leaves where its place does not overflow: the digits, a zero, and the rest as it
was. -/
theorem encodeToken_eq {raw : List UInt8} (hlength : raw.length < 3 * 2 ^ 30) (out : ℕ → UInt8) :
    (∀ j < (8 * raw.length + 5) / 6,
      encodeToken raw out j = digit base64url (valueOfBits (group (bitsOfBytes raw) j))) ∧
      encodeToken raw out ((8 * raw.length + 5) / 6) = 0 ∧
      ∀ j, (8 * raw.length + 5) / 6 < j → encodeToken raw out j = out j := by
  have hbits := bitsOfBytes_length raw
  have h := @emitted_foldl out raw (by omega)
  unfold encodeToken
  generalize raw.foldl pushByte _ = t at h ⊢
  have hcount := h.count
  have hplace := h.place
  split
  · rename_i hmore
    have hone : (1 : UInt32).toNat = 1 := rfl
    have hend : (t.outPos + 1).toNat = (8 * raw.length + 5) / 6 := by
      have hceil : t.outPos.toNat + 1 = (8 * raw.length + 5) / 6 := by omega
      rw [UInt32.toNat_add, hone, hceil]
      exact Nat.mod_eq_of_lt (by omega)
    simp only
    rw [hend, hplace]
    refine ⟨fun j hj => ?_, Function.update_self .., fun j hj => ?_⟩
    · rw [Function.update_of_ne (Nat.ne_of_lt hj)]
      rcases Nat.lt_or_ge j ((bitsOfBytes raw).length / 6) with hlt | hge
      · rw [Function.update_of_ne (Nat.ne_of_lt hlt)]
        exact h.written j hlt
      · obtain rfl : j = (bitsOfBytes raw).length / 6 := by omega
        rw [Function.update_self, h.last hmore]
    · rw [Function.update_of_ne (by omega), Function.update_of_ne (by omega)]
      exact h.behind j (by omega)
  · have hend : t.outPos.toNat = (8 * raw.length + 5) / 6 := by
      rw [hplace]
      omega
    rw [hend]
    refine ⟨fun j hj => ?_, Function.update_self .., fun j hj => ?_⟩
    · rw [Function.update_of_ne (Nat.ne_of_lt hj)]
      exact h.written j (by omega)
    · rw [Function.update_of_ne (by omega)]
      exact h.behind j (by omega)

/-- What the loop does for the byte strings of one length: so many digits and a zero, nothing else,
and other digits for other bytes. -/
structure Tokens (n : ℕ) : Prop where
  digits : ∀ raw out, raw.length = n → ∀ j < (8 * n + 5) / 6, encodeToken raw out j ∈ base64url
  ends : ∀ raw out, raw.length = n → encodeToken raw out ((8 * n + 5) / 6) = 0
  untouched : ∀ raw out, raw.length = n → ∀ j, (8 * n + 5) / 6 < j → encodeToken raw out j = out j
  injective : ∀ raw raw' out out', raw.length = n → raw'.length = n →
    (∀ j < (8 * n + 5) / 6, encodeToken raw out j = encodeToken raw' out' j) → raw = raw'

theorem tokens_of_lt (hn : n < 3 * 2 ^ 30) : Tokens n where
  digits raw out hraw j hj := by
    subst hraw
    rw [(encodeToken_eq hn out).1 j hj]
    have hlt := valueOfBits_lt (group (bitsOfBytes raw) j)
    rw [length_group (by rwa [bitsOfBytes_length])] at hlt
    exact digit_mem alphabet_base64url hlt
  ends raw out hraw := by
    subst hraw
    exact (encodeToken_eq hn out).2.1
  untouched raw out hraw j hj := by
    subst hraw
    exact (encodeToken_eq hn out).2.2 j hj
  injective raw raw' out out' hraw hraw' hsame := by
    subst hraw
    apply digits_injective alphabet_base64url
    rw [Base64.digits, Base64.digits, groups, groups, List.map_map, List.map_map, bitsOfBytes_length,
      bitsOfBytes_length, hraw']
    apply List.map_congr_left
    intro j hj
    have hlt := List.mem_range.mp hj
    have hbyte := hsame j hlt
    rw [(encodeToken_eq hn out).1 j hlt, (encodeToken_eq (by rwa [hraw']) out').1 j (by rwa [hraw'])] at hbyte
    exact hbyte

theorem not_tokens (hn : 3 * 2 ^ 30 ≤ n) : ¬ Tokens n := by
  intro h
  obtain ⟨place, hplace⟩ : ∃ place : UInt32,
      encodeToken (List.replicate n 0) (fun _ => 0) place.toNat = 0 :=
    ⟨_, Function.update_self ..⟩
  have hlt := place.toNat_lt
  have hdigit := h.digits (List.replicate n 0) (fun _ => 0) List.length_replicate place.toNat (by omega)
  rw [hplace] at hdigit
  exact absurd hdigit (by decide)

end Tokens

/-- `encodeToBase64` writes the encoding if it has room, and it is read back; the loop of
`AmmServer_GenerateSecureToken` spells the strings of fewer than 3 GiB. -/
theorem encoders_invertible (n : ℕ) :
    (∀ src dst : List UInt8,
      (encodeToBase64 src dst).1 = decide (4 * ((src.length + 2) / 3) ≤ dst.length) ∧
        (4 * ((src.length + 2) / 3) ≤ dst.length → (encodeToBase64 src dst).2 =
          encode base64 src ++ List.replicate (dst.length - 4 * ((src.length + 2) / 3)) 0) ∧
        decode base64 (encode base64 src) = src) ∧
      (Tokens n ↔ n < 3 * 2 ^ 30) :=
  ⟨fun src dst => ⟨(encodeToBase64_eq src dst).1, (encodeToBase64_eq src dst).2,
    decode_encode alphabet_base64 src⟩,
    ⟨fun h => Nat.lt_of_not_le fun hn => not_tokens hn h, tokens_of_lt⟩⟩

/-- `fo` in five bytes. -/
theorem fo_encoded : (encodeToBase64 (ascii "fo") [7, 7, 7, 7, 7]).2 = ascii "Zm8=" ++ [0] ∧ Tokens 5 :=
  ⟨(((encoders_invertible 5).1 _ _).2.1 (by decide)).trans (by decide),
    (encoders_invertible 5).2.mpr (by decide)⟩

/-- A token of 3 GiB of random bytes. -/
theorem gibibytes_not_tokens : ¬ Tokens 3221225472 := not_tokens (by decide)

end AmmarServer.Encoders
