import AmmarServer.Lib.BoundedAppend
import AmmarServer.Lib.Numerals
import AmmarServer.Lib.Run
import AmmarServer.Tools.JsonRoundTrip

/-! The writing of response bodies, the `AmmServer_APIResponseWrite` functions of
`threads/apiProtocol.c`: as long as no sum of lengths wraps, they put their pieces into the buffer
whole, up to the first one that does not fit. -/

namespace AmmarServer.ApiWriter
open TextFile BoundedAppend
open Json (Fault jsonEscape escaped escapedIn NoWrap blockSize)

/-- The part of `AmmServer_APIResponse` that the writers use. Of `body` there are the first
`bodyLength` bytes. -/
structure APIResponse where
  hasBody : Bool
  body : List UInt8
  maxBodyLength : ℕ
  overflowed : Bool
  deriving DecidableEq, Repr

/-- What a function with a pointer and a length is given. Of a null pointer the length alone
counts. -/
structure Text where
  isNull : Bool
  bytes : List UInt8
  deriving DecidableEq, Repr

def APIResponse.overflow (res : APIResponse) : APIResponse := { res with overflowed := true }

def apiResponseWrite (res : APIResponse) (text : Text) : Except Fault (Bool × APIResponse) :=
  if res.overflowed then .ok (false, res)
  else if text.bytes.length = 0 then .ok (true, res)
  else if text.isNull || !res.hasBody then .ok (false, res.overflow)
  else if (res.body.length + text.bytes.length) % 2 ^ 32 > res.maxBodyLength then
    .ok (false, res.overflow)
  else if res.maxBodyLength < res.body.length + text.bytes.length then .error .outOfBounds
  else .ok (true, { res with body := res.body ++ text.bytes })

/-- The text is what stands before the NUL. -/
def apiResponseWriteText (res : APIResponse) (text : Option (List UInt8)) :
    Except Fault (Bool × APIResponse) :=
  match text with
  | none => .ok (true, res)
  | some bytes => apiResponseWrite res ⟨false, bytes.take (bytes.length % 2 ^ 32)⟩

/-- The loop over the digits, put before the ones there are. -/
def magnitudeDigits : ℕ → UInt64 → List UInt8 → List UInt8
  | 0, _, digits => digits
  | room + 1, magnitude, digits =>
    if magnitude = 0 then digits
    else magnitudeDigits room (magnitude / 10) ((48 + (magnitude % 10).toUInt8) :: digits)

def apiResponseWriteInteger (res : APIResponse) (value : Int64) :
    Except Fault (Bool × APIResponse) :=
  let negative := value < 0
  let magnitude := if negative then (-(value + 1)).toUInt64 + 1 else value.toUInt64
  let digits := if magnitude = 0 then [48] else magnitudeDigits 24 magnitude []
  apiResponseWrite res ⟨false, if negative then 45 :: digits else digits⟩

def apiResponseWriteJSONString (sse2 : Bool) (res : APIResponse) (text : Text) :
    Except Fault (Bool × APIResponse) :=
  if res.overflowed then .ok (false, res)
  else if text.bytes.length = 0 then .ok (true, res)
  else if text.isNull || !res.hasBody then .ok (false, res.overflow)
  else
    (jsonEscape sse2 text.bytes ((res.maxBodyLength + 2 ^ 32 - res.body.length) % 2 ^ 32)).map
      fun written =>
        if written = [] then (false, res.overflow)
        else (true, { res with body := res.body ++ written })

inductive ResponseCall
  | write (text : Text)
  | writeText (text : Option (List UInt8))
  | writeInteger (value : Int64)
  | writeJSONString (text : Text)
  deriving DecidableEq, Repr

def ResponseCall.run (sse2 : Bool) (res : APIResponse) :
    ResponseCall → Except Fault (Bool × APIResponse)
  | .write text => apiResponseWrite res text
  | .writeText text => apiResponseWriteText res text
  | .writeInteger value => apiResponseWriteInteger res value
  | .writeJSONString text => apiResponseWriteJSONString sse2 res text

/-- The calls of a handler one after the other, with their answers. -/
def runCalls (sse2 : Bool) :
    APIResponse → List ResponseCall → Except Fault (List Bool × APIResponse)
  | res, [] => .ok ([], res)
  | res, call :: calls =>
    (call.run sse2 res).bind fun (answer, res) =>
      (runCalls sse2 res calls).map fun (answers, res) => (answer :: answers, res)

/-! ## What is to be written -/

/-- The decimal of a number. -/
def integerText (value : ℤ) : List UInt8 :=
  if value < 0 then 45 :: decimal value.natAbs else decimal value.natAbs

/-- A null pointer has nothing to write unless the length is zero. -/
def Text.piece (text : Text) (bytes : List UInt8) : Option (List UInt8) :=
  if text.isNull ∧ text.bytes ≠ [] then none else some bytes

def ResponseCall.piece : ResponseCall → Option (List UInt8)
  | .write text => text.piece text.bytes
  | .writeText text => some (text.getD [])
  | .writeInteger value => some (integerText value.toInt)
  | .writeJSONString text => text.piece (escaped text.bytes)

/-- The lengths are those of an `unsigned int`. -/
def ResponseCall.Representable : ResponseCall → Prop
  | .write text => text.bytes.length < 2 ^ 32
  | .writeText text => (text.getD []).length < 2 ^ 32
  | .writeInteger _ => True
  | .writeJSONString text => text.bytes.length < 2 ^ 32

/-- How much there is room for. -/
def room (hasBody : Bool) (maxBodyLength : ℕ) : ℕ := if hasBody then maxBodyLength else 0

/-- A call whose sums do not wrap behind what has been written, and that writes no null string
behind an overflow. -/
def ResponseCall.Allowed (sse2 hasBody : Bool) (maxBodyLength : ℕ) (s : State UInt8) :
    ResponseCall → Prop
  | .write text => s.overflowed = false → hasBody = true → text.isNull = false →
      s.written.length + text.bytes.length < 2 ^ 32
  | .writeText none => s.overflowed = false
  | .writeText (some bytes) => s.overflowed = false → hasBody = true →
      s.written.length + bytes.length < 2 ^ 32
  | .writeInteger value => s.overflowed = false → hasBody = true →
      s.written.length + (integerText value.toInt).length < 2 ^ 32
  | .writeJSONString text => s.overflowed = false → hasBody = true → text.isNull = false →
      NoWrap (blockSize sse2) (maxBodyLength - s.written.length) text.bytes

/-! ## Integers -/

theorem magnitudeDigits_eq (fuel : ℕ) {magnitude : UInt64} (hpos : 0 < magnitude.toNat)
    (hfuel : magnitude.toNat < 10 ^ fuel) (digits : List UInt8) :
    magnitudeDigits fuel magnitude digits = decimal magnitude.toNat ++ digits := by
  induction fuel generalizing magnitude digits with
  | zero =>
    rw [Nat.pow_zero] at hfuel
    omega
  | succ fuel ih =>
    have hne : magnitude ≠ 0 := by
      rintro rfl
      exact absurd hpos (by decide)
    have hquotient : (magnitude / 10).toNat = magnitude.toNat / 10 := UInt64.toNat_div ..
    have hdigit : 48 + (magnitude % 10).toUInt8 = UInt8.ofNat (48 + magnitude.toNat % 10) := by
      rw [← UInt8.toNat_inj, UInt8.toNat_add, UInt64.toNat_toUInt8, UInt64.toNat_mod,
        UInt8.toNat_ofNat']
      show (48 + magnitude.toNat % 10 % 256) % 256 = (48 + magnitude.toNat % 10) % 256
      omega
    have hsplit : magnitude.toNat = magnitude.toNat / 10 * 10 + magnitude.toNat % 10 := by omega
    have hten : magnitude.toNat % 10 < 10 := Nat.mod_lt _ (by decide)
    unfold magnitudeDigits
    rw [if_neg hne, hdigit]
    rcases Nat.eq_zero_or_pos (magnitude.toNat / 10) with hzero | hmore
    · have hquotient' : magnitude / 10 = 0 := by
        rw [← UInt64.toNat_inj, hquotient, hzero]
        rfl
      have hlast : ∀ digits, magnitudeDigits fuel 0 digits = digits := by
        intro digits
        cases fuel with
        | zero => rfl
        | succ fuel => rfl
      rw [hquotient', hlast]
      have hsmall : magnitude.toNat < 10 := by omega
      rw [Nat.mod_eq_of_lt hsmall, decimal_of_lt hsmall]
      rfl
    · have hlt : (magnitude / 10).toNat < 10 ^ fuel := by
        rw [hquotient]
        rw [Nat.pow_succ] at hfuel
        omega
      rw [ih (by rw [hquotient]; exact hmore) hlt, hquotient]
      conv_rhs => rw [hsplit, decimal_append hmore hten]
      rw [List.append_assoc]
      rfl

theorem toNat_of_nonneg {value : Int64} (h : 0 ≤ value) :
    value.toUInt64.toNat = value.toInt.natAbs := by
  rw [Int64.toNat_toUInt64_of_le h]
  have hnonneg : 0 ≤ value.toInt := Int64.le_iff_toInt_le.mp h
  show value.toInt.toNat = _
  omega

theorem magnitude_of_neg {value : Int64} (h : value < 0) :
    ((-(value + 1)).toUInt64 + 1).toNat = value.toInt.natAbs := by
  have hneg : value.toInt < 0 := Int64.lt_iff_toInt_lt.mp h
  have hlow := Int64.le_toInt value
  have hone : (value + 1).toInt = value.toInt + 1 := by
    rw [Int64.toInt_add]
    exact Int.bmod_eq_of_le (by rw [Int64.toInt_one]; omega) (by rw [Int64.toInt_one]; omega)
  have hflip : (-(value + 1)).toInt = -(value.toInt + 1) := by
    rw [Int64.toInt_neg, hone]
    exact Int.bmod_eq_of_le (by omega) (by omega)
  have hnonneg : 0 ≤ -(value + 1) := by
    rw [Int64.le_iff_toInt_le, hflip]
    show (0 : ℤ) ≤ _
    omega
  rw [UInt64.toNat_add, toNat_of_nonneg hnonneg, hflip]
  show (_ + 1) % 2 ^ 64 = _
  omega

theorem apiResponseWriteInteger_eq (res : APIResponse) (value : Int64) :
    apiResponseWriteInteger res value = apiResponseWrite res ⟨false, integerText value.toInt⟩ := by
  have hbound : value.toInt.natAbs < 10 ^ 24 := by
    have hlow := Int64.le_toInt value
    have hhigh := Int64.toInt_lt value
    omega
  have hdigits : ∀ magnitude : UInt64, magnitude.toNat = value.toInt.natAbs →
      (if magnitude = 0 then [48] else magnitudeDigits 24 magnitude []) =
        decimal value.toInt.natAbs := by
    intro magnitude hmagnitude
    split
    · rename_i hzero
      rw [hzero] at hmagnitude
      rw [← hmagnitude]
      rfl
    · rename_i hne
      have hpos : 0 < magnitude.toNat := by
        refine Nat.pos_of_ne_zero fun hzero => hne ?_
        rw [← UInt64.toNat_inj, hzero]
        rfl
      rw [magnitudeDigits_eq 24 hpos (by omega), List.append_nil, hmagnitude]
  unfold apiResponseWriteInteger integerText
  dsimp only
  by_cases hneg : value < 0
  · have hneg' : value.toInt < 0 := Int64.lt_iff_toInt_lt.mp hneg
    simp only [if_pos hneg, if_pos hneg']
    rw [hdigits _ (magnitude_of_neg hneg)]
  · have hnonneg : 0 ≤ value := Int64.not_lt.mp hneg
    have hneg' : ¬ value.toInt < 0 := fun h => hneg (Int64.lt_iff_toInt_lt.mpr h)
    simp only [if_neg hneg, if_neg hneg']
    rw [hdigits _ (toNat_of_nonneg hnonneg)]

example : integerText Int64.minValue.toInt =
    "-9223372036854775808".toUTF8.data.toList := by decide

/-! ## The calls against the putting of pieces -/

/-- The response that the state of the abstract sequence stands for. -/
def view (hasBody : Bool) (maxBodyLength : ℕ) (s : State UInt8) : APIResponse :=
  ⟨hasBody, s.written, maxBodyLength, s.overflowed⟩

section Calls
variable {sse2 hasBody : Bool} {maxBodyLength : ℕ} {s : State UInt8} {text : Text}

/-- A piece put behind what has been written, with the answer of the call. -/
def answered (hasBody : Bool) (maxBodyLength : ℕ) (s : State UInt8) (piece : Option (List UInt8)) :
    Bool × APIResponse :=
  ((put (room hasBody maxBodyLength) s piece).1,
    view hasBody maxBodyLength (put (room hasBody maxBodyLength) s piece).2)

theorem answered_some {bytes : List UInt8} (hs : s.overflowed = false)
    (hfits : s.written.length + bytes.length ≤ room hasBody maxBodyLength) :
    answered hasBody maxBodyLength s (some bytes) =
      (true, ⟨hasBody, s.written ++ bytes, maxBodyLength, false⟩) := by
  unfold answered view
  rw [put_some hs hfits]
  exact congrArg (fun b => (true, APIResponse.mk _ _ _ b)) hs

theorem answered_refused {piece : Option (List UInt8)} (hs : s.overflowed = false)
    (hfull : ∀ bytes, piece = some bytes →
      room hasBody maxBodyLength < s.written.length + bytes.length) :
    answered hasBody maxBodyLength s piece = (false, (view hasBody maxBodyLength s).overflow) := by
  unfold answered
  rw [put_refused hs hfull]
  rfl

theorem answered_overflowed (hs : s.overflowed = true) (piece : Option (List UInt8)) :
    answered hasBody maxBodyLength s piece = (false, view hasBody maxBodyLength s) := by
  have hput : put (room hasBody maxBodyLength) s piece = (false, s) := if_pos hs
  unfold answered
  rw [hput]

theorem write_cases (text : Text) {bytes : List UInt8} (hbytes : bytes = [] ↔ text.bytes = [])
    (hroom : s.written.length ≤ room hasBody maxBodyLength)
    {behind : Except Fault (Bool × APIResponse)}
    (hbehind : s.overflowed = false → hasBody = true → text.isNull = false → text.bytes ≠ [] →
      behind = .ok (answered hasBody maxBodyLength s (some bytes))) :
    (if (view hasBody maxBodyLength s).overflowed then
        Except.ok (false, view hasBody maxBodyLength s)
      else if text.bytes.length = 0 then .ok (true, view hasBody maxBodyLength s)
      else if text.isNull || !(view hasBody maxBodyLength s).hasBody then
        .ok (false, (view hasBody maxBodyLength s).overflow)
      else behind) =
      .ok (answered hasBody maxBodyLength s (text.piece bytes)) := by
  show (if s.overflowed then _ else if text.bytes.length = 0 then _
    else if text.isNull || !hasBody then _ else _) = _
  cases hs : s.overflowed with
  | true =>
    rw [if_pos rfl, answered_overflowed hs]
  | false =>
    rw [if_neg Bool.false_ne_true]
    by_cases hempty : text.bytes = []
    · have hpiece : text.piece bytes = some [] := by
        unfold Text.piece
        rw [if_neg fun h => h.2 hempty, hbytes.mpr hempty]
      have hfits : s.written.length + ([] : List UInt8).length ≤ room hasBody maxBodyLength := hroom
      rw [if_pos (by rw [hempty]; rfl), hpiece, answered_some hs hfits, List.append_nil, ← hs]
      rfl
    rw [if_neg fun h => hempty (List.length_eq_zero_iff.mp h)]
    cases hnull : text.isNull with
    | true =>
      have hpiece : text.piece bytes = none := if_pos ⟨hnull, hempty⟩
      rw [Bool.true_or, if_pos rfl, hpiece, answered_refused hs]
      intro bytes hcon
      cases hcon
    | false =>
      have hpiece : text.piece bytes = some bytes :=
        if_neg fun h => by
          rw [hnull] at h
          cases h.1
      rw [Bool.false_or, hpiece]
      cases hbody : hasBody with
      | false =>
        rw [Bool.not_false, if_pos rfl, answered_refused hs]
        intro bytes' hsome
        have hne : bytes ≠ [] := fun h => hempty (hbytes.mp h)
        rw [← Option.some.inj hsome]
        exact (List.length_pos_of_ne_nil hne).trans_le (Nat.le_add_left _ _)
      | true =>
        subst hbody
        rw [Bool.not_true, if_neg Bool.false_ne_true]
        exact hbehind hs rfl hnull hempty

theorem write_eq (hroom : s.written.length ≤ room hasBody maxBodyLength)
    (hsum : s.overflowed = false → hasBody = true → text.isNull = false →
      s.written.length + text.bytes.length < 2 ^ 32) :
    apiResponseWrite (view hasBody maxBodyLength s) text =
      .ok (answered hasBody maxBodyLength s (text.piece text.bytes)) := by
  refine write_cases text Iff.rfl hroom ?_
  intro hs hbody hnull _
  have hlow := hsum hs hbody hnull
  subst hbody
  show (if (s.written.length + text.bytes.length) % 2 ^ 32 > maxBodyLength then _
    else if maxBodyLength < s.written.length + text.bytes.length then _ else _) = _
  rw [Nat.mod_eq_of_lt hlow]
  by_cases hfull : s.written.length + text.bytes.length > maxBodyLength
  · rw [if_pos hfull, answered_refused hs]
    intro bytes hsome
    rw [← Option.some.inj hsome]
    exact hfull
  · have hfits : s.written.length + text.bytes.length ≤ room true maxBodyLength := not_lt.mp hfull
    rw [if_neg hfull, if_neg hfull, answered_some hs hfits]
    show Except.ok (true, APIResponse.mk true _ _ s.overflowed) = _
    rw [hs]
    rfl

theorem write_wraps (hs : s.overflowed = false) (hnull : text.isNull = false)
    (hlength : text.bytes.length < 2 ^ 32) (hmax : maxBodyLength < 2 ^ 32)
    (hroom : s.written.length ≤ maxBodyLength)
    (hsum : 2 ^ 32 ≤ s.written.length + text.bytes.length) :
    apiResponseWrite (view true maxBodyLength s) text = .error .outOfBounds := by
  unfold apiResponseWrite view
  dsimp only
  rw [hs, hnull, if_neg Bool.false_ne_true, if_neg (by omega), Bool.false_or, Bool.not_true,
    if_neg Bool.false_ne_true, if_neg (by omega), if_pos (by omega)]

theorem length_le_escaped (s : List UInt8) : s.length ≤ (escaped s).length := by
  induction s with
  | nil => exact le_rfl
  | cons c s ih =>
    have hone : 1 ≤ (Json.escapedByByte c).length := by
      unfold Json.escapedByByte Json.escapeOf
      repeat' split
      all_goals simp
    show _ ≤ (Json.escapedByByte c ++ escaped s).length
    rw [List.length_cons, List.length_append]
    omega

theorem writeJSONString_eq (hmax : maxBodyLength < 2 ^ 32)
    (hlength : text.bytes.length < 2 ^ 32)
    (hroom : s.written.length ≤ room hasBody maxBodyLength)
    (hsum : s.overflowed = false → hasBody = true → text.isNull = false →
      NoWrap (blockSize sse2) (maxBodyLength - s.written.length) text.bytes) :
    apiResponseWriteJSONString sse2 (view hasBody maxBodyLength s) text =
      .ok (answered hasBody maxBodyLength s (text.piece (escaped text.bytes))) := by
  have hnil : escaped text.bytes = [] ↔ text.bytes = [] := by
    constructor
    · intro h
      have hle := length_le_escaped text.bytes
      rw [h] at hle
      exact List.length_eq_zero_iff.mp (Nat.le_zero.mp hle)
    · intro h
      rw [h]
      rfl
  refine write_cases text hnil hroom ?_
  intro hs hbody hnull hne
  have hnoWrap := hsum hs hbody hnull
  subst hbody
  change s.written.length ≤ maxBodyLength at hroom
  have hleft : (maxBodyLength + 2 ^ 32 - s.written.length) % 2 ^ 32 =
      maxBodyLength - s.written.length := by omega
  show (jsonEscape sse2 text.bytes
    ((maxBodyLength + 2 ^ 32 - s.written.length) % 2 ^ 32)).map _ = _
  rw [hleft, (Json.jsonEscape_eq_iff hlength (by omega)).mpr hnoWrap]
  unfold escapedIn
  by_cases hfits : (escaped text.bytes).length ≤ maxBodyLength - s.written.length
  · have hfits' : s.written.length + (escaped text.bytes).length ≤ room true maxBodyLength := by
      show _ ≤ maxBodyLength
      omega
    rw [if_pos hfits, answered_some hs hfits', ← hs]
    exact congrArg Except.ok (if_neg fun h => hne (hnil.mp h))
  · rw [if_neg hfits, answered_refused hs]
    · rfl
    · intro bytes hsome
      rw [← Option.some.inj hsome]
      show maxBodyLength < _
      omega

theorem run_eq {call : ResponseCall} (hmax : maxBodyLength < 2 ^ 32) (hcall : call.Representable)
    (hroom : s.written.length ≤ room hasBody maxBodyLength)
    (hallowed : call.Allowed sse2 hasBody maxBodyLength s) :
    call.run sse2 (view hasBody maxBodyLength s) =
      .ok (answered hasBody maxBodyLength s call.piece) := by
  cases call with
  | write text => exact write_eq hroom hallowed
  | writeText text =>
    cases text with
    | none =>
      have hfits : s.written.length + ([] : List UInt8).length ≤ room hasBody maxBodyLength := hroom
      show Except.ok (true, view hasBody maxBodyLength s) = .ok (answered _ _ _ (some []))
      rw [answered_some hallowed hfits, List.append_nil, ← hallowed]
      rfl
    | some bytes =>
      have hlength : bytes.length < 2 ^ 32 := hcall
      have hwhole : bytes.take (bytes.length % 2 ^ 32) = bytes := by
        rw [Nat.mod_eq_of_lt hlength, List.take_length]
      show apiResponseWrite _ ⟨false, bytes.take (bytes.length % 2 ^ 32)⟩ = _
      rw [hwhole]
      exact write_eq hroom fun hs hbody _ => hallowed hs hbody
  | writeInteger value =>
    show apiResponseWriteInteger _ value = _
    rw [apiResponseWriteInteger_eq]
    exact write_eq hroom fun hs hbody _ => hallowed hs hbody
  | writeJSONString text => exact writeJSONString_eq hmax hcall hroom hallowed

/-- The step of the abstract sequence for a call. -/
def putCall (hasBody : Bool) (maxBodyLength : ℕ) (s : State UInt8) (call : ResponseCall) :
    State UInt8 :=
  (put (room hasBody maxBodyLength) s call.piece).2

theorem runCalls_eq (hmax : maxBodyLength < 2 ^ 32) (calls : List ResponseCall)
    (hcalls : ∀ call ∈ calls, call.Representable)
    (hroom : s.written.length ≤ room hasBody maxBodyLength)
    (hallowed : Run.Allowed (putCall hasBody maxBodyLength)
      (fun s call => call.Allowed sse2 hasBody maxBodyLength s) s calls) :
    runCalls sse2 (view hasBody maxBodyLength s) calls =
      .ok ((putAll (room hasBody maxBodyLength) s (calls.map (·.piece))).1,
        view hasBody maxBodyLength (putAll (room hasBody maxBodyLength) s
          (calls.map (·.piece))).2) := by
  induction calls generalizing s with
  | nil => rfl
  | cons call calls ih =>
    obtain ⟨hcall, hcalls⟩ := List.forall_mem_cons.mp hcalls
    obtain ⟨hfirst, hbehind⟩ := hallowed
    rw [runCalls, run_eq hmax hcall hroom hfirst]
    show (runCalls sse2 (view hasBody maxBodyLength (putCall hasBody maxBodyLength s call))
      calls).map _ = _
    rw [ih (s := putCall hasBody maxBodyLength s call) hcalls (length_put_le hroom call.piece)
      hbehind]
    rfl

end Calls

theorem runCalls_wraps {sse2 : Bool} {maxBodyLength : ℕ} {text : Text} (hpos : 0 < maxBodyLength)
    (hmax : maxBodyLength < 2 ^ 32) (hnull : text.isNull = false)
    (hlength : text.bytes.length = 2 ^ 32 - 1) :
    runCalls sse2 ⟨true, [], maxBodyLength, false⟩ [.write ⟨false, [65]⟩, .write text] =
      .error .outOfBounds := by
  have hfirst : (ResponseCall.write ⟨false, [65]⟩).run sse2 ⟨true, [], maxBodyLength, false⟩ =
      .ok (true, view true maxBodyLength ⟨[65], false⟩) := by
    show apiResponseWrite (view true maxBodyLength ⟨[], false⟩) _ = _
    rw [write_eq (Nat.zero_le _) fun _ _ _ => (by decide)]
    exact congrArg Except.ok (answered_some rfl hpos)
  have hsecond : (ResponseCall.write text).run sse2 (view true maxBodyLength ⟨[65], false⟩) =
      .error .outOfBounds := by
    refine write_wraps rfl hnull (by omega) hmax hpos ?_
    rw [hlength]
    decide
  rw [runCalls, hfirst]
  show (runCalls sse2 (view true maxBodyLength ⟨[65], false⟩) [.write text]).map _ = _
  rw [runCalls, hsecond]
  rfl

/-- At every point of a run all of whose sums stay below 2^32 the buffer is not overrun and holds
the first pieces, all whole, and nothing is put behind the first one that does not fit. -/
theorem runCalls_whole (sse2 hasBody : Bool) (maxBodyLength : ℕ) (hmax : maxBodyLength < 2 ^ 32)
    (calls : List ResponseCall) (hcalls : ∀ call ∈ calls, call.Representable)
    (hallowed : Run.Allowed (putCall hasBody maxBodyLength)
      (fun s call => call.Allowed sse2 hasBody maxBodyLength s) ⟨[], false⟩ calls)
    (done : List ResponseCall) (hdone : done <+: calls) :
    ∃ answers res, runCalls sse2 ⟨hasBody, [], maxBodyLength, false⟩ done = .ok (answers, res) ∧
      res.body.length ≤ maxBodyLength ∧
      Whole (room hasBody maxBodyLength) (done.map (·.piece)) answers
        ⟨res.body, res.overflowed⟩ := by
  obtain ⟨behind, rfl⟩ := hdone
  have hdone : ∀ call ∈ done, call.Representable :=
    fun call hcall => hcalls call (List.mem_append_left _ hcall)
  have hwhole := whole_putAll (room hasBody maxBodyLength) (done.map (·.piece))
  have hle : room hasBody maxBodyLength ≤ maxBodyLength := by
    unfold room
    split
    · exact le_rfl
    · exact Nat.zero_le _
  refine ⟨_, _, runCalls_eq (s := ⟨[], false⟩) hmax done hdone (Nat.zero_le _)
    (Run.allowed_append hallowed), ?_, hwhole⟩
  obtain ⟨taken, rest, -, -, hroom, -⟩ := hwhole
  exact hroom.trans hle

theorem runCalls_digits :
    ∃ answers res, runCalls true ⟨true, [], 22, false⟩
        [.writeInteger Int64.minValue, .write ⟨false, [65]⟩, .writeJSONString ⟨false, [34]⟩] =
          .ok (answers, res) ∧
      res.body.length ≤ 22 ∧
      Whole 22 [some (integerText Int64.minValue.toInt), some [65], some (escaped [34])] answers
        ⟨res.body, res.overflowed⟩ := by
  refine runCalls_whole true true 22 (by decide) _ ?_ ?_ _ (List.prefix_refl _)
  · intro call hcall
    simp only [List.mem_cons, List.not_mem_nil, or_false] at hcall
    rcases hcall with rfl | rfl | rfl
    · trivial
    · show (1 : ℕ) < 2 ^ 32
      decide
    · show (1 : ℕ) < 2 ^ 32
      decide
  · refine ⟨fun _ _ => by decide, fun _ _ _ => by decide, fun _ _ _ => ?_, trivial⟩
    exact Json.noWrap_of_short true (by decide)

/-- One byte in the buffer, and a text with which the sum of the lengths is 2^32. -/
theorem runCalls_overrun :
    ¬ ∃ answers res, runCalls true ⟨true, [], 10, false⟩
        [.write ⟨false, [65]⟩, .write ⟨false, List.replicate (2 ^ 32 - 1) 65⟩] =
          .ok (answers, res) ∧
      res.body.length ≤ 10 ∧
      Whole 10 [some [65], some (List.replicate (2 ^ 32 - 1) 65)] answers
        ⟨res.body, res.overflowed⟩ := by
  rintro ⟨answers, res, hrun, -⟩
  rw [runCalls_wraps (by decide) (by decide) rfl (List.length_replicate ..)] at hrun
  cases hrun

end AmmarServer.ApiWriter
