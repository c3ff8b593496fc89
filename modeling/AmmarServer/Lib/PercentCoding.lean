import AmmarServer.Lib.Bytes

/-! Percent-encoding of bytes into buffers, and the way back. -/

namespace PercentCoding
open Bytes

def isAlnum (c : UInt8) : Bool :=
  (48 ≤ c && c ≤ 57) || (65 ≤ c && c ≤ 90) || (97 ≤ c && c ≤ 122)

/-- `-`, `_`, `.` and `~` stand for themselves too. -/
def isUnreserved (c : UInt8) : Bool := isAlnum c || c == 45 || c == 95 || c == 46 || c == 126

def hexDigit (n : UInt8) : UInt8 := if n < 10 then 48 + n else 55 + n

def hexVal (c : UInt8) : Option UInt8 :=
  if 48 ≤ c ∧ c ≤ 57 then some (c - 48)
  else if 97 ≤ c ∧ c ≤ 102 then some (c - 97 + 10)
  else if 65 ≤ c ∧ c ≤ 70 then some (c - 65 + 10)
  else none

/-- `room` is what the buffer has left, its NUL included. -/
def encode : ℕ → List UInt8 → List UInt8
  | _, [] => []
  | room, c :: s =>
    if room ≤ 1 then []
    else if isUnreserved c then c :: encode (room - 1) s
    else if room ≤ 3 then []
    else 37 :: hexDigit (c >>> 4 &&& 15) :: hexDigit (c &&& 15) :: encode (room - 3) s

/-- The byte that a `%` and two hexadecimal digits stand for. -/
def decodeByte : List UInt8 → Option (UInt8 × List UInt8)
  | c :: a :: b :: s =>
    if c = 37 then (hexVal a).bind fun hi => (hexVal b).map fun lo => (hi <<< 4 ||| lo, s)
    else none
  | _ => none

/-- `room` is what the buffer has left in front of its NUL. -/
def decode : ℕ → List UInt8 → List UInt8
  | 0, _ => []
  | _ + 1, [] => []
  | room + 1, c :: s =>
    let byte := (decodeByte (c :: s)).getD (c, s)
    byte.1 :: decode room byte.2

/-- What an encoded text is made of. -/
def isCode (c : UInt8) : Bool := isUnreserved c || c == 37

theorem decodeByte_hex (c : UInt8) (s : List UInt8) :
    decodeByte (37 :: hexDigit (c >>> 4 &&& 15) :: hexDigit (c &&& 15) :: s) = some (c, s) := by
  have hdigits : hexVal (hexDigit (c >>> 4 &&& 15)) = some (c >>> 4 &&& 15) ∧
      hexVal (hexDigit (c &&& 15)) = some (c &&& 15) ∧
      (c >>> 4 &&& 15) <<< 4 ||| (c &&& 15) = c := by
    revert c
    apply forall_byte
    decide +kernel
  rw [decodeByte, if_pos rfl, hdigits.1, hdigits.2.1]
  show some ((c >>> 4 &&& 15) <<< 4 ||| (c &&& 15), s) = _
  rw [hdigits.2.2]

theorem decodeByte_plain {c : UInt8} (hc : isUnreserved c = true) (s : List UInt8) :
    decodeByte (c :: s) = none := by
  have hne : c ≠ 37 := by
    rintro rfl
    revert hc
    decide
  cases s with
  | nil => rfl
  | cons a s =>
    cases s with
    | nil => rfl
    | cons b s => exact if_neg hne

section
variable {s : List UInt8} {room : ℕ}

/-- A text is read back whole from a buffer that has three bytes for each of its own. -/
theorem decode_encode (hroom : 3 * s.length < room) {size : ℕ} (hsize : s.length ≤ size) :
    decode size (encode room s) = s := by
  induction s generalizing room size with
  | nil => cases size <;> rfl
  | cons c s ih =>
    rw [List.length_cons] at hroom hsize
    obtain ⟨size, rfl⟩ : ∃ n, size = n + 1 := ⟨size - 1, by omega⟩
    have hsize := Nat.le_of_succ_le_succ hsize
    rw [encode, if_neg (by omega)]
    by_cases hc : isUnreserved c = true
    · rw [if_pos hc, decode, decodeByte_plain hc]
      exact congrArg (c :: ·) (ih (by omega) hsize)
    · rw [if_neg hc, if_neg (by omega), decode, decodeByte_hex]
      exact congrArg (c :: ·) (ih (by omega) hsize)

theorem isCode_encode (room : ℕ) (s : List UInt8) : ∀ c ∈ encode room s, isCode c = true := by
  induction s generalizing room with
  | nil => exact fun c hc => by cases hc
  | cons c s ih =>
    have hhex : isCode (hexDigit (c >>> 4 &&& 15)) = true ∧
        isCode (hexDigit (c &&& 15)) = true := by
      revert c
      apply forall_byte
      decide +kernel
    intro d hd
    rw [encode] at hd
    split at hd
    · cases hd
    · split at hd
      · rename_i hplain
        rcases List.mem_cons.mp hd with rfl | hd
        · unfold isCode
          rw [hplain, Bool.true_or]
        · exact ih _ d hd
      · split at hd
        · cases hd
        · rcases List.mem_cons.mp hd with rfl | hd
          · rfl
          · rcases List.mem_cons.mp hd with rfl | hd
            · exact hhex.1
            · rcases List.mem_cons.mp hd with rfl | hd
              · exact hhex.2
              · exact ih _ d hd

theorem length_encode_le (room : ℕ) (s : List UInt8) : (encode room s).length ≤ 3 * s.length := by
  induction s generalizing room with
  | nil => exact Nat.le_refl 0
  | cons c s ih =>
    have h1 := ih (room - 1)
    have h3 := ih (room - 3)
    rw [encode, List.length_cons]
    split
    · exact Nat.zero_le _
    · split
      · rw [List.length_cons]
        omega
      · split
        · exact Nat.zero_le _
        · simp only [List.length_cons]
          omega

theorem encode_ne_nil (hs : s ≠ []) (hroom : 3 < room) : encode room s ≠ [] := by
  obtain ⟨c, s, rfl⟩ := List.exists_cons_of_ne_nil hs
  rw [encode, if_neg (by omega)]
  split
  · exact List.cons_ne_nil _ _
  · rw [if_neg (by omega)]
    exact List.cons_ne_nil _ _

end
end PercentCoding
