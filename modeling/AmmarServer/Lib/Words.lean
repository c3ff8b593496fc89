import Mathlib.Data.List.Basic

/-! Words of 32 bits as their four bytes, the lowest first. -/

namespace Words

def bytes (w : UInt32) : List UInt8 :=
  [UInt8.ofNat w.toNat, UInt8.ofNat (w.toNat / 256), UInt8.ofNat (w.toNat / 65536),
    UInt8.ofNat (w.toNat / 16777216)]

def value (b0 b1 b2 b3 : UInt8) : UInt32 :=
  UInt32.ofNat (b0.toNat + 256 * b1.toNat + 65536 * b2.toNat + 16777216 * b3.toNat)

def encode (ws : List UInt32) : List UInt8 := ws.flatMap bytes

/-- The first words of a text, as many as are there. -/
def decode : ℕ → List UInt8 → List UInt32
  | n + 1, b0 :: b1 :: b2 :: b3 :: rest => value b0 b1 b2 b3 :: decode n rest
  | _, _ => []

variable {ws : List UInt32}

theorem value_bytes (w : UInt32) :
    value (UInt8.ofNat w.toNat) (UInt8.ofNat (w.toNat / 256)) (UInt8.ofNat (w.toNat / 65536))
      (UInt8.ofNat (w.toNat / 16777216)) = w := by
  have hw := w.toNat_lt
  have hsum : w.toNat % 256 + 256 * (w.toNat / 256 % 256) + 65536 * (w.toNat / 65536 % 256) +
      16777216 * (w.toNat / 16777216 % 256) = w.toNat := by omega
  simp only [value, UInt8.toNat_ofNat', Nat.reducePow]
  rw [hsum]
  exact UInt32.ofNat_toNat

theorem length_encode (ws : List UInt32) : (encode ws).length = 4 * ws.length := by
  induction ws with
  | nil => rfl
  | cons w ws ih =>
    rw [encode, List.flatMap_cons, List.length_append, List.length_cons]
    rw [encode] at ih
    rw [ih]
    have hbytes : (bytes w).length = 4 := rfl
    omega

theorem encode_append (ws vs : List UInt32) : encode (ws ++ vs) = encode ws ++ encode vs :=
  List.flatMap_append

theorem decode_encode (ws : List UInt32) (rest : List UInt8) :
    decode ws.length (encode ws ++ rest) = ws := by
  induction ws with
  | nil => rfl
  | cons w ws ih =>
    have hvalue := value_bytes w
    change value _ _ _ _ :: decode ws.length (encode ws ++ rest) = w :: ws
    rw [hvalue, ih]

theorem length_decode {n : ℕ} {text : List UInt8} (h : 4 * n ≤ text.length) :
    (decode n text).length = n := by
  induction n generalizing text with
  | zero =>
    unfold decode
    rfl
  | succ n ih =>
    match text, h with
    | _ :: _ :: _ :: _ :: text, h =>
      have hrest : 4 * n ≤ text.length := by
        simp only [List.length_cons] at h
        omega
      exact congrArg (· + 1) (ih hrest)

end Words
