import Mathlib.Data.List.Infix
import Mathlib.Data.List.TakeWhile
import Mathlib.Data.UInt

/-! Bytes and line ends. -/

namespace Bytes

def CR : UInt8 := 13
def LF : UInt8 := 10

def isNewline (c : UInt8) : Bool := c == CR || c == LF

def isDigit (c : UInt8) : Bool := 48 ≤ c && c ≤ 57

/-- `c - '0'` of a digit. -/
def digitValue (c : UInt8) : Nat := (c - 48).toNat

/-- The two ways a line may end. -/
inductive Eol
  | crlf
  | lf
  deriving DecidableEq, Repr

def Eol.bytes : Eol → List UInt8
  | .crlf => [CR, LF]
  | .lf => [LF]

/-- No byte of `l` is a CR or an LF. -/
def NoNewline (l : List UInt8) : Prop := ∀ c ∈ l, isNewline c = false

instance (l : List UInt8) : Decidable (NoNewline l) :=
  List.decidableBAll (isNewline · = false) l

/-- What holds of every byte if it holds of the 256 of them. -/
theorem forall_byte {P : UInt8 → Prop} (h : ∀ n : Fin 256, P (UInt8.ofFin n)) (byte : UInt8) :
    P byte := h byte.toFin

theorem toNat_ofNat_digit {c : Char} (hc : c.isDigit = true) :
    (UInt8.ofNat c.toNat).toNat = c.toNat ∧ 48 ≤ c.toNat ∧ c.toNat ≤ 57 := by
  have hdigit := Char.isDigit_iff_toNat.mp hc
  simp only [Char.reduceToNat] at hdigit
  refine ⟨?_, hdigit⟩
  rw [UInt8.toNat_ofNat']
  omega

@[simp] theorem isNewline_CR : isNewline CR = true := rfl

@[simp] theorem isNewline_LF : isNewline LF = true := rfl

theorem isNewline_iff {c : UInt8} : isNewline c = true ↔ c = CR ∨ c = LF := by
  simp [isNewline]

theorem isNewline_eq_false_iff {c : UInt8} : isNewline c = false ↔ c ≠ CR ∧ c ≠ LF := by
  simp [isNewline]

@[simp] theorem noNewline_nil : NoNewline [] := by simp [NoNewline]

theorem noNewline_append {l m : List UInt8} :
    NoNewline (l ++ m) ↔ NoNewline l ∧ NoNewline m := by
  simp [NoNewline, or_imp, forall_and]

theorem NoNewline.of_isPrefix {l m : List UInt8} (h : NoNewline m) (hl : l <+: m) : NoNewline l :=
  fun c hc => h c (hl.subset hc)

theorem Eol.head_isNewline (e : Eol) : ∃ c l, e.bytes = c :: l ∧ isNewline c = true := by
  cases e
  · exact ⟨CR, [LF], rfl, rfl⟩
  · exact ⟨LF, [], rfl, rfl⟩

/-- How many bytes come before the first CR or LF. -/
def untilNewline (l : List UInt8) : Nat := (l.takeWhile (fun c => !isNewline c)).length

theorem untilNewline_append {l r : List UInt8} (hl : NoNewline l)
    (hr : ∀ c ∈ r.head?, isNewline c = true) : untilNewline (l ++ r) = l.length := by
  unfold untilNewline
  have htail : r.takeWhile (fun c => !isNewline c) = [] := by
    cases r with
    | nil => rfl
    | cons c r => simp [hr c (by simp)]
  rw [List.takeWhile_append_of_pos (fun c hc => by simp [hl c hc]), htail, List.append_nil]

/-- What the digits of a number are read back as, each one a character. -/
theorem foldl_digits (l : List Char) (init : Nat) (hl : ∀ c ∈ l, c.isDigit) :
    (l.map fun c => UInt8.ofNat c.toNat).foldl (fun n c => n * 10 + (c.toNat - 48)) init =
      Nat.ofDigitChars 10 l init := by
  induction l generalizing init with
  | nil => rfl
  | cons c l ih =>
    obtain ⟨hc, hl⟩ := List.forall_mem_cons.mp hl
    rw [List.map_cons, List.foldl_cons, ih _ hl, Nat.ofDigitChars_cons,
      (toNat_ofNat_digit hc).1, Nat.mul_comm]
    rfl

theorem foldl_toDigits (n : Nat) :
    ((Nat.toDigits 10 n).map fun c => UInt8.ofNat c.toNat).foldl
      (fun n c => n * 10 + (c.toNat - 48)) 0 = n := by
  have hdigits : ∀ c ∈ Nat.toDigits 10 n, c.isDigit :=
    fun c hc => Nat.isDigit_of_mem_toDigits (by decide) (by decide) hc
  exact (foldl_digits _ 0 hdigits).trans Nat.ofDigitChars_ten_toDigits

end Bytes
