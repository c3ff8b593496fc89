import Mathlib.Data.List.Basic
import AmmarServer.Lib.TextFiles

/-! The conversions of `sscanf` one after the other: `%u` and the characters of the format, beside the
words of `%s`. -/

namespace TextFile
open Bytes

/-- `%u` for an `unsigned int` of 32 bits: the number and the text behind it. -/
def scanUnsigned (s : List UInt8) : Option (ℕ × List UInt8) :=
  let s := s.dropWhile isSpace
  let number := if s.head? = some 45 ∨ s.head? = some 43 then s.tail else s
  let length := (number.takeWhile isDigit).length
  if length = 0 then none else some (strtoul s % 2 ^ 32, number.drop length)

/-- A character of the format, and the text behind it. -/
def scanLiteral (c : UInt8) (s : List UInt8) : Option (List UInt8) :=
  match s with
  | [] => none
  | d :: s => if d = c then some s else none

theorem scanLiteral_cons (c : UInt8) (s : List UInt8) : scanLiteral c (c :: s) = some s := if_pos rfl

theorem strtoul_digits {s rest : List UInt8} (hne : s ≠ []) (hdigits : ∀ c ∈ s, isDigit c = true)
    (hvalue : digits s < 2 ^ 64) (hstop : ∀ c ∈ rest.head?, isDigit c = false) :
    strtoul (s ++ rest) = digits s := by
  obtain ⟨c, s, rfl⟩ := List.exists_cons_of_ne_nil hne
  obtain ⟨hspace, hminus, hplus, -⟩ := plain_of_isDigit (hdigits c (List.mem_cons_self ..))
  have hdrop : (c :: s ++ rest).dropWhile isSpace = c :: s ++ rest := by
    rw [List.cons_append, List.dropWhile_cons_of_neg (by simp [hspace])]
  have hhead : (c :: s ++ rest).head? = some c := rfl
  have hsame : digits (c :: s ++ rest) = digits (c :: s) := by
    unfold digits
    rw [takeWhile_append_stop hdigits hstop, List.takeWhile_eq_self_iff.mpr hdigits]
  unfold strtoul
  simp only [hdrop, hhead, Option.some.injEq, hminus, hplus, or_self, if_false, hsame]
  rw [if_neg (Nat.not_le_of_lt hvalue)]

/-- Spaces in front of a number are skipped. -/
theorem scanUnsigned_space {c : UInt8} (hc : isSpace c = true) (s : List UInt8) :
    scanUnsigned (c :: s) = scanUnsigned s := by
  unfold scanUnsigned
  rw [List.dropWhile_cons_of_pos hc]

theorem scanUnsigned_digits {s rest : List UInt8} (hne : s ≠ [])
    (hdigits : ∀ c ∈ s, isDigit c = true) (hvalue : digits s < 2 ^ 32)
    (hstop : ∀ c ∈ rest.head?, isDigit c = false) :
    scanUnsigned (s ++ rest) = some (digits s, rest) := by
  have hnumber := strtoul_digits hne hdigits (by omega) hstop
  have htake := takeWhile_append_stop hdigits hstop
  obtain ⟨c, s, rfl⟩ := List.exists_cons_of_ne_nil hne
  obtain ⟨hspace, hminus, hplus, -⟩ := plain_of_isDigit (hdigits c (List.mem_cons_self ..))
  have hdrop : (c :: s ++ rest).dropWhile isSpace = c :: s ++ rest := by
    rw [List.cons_append, List.dropWhile_cons_of_neg (by simp [hspace])]
  have hhead : (c :: s ++ rest).head? = some c := rfl
  unfold scanUnsigned
  simp only [hdrop, hhead, Option.some.injEq, hminus, hplus, or_self, if_false, htake, hnumber]
  rw [if_neg (by simp), Nat.mod_eq_of_lt hvalue, List.drop_left]

/-- `%0Nu`. -/
def paddedDecimal (width n : ℕ) : List UInt8 := (decimal n).leftpad width 48

theorem paddedDecimal_eq (width n : ℕ) :
    paddedDecimal width n = List.replicate (width - (decimal n).length) 48 ++ decimal n := rfl

theorem isDigit_paddedDecimal {width n : ℕ} : ∀ c ∈ paddedDecimal width n, isDigit c = true := by
  intro c hc
  rw [paddedDecimal_eq] at hc
  rcases List.mem_append.mp hc with hc | hc
  · rw [List.eq_of_mem_replicate hc]
    rfl
  · exact isDigit_decimal c hc

theorem paddedDecimal_ne_nil (width n : ℕ) : paddedDecimal width n ≠ [] := by
  rw [paddedDecimal_eq]
  exact List.append_ne_nil_of_right_ne_nil _ (decimal_ne_nil n)

/-- A number of no more digits than it is padded to. -/
theorem paddedDecimal_length {width n : ℕ} (hwidth : 0 < width) (hn : n < 10 ^ width) :
    (paddedDecimal width n).length = width := by
  have hlength := decimal_length hwidth hn
  rw [paddedDecimal_eq, List.length_append, List.length_replicate]
  omega

theorem digits_paddedDecimal (width n : ℕ) : digits (paddedDecimal width n) = n := by
  rw [paddedDecimal_eq, digits_zeros, digits_decimal]

end TextFile
