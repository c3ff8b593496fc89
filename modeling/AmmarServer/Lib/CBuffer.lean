import Mathlib.Data.List.TakeWhile
import Mathlib.Data.UInt

/-! Character arrays and the C strings in them. An index past the end of the list reads as NUL and is
not written. -/

namespace CString

/-- `s[i]`. -/
def charAt (s : List UInt8) (i : Nat) : UInt8 := s.getD i 0

theorem charAt_eq {s : List UInt8} {i : Nat} (h : i < s.length) : charAt s i = s[i] := by
  rw [charAt, List.getD_eq_getElem?_getD, List.getElem?_eq_getElem h]
  rfl

/-- The string that a pointer points at, without its NUL. -/
def cstring (s : List UInt8) : List UInt8 := s.takeWhile (· ≠ 0)

def strlen (s : List UInt8) : Nat := (cstring s).length

theorem zero_notMem_cstring (s : List UInt8) : 0 ∉ cstring s := by
  intro h
  have hne := List.mem_takeWhile_imp h
  simp at hne

theorem cstring_append {s : List UInt8} (hs : 0 ∉ s) (rest : List UInt8) :
    cstring (s ++ 0 :: rest) = s := by
  have hall : ∀ c ∈ s, (decide (c ≠ 0)) = true := by
    intro c hc
    simp only [decide_eq_true_eq]
    rintro rfl
    exact hs hc
  rw [cstring, List.takeWhile_append_of_pos hall]
  simp

theorem cstring_of_notMem {s : List UInt8} (hs : 0 ∉ s) : cstring s = s := by
  apply List.takeWhile_eq_self_iff.mpr
  intro c hc
  simp only [decide_eq_true_eq]
  rintro rfl
  exact hs hc

theorem cstring_isPrefix (s : List UInt8) : cstring s <+: s := List.takeWhile_prefix _

theorem strlen_le (s : List UInt8) : strlen s ≤ s.length := (cstring_isPrefix s).length_le

theorem take_strlen (s : List UInt8) : s.take (strlen s) = cstring s :=
  (List.prefix_iff_eq_take.mp (cstring_isPrefix s)).symm

/-- A string ends at a NUL or at the end of the array. -/
theorem charAt_strlen (s : List UInt8) : charAt s (strlen s) = 0 := by
  induction s with
  | nil => rfl
  | cons c s ih =>
    by_cases hc : c = 0
    · simp [strlen, cstring, charAt, hc]
    · have hlen : strlen (c :: s) = strlen s + 1 := by simp [strlen, cstring, hc]
      rw [hlen]
      simpa [charAt] using ih

theorem charAt_of_lt {s : List UInt8} {i : Nat} (h : i < (cstring s).length) :
    charAt s i = (cstring s)[i] := by
  have hlt : i < s.length := h.trans_le (strlen_le s)
  rw [charAt_eq hlt]
  exact ((cstring_isPrefix s).getElem h).symm

/-- What stands in front of a NUL decides the string. -/
theorem cstring_eq_of_take {s t : List UInt8} (ht : 0 ∉ t) (htake : s.take t.length = t)
    (hend : charAt s t.length = 0) : cstring s = t := by
  rcases Nat.lt_or_ge t.length s.length with hlt | hge
  · have hsplit : s = t ++ 0 :: s.drop (t.length + 1) := by
      rw [charAt_eq hlt] at hend
      rw [← hend, ← List.drop_eq_getElem_cons hlt]
      conv_lhs => rw [← List.take_append_drop t.length s, htake]
    rw [hsplit, cstring_append ht]
  · rw [List.take_of_length_le hge] at htake
    rw [htake, cstring_of_notMem ht]

theorem cstring_eq_of_charAt {s t : List UInt8} (ht : 0 ∉ t)
    (h : ∀ j ≤ t.length, charAt s j = charAt t j) : cstring s = t := by
  induction t generalizing s with
  | nil =>
    have h0 := h 0 (Nat.zero_le _)
    cases s with
    | nil => rfl
    | cons d s =>
      have hd : d = 0 := h0
      simp [cstring, hd]
  | cons c t ih =>
    rw [List.mem_cons, not_or] at ht
    have h0 := h 0 (Nat.zero_le _)
    cases s with
    | nil => exact absurd h0 ht.1
    | cons d s =>
      obtain rfl : d = c := h0
      have hd : d ≠ 0 := fun hcon => ht.1 hcon.symm
      have htail : cstring s = t := ih ht.2 fun j hj => h (j + 1) (Nat.succ_le_succ hj)
      rw [cstring, List.takeWhile_cons_of_pos (by simpa using hd)]
      exact congrArg (d :: ·) htail

@[simp] theorem charAt_set_self {s : List UInt8} {i : Nat} (h : i < s.length) (c : UInt8) :
    charAt (s.set i c) i = c := by
  simp [charAt, h]

theorem charAt_of_length_le {s : List UInt8} {i : Nat} (h : s.length ≤ i) : charAt s i = 0 := by
  rw [charAt, List.getD_eq_getElem?_getD, List.getElem?_eq_none h]
  rfl

theorem charAt_set_of_ne {s : List UInt8} {i j : Nat} (h : i ≠ j) (c : UInt8) :
    charAt (s.set i c) j = charAt s j := by
  simp [charAt, List.getD_eq_getElem?_getD, h]

theorem charAt_drop (s : List UInt8) (i j : Nat) : charAt (s.drop i) j = charAt s (i + j) := by
  simp [charAt, List.getD_eq_getElem?_getD, List.getElem?_drop]

theorem take_succ_charAt {s : List UInt8} {i : Nat} (h : i < s.length) :
    s.take (i + 1) = s.take i ++ [charAt s i] := by
  rw [List.take_succ_eq_append_getElem h, charAt_eq h]

theorem take_succ_set {s : List UInt8} {i : Nat} (h : i < s.length) (c : UInt8) :
    (s.set i c).take (i + 1) = s.take i ++ [c] := by
  rw [take_succ_charAt (by rwa [List.length_set]), charAt_set_self h, List.take_set_of_le le_rfl]

theorem take_eq_of_charAt {s t : List UInt8} {n : Nat} (hlength : s.length = t.length)
    (h : ∀ j < n, charAt s j = charAt t j) : s.take n = t.take n := by
  apply List.ext_getElem
  · rw [List.length_take, List.length_take, hlength]
  · intro j hs ht
    rw [List.length_take] at hs ht
    have hj := h j (by omega)
    rw [charAt_eq (by omega), charAt_eq (by omega)] at hj
    rwa [List.getElem_take, List.getElem_take]

theorem drop_cstring {s : List UInt8} {i : Nat} (h : i < strlen s) :
    (cstring s).drop i = charAt s i :: (cstring s).drop (i + 1) := by
  rw [charAt_of_lt h]
  exact List.drop_eq_getElem_cons h

theorem charAt_cstring {s : List UInt8} {i : Nat} (h : i ≤ strlen s) :
    charAt (cstring s) i = charAt s i := by
  rcases Nat.lt_or_eq_of_le h with hlt | rfl
  · rw [charAt_of_lt hlt, charAt_eq hlt]
  · rw [charAt_strlen]
    exact charAt_of_length_le le_rfl

theorem charAt_map {f : UInt8 → UInt8} (hf : f 0 = 0) (s : List UInt8) (i : Nat) :
    charAt (s.map f) i = f (charAt s i) := by
  rcases Nat.lt_or_ge i s.length with hlt | hge
  · rw [charAt_eq hlt, charAt_eq (by rwa [List.length_map]), List.getElem_map]
  · rw [charAt_of_length_le hge, charAt_of_length_le (by rwa [List.length_map]), hf]

theorem charAt_append_left {s t : List UInt8} {i : Nat} (h : i < s.length) :
    charAt (s ++ t) i = charAt s i := by
  rw [charAt_eq h, charAt_eq (by rw [List.length_append]; omega), List.getElem_append_left h]

theorem charAt_ne_zero {s : List UInt8} {i : Nat} (h : i < strlen s) : charAt s i ≠ 0 := by
  intro hzero
  have hmem : charAt s i ∈ cstring s := by
    rw [charAt_of_lt h]
    exact List.getElem_mem h
  rw [hzero] at hmem
  exact zero_notMem_cstring s hmem

theorem exists_charAt_of_mem {s : List UInt8} {c : UInt8} (h : c ∈ s) :
    ∃ j < s.length, charAt s j = c := by
  obtain ⟨j, hj, rfl⟩ := List.mem_iff_getElem.mp h
  exact ⟨j, hj, charAt_eq hj⟩

theorem charAt_take {s : List UInt8} {i j : Nat} (h : j < i) :
    charAt (s.take i) j = charAt s j := by
  simp [charAt, List.getD_eq_getElem?_getD, h]

end CString
