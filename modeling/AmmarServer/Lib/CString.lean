import Mathlib.Data.List.Infix
import Mathlib.Data.UInt

/-! The functions of `string.h` and `strings.h` over lists of bytes. A pointer is the list of the
bytes from it on, and what lies behind the end of the list reads as NUL. -/

namespace CString

/-- The byte a pointer points at. -/
def peek (s : List UInt8) : UInt8 := s.headD 0

/-- `tolower` in the C locale. -/
def toLower (c : UInt8) : UInt8 := if 65 ≤ c ∧ c ≤ 90 then c + 32 else c

/-- The bytes of a literal. -/
def ascii (s : String) : List UInt8 := s.toList.map fun c => UInt8.ofNat c.toNat

/-- `strncasecmp(s, t, n) == 0`. -/
def strncasecmpEq : List UInt8 → List UInt8 → Nat → Bool
  | _, _, 0 => true
  | s, t, n + 1 =>
    if toLower (peek s) ≠ toLower (peek t) then false
    else if peek s = 0 then true
    else strncasecmpEq s.tail t.tail n

/-- `memmem(s, .., t, ..) != 0`. -/
def memmem : List UInt8 → List UInt8 → Bool
  | [], t => t.isEmpty
  | c :: s, t => t.isPrefixOf (c :: s) || memmem s t

/-- Two spellings of one name. -/
def EqIgnoreCase (s t : List UInt8) : Prop := s.map toLower = t.map toLower

instance (s t : List UInt8) : Decidable (EqIgnoreCase s t) :=
  inferInstanceAs (Decidable (_ = _))

@[simp] theorem peek_nil : peek [] = 0 := rfl

@[simp] theorem peek_cons (c : UInt8) (s : List UInt8) : peek (c :: s) = c := rfl

theorem toLower_eq_zero_iff {c : UInt8} : toLower c = 0 ↔ c = 0 := by
  unfold toLower
  split
  · rename_i h
    have h1 : (65 : UInt8).toNat ≤ c.toNat := UInt8.le_iff_toNat_le.mp h.1
    have h2 : c.toNat ≤ (90 : UInt8).toNat := UInt8.le_iff_toNat_le.mp h.2
    simp only [← UInt8.toNat_inj, UInt8.toNat_add, UInt8.reduceToNat] at *
    omega
  · rfl

/-- Against a name without NUL the comparison reads exactly the length of the name. -/
theorem strncasecmpEq_iff {s t : List UInt8} (ht : ∀ c ∈ t, c ≠ 0) :
    strncasecmpEq s t t.length = true ↔ EqIgnoreCase (s.take t.length) t := by
  induction t generalizing s with
  | nil => simp [strncasecmpEq, EqIgnoreCase]
  | cons c t ih =>
    have hc : c ≠ 0 := ht c (List.mem_cons_self ..)
    have ih := fun s => ih (s := s) (fun d hd => ht d (List.mem_cons_of_mem _ hd))
    rw [List.length_cons, strncasecmpEq, peek_cons]
    cases s with
    | nil =>
      have : toLower c ≠ 0 := fun h => hc (toLower_eq_zero_iff.mp h)
      have h0 : toLower 0 = 0 := rfl
      simp [EqIgnoreCase, h0, this.symm]
    | cons d s =>
      rw [peek_cons, List.tail_cons, List.tail_cons, List.take_succ_cons]
      by_cases hd : toLower d = toLower c
      · have hne : d ≠ 0 := by
          rintro rfl
          exact hc (toLower_eq_zero_iff.mp hd.symm)
        simp [hd, hne, EqIgnoreCase, ih s]
      · simp [hd, EqIgnoreCase]

/-- A byte that the name does not have ends the comparison, whatever lies behind it. -/
theorem strncasecmpEq_append_iff {s behind t : List UInt8} (ht : ∀ c ∈ t, c ≠ 0)
    (hstop : ∀ c ∈ behind.head?, toLower c ∉ t.map toLower) :
    strncasecmpEq (s ++ behind) t t.length = true ↔ EqIgnoreCase (s.take t.length) t := by
  rw [strncasecmpEq_iff ht]
  rcases Nat.le_total t.length s.length with hle | hle
  · rw [List.take_append_of_le_length hle]
  cases behind with
  | nil => rw [List.append_nil]
  | cons c behind =>
    rcases Nat.eq_or_lt_of_le hle with heq | hlt
    · rw [List.take_append_of_le_length heq.ge]
    · refine iff_of_false (fun h => hstop c rfl ?_) (fun h => ?_)
      · rw [← h, List.take_append, List.map_append]
        refine List.mem_append_right _ (List.mem_map_of_mem ?_)
        rw [show t.length - s.length = (t.length - s.length - 1) + 1 by omega, List.take_succ_cons]
        exact List.mem_cons_self ..
      · have hlen := congrArg List.length h
        rw [List.length_map, List.length_map, List.length_take] at hlen
        omega

end CString
