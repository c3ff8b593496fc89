import Mathlib.Data.List.TakeDrop
import AmmarServer.Lib.CString
import AmmarServer.Lib.TextFiles
import AmmarServer.Lib.Rewriting

/-! UTF-8 as a coding of characters, and the functions of `ctype.h` on the bytes of a text, which see its
ASCII characters only. -/

namespace Utf8
open TextFile

theorem encodeChar_begins (c : Char) :
    ∃ unit rest, String.utf8EncodeChar c = unit :: rest ∧ unit.IsUTF8FirstByte ∧
      ∀ x ∈ rest, ¬ x.IsUTF8FirstByte := by
  obtain ⟨unit, rest, hcode⟩ := List.exists_cons_of_ne_nil (String.utf8EncodeChar_ne_nil (c := c))
  have hbyte : ∀ i (hi : i < (String.utf8EncodeChar c).length),
      ((String.utf8EncodeChar c)[i]).IsUTF8FirstByte ↔ i = 0 := fun i hi =>
    UInt8.isUTF8FirstByte_getElem_utf8EncodeChar
  refine ⟨unit, rest, hcode, ?_, fun x hx hfirst => ?_⟩
  · have hzero := (hbyte 0 (by rw [hcode]; exact Nat.succ_pos _)).mpr rfl
    simpa [hcode] using hzero
  · obtain ⟨i, hi, rfl⟩ := List.getElem_of_mem hx
    have hsucc := (hbyte (i + 1) (by rw [hcode]; exact Nat.succ_lt_succ hi)).mp
      (by simpa [hcode] using hfirst)
    exact Nat.succ_ne_zero i hsucc

theorem eq_of_encodeChar_prefix (c d : Char)
    (h : String.utf8EncodeChar c <+: String.utf8EncodeChar d) : c = d := by
  obtain ⟨rest, hrest⟩ := h
  have hc : ByteArray.utf8DecodeChar? (String.utf8EncodeChar d).toByteArray 0 = some c := by
    rw [← hrest, List.toByteArray_append]
    exact ByteArray.utf8DecodeChar?_utf8EncodeChar_append
  have hd : ByteArray.utf8DecodeChar? (String.utf8EncodeChar d).toByteArray 0 = some d := by
    have hself := @ByteArray.utf8DecodeChar?_utf8EncodeChar_append ByteArray.empty d
    rwa [ByteArray.append_empty] at hself
  exact Option.some.inj (hc.symm.trans hd)

def coding : Rewriting.Coding Char UInt8 where
  code := String.utf8EncodeChar
  first := UInt8.IsUTF8FirstByte
  begins := encodeChar_begins
  prefix_eq := eq_of_encodeChar_prefix

abbrev encode (s : List Char) : List UInt8 := coding.encode s

theorem encode_cons (c : Char) (s : List Char) :
    encode (c :: s) = String.utf8EncodeChar c ++ encode s := coding.encode_cons c s

theorem encode_concat (s : List Char) (c : Char) :
    encode (s ++ [c]) = encode s ++ String.utf8EncodeChar c := by
  have hsingle : encode [c] = String.utf8EncodeChar c := List.flatMap_singleton ..
  rw [← hsingle]
  exact coding.encode_append s [c]

/-! ASCII. -/

/-- A character is a byte, or all its bytes are above those. -/
theorem encodeChar_cases (c : Char) :
    (c.toNat < 128 ∧ String.utf8EncodeChar c = [UInt8.ofNat c.toNat]) ∨
      128 ≤ c.toNat ∧ ∀ x ∈ String.utf8EncodeChar c, 128 ≤ x := by
  have hhigh : ∀ n, n % 64 + 128 < 256 ∧ n % 32 + 192 < 256 ∧ n % 16 + 224 < 256 ∧
      n % 8 + 240 < 256 := fun n => by omega
  rcases Nat.lt_or_ge c.toNat 128 with hlt | hge
  · left
    refine ⟨hlt, ?_⟩
    unfold String.utf8EncodeChar
    exact if_pos (Nat.le_of_lt_succ hlt)
  · right
    refine ⟨hge, fun x hx => ?_⟩
    have hlong : ¬ c.val.toNat ≤ 0x7f := Nat.not_le.mpr (Nat.lt_of_succ_le hge)
    unfold String.utf8EncodeChar at hx
    dsimp only at hx
    rw [if_neg hlong] at hx
    rw [UInt8.le_iff_toNat_le]
    split at hx
    · simp only [List.mem_cons, List.not_mem_nil, or_false] at hx
      rcases hx with rfl | rfl
      · simp only [UInt8.toNat_ofNat', UInt8.reduceToNat]
        omega
      · simp only [UInt8.toNat_ofNat', UInt8.reduceToNat]
        omega
    · split at hx
      · simp only [List.mem_cons, List.not_mem_nil, or_false] at hx
        rcases hx with rfl | rfl | rfl
        · simp only [UInt8.toNat_ofNat', UInt8.reduceToNat]
          omega
        · simp only [UInt8.toNat_ofNat', UInt8.reduceToNat]
          omega
        · simp only [UInt8.toNat_ofNat', UInt8.reduceToNat]
          omega
      · simp only [List.mem_cons, List.not_mem_nil, or_false] at hx
        rcases hx with rfl | rfl | rfl | rfl
        · simp only [UInt8.toNat_ofNat', UInt8.reduceToNat]
          omega
        · simp only [UInt8.toNat_ofNat', UInt8.reduceToNat]
          omega
        · simp only [UInt8.toNat_ofNat', UInt8.reduceToNat]
          omega
        · simp only [UInt8.toNat_ofNat', UInt8.reduceToNat]
          omega

/-- The characters that `isspace` knows. -/
def isSpaceChar (c : Char) : Bool := decide (c.toNat = 32 ∨ 9 ≤ c.toNat ∧ c.toNat ≤ 13)

/-- The text without the white space at both ends. -/
def trim (s : List Char) : List Char := (s.dropWhile isSpaceChar).rdropWhile isSpaceChar

theorem trim_ends (s : List Char) :
    (∀ c ∈ (trim s).head?, isSpaceChar c = false) ∧
      ∀ c ∈ (trim s).getLast?, isSpaceChar c = false := by
  constructor
  · intro c hc
    have hleading : trim s <+: s.dropWhile isSpaceChar := List.rdropWhile_prefix ..
    have hhead : (s.dropWhile isSpaceChar).head? = some c := by
      obtain ⟨rest, hrest⟩ := hleading
      rw [← hrest, List.head?_append, hc]
      rfl
    have hnot := List.head?_dropWhile_not isSpaceChar s
    rw [hhead] at hnot
    exact hnot
  · intro c hc
    have hne : trim s ≠ [] := by
      intro hnil
      rw [hnil] at hc
      cases hc
    have hnot := List.rdropWhile_last_not isSpaceChar (s.dropWhile isSpaceChar) hne
    rw [List.getLast?_eq_some_getLast hne] at hc
    cases hc
    exact Bool.eq_false_of_not_eq_true hnot

theorem trim_eq_self {s : List Char} (hhead : ∀ c ∈ s.head?, isSpaceChar c = false)
    (hlast : ∀ c ∈ s.getLast?, isSpaceChar c = false) : trim s = s := by
  have hdrop : s.dropWhile isSpaceChar = s := by
    cases s with
    | nil => rfl
    | cons c s => exact List.dropWhile_cons_of_neg (by rw [hhead c rfl]; exact Bool.false_ne_true)
  unfold trim
  rw [hdrop, List.rdropWhile_eq_self_iff]
  intro hne
  rw [hlast _ (List.getLast?_eq_some_getLast hne)]
  exact Bool.false_ne_true

theorem isSpace_high {x : UInt8} (hx : 128 ≤ x) : isSpace x = false := by
  rw [UInt8.le_iff_toNat_le] at hx
  unfold isSpace
  rw [Bool.or_eq_false_iff, Bool.and_eq_false_iff, beq_eq_false_iff_ne, decide_eq_false_iff_not,
    decide_eq_false_iff_not, UInt8.le_iff_toNat_le, UInt8.le_iff_toNat_le, ← UInt8.toNat_inj.ne]
  simp only [UInt8.reduceToNat] at hx ⊢
  omega

theorem isSpace_ascii {c : Char} (hc : c.toNat < 128) :
    isSpace (UInt8.ofNat c.toNat) = isSpaceChar c := by
  have hnat : (UInt8.ofNat c.toNat).toNat = c.toNat := by
    rw [UInt8.toNat_ofNat']
    exact Nat.mod_eq_of_lt (by omega)
  unfold isSpace isSpaceChar
  rw [Bool.eq_iff_iff, Bool.or_eq_true, Bool.and_eq_true, beq_iff_eq, decide_eq_true_eq,
    decide_eq_true_eq, decide_eq_true_eq, UInt8.le_iff_toNat_le, UInt8.le_iff_toNat_le,
    ← UInt8.toNat_inj, hnat]
  rfl

theorem isSpaceChar_high {c : Char} (hc : 128 ≤ c.toNat) : isSpaceChar c = false := by
  unfold isSpaceChar
  rw [decide_eq_false_iff_not]
  omega

theorem dropWhile_encode (s : List Char) :
    (encode s).dropWhile isSpace = encode (s.dropWhile isSpaceChar) := by
  induction s with
  | nil => rfl
  | cons c s ih =>
    rw [encode_cons]
    rcases encodeChar_cases c with ⟨hc, hcode⟩ | ⟨hc, hbytes⟩
    · rw [hcode, List.singleton_append, List.dropWhile_cons, List.dropWhile_cons, isSpace_ascii hc]
      split
      · exact ih
      · rw [encode_cons, hcode, List.singleton_append]
    · obtain ⟨unit, rest, hcode⟩ := List.exists_cons_of_ne_nil (String.utf8EncodeChar_ne_nil (c := c))
      rw [hcode] at hbytes
      have hunit := isSpace_high (hbytes unit (List.mem_cons_self ..))
      rw [List.dropWhile_cons_of_neg (by rw [isSpaceChar_high hc]; exact Bool.false_ne_true), hcode,
        List.cons_append, List.dropWhile_cons_of_neg (by rw [hunit]; exact Bool.false_ne_true),
        encode_cons, hcode, List.cons_append]

theorem rdropWhile_encode (s : List Char) :
    (encode s).rdropWhile isSpace = encode (s.rdropWhile isSpaceChar) := by
  induction s using List.reverseRecOn with
  | nil => rfl
  | append_singleton s c ih =>
    rw [encode_concat]
    rcases encodeChar_cases c with ⟨hc, hcode⟩ | ⟨hc, hbytes⟩
    · rw [hcode, List.rdropWhile_concat, List.rdropWhile_concat, isSpace_ascii hc]
      split
      · exact ih
      · rw [encode_concat, hcode]
    · rw [List.rdropWhile_concat_neg _ _ _ (by rw [isSpaceChar_high hc]; exact Bool.false_ne_true),
        encode_concat, List.rdropWhile_eq_self_iff]
      intro hne
      rw [List.getLast_append_of_ne_nil _ (String.utf8EncodeChar_ne_nil (c := c)),
        isSpace_high (hbytes _ (List.getLast_mem _))]
      exact Bool.false_ne_true

theorem trim_encode (s : List Char) :
    ((encode s).dropWhile isSpace).rdropWhile isSpace = encode (trim s) := by
  rw [dropWhile_encode, rdropWhile_encode]
  rfl

theorem toLower_high {x : UInt8} (hx : 128 ≤ x) : CString.toLower x = x := by
  rw [UInt8.le_iff_toNat_le] at hx
  unfold CString.toLower
  refine if_neg fun h => ?_
  have hle := UInt8.le_iff_toNat_le.mp h.2
  simp only [UInt8.reduceToNat] at hx hle
  omega

theorem toLower_toNat (c : Char) :
    c.toLower.toNat = if 65 ≤ c.toNat ∧ c.toNat ≤ 90 then c.toNat + 32 else c.toNat := by
  by_cases h : 65 ≤ c.toNat ∧ c.toNat ≤ 90
  · have hval : c.val ≥ 'A'.val ∧ c.val ≤ 'Z'.val := h
    rw [if_pos h]
    show (dite (c.val ≥ 'A'.val ∧ c.val ≤ 'Z'.val) _ _ : Char).toNat = _
    rw [dif_pos hval]
    change (c.val + 32).toNat = _
    rw [UInt32.toNat_add]
    exact Nat.mod_eq_of_lt (Nat.lt_of_le_of_lt (Nat.add_le_add_right h.2 32) (by decide))
  · have hval : ¬ (c.val ≥ 'A'.val ∧ c.val ≤ 'Z'.val) := h
    rw [if_neg h]
    show (dite (c.val ≥ 'A'.val ∧ c.val ≤ 'Z'.val) _ _ : Char).toNat = _
    rw [dif_neg hval]

theorem encodeChar_toLower (c : Char) :
    (String.utf8EncodeChar c).map CString.toLower = String.utf8EncodeChar c.toLower := by
  have hlower := toLower_toNat c
  rcases encodeChar_cases c with ⟨hc, hcode⟩ | ⟨hc, hbytes⟩
  · have hnat : (UInt8.ofNat c.toNat).toNat = c.toNat := by
      rw [UInt8.toNat_ofNat']
      exact Nat.mod_eq_of_lt (by omega)
    rcases encodeChar_cases c.toLower with ⟨-, hcode'⟩ | ⟨hc', -⟩
    · have hbounds : 65 ≤ UInt8.ofNat c.toNat ∧ UInt8.ofNat c.toNat ≤ 90 ↔
          65 ≤ c.toNat ∧ c.toNat ≤ 90 := by
        rw [UInt8.le_iff_toNat_le, UInt8.le_iff_toNat_le, hnat]
        rfl
      rw [hcode, hcode', List.map_singleton, hlower]
      unfold CString.toLower
      by_cases h : 65 ≤ c.toNat ∧ c.toNat ≤ 90
      · rw [if_pos (hbounds.mpr h), if_pos h, UInt8.ofNat_add]
        rfl
      · rw [if_neg (fun hle => h (hbounds.mp hle)), if_neg h]
    · split at hlower
      · omega
      · omega
  · have hsame : c.toLower = c := by
      refine Char.toNat_inj.mp ?_
      rw [hlower, if_neg (by omega)]
    rw [hsame]
    refine (List.map_congr_left fun x hx => toLower_high (hbytes x hx)).trans ?_
    exact List.map_id'' (fun _ => rfl) _

theorem map_toLower_encode (s : List Char) :
    (encode s).map CString.toLower = encode (s.map Char.toLower) := by
  induction s with
  | nil => rfl
  | cons c s ih => rw [List.map_cons, encode_cons, encode_cons, List.map_append, ih, encodeChar_toLower]

end Utf8
