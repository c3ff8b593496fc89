import AmmarServer.Lib.CString
import AmmarServer.Lib.TextFiles

/-! `InputParser/InputParser_C.c`: a string is cut into words at its delimeters. -/

namespace AmmarServer.InputParser
open Bytes CString TextFile

structure InputParserC where
  delimeters : List UInt8
  tokens_max : ℕ

def defaultDelimeter : ℕ → UInt8
  | 1 => 44
  | 2 => 61
  | 3 => 40
  | 4 => 41
  | _ => LF

def inputParserCreate (max_string_count max_delimeter_count : ℕ) : InputParserC where
  delimeters := (List.range max_delimeter_count).map defaultDelimeter
  tokens_max := max_string_count

/-- The loop of `InputParser_SeperateWords` with room for so many more words: `word` is what it has
seen of the next one, if it has begun. -/
def seperateFrom (delimeters : List UInt8) :
    ℕ → List UInt8 → Bool → List UInt8 → List (List UInt8)
  | 0, _, _, _ => []
  | _ + 1, word, begun, [] => if begun then [word] else []
  | room + 1, word, begun, c :: inpt =>
    if c ∈ delimeters then
      if begun then word :: seperateFrom delimeters room [] false inpt
      else seperateFrom delimeters (room + 1) [] false inpt
    else seperateFrom delimeters (room + 1) (word ++ [c]) true inpt

def inputParserSeperateWords (ipc : InputParserC) (inpt : List UInt8) : List (List UInt8) :=
  seperateFrom ipc.delimeters ipc.tokens_max [] false inpt

/-- What is in the buffer after `InputParser_GetWord`. -/
def inputParserGetWord (words : List (List UInt8)) (num : ℕ) (wheretostore : List UInt8)
    (storagesize : ℕ) : List UInt8 :=
  match words[num]? with
  | none => wheretostore
  | some word => if storagesize < word.length + 1 then wheretostore else word

def toupper (c : UInt8) : UInt8 := if 97 ≤ c ∧ c ≤ 122 then c - 32 else c

def inputParserWordCompareNoCaseAuto (words : List (List UInt8)) (num : ℕ) (word : List UInt8) :
    Bool :=
  (words[num]?.getD []).map toupper = word.map toupper

/-- What `Str2Int_internal` has made of the end of a word. -/
structure Str2Int where
  intresult : UInt32
  multiplier : UInt32
  trailing_sign_seek : Bool
  positive_number : Bool

def Str2Int.next (c : UInt8) (n : Str2Int) : Str2Int where
  intresult := if isDigit c then n.intresult + n.multiplier * (c - 48).toUInt32 else n.intresult
  multiplier := if isDigit c then n.multiplier * 10 else n.multiplier
  trailing_sign_seek := n.trailing_sign_seek && c != 43 && c != 45
  positive_number := n.positive_number && !(n.trailing_sign_seek && c == 45)

/-- As an `unsigned int`. -/
def str2Int (inpt : List UInt8) : UInt32 :=
  let n := inpt.foldr Str2Int.next ⟨0, 1, true, true⟩
  if n.positive_number then n.intresult else 0 - n.intresult

def inputParserGetWordInt (words : List (List UInt8)) (num : ℕ) : UInt32 :=
  (words[num]?).elim 0 str2Int

/-! Words that were printed are read back. -/

variable {delimeters : List UInt8}

theorem seperateFrom_word {word : List UInt8} (hword : ∀ c ∈ word, c ∉ delimeters) (room : ℕ)
    (begin_ : List UInt8) (begun : Bool) (rest : List UInt8) :
    seperateFrom delimeters (room + 1) begin_ begun (word ++ rest) =
      seperateFrom delimeters (room + 1) (begin_ ++ word) (begun || !word.isEmpty) rest := by
  induction word generalizing begin_ begun with
  | nil =>
    rw [List.append_nil, List.isEmpty_nil, Bool.not_true, Bool.or_false]
    rfl
  | cons c word ih =>
    obtain ⟨hc, hword⟩ := List.forall_mem_cons.mp hword
    rw [List.cons_append, seperateFrom, if_neg hc, ih hword, List.append_assoc]
    simp

theorem seperateFrom_cons {word : List UInt8} (hword : ∀ c ∈ word, c ∉ delimeters) (room : ℕ)
    {d : UInt8} (hd : d ∈ delimeters) (rest : List UInt8) :
    seperateFrom delimeters (room + 1) [] false (word ++ d :: rest) =
      if word = [] then seperateFrom delimeters (room + 1) [] false rest
      else word :: seperateFrom delimeters room [] false rest := by
  rw [seperateFrom_word hword, seperateFrom, if_pos hd]
  cases word with
  | nil => rfl
  | cons c word => rfl

theorem seperateFrom_no_delimeter {room : ℕ} {word : List UInt8} {begun : Bool}
    {inpt : List UInt8} (hword : ∀ c ∈ word, c ∉ delimeters) :
    ∀ w ∈ seperateFrom delimeters room word begun inpt, ∀ c ∈ w, c ∉ delimeters := by
  have hnil : ∀ c ∈ ([] : List UInt8), c ∉ delimeters := fun _ hc => absurd hc List.not_mem_nil
  induction inpt generalizing room word begun with
  | nil =>
    intro w hw
    cases room with
    | zero => cases hw
    | succ room =>
      rw [seperateFrom] at hw
      split at hw
      · rw [List.mem_singleton.mp hw]
        exact hword
      · cases hw
  | cons c inpt ih =>
    intro w hw
    cases room with
    | zero => cases hw
    | succ room =>
      rw [seperateFrom] at hw
      split at hw
      · split at hw
        · rcases List.mem_cons.mp hw with rfl | hw
          · exact hword
          · exact ih hnil w hw
        · exact ih hnil w hw
      · rename_i hc
        refine ih (fun d hd => ?_) w hw
        rcases List.mem_append.mp hd with hd | hd
        · exact hword d hd
        · rw [List.mem_singleton.mp hd]
          exact hc

theorem digit_facts {c : UInt8} (h : isDigit c = true) :
    (c - 48).toUInt32 = UInt32.ofNat (c.toNat - 48) ∧ c ≠ 43 ∧ c ≠ 45 := by
  revert c
  apply forall_byte
  decide +kernel

theorem str2Int_foldr {s : List UInt8} (hs : ∀ c ∈ s, isDigit c = true) :
    s.foldr Str2Int.next ⟨0, 1, true, true⟩ =
      ⟨UInt32.ofNat (s.foldl (fun n c => n * 10 + (c.toNat - 48)) 0), UInt32.ofNat (10 ^ s.length),
        true, true⟩ := by
  have hfold : ∀ (s : List UInt8) (n : ℕ), s.foldl (fun n c => n * 10 + (c.toNat - 48)) n =
      n * 10 ^ s.length + s.foldl (fun n c => n * 10 + (c.toNat - 48)) 0 := by
    intro s
    induction s with
    | nil => intro n; simp
    | cons c s ih =>
      intro n
      rw [List.foldl_cons, List.foldl_cons, ih, ih (0 * 10 + _), List.length_cons]
      ring
  induction s with
  | nil => rfl
  | cons c s ih =>
    obtain ⟨hc, hs⟩ := List.forall_mem_cons.mp hs
    obtain ⟨hvalue, hplus, hminus⟩ := digit_facts hc
    rw [List.foldr_cons, ih hs, List.foldl_cons, hfold s (0 * 10 + (c.toNat - 48)), List.length_cons,
      pow_succ]
    unfold Str2Int.next
    simp only [hc, if_true, hvalue, bne_iff_ne.mpr hplus, bne_iff_ne.mpr hminus,
      beq_eq_false_iff_ne.mpr hminus, Bool.and_true, Bool.and_false, Bool.not_false,
      Nat.zero_mul, Nat.zero_add, UInt32.ofNat_add, UInt32.ofNat_mul]
    congr 1
    rw [UInt32.add_comm, UInt32.mul_comm]

theorem str2Int_decimal (n : UInt32) : str2Int (decimal n.toNat) = n := by
  have hvalue : (decimal n.toNat).foldl (fun n c => n * 10 + (c.toNat - 48)) 0 = n.toNat :=
    foldl_toDigits n.toNat
  unfold str2Int
  rw [str2Int_foldr isDigit_decimal, hvalue]
  exact UInt32.ofNat_toNat

end AmmarServer.InputParser
