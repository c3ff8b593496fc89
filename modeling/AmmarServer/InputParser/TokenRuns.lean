import AmmarServer.Lib.Run
import AmmarServer.InputParser.TokenTable

/-! A parser that is handed one string after another. What its accessors return is about the last
string, unless that one was empty: then the words of the one before it are still there. -/

namespace AmmarServer.InputParser
open Bytes TextFile

/-! Histories. -/

inductive Call
  | setDelimeter (num : ℤ) (tmp : UInt8)
  | seperateWords (inpt : Option (List UInt8)) (keepcopy : UInt8) (memory : Bool)
  /-- The caller writes other bytes into the string that it handed over. -/
  | change (str : List UInt8)
  | getWord (num : ℕ) (wheretostore : List UInt8) (storagesize : ℕ)
  | getWordLength (num : ℕ)
  | isEmptyWord (num : ℕ)
  | getWordInt (num : ℕ)
deriving DecidableEq, Repr

inductive Answer
  | done
  | number (n : ℕ)
  | int (n : Int32)
  | word (length : ℕ) (wheretostore : List UInt8)
  | empty (answer : Bool)
deriving DecidableEq

def Ipc.change (ipc : Ipc) (str : List UInt8) : Ipc :=
  if ipc.local_allocation then ipc else { ipc with str := ipc.str.map fun _ => str }

def call (ipc : Ipc) : Call → Except Fault (Answer × Ipc)
  | .setDelimeter num tmp => (ipc.setDelimeter num tmp).map fun ipc => (.done, ipc)
  | .seperateWords inpt keepcopy memory =>
    (ipc.seperateWords inpt keepcopy memory).map fun (n, ipc) => (.int n, ipc)
  | .change str => .ok (.done, ipc.change str)
  | .getWord num wheretostore storagesize =>
    (ipc.getWord num wheretostore storagesize).map fun (length, wheretostore) =>
      (.word length wheretostore, ipc)
  | .getWordLength num => (ipc.getWordLength num).map fun n => (.number n, ipc)
  | .isEmptyWord num => (ipc.isEmptyWord num).map fun answer => (.empty answer, ipc)
  | .getWordInt num => (ipc.getWordInt num).map fun n => (.int n, ipc)

/-- The first `tokens_max` runs of bytes that are no delimeters. -/
def Ipc.wordsOf (ipc : Ipc) (inpt : Option (List UInt8)) : List (List UInt8) :=
  (pieces ipc.delimeters (inpt.getD [])).take ipc.tokens_max

/-- A parser with the words of the string that it was handed last. -/
structure Reading where
  ipc : Ipc
  words : List (List UInt8)

def start (max_string_count max_delimiter_count : ℕ) (garbage : ℕ → Tokens) : Reading where
  ipc := ipcCreate max_string_count max_delimiter_count garbage
  words := []

/-- What is noted beside a call that was answered. -/
def noted (r : Reading) (ipc : Ipc) : Call → Reading
  | .seperateWords inpt _ _ => { ipc, words := r.ipc.wordsOf inpt }
  | _ => { r with ipc }

def step (s : Except Fault Reading) (c : Call) : Except Fault Reading :=
  s.bind fun r => (call r.ipc c).map fun (_, ipc) => noted r ipc c

/-- The text of an `int`. -/
def decimalInt (n : Int32) : List UInt8 :=
  if n.toInt < 0 then 45 :: decimal n.toInt.natAbs else decimal n.toInt.natAbs

/-- What a call is to answer about the words. -/
def Answers (r : Reading) : Call → Answer → Prop
  | .setDelimeter _ _, a => a = .done
  | .change _, a => a = .done
  | .seperateWords inpt _ _, a => ∃ n : Int32, a = .int n ∧ n.toInt = (r.ipc.wordsOf inpt).length
  | .getWord num wheretostore storagesize, a =>
    a = (r.words[num]?).elim (.word 0 wheretostore) fun word =>
      if storagesize < word.length + 1 then .word 0 wheretostore
      else .word word.length (word ++ 0 :: wheretostore.drop (word.length + 1))
  | .getWordLength num, a => a = .number ((r.words[num]?).elim 0 List.length)
  | .isEmptyWord num, a => a = .empty ((r.words[num]?).elim true fun word => word.all isBlank)
  | .getWordInt num, a =>
    ∃ n : Int32, a = .int n ∧ (r.words[num]? = none → n = 0) ∧
      ∀ m, r.words[num]? = some (decimalInt m) → n = m

/-- The call returns what it is to answer. -/
def Right (s : Except Fault Reading) (c : Call) : Prop :=
  ∃ r a ipc, s = .ok r ∧ call r.ipc c = .ok (a, ipc) ∧ Answers r c a

/-- The condition on a call in the state that it comes to. -/
def Meets (s : Except Fault Reading) (c : Call) : Prop :=
  ∃ r, s = .ok r ∧
    match c with
    | .setDelimeter num _ => 0 ≤ num
    | .seperateWords inpt keepcopy memory =>
      (inpt.getD []).length < 2 ^ 32 ∧ (inpt.getD [] = [] → r.ipc.tokens_count = 0) ∧
        (keepcopy = 1 → memory = true ∨ r.ipc.wordsOf inpt = []) ∧
        (r.ipc.wordsOf inpt).length < 2 ^ 31
    | .change _ => r.ipc.local_allocation = true ∨ r.ipc.tokens_count = 0
    | .getWord num wheretostore storagesize =>
      storagesize ≤ wheretostore.length ∧ ∀ word ∈ r.words[num]?, word.length + 1 < 2 ^ 32
    | .getWordInt num =>
      ∀ m ≠ 0, r.words[num]? = some (decimalInt m) →
        ∀ t ∈ r.ipc.tokenlist[num]?, t.token_start + t.length ≤ 2 ^ 31
    | _ => True

/-! Each call. -/

/-- The token list is that of the words. -/
structure Holds (ipc : Ipc) (words : List (List UInt8)) : Prop where
  size : ipc.tokenlist.length = ipc.tokens_max + 1
  count_le : ipc.tokens_count ≤ ipc.tokens_max
  count : ipc.tokens_count = words.length
  ne_nil : ∀ word ∈ words, word ≠ []
  token : ∀ (num : ℕ) word, words[num]? = some word → ∃ (t : Tokens) (str : List UInt8),
    ipc.tokenlist[num]? = some t ∧ ipc.str = some str ∧ t.IsWord str word ∧ t.token_start + t.length < 2 ^ 32

theorem Tokens.IsWord.length_eq {str word : List UInt8} {t : Tokens} (h : t.IsWord str word) :
    t.length = word.length := by
  rw [← h.2, List.length_take, List.length_drop]
  have hle := h.1
  omega

namespace Holds
variable {ipc : Ipc} {words : List (List UInt8)}

theorem of_forall₂ {str : List UInt8} {closed behind : List Tokens} (hstr : str.length < 2 ^ 32)
    (hlist : ipc.tokenlist = closed ++ behind) (hsize : ipc.tokenlist.length = ipc.tokens_max + 1)
    (hle : closed.length ≤ ipc.tokens_max) (hcount : ipc.tokens_count = closed.length)
    (hipc : ∃ more, ipc.str = some (str ++ more))
    (hclosed : List.Forall₂ (Tokens.IsWord str) closed words) (hne : ∀ word ∈ words, word ≠ []) :
    Holds ipc words := by
  obtain ⟨more, hmore⟩ := hipc
  refine ⟨hsize, hcount.trans_le hle, hcount.trans hclosed.length_eq, hne, fun num word hword => ?_⟩
  obtain ⟨hlt, rfl⟩ := List.getElem?_eq_some_iff.mp hword
  have hnum : num < closed.length := hclosed.length_eq ▸ hlt
  have hplace : (closed[num]).IsWord str words[num] := hclosed.get hnum hlt
  refine ⟨closed[num], str ++ more, ?_, hmore, ⟨?_, ?_⟩, hplace.1.trans_lt hstr⟩
  · rw [hlist, List.getElem?_append_left hnum, List.getElem?_eq_getElem hnum]
  · rw [List.length_append]
    exact hplace.1.trans (Nat.le_add_right _ _)
  · have hstart : closed[num].token_start ≤ str.length :=
      (Nat.le_add_right _ _).trans hplace.1
    rw [List.drop_append_of_le_length hstart, List.take_append_of_le_length, hplace.2]
    rw [List.length_drop]
    exact Nat.le_sub_of_add_le' hplace.1

theorem onToken_some {α : Type} (h : Holds ipc words) {num : ℕ} {word : List UInt8}
    (hword : words[num]? = some word) (absent : α) (f : Tokens → Except Fault α) :
    ∃ t str, ipc.tokenlist[num]? = some t ∧ ipc.str = some str ∧ t.IsWord str word ∧
      t.token_start + t.length < 2 ^ 32 ∧ ipc.onToken num absent f = f t := by
  obtain ⟨t, str, ht, hstr, hplace, hlt⟩ := h.token num word hword
  refine ⟨t, str, ht, hstr, hplace, hlt, ?_⟩
  have hnum : num < ipc.tokens_count := h.count ▸ (List.getElem?_eq_some_iff.mp hword).1
  unfold Ipc.onToken
  rw [if_pos ⟨Nat.not_lt_of_le h.count_le, hnum⟩, ht, Option.elim_some]

theorem onToken_none {α : Type} (h : Holds ipc words) {num : ℕ} (hword : words[num]? = none)
    (absent : α) (f : Tokens → Except Fault α) : ipc.onToken num absent f = .ok absent := by
  have hle : words.length ≤ num := List.getElem?_eq_none_iff.mp hword
  unfold Ipc.onToken
  exact if_neg fun hok => absurd (h.count ▸ hok.2) (Nat.not_lt_of_le hle)

theorem getWord (h : Holds ipc words) {num storagesize : ℕ} {wheretostore : List UInt8}
    (hsize : storagesize ≤ wheretostore.length)
    (hword : ∀ word ∈ words[num]?, word.length + 1 < 2 ^ 32) :
    ipc.getWord num wheretostore storagesize =
      .ok ((words[num]?).elim (0, wheretostore) fun word =>
        if storagesize < word.length + 1 then (0, wheretostore)
        else (word.length, word ++ 0 :: wheretostore.drop (word.length + 1))) := by
  unfold Ipc.getWord
  cases hnum : words[num]? with
  | none => exact h.onToken_none hnum _ _
  | some word =>
    obtain ⟨t, str, -, hstr, hplace, -, heq⟩ := h.onToken_some hnum (0, wheretostore) fun t =>
      if storagesize < (t.length + 1) % 2 ^ 32 then .ok (0, wheretostore)
      else
        (ipc.tokenText t).bind fun text =>
          if wheretostore.length < text.length + 1 then .error .outOfBounds
          else .ok (t.length, text ++ 0 :: wheretostore.drop (text.length + 1))
    have htext : ipc.tokenText t = .ok word := by
      unfold Ipc.tokenText
      rw [hstr, Option.elim_some, if_pos hplace.1, hplace.2]
    rw [heq, Option.elim_some, hplace.length_eq, Nat.mod_eq_of_lt (hword word hnum), htext]
    by_cases hroom : storagesize < word.length + 1
    · rw [if_pos hroom, if_pos hroom]
    · rw [if_neg hroom, if_neg hroom]
      exact if_neg (Nat.not_lt_of_le ((Nat.le_of_not_lt hroom).trans hsize))

theorem getWordLength (h : Holds ipc words) (num : ℕ) :
    ipc.getWordLength num = .ok ((words[num]?).elim 0 List.length) := by
  unfold Ipc.getWordLength
  cases hnum : words[num]? with
  | none => exact h.onToken_none hnum _ _
  | some word =>
    obtain ⟨t, str, -, -, hplace, -, heq⟩ := h.onToken_some hnum 0 fun t => .ok t.length
    rw [heq, Option.elim_some, hplace.length_eq]

theorem isEmptyWord (h : Holds ipc words) (num : ℕ) :
    ipc.isEmptyWord num = .ok ((words[num]?).elim true fun word => word.all isBlank) := by
  unfold Ipc.isEmptyWord
  cases hnum : words[num]? with
  | none => exact h.onToken_none hnum _ _
  | some word =>
    obtain ⟨t, str, -, hstr, hplace, -, heq⟩ := h.onToken_some hnum true fun t =>
      if t.length = 0 then .ok true else (ipc.tokenText t).map fun text => text.all isBlank
    have htext : ipc.tokenText t = .ok word := by
      unfold Ipc.tokenText
      rw [hstr, Option.elim_some, if_pos hplace.1, hplace.2]
    rw [heq, Option.elim_some, hplace.length_eq, htext]
    cases word with
    | nil => rfl
    | cons c word => exact if_neg (Nat.succ_ne_zero _)

theorem wordCompareNoCaseAuto (h : Holds ipc words) (num : ℕ) {word : List UInt8}
    (hpos : 0 < word.length) (hlength : word.length < 2 ^ 32) :
    ipc.wordCompareNoCaseAuto num word =
      .ok ((words[num]?).elim false fun w => w.map toupper == word.map toupper) := by
  unfold Ipc.wordCompareNoCaseAuto Ipc.wordCompareNoCase
  rw [Nat.mod_eq_of_lt hlength, h.getWordLength num]
  show (if word.length ≠ _ then _ else _) = _
  cases hnum : words[num]? with
  | none => exact if_pos (Nat.ne_of_gt hpos)
  | some w =>
    rw [Option.elim_some, Option.elim_some]
    by_cases hsame : word.length = w.length
    · obtain ⟨t, str, ht, hstr, hplace, -⟩ := h.token num w hnum
      have htext : ipc.tokenText t = .ok w := by
        unfold Ipc.tokenText
        rw [hstr, Option.elim_some, if_pos hplace.1, hplace.2]
      rw [if_neg (not_not.mpr hsame), if_neg (Nat.ne_of_gt hpos), ht, Option.elim_some, htext]
      rfl
    · have hne : ¬w.map toupper = word.map toupper := by
        intro heq
        have hlengths := congrArg List.length heq
        rw [List.length_map, List.length_map] at hlengths
        exact hsame hlengths.symm
      rw [if_pos hsame, beq_eq_false_iff_ne.mpr hne]

end Holds

/-! The text of an `int`. -/

theorem toBitVec_eq_of_toInt {n : Int32} {m : ℤ} (h : n.toInt = m) :
    n.toBitVec = BitVec.ofInt 32 m := by
  rw [← h]
  exact (BitVec.ofInt_toInt).symm

theorem str2Int_decimalInt (n : Int32) : (str2Int (decimalInt n)).toInt32 = n := by
  have hmagnitude : ∀ m : ℕ, (decimal m).foldr Str2Int.next ⟨0, 1, true, true⟩ =
      ⟨UInt32.ofNat m, UInt32.ofNat (10 ^ (decimal m).length), true, true⟩ := by
    intro m
    rw [str2Int_foldr isDigit_decimal]
    have hvalue : (decimal m).foldl (fun n c => n * 10 + (c.toNat - 48)) 0 = m := foldl_toDigits m
    rw [hvalue]
  unfold decimalInt
  by_cases hneg : n.toInt < 0
  · have hint : n.toInt = -(n.toInt.natAbs : ℤ) := by omega
    have hvalue : str2Int (45 :: decimal n.toInt.natAbs) = 0 - UInt32.ofNat n.toInt.natAbs := by
      unfold str2Int
      rw [List.foldr_cons, hmagnitude]
      rfl
    rw [if_pos hneg, hvalue]
    apply Int32.toBitVec_inj.mp
    rw [toBitVec_eq_of_toInt hint, BitVec.ofInt_neg, BitVec.ofInt_natCast]
    show (0 : BitVec 32) - BitVec.ofNat 32 n.toInt.natAbs = _
    exact BitVec.zero_sub _
  · have hint : n.toInt = (n.toInt.natAbs : ℤ) := by omega
    have hvalue : str2Int (decimal n.toInt.natAbs) = UInt32.ofNat n.toInt.natAbs := by
      unfold str2Int
      rw [hmagnitude]
      rfl
    rw [if_neg hneg, hvalue]
    apply Int32.toBitVec_inj.mp
    rw [toBitVec_eq_of_toInt hint, BitVec.ofInt_natCast]
    rfl

/-- `Str2Int_internal` of a word that ends within what an `int` can number. -/
theorem str2IntInternal_word {str word : List UInt8} {t : Tokens} (hplace : t.IsWord str word)
    (hne : word ≠ []) (hend : t.token_start + t.length ≤ 2 ^ 31) :
    str2IntInternal (some str) t.token_start t.length = .ok (str2Int word).toInt32 := by
  have hpos : 0 < t.length := hplace.length_eq ▸ List.length_pos_of_ne_nil hne
  have hlast : (((t.token_start + t.length : ℕ) : ℤ) - 1).bmod (2 ^ 32) =
      (t.token_start + t.length : ℕ) - 1 := by
    apply Int.bmod_eq_of_le <;> omega
  have hfirst : (t.token_start : ℤ).bmod (2 ^ 32) = t.token_start := by
    apply Int.bmod_eq_of_le <;> omega
  have hinside := hplace.1
  unfold str2IntInternal
  simp only [Option.elim_some, hlast, hfirst]
  have hread : ¬((t.token_start : ℤ) ≤ (t.token_start + t.length : ℕ) - 1 ∧
      (str.length : ℤ) ≤ (t.token_start + t.length : ℕ) - 1) := by omega
  have hlength : (((t.token_start + t.length : ℕ) : ℤ) - 1 + 1).toNat - t.token_start =
      t.length := by omega
  rw [if_neg hread, Int.toNat_natCast, List.drop_take, hlength, hplace.2]

theorem str2IntInternal_behind {str : List UInt8} {t : Tokens}
    (hend : 2 ^ 31 < t.token_start + t.length) (hlt : t.token_start + t.length < 2 ^ 32) :
    str2IntInternal (some str) t.token_start t.length = .ok 0 := by
  have hlast : (((t.token_start + t.length : ℕ) : ℤ) - 1).bmod (2 ^ 32) =
      (t.token_start + t.length : ℕ) - 1 - 2 ^ 32 := by
    rw [← Int.sub_bmod_right]
    apply Int.bmod_eq_of_le <;> omega
  unfold str2IntInternal
  simp only [Option.elim_some, hlast]
  have hread : ¬((t.token_start : ℤ).bmod (2 ^ 32) ≤ (t.token_start + t.length : ℕ) - 1 - 2 ^ 32 ∧
      (str.length : ℤ) ≤ (t.token_start + t.length : ℕ) - 1 - 2 ^ 32) := by omega
  have hnone : (((t.token_start + t.length : ℕ) : ℤ) - 1 - 2 ^ 32 + 1).toNat = 0 := by omega
  rw [if_neg hread, hnone, List.take_zero, List.drop_nil]
  rfl

theorem Holds.getWordInt {ipc : Ipc} {words : List (List UInt8)} (h : Holds ipc words) {num : ℕ}
    (hend : ∀ m ≠ 0, words[num]? = some (decimalInt m) →
      ∀ t ∈ ipc.tokenlist[num]?, t.token_start + t.length ≤ 2 ^ 31) :
    ∃ n : Int32, ipc.getWordInt num = .ok n ∧ (words[num]? = none → n = 0) ∧
      ∀ m, words[num]? = some (decimalInt m) → n = m := by
  unfold Ipc.getWordInt
  cases hnum : words[num]? with
  | none => exact ⟨0, h.onToken_none hnum _ _, fun _ => rfl, fun m hm => (by cases hm)⟩
  | some word =>
    obtain ⟨t, str, ht, hstr, hplace, hlt, heq⟩ := h.onToken_some hnum 0 fun t =>
      str2IntInternal ipc.str t.token_start t.length
    rw [heq, hstr]
    by_cases hinside : t.token_start + t.length ≤ 2 ^ 31
    · have hword := str2IntInternal_word hplace (h.ne_nil word (List.mem_of_getElem? hnum)) hinside
      refine ⟨_, hword, fun hnone => (by cases hnone), fun m hm => ?_⟩
      rw [Option.some.inj hm, str2Int_decimalInt]
    · -- Nothing is read of the word, which is right for a zero only.
      refine ⟨0, str2IntInternal_behind (Nat.lt_of_not_le hinside) hlt,
        fun hnone => (by cases hnone), fun m hm => ?_⟩
      by_contra hzero
      exact hinside (hend m (Ne.symm hzero) (hnum.trans hm) t ht)

/-! A string that is taken apart. -/

theorem wordsOf_ne_nil (ipc : Ipc) (inpt : Option (List UInt8)) :
    ∀ word ∈ ipc.wordsOf inpt, word ≠ [] :=
  fun _ hword => (piece_no_delimeter (List.mem_of_mem_take hword)).1

theorem seperate_holds {ipc : Ipc} {inpt : List UInt8} (hsize : ipc.tokenlist.length = ipc.tokens_max + 1)
    (hlength : inpt.length < 2 ^ 32) (hstr : ipc.str = some inpt)
    (hwords : (ipc.wordsOf (some inpt)).length < 2 ^ 31) :
    ∃ (n : Int32) (ipc' : Ipc), ipc.seperate inpt = .ok (n, ipc') ∧
      n.toInt = (ipc.wordsOf (some inpt)).length ∧ Holds ipc' (ipc.wordsOf (some inpt)) ∧
      ipc'.toInputParserC = ipc.toInputParserC := by
  obtain ⟨t, garbage, hlist⟩ : ∃ t garbage, ipc.tokenlist = t :: garbage :=
    List.exists_cons_of_length_eq_add_one hsize
  have hgarbage : garbage.length = ipc.tokens_max := by
    rw [hlist, List.length_cons] at hsize
    exact Nat.succ.inj hsize
  obtain ⟨closed, t', garbage', begun, hloop, hcount, hclosed⟩ :=
    @finish_seperateLoop ipc.delimeters inpt hlength inpt [] garbage []
      { t with token_start := 0 } [] [] rfl rfl .nil
  rw [List.nil_append, hgarbage] at hclosed
  simp only [List.length_nil, Nat.zero_add, hgarbage] at hloop hcount
  have hfound : seperateFrom ipc.delimeters ipc.tokens_max [] false inpt =
      ipc.wordsOf (some inpt) := seperateFrom_eq inpt ipc.tokens_max
  rw [List.isEmpty_nil, Bool.not_true, hfound] at hclosed
  refine ⟨Int32.ofNat closed.length,
    { ipc with tokenlist := closed ++ t' :: garbage', tokens_count := closed.length },
    ?_, ?_, ?_, rfl⟩
  · have hstart := setToken_append [] t garbage fun t => { t with token_start := 0 }
    unfold Ipc.seperate
    rw [hlist]
    rw [List.nil_append, List.length_nil, List.nil_append] at hstart
    rw [hstart]
    show (Except.bind _ _).map _ = _
    rw [List.nil_append] at hloop
    rw [← Bool.not_true, ← List.isEmpty_nil, hloop]
    rfl
  · rw [hclosed.length_eq]
    exact Int32.toInt_ofNat_of_lt hwords
  · refine Holds.of_forall₂ hlength rfl ?_ (Nat.le.intro hcount) rfl ⟨[], ?_⟩ hclosed
      (wordsOf_ne_nil ipc (some inpt))
    · show (closed ++ t' :: garbage').length = ipc.tokens_max + 1
      rw [List.length_append, List.length_cons, ← Nat.add_assoc, hcount]
    · rw [List.append_nil]
      exact hstr

namespace Holds
variable {ipc : Ipc} {words : List (List UInt8)}

theorem nil (hsize : ipc.tokenlist.length = ipc.tokens_max + 1) (hcount : ipc.tokens_count = 0) :
    Holds ipc [] :=
  ⟨hsize, hcount ▸ Nat.zero_le _, hcount, fun _ hword => absurd hword List.not_mem_nil,
    fun _ _ hword => (by cases hword)⟩

theorem words_eq_nil (h : Holds ipc words) (hcount : ipc.tokens_count = 0) : words = [] :=
  List.eq_nil_of_length_eq_zero (h.count.symm.trans hcount)

theorem seperateWords (h : Holds ipc words) {inpt : Option (List UInt8)} {keepcopy : UInt8}
    {memory : Bool} (hlength : (inpt.getD []).length < 2 ^ 32)
    (hempty : inpt.getD [] = [] → ipc.tokens_count = 0)
    (hmemory : keepcopy = 1 → memory = true ∨ ipc.wordsOf inpt = [])
    (hwords : (ipc.wordsOf inpt).length < 2 ^ 31) :
    ∃ (n : Int32) (ipc' : Ipc), ipc.seperateWords inpt keepcopy memory = .ok (n, ipc') ∧
      n.toInt = (ipc.wordsOf inpt).length ∧ Holds ipc' (ipc.wordsOf inpt) ∧
      ipc'.toInputParserC = ipc.toInputParserC := by
  have hnone : inpt.getD [] = [] → ipc.wordsOf inpt = [] ∧ Holds ipc [] := by
    intro hnil
    unfold Ipc.wordsOf
    rw [hnil, pieces_nil, List.take_nil]
    exact ⟨rfl, .nil h.size (hempty hnil)⟩
  unfold Ipc.seperateWords
  rw [if_neg (Nat.not_lt_of_le h.count_le)]
  cases inpt with
  | none =>
    obtain ⟨hnil, hholds⟩ := hnone rfl
    rw [hnil]
    exact ⟨0, ipc, rfl, rfl, hholds, rfl⟩
  | some inpt =>
    rw [Option.getD_some] at hlength hempty hnone
    simp only
    rw [Nat.mod_eq_of_lt hlength, List.take_length]
    by_cases hzero : inpt.length = 0
    · obtain ⟨hnil, hholds⟩ := hnone (List.eq_nil_of_length_eq_zero hzero)
      rw [if_pos hzero, hnil]
      exact ⟨0, ipc, rfl, rfl, hholds, rfl⟩
    rw [if_neg hzero]
    by_cases hcopy : keepcopy = 1
    · rw [if_pos hcopy]
      cases memory with
      | true => exact seperate_holds h.size hlength rfl hwords
      | false =>
        have hnil : ipc.wordsOf (some inpt) = [] := (hmemory hcopy).resolve_left Bool.false_ne_true
        rw [hnil]
        exact ⟨0, _, rfl, rfl, .nil h.size rfl, rfl⟩
    · rw [if_neg hcopy]
      exact seperate_holds h.size hlength rfl hwords

theorem setDelimeter (h : Holds ipc words) {num : ℤ} (hnum : 0 ≤ num) (tmp : UInt8) :
    ∃ ipc', ipc.setDelimeter num tmp = .ok ipc' ∧ Holds ipc' words := by
  unfold Ipc.setDelimeter
  split_ifs with hbehind hneg
  · exact ⟨ipc, rfl, h⟩
  · exact absurd hneg (not_lt_of_ge hnum)
  · exact ⟨_, rfl, h.size, h.count_le, h.count, h.ne_nil, h.token⟩

theorem change (h : Holds ipc words) {str : List UInt8}
    (hown : ipc.local_allocation = true ∨ ipc.tokens_count = 0) : Holds (ipc.change str) words := by
  unfold Ipc.change
  split_ifs with hlocal
  · exact h
  · have hcount := hown.resolve_left hlocal
    rw [h.words_eq_nil hcount]
    exact .nil h.size hcount

end Holds

theorem start_holds {max_string_count : ℕ} (hmax : max_string_count + 1 < 2 ^ 32)
    (max_delimiter_count : ℕ) (garbage : ℕ → Tokens) :
    Holds (start max_string_count max_delimiter_count garbage).ipc [] := by
  refine .nil ?_ rfl
  show ((List.range _).map garbage).length = max_string_count + 1
  rw [List.length_map, List.length_range, Nat.mod_eq_of_lt hmax]

/-! Whole runs. -/

/-- A call that meets the condition returns what it is to answer, and the tokens are still those of
the words. -/
theorem right_of_meets {r : Reading} (h : Holds r.ipc r.words) {c : Call} (hmeets : Meets (.ok r) c) :
    ∃ a ipc, call r.ipc c = .ok (a, ipc) ∧ Answers r c a ∧
      Holds (noted r ipc c).ipc (noted r ipc c).words := by
  obtain ⟨r', hr, hmeets⟩ := hmeets
  obtain rfl := Except.ok.inj hr
  cases c with
  | setDelimeter num tmp =>
    obtain ⟨ipc, hset, hholds⟩ := h.setDelimeter hmeets tmp
    exact ⟨.done, ipc, by rw [call, hset]; rfl, rfl, hholds⟩
  | seperateWords inpt keepcopy memory =>
    obtain ⟨hlength, hempty, hmemory, hwords⟩ := hmeets
    obtain ⟨n, ipc, hseperate, hn, hholds, -⟩ := h.seperateWords hlength hempty hmemory hwords
    exact ⟨.int n, ipc, by rw [call, hseperate]; rfl, ⟨n, rfl, hn⟩, hholds⟩
  | change str => exact ⟨.done, r.ipc.change str, rfl, rfl, h.change hmeets⟩
  | getWord num wheretostore storagesize =>
    have hget := h.getWord hmeets.1 hmeets.2
    cases hnum : r.words[num]? with
    | none =>
      rw [hnum, Option.elim_none] at hget
      refine ⟨.word 0 wheretostore, r.ipc, by rw [call, hget]; rfl, ?_, h⟩
      show _ = (r.words[num]?).elim _ _
      rw [hnum, Option.elim_none]
    | some word =>
      rw [hnum, Option.elim_some] at hget
      by_cases hroom : storagesize < word.length + 1
      · rw [if_pos hroom] at hget
        refine ⟨.word 0 wheretostore, r.ipc, by rw [call, hget]; rfl, ?_, h⟩
        show _ = (r.words[num]?).elim _ _
        rw [hnum, Option.elim_some, if_pos hroom]
      · rw [if_neg hroom] at hget
        refine ⟨.word word.length (word ++ 0 :: wheretostore.drop (word.length + 1)), r.ipc,
          by rw [call, hget]; rfl, ?_, h⟩
        show _ = (r.words[num]?).elim _ _
        rw [hnum, Option.elim_some, if_neg hroom]
  | getWordLength num =>
    exact ⟨_, r.ipc, by rw [call, h.getWordLength num]; rfl, rfl, h⟩
  | isEmptyWord num =>
    exact ⟨_, r.ipc, by rw [call, h.isEmptyWord num]; rfl, rfl, h⟩
  | getWordInt num =>
    obtain ⟨n, hget, hn⟩ := h.getWordInt hmeets
    exact ⟨.int n, r.ipc, by rw [call, hget]; rfl, ⟨n, rfl, hn⟩, h⟩

theorem right_of_allowed {s : Except Fault Reading} (hs : ∀ r, s = .ok r → Holds r.ipc r.words)
    (calls : List Call) (h : Run.Allowed step Meets s calls) : Run.Allowed step Right s calls := by
  induction calls generalizing s with
  | nil => trivial
  | cons c calls ih =>
    obtain ⟨hmeets, hrest⟩ := h
    obtain ⟨r, rfl, -⟩ := id hmeets
    obtain ⟨a, ipc, hcall, hanswer, hholds⟩ := right_of_meets (hs r rfl) hmeets
    have hstep : step (.ok r) c = .ok (noted r ipc c) := by
      show (call r.ipc c).map _ = _
      rw [hcall]
      rfl
    refine ⟨⟨r, a, ipc, rfl, hcall, hanswer⟩, ih ?_ hrest⟩
    rw [hstep]
    intro r' hr'
    obtain rfl := Except.ok.inj hr'
    exact hholds

/-- In every run whose calls meet the condition, each call answers about the string that the parser
was handed last. -/
theorem tokens_of_lastString (max_string_count max_delimiter_count : ℕ) (garbage : ℕ → Tokens)
    (calls : List Call) (hmax : max_string_count + 1 < 2 ^ 32)
    (h : Run.Allowed step Meets
      (.ok (start max_string_count max_delimiter_count garbage)) calls) :
    Run.Allowed step Right (.ok (start max_string_count max_delimiter_count garbage)) calls := by
  refine right_of_allowed (fun r hr => ?_) calls h
  obtain rfl := Except.ok.inj hr
  exact start_holds hmax max_delimiter_count garbage

def noTokens : ℕ → Tokens := fun _ => ⟨0, 0⟩

/-- `n -42`, whose words are at a blank. -/
theorem tokens_of_lastString_blank :
    Run.Allowed step Right (.ok (start 4 2 noTokens))
      [.setDelimeter 0 32, .seperateWords (some [110, 32, 45, 52, 50]) 1 true,
        .getWord 0 [0, 0] 2, .getWordInt 1, .getWordLength 2] := by
  refine tokens_of_lastString 4 2 noTokens _ (by decide) ⟨?_, ?_, ?_, ?_, ?_, trivial⟩
  · exact ⟨_, rfl, le_refl _⟩
  · exact ⟨_, rfl, by decide, by decide, by decide, by decide⟩
  · exact ⟨_, rfl, by decide, by decide⟩
  · refine ⟨_, rfl, fun m _ _ t ht => ?_⟩
    obtain rfl : Tokens.mk 2 3 = t := Option.some.inj ht
    decide
  · exact ⟨_, rfl, trivial⟩

/-- A call with less than `2 ^ 31` bytes to read, and room for what is written. -/
def Call.Plain : Call → Prop
  | .setDelimeter num _ => 0 ≤ num
  | .seperateWords inpt _ memory => (inpt.getD []).length < 2 ^ 31 ∧ memory = true
  | .change _ => False
  | .getWord _ wheretostore storagesize => storagesize ≤ wheretostore.length
  | _ => True

/-- An empty string leaves the word of the one before it. -/
theorem emptyString_keeps_word :
    ¬ ∀ (max_string_count max_delimiter_count : ℕ) (garbage : ℕ → Tokens) (calls : List Call),
      max_string_count + 1 < 2 ^ 32 → (∀ c ∈ calls, c.Plain) →
      Run.Allowed step Right
        (.ok (start max_string_count max_delimiter_count garbage)) calls := by
  intro h
  have hplain : ∀ c ∈ [Call.seperateWords (some [97]) 1 true, .seperateWords (some []) 1 true,
      .getWordLength 0], c.Plain := by
    intro c hc
    rcases List.mem_cons.mp hc with rfl | hc
    · exact ⟨by decide, rfl⟩
    rcases List.mem_cons.mp hc with rfl | hc
    · exact ⟨by decide, rfl⟩
    · rw [List.mem_singleton.mp hc]
      trivial
  have hrun := h 4 2 noTokens _ (by decide) hplain
  obtain ⟨r, a, ipc, hr, hcall, hanswer⟩ := hrun.2.2.1
  obtain rfl := Except.ok.inj hr
  have hone : some (Answer.number 1) = some a :=
    congrArg (fun answer => answer.toOption.map (·.1)) hcall
  have hzero : a = .number 0 := hanswer
  rw [hzero] at hone
  cases hone

end AmmarServer.InputParser
