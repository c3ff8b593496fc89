import Mathlib.Data.List.DropRight
import Mathlib.Data.Nat.Digits.Defs
import AmmarServer.Lib.Bytes
import AmmarServer.Lib.CBuffer

/-! Text files the way `stdio.h` reads and writes them: `fgets` into a buffer, the words of `%s`, and
the numbers of `strtoul`, `strtol` and `%u`. -/

namespace TextFile
open Bytes CString

/-- `isspace` in the C locale. -/
def isSpace (c : UInt8) : Bool := c == 32 || (9 ≤ c && c ≤ 13)

/-- `%u`, and `%lu`. -/
def decimal (n : ℕ) : List UInt8 := (Nat.toDigits 10 n).map fun c => UInt8.ofNat c.toNat

/-- What one `fgets` reads when its buffer has room for `room` bytes before the NUL, and what it
leaves in the file. -/
def fgets : ℕ → List UInt8 → List UInt8 × List UInt8
  | 0, file => ([], file)
  | _, [] => ([], [])
  | room + 1, c :: file =>
    if c = LF then ([LF], file) else (c :: (fgets room file).1, (fgets room file).2)

/-- The buffers that `fgets` fills until the file ends, with fuel. -/
def readLines (room : ℕ) : ℕ → List UInt8 → List (List UInt8)
  | 0, _ => []
  | _ + 1, [] => []
  | fuel + 1, c :: file =>
    (fgets room (c :: file)).1 :: readLines room fuel (fgets room (c :: file)).2

/-- `%Ns`: the next word and the text behind it. -/
def scanWord (width : ℕ) (s : List UInt8) : Option (List UInt8 × List UInt8) :=
  let s := s.dropWhile isSpace
  let word := (s.takeWhile fun c => !isSpace c).take width
  if word = [] then none else some (word, s.drop word.length)

def digits (s : List UInt8) : ℕ :=
  (s.takeWhile isDigit).foldl (fun n c => n * 10 + (c.toNat - 48)) 0

/-- `strtoul(.., 10)`, where an `unsigned long` has 64 bits. -/
def strtoul (s : List UInt8) : ℕ :=
  let s := s.dropWhile isSpace
  let negative := s.head? = some 45
  let value := digits (if s.head? = some 45 ∨ s.head? = some 43 then s.tail else s)
  if 2 ^ 64 ≤ value then 2 ^ 64 - 1 else if negative then (2 ^ 64 - value) % 2 ^ 64 else value

/-- `strtol` with base ten, as the bits of a `long`. -/
def strtol (s : List UInt8) : UInt64 :=
  let s := s.dropWhile isSpace
  let negative := s.head? = some 45
  let n := digits (if negative ∨ s.head? = some 43 then s.tail else s)
  if negative then 0 - UInt64.ofNat (min n (2 ^ 63)) else UInt64.ofNat (min n (2 ^ 63 - 1))

/-- The bits of the `int`: what `strtol` finds, cast. -/
def atoi (s : List UInt8) : UInt32 := (strtol s).toUInt32

/-- A buffer's line without what ends it. -/
def chomp (buffer : List UInt8) : List UInt8 := (cstring buffer).rdropWhile isNewline

/-! What was printed is read back. -/

theorem isDigit_decimal {n : ℕ} : ∀ c ∈ decimal n, isDigit c = true := by
  intro c hc
  obtain ⟨d, hd, rfl⟩ := List.mem_map.mp hc
  obtain ⟨hnat, hlow, hhigh⟩ :=
    toNat_ofNat_digit (Nat.isDigit_of_mem_toDigits (by decide) (by decide) hd)
  unfold isDigit
  rw [Bool.and_eq_true, decide_eq_true_iff, decide_eq_true_iff, UInt8.le_iff_toNat_le,
    UInt8.le_iff_toNat_le, hnat]
  exact ⟨hlow, hhigh⟩

theorem decimal_ne_nil (n : ℕ) : decimal n ≠ [] := by
  unfold decimal
  rw [Ne, List.map_eq_nil_iff]
  exact Nat.toDigits_ne_nil

theorem decimal_length {n e : ℕ} (he : 0 < e) (hn : n < 10 ^ e) : (decimal n).length ≤ e := by
  unfold decimal
  rw [List.length_map]
  exact (Nat.length_toDigits_le_iff (by decide) he).mpr hn

/-- What a digit is not. -/
theorem plain_of_isDigit {c : UInt8} (h : isDigit c = true) :
    isSpace c = false ∧ c ≠ 45 ∧ c ≠ 43 ∧ c ≠ LF ∧ c ≠ CR ∧ c ≠ 0 := by
  revert c
  apply forall_byte
  decide +kernel

theorem takeWhile_append_stop {p : UInt8 → Bool} {s rest : List UInt8}
    (hs : ∀ c ∈ s, p c = true) (hstop : ∀ c ∈ rest.head?, p c = false) :
    (s ++ rest).takeWhile p = s := by
  rw [List.takeWhile_append_of_pos hs]
  cases rest with
  | nil => exact List.append_nil s
  | cons c rest => rw [List.takeWhile_cons_of_neg (by simp [hstop c rfl]), List.append_nil]

theorem digits_decimal_append (n : ℕ) {rest : List UInt8}
    (hstop : ∀ c ∈ rest.head?, isDigit c = false) : digits (decimal n ++ rest) = n := by
  rw [digits, takeWhile_append_stop isDigit_decimal hstop]
  exact foldl_toDigits n

theorem strtoul_decimal {n : ℕ} (hn : n < 2 ^ 64) {rest : List UInt8}
    (hstop : ∀ c ∈ rest.head?, isDigit c = false) : strtoul (decimal n ++ rest) = n := by
  obtain ⟨c, s, hs⟩ := List.exists_cons_of_ne_nil (decimal_ne_nil n)
  obtain ⟨hspace, hminus, hplus, -⟩ :=
    plain_of_isDigit (isDigit_decimal c (hs ▸ List.mem_cons_self ..))
  have hdrop : (decimal n ++ rest).dropWhile isSpace = decimal n ++ rest := by
    rw [hs, List.cons_append, List.dropWhile_cons_of_neg (by simp [hspace])]
  have hhead : (decimal n ++ rest).head? = some c := by
    rw [hs]
    rfl
  unfold strtoul
  simp only [hdrop, hhead, Option.some.injEq, hminus, hplus, or_self, if_false,
    digits_decimal_append n hstop]
  rw [if_neg (Nat.not_le_of_lt hn)]

theorem strtol_of_digit {c : UInt8} (hc : isDigit c = true) (rest : List UInt8) :
    strtol (c :: rest) = UInt64.ofNat (min (digits (c :: rest)) (2 ^ 63 - 1)) := by
  obtain ⟨hspace, hminus, hplus, -⟩ := plain_of_isDigit hc
  have hskip : (c :: rest).dropWhile isSpace = c :: rest :=
    List.dropWhile_cons_of_neg (by simp [hspace])
  unfold strtol
  dsimp only
  rw [hskip, List.head?_cons, if_neg fun hcon => hminus (Option.some.inj hcon), if_neg]
  rintro (hcon | hcon)
  · exact hminus (Option.some.inj hcon)
  · exact hplus (Option.some.inj hcon)

theorem strtol_decimal_append (n : ℕ) {rest : List UInt8}
    (hstop : ∀ c ∈ rest.head?, isDigit c = false) :
    strtol (decimal n ++ rest) = UInt64.ofNat (min n (2 ^ 63 - 1)) := by
  obtain ⟨c, s, hs⟩ := List.exists_cons_of_ne_nil (decimal_ne_nil n)
  have hdigit := isDigit_decimal c (hs ▸ List.mem_cons_self ..)
  have hvalue := digits_decimal_append n hstop
  rw [hs, List.cons_append] at hvalue ⊢
  rw [strtol_of_digit hdigit, hvalue]

/-- Zeros in front of a number. -/
theorem digits_zeros (k : ℕ) (s : List UInt8) : digits (List.replicate k 48 ++ s) = digits s := by
  induction k with
  | zero => rfl
  | succ k ih => exact ih

theorem digits_decimal (n : ℕ) : digits (decimal n) = n := by
  have hdigits := @digits_decimal_append n [] (by simp)
  rwa [List.append_nil] at hdigits

theorem strtol_decimal (n : ℕ) : strtol (decimal n) = UInt64.ofNat (min n (2 ^ 63 - 1)) := by
  have hvalue := @strtol_decimal_append n [] (by simp)
  rwa [List.append_nil] at hvalue

theorem strtol_decimal_toNat {n : UInt64} (h : n.toNat < 2 ^ 63) : strtol (decimal n.toNat) = n := by
  rw [strtol_decimal, Nat.min_eq_left (Nat.le_sub_one_of_lt h), UInt64.ofNat_toNat]

theorem atoi_decimal (n : UInt32) : atoi (decimal n.toNat) = n := by
  have hsmall : n.toNat ≤ 2 ^ 63 - 1 := (Nat.le_of_lt n.toNat_lt).trans (by decide)
  apply UInt32.toNat.inj
  rw [atoi, strtol_decimal, Nat.min_eq_left hsmall, UInt64.toNat_toUInt32, UInt64.toNat_ofNat',
    Nat.mod_eq_of_lt (lt_trans n.toNat_lt (by decide))]
  exact Nat.mod_eq_of_lt n.toNat_lt

theorem atoi_zeros (k : ℕ) (n : UInt32) : atoi (List.replicate k 48 ++ decimal n.toNat) = n := by
  have hdigits := digits_zeros k (decimal n.toNat)
  have hvalue : strtol (List.replicate k 48 ++ decimal n.toNat) = strtol (decimal n.toNat) := by
    cases k with
    | zero => rfl
    | succ k =>
      obtain ⟨c, s, hs⟩ := List.exists_cons_of_ne_nil (decimal_ne_nil n.toNat)
      have hdigit := isDigit_decimal c (hs ▸ List.mem_cons_self ..)
      rw [List.replicate_succ, List.cons_append] at hdigits ⊢
      rw [strtol_of_digit (by decide), hdigits, hs, strtol_of_digit hdigit]
  rw [atoi, hvalue]
  exact atoi_decimal n

theorem scanWord_append {width : ℕ} {word rest : List UInt8} (hne : word ≠ [])
    (hplain : ∀ c ∈ word, isSpace c = false) (hfits : word.length ≤ width)
    (hstop : ∀ c ∈ rest.head?, isSpace c = true) :
    scanWord width (word ++ rest) = some (word, rest) := by
  obtain ⟨c, s, rfl⟩ := List.exists_cons_of_ne_nil hne
  have hdrop : (c :: s ++ rest).dropWhile isSpace = c :: s ++ rest := by
    rw [List.cons_append, List.dropWhile_cons_of_neg (by simp [hplain c (List.mem_cons_self ..)])]
  have htake : (c :: s ++ rest).takeWhile (fun c => !isSpace c) = c :: s :=
    takeWhile_append_stop (fun d hd => by simp [hplain d hd]) fun d hd => by simp [hstop d hd]
  unfold scanWord
  simp only [hdrop, htake, List.take_of_length_le hfits]
  rw [if_neg (List.cons_ne_nil c s), List.drop_left]

/-- The spaces in front of a word are skipped. -/
theorem scanWord_space (width : ℕ) {c : UInt8} (hc : isSpace c = true) (s : List UInt8) :
    scanWord width (c :: s) = scanWord width s := by
  unfold scanWord
  rw [List.dropWhile_cons_of_pos hc]

theorem fgets_line {line : List UInt8} (hline : LF ∉ line) {room : ℕ} (hroom : line.length < room)
    (rest : List UInt8) : fgets room (line ++ LF :: rest) = (line ++ [LF], rest) := by
  induction line generalizing room with
  | nil =>
    obtain ⟨room, rfl⟩ : ∃ n, room = n + 1 := ⟨room - 1, by rw [List.length_nil] at hroom; omega⟩
    exact if_pos rfl
  | cons c line ih =>
    obtain ⟨room, rfl⟩ : ∃ n, room = n + 1 := ⟨room - 1, by rw [List.length_cons] at hroom; omega⟩
    rw [List.mem_cons, not_or] at hline
    rw [List.cons_append, fgets, if_neg (Ne.symm hline.1),
      ih hline.2 (Nat.lt_of_succ_lt_succ hroom)]
    rfl

/-- The lines of a file that was written line by line. -/
theorem readLines_lines {room : ℕ} {lines : List (List UInt8)}
    (hlines : ∀ line ∈ lines, LF ∉ line ∧ line.length < room) {fuel : ℕ}
    (hfuel : lines.length ≤ fuel) :
    readLines room fuel (lines.flatMap (· ++ [LF])) = lines.map (· ++ [LF]) := by
  induction lines generalizing fuel with
  | nil => cases fuel <;> rfl
  | cons line lines ih =>
    obtain ⟨fuel, rfl⟩ : ∃ n, fuel = n + 1 := ⟨fuel - 1, by rw [List.length_cons] at hfuel; omega⟩
    obtain ⟨hline, hlines⟩ := List.forall_mem_cons.mp hlines
    have hread := fgets_line hline.1 hline.2 (lines.flatMap (· ++ [LF]))
    have ih := ih hlines (Nat.le_of_succ_le_succ hfuel)
    have htext : (line :: lines).flatMap (· ++ [LF]) =
        line ++ LF :: lines.flatMap (· ++ [LF]) := by
      rw [List.flatMap_cons, List.append_assoc]
      rfl
    rw [htext, List.map_cons]
    generalize hfile : line ++ LF :: lines.flatMap (· ++ [LF]) = file at hread
    cases file with
    | nil => exact absurd hfile (by simp)
    | cons c file =>
      rw [readLines, hread, ih]

theorem chomp_line {line : List UInt8} (h : ∀ c ∈ line, isNewline c = false ∧ c ≠ 0) :
    chomp (line ++ [LF]) = line := by
  have hzero : 0 ∉ line ++ [LF] := by
    rw [List.mem_append, not_or]
    exact ⟨fun hcon => (h 0 hcon).2 rfl, by decide⟩
  unfold chomp
  rw [cstring_of_notMem hzero, List.rdropWhile_concat_pos _ _ _ (by decide)]
  cases hlast : line.getLast? with
  | none =>
    rw [List.getLast?_eq_none_iff] at hlast
    rw [hlast]
    rfl
  | some c =>
    obtain ⟨s, rfl⟩ := List.getLast?_eq_some_iff.mp hlast
    have hc := (h c (List.mem_append_right _ (List.mem_singleton_self c))).1
    exact List.rdropWhile_concat_neg _ _ _ (by simp [hc])

theorem length_lines_le (lines : List (List UInt8)) :
    lines.length ≤ (lines.flatMap (· ++ [LF])).length := by
  induction lines with
  | nil => exact Nat.le_refl 0
  | cons line lines ih =>
    rw [List.flatMap_cons, List.length_append, List.length_append, List.length_singleton,
      List.length_cons]
    omega

/-- A line that `fgets` reads whole. -/
structure Whole (room : ℕ) (line : List UInt8) : Prop where
  plain : ∀ c ∈ line, isNewline c = false ∧ c ≠ 0
  fits : line.length < room

/-- What a loop over `fgets` finds in a file of such lines. -/
theorem map_chomp_readLines {room : ℕ} {lines : List (List UInt8)}
    (hlines : ∀ line ∈ lines, Whole room line) :
    (readLines room (lines.flatMap (· ++ [LF])).length (lines.flatMap (· ++ [LF]))).map chomp =
      lines := by
  have hread := readLines_lines (fun line hline =>
    ⟨fun hcon => absurd ((hlines line hline).plain LF hcon).1 (by decide), (hlines line hline).fits⟩)
    (length_lines_le lines)
  rw [hread, List.map_map]
  exact (List.map_congr_left fun line hline => chomp_line (hlines line hline).plain).trans
    (List.map_id _)

end TextFile
