import AmmarServer.MyURL.Links

/-! What `Find_longURL` finds, and what `LoadMyURLDBFile` reads of a file that was written. -/

namespace AmmarServer.MyURL
open CString Bytes TextFile

variable {slots : List Slot} {our_hash : UInt64}

theorem hashAt_of_getElem? {i : ℕ} {slot : Slot} (h : slots[i]? = some slot) :
    hashAt slots i = slot.link.shortURLHash := by
  unfold hashAt
  rw [h]
  rfl

/-! The search. -/

theorem serialFrom_some {i j : ℕ} (h : serialFrom slots our_hash i = some j) :
    j ≤ i ∧ our_hash = hashAt slots j := by
  induction i with
  | zero =>
    unfold serialFrom at h
    split_ifs at h with hhash
    obtain rfl := Option.some.inj h
    exact ⟨le_rfl, hhash⟩
  | succ i ih =>
    unfold serialFrom at h
    split_ifs at h with hhash
    · obtain rfl := Option.some.inj h
      exact ⟨le_rfl, hhash⟩
    · obtain ⟨hle, hj⟩ := ih h
      exact ⟨Nat.le_succ_of_le hle, hj⟩

theorem serialFrom_none {i j : ℕ} (h : serialFrom slots our_hash i = none) (hj : j ≤ i) :
    our_hash ≠ hashAt slots j := by
  induction i with
  | zero =>
    obtain rfl := Nat.le_zero.mp hj
    unfold serialFrom at h
    split_ifs at h with hhash
    exact hhash
  | succ i ih =>
    unfold serialFrom at h
    split_ifs at h with hhash
    rcases Nat.lt_or_eq_of_le hj with hlt | rfl
    · exact ih h (Nat.le_of_lt_succ hlt)
    · exact hhash

theorem searchLoop_some {last fuel beg fin i : ℕ}
    (h : searchLoop slots our_hash last fuel beg fin = some (some i)) :
    i < last ∧ our_hash = hashAt slots i := by
  induction fuel generalizing beg fin with
  | zero => cases h
  | succ fuel ih =>
    unfold searchLoop at h
    dsimp only at h
    split_ifs at h with hempty hmid hlow hhigh
    · exact absurd (Option.some.inj h) (by simp)
    · exact absurd (Option.some.inj h) (by simp)
    · exact ih h
    · exact ih h
    · obtain rfl := Option.some.inj (Option.some.inj h)
      exact ⟨Nat.lt_of_not_le hmid, UInt64.le_antisymm (UInt64.not_lt.mp hhigh)
        (UInt64.not_lt.mp hlow)⟩

/-- The bounds close in, or the lower one is 0 and the upper one wraps around, and then the middle
is behind the array. -/
theorem searchLoop_isSome {last : ℕ} (hlast : last < 2 ^ 31) {fuel beg fin : ℕ} (hfin : fin < last)
    (hfuel : fin + 1 - beg < fuel) : (searchLoop slots our_hash last fuel beg fin).isSome := by
  induction fuel generalizing beg fin with
  | zero => exact absurd hfuel (Nat.not_lt_zero _)
  | succ fuel ih =>
    unfold searchLoop
    dsimp only
    split_ifs with hempty hmid hlow hhigh
    · rfl
    · rfl
    · rcases Nat.eq_zero_or_pos (beg + (fin - beg) / 2) with hzero | hpos
      · obtain ⟨fuel, rfl⟩ : ∃ n, fuel = n + 1 := ⟨fuel - 1, by omega⟩
        obtain rfl : beg = 0 := by omega
        have hwrap : (0 + (fin - 0) / 2 + (2 ^ 32 - 1)) % 2 ^ 32 = 2 ^ 32 - 1 := by omega
        rw [hwrap]
        unfold searchLoop
        rw [if_neg (Nat.not_lt_zero _)]
        dsimp only
        rw [if_pos (by omega)]
        rfl
      · have hpred : (beg + (fin - beg) / 2 + (2 ^ 32 - 1)) % 2 ^ 32 =
            beg + (fin - beg) / 2 - 1 := by omega
        rw [hpred]
        exact ih (by omega) (by omega)
    · exact ih hfin (by omega)
    · rfl

theorem binarySearch_some {sorted_links i : ℕ}
    (h : binarySearch slots sorted_links our_hash = some i) :
    i < sorted_links ∧ our_hash = hashAt slots i := by
  unfold binarySearch at h
  split_ifs at h
  exact searchLoop_some (Option.join_eq_some_iff.mp h)

theorem findLongURL_some {sorted_links i : ℕ} (hsorted : sorted_links ≤ slots.length)
    {shortURL : List UInt8} (h : findLongURL slots sorted_links shortURL = some i) :
    ∃ slot, slots[i]? = some slot ∧ slot.link.shortURLHash = hashURL shortURL := by
  unfold findLongURL at h
  split_ifs at h with hnil
  obtain ⟨hlt, hhash⟩ : i < slots.length ∧ hashURL shortURL = hashAt slots i := by
    rcases Option.or_eq_some_iff.mp h with hbinary | ⟨-, hserial⟩
    · obtain ⟨hlt, hhash⟩ := binarySearch_some hbinary
      exact ⟨Nat.lt_of_lt_of_le hlt hsorted, hhash⟩
    · unfold findLongURLSerial at hserial
      rw [if_neg hnil] at hserial
      obtain ⟨hle, hhash⟩ := serialFrom_some hserial
      have hpos := List.length_pos_of_ne_nil hnil
      exact ⟨by omega, hhash⟩
  have hget := List.getElem?_eq_getElem hlt
  exact ⟨slots[i], hget, (hashAt_of_getElem? hget).symm.trans hhash.symm⟩

theorem findLongURL_none {sorted_links : ℕ} {shortURL : List UInt8}
    (h : findLongURL slots sorted_links shortURL = none) :
    ∀ slot ∈ slots, slot.link.shortURLHash ≠ hashURL shortURL := by
  intro slot hslot
  unfold findLongURL at h
  rw [if_neg (List.ne_nil_of_mem hslot), Option.or_eq_none_iff] at h
  have hserial := h.2
  unfold findLongURLSerial at hserial
  rw [if_neg (List.ne_nil_of_mem hslot)] at hserial
  obtain ⟨i, hi, rfl⟩ := List.getElem_of_mem hslot
  have hne := serialFrom_none hserial (Nat.le_sub_one_of_lt hi)
  rw [hashAt_of_getElem? (List.getElem?_eq_getElem hi)] at hne
  exact hne.symm

/-! The order. -/

theorem firstUnsorted_lt {i j : ℕ} {hashes : List UInt64} (h : firstUnsorted i hashes = some j) :
    j < i + hashes.length := by
  induction hashes generalizing i with
  | nil => cases h
  | cons a hashes ih =>
    cases hashes with
    | nil => cases h
    | cons b hashes =>
      unfold firstUnsorted at h
      split_ifs at h with hlt
      · obtain rfl := Option.some.inj h
        simp only [List.length_cons]
        omega
      · have := ih h
        simp only [List.length_cons] at this ⊢
        omega

theorem isURLDBSorted_le {sorted_links : ℕ} (h : sorted_links ≤ slots.length) :
    (isURLDBSorted slots sorted_links).2 ≤ slots.length := by
  unfold isURLDBSorted
  split_ifs
  · exact h
  · cases hfirst : firstUnsorted 1 (hashes slots) with
    | none => exact Nat.sub_le ..
    | some i =>
      have hi := firstUnsorted_lt hfirst
      unfold hashes at hi
      rw [List.length_map] at hi
      show i - 1 ≤ slots.length
      omega

/-! The file. -/

/-- The text of a file, which is there if it has links. -/
def textOf (links : List Link) : Option (List UInt8) :=
  if links = [] then none else some (fileText links)

theorem textOf_append (links : List Link) (link : Link) :
    some ((textOf links).getD [] ++ linkText link) = textOf (links ++ [link]) := by
  have hone : fileText [link] = linkText link := List.append_nil _
  unfold textOf
  rw [if_neg (by simp : links ++ [link] ≠ [])]
  split_ifs with hnil
  · rw [hnil, List.nil_append, hone]
    rfl
  · show some (fileText links ++ linkText link) = some (fileText (links ++ [link]))
    rw [← hone]
    exact congrArg some List.flatMap_append.symm

theorem dropWhile_isSpace_word {word : List UInt8} (hword : Word word) (rest : List UInt8) :
    (word ++ rest).dropWhile isSpace = word ++ rest := by
  obtain ⟨c, s, rfl⟩ := List.exists_cons_of_ne_nil hword.1
  rw [List.cons_append, List.dropWhile_cons_of_neg (by simp [hword.2 c (List.mem_cons_self ..)])]

theorem scanLine_word {word : List UInt8} (hword : Word word) (rest : List UInt8) :
    scanLine (word ++ LF :: rest) = (word, rest.dropWhile isSpace) := by
  have hLF : isSpace LF = true := by decide
  have hplain : ∀ c ∈ word, (!isSpace c) = true := fun c hc => by rw [hword.2 c hc]; rfl
  unfold scanLine
  simp only [dropWhile_isSpace_word hword]
  rw [List.takeWhile_append_of_pos hplain, List.dropWhile_append_of_pos hplain,
    List.takeWhile_cons_of_neg (by simp [hLF]), List.dropWhile_cons_of_neg (by simp [hLF]),
    List.dropWhile_cons_of_pos hLF, List.append_nil]

theorem dropWhile_isSpace_fileText {links : List Link}
    (hlinks : ∀ link ∈ links, Word link.longURL) :
    (fileText links).dropWhile isSpace = fileText links := by
  cases links with
  | nil => rfl
  | cons link links =>
    have htext : fileText (link :: links) =
        link.longURL ++ (LF :: (link.shortURL ++ [LF]) ++ fileText links) := List.append_assoc ..
    rw [htext]
    exact dropWhile_isSpace_word (hlinks link (List.mem_cons_self ..)) _

theorem scanLine_fileText {link : Link} (hlong : Word link.longURL) (hshort : Word link.shortURL)
    {links : List Link} (hlinks : ∀ link ∈ links, Word link.longURL) :
    scanLine (fileText (link :: links)) = (link.longURL, link.shortURL ++ LF :: fileText links) ∧
      scanLine (link.shortURL ++ LF :: fileText links) = (link.shortURL, fileText links) := by
  constructor
  · have htext : fileText (link :: links) =
        link.longURL ++ LF :: (link.shortURL ++ LF :: fileText links) := by
      show linkText link ++ fileText links = _
      simp [linkText]
    rw [htext, scanLine_word hlong, dropWhile_isSpace_word hshort]
  · rw [scanLine_word hshort, dropWhile_isSpace_fileText hlinks]

theorem fileText_eq_nil {links : List Link} : fileText links = [] ↔ links = [] := by
  cases links with
  | nil => exact ⟨fun _ => rfl, fun _ => rfl⟩
  | cons link links =>
    constructor
    · intro h
      have := (List.append_eq_nil_iff.mp h).1
      simp [linkText] at this
    · exact fun h => nomatch h

end AmmarServer.MyURL
