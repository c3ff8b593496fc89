import AmmarServer.ServerConfiguration.ConfigurationFile

/-! The settings behind a configuration file are those before it, changed by its valid lines in their
order. A key that goes on behind a colon, or a value with more words behind it, is taken all the same. -/

namespace AmmarServer.ServerConfiguration
open Bytes CString TextFile InputParser StringRecognizer

/-! What a line says. -/

def AllDigits (s : List UInt8) : Prop := ∀ c ∈ s, isDigit c = true

instance (s : List UInt8) : Decidable (AllDigits s) := List.decidableBAll _ s

/-- The number that a word is, in the format of `strtol`. -/
def number (word : List UInt8) : Option ℤ :=
  let s := word.dropWhile isSpace
  let ds := if s.head? = some 45 ∨ s.head? = some 43 then s.tail else s
  if ds ≠ [] ∧ AllDigits ds then
    some (if s.head? = some 45 then -digits ds else digits ds)
  else none

def numberIn (minimum maximum : ℤ) (word : List UInt8) : Option ℤ :=
  (number word).filter fun n => minimum ≤ n ∧ n ≤ maximum

def onOff (word : List UInt8) : Option ℤ :=
  if EqIgnoreCase word (ascii "ON") then some 1
  else if EqIgnoreCase word (ascii "OFF") then some 0
  else none

/-- The settings with the one of a key set, where the key has a setting and the value is valid. -/
def Settings.set (s : Settings) (value : List UInt8) : ConfigKeys → Option Settings
  | .TIMEOUT => (numberIn 1 (86400 * 365) value).map fun n =>
    { s with varSocketTimeoutREAD_seconds := n, varSocketTimeoutWRITE_seconds := n }
  | .KEEPALIVE => (onOff value).map fun n => { s with KEEPALIVE_ENABLED := n }
  | .LISTEN => (numberIn 1 65535 value).map fun n => { s with BINDING_PORT := n }
  | .RUNASPRIORITY => (numberIn (-20) 20 value).map fun n => { s with CHANGE_PRIORITY := n }
  | .RUNASUSER => some { s with USERNAME_UID_FOR_DAEMON := value }
  | .IFUSERDOESNTEXISTRUNASUID => (numberIn 0 INT_MAX value).map fun n =>
    { s with CHANGE_TO_UID := n }
  | .CACHING => (onOff value).map fun n => { s with CACHING_ENABLED := n }
  | .MAXCACHESIZE => (numberIn 1 INT_MAX value).map fun n => { s with MAX_CACHE_SIZE_IN_MB := n }
  | .MAXCACHESIZEFOREACHFILE => (numberIn 1 INT_MAX value).map fun n =>
    { s with MAX_CACHE_SIZE_FOR_EACH_FILE_IN_MB := n }
  | .MAXSEPERATECACHEITEMS => (numberIn 1 INT_MAX value).map fun n =>
    { s with MAX_SEPERATE_CACHE_ITEMS := n }
  | .ENABLEPOST => (onOff value).map fun n => { s with ENABLE_POST := n }
  | .MAXPOSTTRANSACTIONSIZE => (numberIn 1 INT_MAX value).map fun n =>
    { s with MAX_POST_TRANSACTION_SIZE := n }
  | _ => none

def ConfigKeys.wired : List ConfigKeys :=
  [.TIMEOUT, .KEEPALIVE, .LISTEN, .RUNASPRIORITY, .RUNASUSER, .IFUSERDOESNTEXISTRUNASUID, .CACHING,
    .MAXCACHESIZE, .MAXCACHESIZEFOREACHFILE, .MAXSEPERATECACHEITEMS, .ENABLEPOST,
    .MAXPOSTTRANSACTIONSIZE]

/-- A line that has no place in the buffer with its end. -/
def OverLong (line : List UInt8) : Prop := MAX_CONFIGURATION_FILE_LINE_SIZE - 1 ≤ line.length

instance (line : List UInt8) : Decidable (OverLong line) :=
  inferInstanceAs (Decidable (_ ≤ _))

/-- The words of a line, which may end with carriage returns. -/
def wordsOfLine (line : List UInt8) : List (List UInt8) :=
  pieces blanks (line.rdropWhile isNewline)

/-- A line that is a key and a value sets the setting, any other changes nothing. -/
def meaning (s : Settings) (line : List UInt8) : Settings :=
  if OverLong line then s
  else
    match wordsOfLine line with
    | [key, value] => ((keyNamed key).bind (s.set value)).getD s
    | _ => s

/-- The condition on a line: it has no NUL, its first word does not go on behind a key and a colon, and
there is nothing behind the value of a key with a setting. -/
def Plain (line : List UInt8) : Prop :=
  0 ∉ line ∧ (¬OverLong line → ∀ key values, wordsOfLine line = key :: values →
    ¬Colon key ∧ ((∃ k ∈ ConfigKeys.wired, keyNamed key = some k) → values.length ≤ 1))

/-! The value of a key. -/

theorem strtolEnd_number {word : List UInt8} {minimum maximum : ℤ} (hmin : -2 ^ 63 ≤ minimum)
    (hmax : maximum < 2 ^ 63) :
    (if (strtolEnd word).errno = true ∨ (strtolEnd word).endptr = word ∨
        (strtolEnd word).endptr ≠ [] ∨ (strtolEnd word).value < minimum ∨
        maximum < (strtolEnd word).value then none
      else some (strtolEnd word).value) = numberIn minimum maximum word := by
  unfold numberIn number strtolEnd
  simp only
  generalize hs : word.dropWhile isSpace = s
  generalize hds : (if s.head? = some 45 ∨ s.head? = some 43 then s.tail else s) = ds
  generalize (if s.head? = some 45 then -(digits ds : ℤ) else digits ds) = n
  by_cases hnone : ds.takeWhile isDigit = []
  · have hno : ¬(ds ≠ [] ∧ AllDigits ds) := by
      rintro ⟨hne, hall⟩
      rw [List.takeWhile_eq_self_iff.mpr hall] at hnone
      exact hne hnone
    rw [if_pos hnone, if_neg hno]
    exact if_pos (.inr (.inl rfl))
  rw [if_neg hnone]
  have hne : ds ≠ [] := fun hnil => hnone (by rw [hnil, List.takeWhile_nil])
  by_cases hall : AllDigits ds
  · have hend : ds.dropWhile isDigit = [] := List.dropWhile_eq_nil_iff.mpr hall
    have hword : [] ≠ word := by
      rintro rfl
      rw [← hs] at hds
      exact hne hds.symm
    have hread : (if ds ≠ [] ∧ AllDigits ds then some n else none) = some n :=
      if_pos ⟨hne, hall⟩
    rw [hend, hread]
    by_cases hlow : n < -2 ^ 63
    · rw [if_pos hlow, if_pos (.inl rfl), Option.filter_some_neg]
      exact decide_eq_false fun h => absurd (hmin.trans h.1) (not_le_of_gt hlow)
    by_cases hhigh : 2 ^ 63 ≤ n
    · rw [if_neg hlow, if_pos hhigh, if_pos (.inl rfl), Option.filter_some_neg]
      exact decide_eq_false fun h => absurd (hhigh.trans h.2) (not_le_of_gt hmax)
    rw [if_neg hlow, if_neg hhigh]
    simp only [Bool.false_eq_true, hword, ne_eq, not_true_eq_false, false_or]
    by_cases hrange : minimum ≤ n ∧ n ≤ maximum
    · rw [if_neg (by omega), Option.filter_some, if_pos (decide_eq_true hrange)]
    · rw [if_pos (by omega), Option.filter_some, if_neg fun h => hrange (of_decide_eq_true h)]
  · have hend : ds.dropWhile isDigit ≠ [] := fun hnil => hall (List.dropWhile_eq_nil_iff.mp hnil)
    have hread : (if ds ≠ [] ∧ AllDigits ds then some n else none) = none :=
      if_neg fun h => hall h.2
    rw [hread, Option.filter_none]
    refine if_pos (.inr (.inr (.inl ?_)))
    split_ifs with hlow hhigh
    · exact hend
    · exact hend
    · exact hend

/-- Words that a buffer of the line's size has room for. -/
def Short (words : List (List UInt8)) : Prop :=
  ∀ word ∈ words, word.length < MAX_CONFIGURATION_FILE_LINE_SIZE ∧ 0 ∉ word

section Words
variable {ipc : Ipc} {words : List (List UInt8)}

theorem getWord_zeros (h : Holds ipc words) (hshort : Short words) (num : ℕ) {size : ℕ}
    (hsize : MAX_CONFIGURATION_FILE_LINE_SIZE < size) :
    ipc.getWord num (zeros size) size =
      .ok ((words[num]?).elim (0, zeros size) fun word =>
        (word.length, word ++ 0 :: (zeros size).drop (word.length + 1))) := by
  have hzeros : (zeros size).length = size := List.length_replicate
  have hword : ∀ word ∈ words[num]?, word.length + 1 ≤ MAX_CONFIGURATION_FILE_LINE_SIZE :=
    fun word hword => (hshort word (List.mem_of_getElem? hword)).1
  rw [h.getWord hzeros.ge fun word hmem => (hword word hmem).trans_lt (by decide)]
  cases hnum : words[num]? with
  | none => rfl
  | some word =>
    have hle := hword word hnum
    rw [Option.elim_some, Option.elim_some, if_neg (by omega)]

theorem configParseInt_eq (h : Holds ipc words) (hshort : Short words) (num : ℕ)
    {minimum maximum : ℤ} (hmin : -2 ^ 63 ≤ minimum) (hmax : maximum < 2 ^ 63) :
    configParseInt ipc num minimum maximum =
      .ok ((words[num]?).bind (numberIn minimum maximum)) := by
  unfold configParseInt
  simp only
  rw [getWord_zeros h hshort num (Nat.lt_succ_self _)]
  cases hnum : words[num]? with
  | none => rfl
  | some word =>
    have hmem := List.mem_of_getElem? hnum
    have hpos : ¬word.length = 0 := fun hzero =>
      h.ne_nil word hmem (List.eq_nil_of_length_eq_zero hzero)
    rw [Option.elim_some, Option.bind_some, ← strtolEnd_number hmin hmax]
    show Except.ok (if word.length = 0 then none else _) = _
    rw [if_neg hpos, cstring_append (hshort word hmem).2]

theorem map_toupper_eq_iff {s t : List UInt8} :
    s.map toupper = t.map toupper ↔ EqIgnoreCase s t := by
  have hlower : ∀ c, toLower (toupper c) = toLower c := by
    apply forall_byte
    decide +kernel
  have hupper : ∀ c, toupper (toLower c) = toupper c := by
    apply forall_byte
    decide +kernel
  constructor
  · intro h
    have hmapped := congrArg (List.map toLower) h
    simp only [List.map_map, Function.comp_def, hlower] at hmapped
    exact hmapped
  · intro h
    have hmapped := congrArg (List.map toupper) h
    simp only [List.map_map, Function.comp_def, hupper] at hmapped
    exact hmapped

theorem configParseOnOff_eq (h : Holds ipc words) (num : ℕ) :
    configParseOnOff ipc num = .ok ((words[num]?).bind onOff) := by
  unfold configParseOnOff
  rw [h.wordCompareNoCaseAuto num (by decide) (by decide),
    h.wordCompareNoCaseAuto num (by decide) (by decide)]
  cases words[num]? with
  | none => rfl
  | some word =>
    rw [Option.elim_some, Option.elim_some, Option.bind_some]
    unfold onOff
    show (if _ then _ else _) = _
    simp only [beq_iff_eq, map_toupper_eq_iff]
    split_ifs with hon hoff
    · rfl
    · show Except.ok (if _ then _ else _) = _
      simp only [beq_iff_eq, map_toupper_eq_iff, if_pos hoff]
    · show Except.ok (if _ then _ else _) = _
      simp only [beq_iff_eq, map_toupper_eq_iff, if_neg hoff]

/-- The `switch` sets the setting of a key from the word behind it. -/
theorem applyKey_eq (h : Holds ipc words) (hshort : Short words) (s : Settings) (k : ConfigKeys) :
    applyKey ipc s k = .ok (((words[1]?).bind fun value => s.set value k).getD s) := by
  have hint : ∀ (minimum maximum : ℤ) (f : ℤ → Settings), -2 ^ 63 ≤ minimum → maximum < 2 ^ 63 →
      (configParseInt ipc 1 minimum maximum).map (fun v => v.elim s f) =
        .ok (((words[1]?).bind fun value => (numberIn minimum maximum value).map f).getD s) := by
    intro minimum maximum f hmin hmax
    rw [configParseInt_eq h hshort 1 hmin hmax]
    cases words[1]? with
    | none => rfl
    | some value =>
      show Except.ok ((numberIn minimum maximum value).elim s f) =
        .ok (((numberIn minimum maximum value).map f).getD s)
      cases numberIn minimum maximum value with
      | none => rfl
      | some n => rfl
  have honoff : ∀ f : ℤ → Settings, (configParseOnOff ipc 1).map (fun v => v.elim s f) =
      .ok (((words[1]?).bind fun value => (onOff value).map f).getD s) := by
    intro f
    rw [configParseOnOff_eq h 1]
    cases words[1]? with
    | none => rfl
    | some value =>
      show Except.ok ((onOff value).elim s f) = .ok (((onOff value).map f).getD s)
      cases onOff value with
      | none => rfl
      | some n => rfl
  have hnone : (((words[1]?).bind fun _ => (none : Option Settings)).getD s) = s := by
    cases words[1]? with
    | none => rfl
    | some value => rfl
  cases k
  case TIMEOUT => exact hint _ _ _ (by decide) (by decide)
  case KEEPALIVE => exact honoff _
  case LISTEN => exact hint _ _ _ (by decide) (by decide)
  case RUNASPRIORITY => exact hint _ _ _ (by decide) (by decide)
  case RUNASUSER =>
    unfold applyKey
    simp only
    rw [getWord_zeros h hshort 1 (by decide)]
    cases hnum : words[1]? with
    | none => rfl
    | some user =>
      have hmem := List.mem_of_getElem? hnum
      have hpos : ¬user.length = 0 := fun hzero =>
        h.ne_nil user hmem (List.eq_nil_of_length_eq_zero hzero)
      show Except.ok (if user.length = 0 then s
        else { s with USERNAME_UID_FOR_DAEMON := cstring (user ++ 0 :: _) }) = _
      rw [if_neg hpos, cstring_append (hshort user hmem).2]
      rfl
  case IFUSERDOESNTEXISTRUNASUID => exact hint _ _ _ (by decide) (by decide)
  case CACHING => exact honoff _
  case MAXCACHESIZE => exact hint _ _ _ (by decide) (by decide)
  case MAXCACHESIZEFOREACHFILE => exact hint _ _ _ (by decide) (by decide)
  case MAXSEPERATECACHEITEMS => exact hint _ _ _ (by decide) (by decide)
  case ENABLEPOST => exact honoff _
  case MAXPOSTTRANSACTIONSIZE => exact hint _ _ _ (by decide) (by decide)
  all_goals exact congrArg Except.ok hnone.symm

end Words

/-! A line. -/

/-- What the words of a line come to in the code. -/
def applied (s : Settings) : List (List UInt8) → Settings
  | [] => s
  | key :: values =>
    ((values[0]?).bind fun value => s.set value (scanForConfigKeys (key ++ [58]))).getD s

theorem applied_cons (s : Settings) (key : List UInt8) (values : List (List UInt8)) :
    applied s (key :: values) =
      ((values[0]?).bind fun value => s.set value (scanForConfigKeys (key ++ [58]))).getD s := rfl

theorem set_unwired {k : ConfigKeys} (h : k ∉ ConfigKeys.wired) (s : Settings)
    (value : List UInt8) : s.set value k = none := by
  cases k
  all_goals first | rfl | exact absurd (by decide) h

theorem applied_wordsOfLine {line : List UInt8} (h : Plain line) (hshort : ¬OverLong line)
    (s : Settings) : applied s (wordsOfLine line) = meaning s line := by
  unfold meaning
  rw [if_neg hshort]
  cases hwords : wordsOfLine line with
  | nil => rfl
  | cons key values =>
    obtain ⟨hcolon, hvalues⟩ := h.2 hshort key values hwords
    rw [applied_cons, scanForConfigKeys_eq hcolon]
    cases values with
    | nil => rfl
    | cons value values =>
      show (s.set value ((keyNamed key).getD .EMPTY)).getD s = _
      cases values with
      | nil =>
        show _ = ((keyNamed key).bind (s.set value)).getD s
        cases keyNamed key with
        | none => rfl
        | some k => rfl
      | cons value' values =>
        show _ = s
        cases hnamed : keyNamed key with
        | none => rfl
        | some k =>
          have hunwired : k ∉ ConfigKeys.wired := by
            intro hk
            have hle := hvalues ⟨k, hk, hnamed⟩
            rw [List.length_cons, List.length_cons] at hle
            omega
          rw [Option.getD_some, set_unwired hunwired, Option.getD_none]

theorem applied_comment (rest : List UInt8) (s : Settings) :
    applied s (pieces blanks (35 :: rest)) = s := by
  obtain ⟨w, ws, hwords⟩ := @pieces_cons_of_notMem blanks 35 (by decide) rest
  have hheads : ∀ key ∈ keyNames, ((sentinelled key.1).map toLower).head? ≠ some 35 := by
    decide +kernel
  have hempty : scanForConfigKeys (35 :: w ++ [58]) = .EMPTY := by
    refine scanForConfigKeys_of_notMatches fun key hkey hmatches => hheads key hkey ?_
    have hne : (sentinelled key.1).length ≠ 0 := by
      rw [sentinelled, List.length_append, List.length_singleton]
      exact Nat.succ_ne_zero _
    obtain ⟨n, hn⟩ := Nat.exists_eq_succ_of_ne_zero hne
    rw [← show _ = (sentinelled key.1).map toLower from hmatches, hn]
    rfl
  rw [hwords, applied_cons, hempty]
  cases ws[0]? with
  | none => rfl
  | some value => rfl

/-- The parser between two lines. -/
structure Ready (ipc : Ipc) : Prop where
  delimeters : ipc.delimeters = blanks
  tokens_max : ipc.tokens_max = MAX_CONFIGURATION_FILE_LINE_SIZE
  holds : ∃ words, Holds ipc words

theorem Ready.parseConfigString {ipc : Ipc} (h : Ready ipc) (s : Settings) {c : UInt8}
    {rest : List UInt8} (hc : c ∉ blanks) (hzero : 0 ∉ c :: rest)
    (hlength : (c :: rest).length < MAX_CONFIGURATION_FILE_LINE_SIZE) :
    ∃ ipc', parseConfigString s ipc (c :: rest) =
      .ok (applied s (pieces blanks (c :: rest)), ipc') ∧ Ready ipc' := by
  obtain ⟨before, hholds⟩ := h.holds
  have hwords : ipc.wordsOf (some (c :: rest)) = pieces blanks (c :: rest) := by
    unfold Ipc.wordsOf
    rw [h.delimeters, h.tokens_max]
    exact List.take_of_length_le ((length_pieces_le _).trans hlength.le)
  have hcount : (pieces blanks (c :: rest)).length < 2 ^ 31 := (length_pieces_le _).trans_lt
    (hlength.trans (show MAX_CONFIGURATION_FILE_LINE_SIZE < 2 ^ 31 by decide))
  obtain ⟨n, ipc', hseperate, hn, hnext, hsame⟩ := @Holds.seperateWords ipc before hholds
    (some (c :: rest)) 0 true (hlength.trans (by decide)) (fun hnil => (by cases hnil))
    (fun hcopy => absurd hcopy (by decide)) (by rw [hwords]; exact hcount)
  rw [hwords] at hn hnext
  obtain ⟨w, ws, hpieces⟩ := pieces_cons_of_notMem hc rest
  have hshort : Short (pieces blanks (c :: rest)) := by
    intro word hword
    have hinside := infix_of_mem_pieces hword
    exact ⟨hinside.length_le.trans_lt hlength, fun hmem => hzero (hinside.subset hmem)⟩
  refine ⟨ipc', ?_, ?_, ?_, ⟨_, hnext⟩⟩
  · have hpos : ¬n.toInt ≤ 0 := by
      rw [hn, hpieces, List.length_cons]
      omega
    have hkey : (c :: w).length < MAX_CONFIGURATION_FILE_LINE_SIZE :=
      (hshort _ (hpieces ▸ List.mem_cons_self ..)).1
    have hget := getWord_zeros hnext hshort 0 (Nat.lt_succ_self _)
    rw [hpieces, List.getElem?_cons_zero, Option.elim_some] at hget
    have hroom : ¬MAX_CONFIGURATION_FILE_LINE_SIZE + 1 + 1 < (c :: w).length + 2 := by omega
    have hsome : ¬(c :: w).length = 0 := Nat.succ_ne_zero _
    unfold ServerConfiguration.parseConfigString
    rw [hseperate]
    show (if n.toInt ≤ 0 then Except.ok (s, ipc') else (ipc'.getWord 0 _ _).bind _) = _
    rw [if_neg hpos, hget]
    show (if (c :: w).length = 0 then Except.ok (s, ipc')
      else if MAX_CONFIGURATION_FILE_LINE_SIZE + 1 + 1 < (c :: w).length + 2 then
        .error .outOfBounds
      else
        (applyKey ipc' s (scanForConfigKeys
          ((c :: w ++ 0 :: _).take (c :: w).length ++ [58]))).map fun s => (s, ipc')) = _
    rw [if_neg hsome, if_neg hroom, List.take_left, applyKey_eq hnext hshort, hpieces]
    rfl
  · exact (congrArg InputParserC.delimeters hsame).trans h.delimeters
  · exact (congrArg InputParserC.tokens_max hsame).trans h.tokens_max

theorem Ready.loadLine {ipc : Ipc} (h : Ready ipc) (s : Settings) {line eol : List UInt8}
    (hplain : Plain line) (hshort : ¬OverLong line) (heol : eol = [] ∨ eol = [LF]) :
    ∃ ipc', loadLine s ipc (line ++ eol) = .ok (meaning s line, ipc') ∧ Ready ipc' := by
  have htext : (cstring (line ++ eol)).rdropWhile isNewline = line.rdropWhile isNewline := by
    have hzero : 0 ∉ line ++ eol := by
      rw [List.mem_append, not_or]
      rcases heol with rfl | rfl
      · exact ⟨hplain.1, List.not_mem_nil⟩
      · exact ⟨hplain.1, by decide⟩
    rw [cstring_of_notMem hzero]
    rcases heol with rfl | rfl
    · rw [List.append_nil]
    · exact List.rdropWhile_concat_pos _ _ _ (by decide)
  have hwords : pieces blanks ((line.rdropWhile isNewline).dropWhile blanks.contains) =
      wordsOfLine line := pieces_dropWhile _
  have hinside : (line.rdropWhile isNewline).dropWhile blanks.contains <:+: line :=
    (List.dropWhile_suffix _).isInfix.trans (List.rdropWhile_prefix _ _).isInfix
  have hhead := List.head?_dropWhile_not blanks.contains (line.rdropWhile isNewline)
  unfold ServerConfiguration.loadLine
  simp only
  rw [htext, ← applied_wordsOfLine hplain hshort, ← hwords]
  cases hstart : (line.rdropWhile isNewline).dropWhile blanks.contains with
  | nil => exact ⟨ipc, if_pos (.inl rfl), h⟩
  | cons c rest =>
    rw [hstart] at hinside hhead
    by_cases hcomment : c = 35
    · subst hcomment
      rw [applied_comment]
      exact ⟨ipc, if_pos (.inr rfl), h⟩
    · have hother : ¬(c :: rest = [] ∨ (c :: rest).head? = some 35) := by
        rintro (hnil | hhash)
        · cases hnil
        · exact hcomment (Option.some.inj hhash)
      have hblank : c ∉ blanks := fun hmem =>
        Bool.eq_false_iff.mp hhead (List.contains_iff_mem.mpr hmem)
      have hlength : (c :: rest).length < MAX_CONFIGURATION_FILE_LINE_SIZE := by
        have hle := hinside.length_le
        unfold OverLong at hshort
        omega
      rw [if_neg hother]
      exact h.parseConfigString s hblank (fun hmem => hplain.1 (hinside.subset hmem)) hlength

/-! The lines of a file. -/

/-- What `fgets` reads of a line, and what it leaves: behind the line there is its end, or nothing. -/
theorem fgets_append {line behind : List UInt8} (hline : LF ∉ line)
    (hbehind : ∀ c ∈ behind.head?, c = LF) (room : ℕ) :
    fgets room (line ++ behind) =
      if line.length < room then (line ++ behind.take 1, behind.drop 1)
      else (line.take room, line.drop room ++ behind) := by
  induction line generalizing room with
  | nil =>
    cases room with
    | zero => rfl
    | succ room =>
      have hroom : ([] : List UInt8).length < room + 1 := Nat.succ_pos room
      rw [if_pos hroom]
      cases behind with
      | nil => rfl
      | cons c behind =>
        obtain rfl : c = LF := hbehind c rfl
        exact if_pos rfl
  | cons c line ih =>
    rw [List.mem_cons, not_or] at hline
    cases room with
    | zero => rfl
    | succ room =>
      rw [List.cons_append, fgets, if_neg (Ne.symm hline.1), ih hline.2]
      by_cases hroom : line.length < room
      · have hnext : (c :: line).length < room + 1 := Nat.succ_lt_succ hroom
        rw [if_pos hroom, if_pos hnext]
        rfl
      · have hnext : ¬(c :: line).length < room + 1 := fun h => hroom (Nat.lt_of_succ_lt_succ h)
        rw [if_neg hroom, if_neg hnext]
        rfl

theorem meaning_nil (s : Settings) : meaning s [] = s := rfl

theorem loadLines_nil (s : Settings) (ipc : Ipc) (fuel : ℕ) : loadLines s ipc fuel [] = .ok s := by
  cases fuel with
  | zero => rfl
  | succ fuel => rfl

theorem loadLines_line {ipc : Ipc} (h : Ready ipc) (s : Settings) {line behind : List UInt8}
    (hline : LF ∉ line) (hbehind : ∀ c ∈ behind.head?, c = LF) (hne : line ++ behind ≠ [])
    (hplain : Plain line) (fuel : ℕ) :
    ∃ ipc', loadLines s ipc (fuel + 1) (line ++ behind) =
      loadLines (meaning s line) ipc' fuel (behind.drop 1) ∧ Ready ipc' := by
  obtain ⟨c, file, hfile⟩ := List.exists_cons_of_ne_nil hne
  have hread := fgets_append hline hbehind (MAX_CONFIGURATION_FILE_LINE_SIZE - 1)
  rw [hfile] at hread ⊢
  rw [loadLines, hread]
  by_cases hlong : OverLong line
  · -- The buffer is full of the line, and the rest of it is skipped.
    have hnot : ¬line.length < MAX_CONFIGURATION_FILE_LINE_SIZE - 1 := Nat.not_lt_of_le hlong
    have hbuffer : cstring (line.take (MAX_CONFIGURATION_FILE_LINE_SIZE - 1)) =
        line.take (MAX_CONFIGURATION_FILE_LINE_SIZE - 1) :=
      cstring_of_notMem fun hmem => hplain.1 (List.mem_of_mem_take hmem)
    have hfull : (line.take (MAX_CONFIGURATION_FILE_LINE_SIZE - 1)).length =
        MAX_CONFIGURATION_FILE_LINE_SIZE - 1 := List.length_take_of_le hlong
    have hlast : (line.take (MAX_CONFIGURATION_FILE_LINE_SIZE - 1)).getLast? ≠ some LF :=
      fun hlast => hline (List.mem_of_mem_take (List.mem_of_getLast? hlast))
    have hskip : ((line.drop (MAX_CONFIGURATION_FILE_LINE_SIZE - 1) ++ behind).dropWhile
        (· ≠ LF)).drop 1 = behind.drop 1 := by
      have hrest : ∀ c ∈ line.drop (MAX_CONFIGURATION_FILE_LINE_SIZE - 1),
          decide (c ≠ LF) = true := fun c hc => decide_eq_true fun heq =>
        hline (heq ▸ List.mem_of_mem_drop hc)
      rw [List.dropWhile_append_of_pos hrest]
      cases behind with
      | nil => rfl
      | cons c behind => rw [List.dropWhile_cons_of_neg (by simp [hbehind c rfl])]
    have hmeaning : meaning s line = s := if_pos hlong
    rw [if_neg hnot]
    simp only
    rw [hbuffer, if_pos ⟨hfull, hlast⟩, hskip, hmeaning]
    exact ⟨ipc, rfl, h⟩
  · have hlt : line.length < MAX_CONFIGURATION_FILE_LINE_SIZE - 1 := Nat.lt_of_not_le hlong
    have heol : behind.take 1 = [] ∨ behind.take 1 = [LF] := by
      cases behind with
      | nil => exact .inl rfl
      | cons c behind => exact .inr (by rw [hbehind c rfl]; rfl)
    have hzero : 0 ∉ line ++ behind.take 1 := by
      rw [List.mem_append, not_or]
      rcases heol with heol | heol
      · rw [heol]
        exact ⟨hplain.1, List.not_mem_nil⟩
      · rw [heol]
        exact ⟨hplain.1, by decide⟩
    have hwhole : ¬((line ++ behind.take 1).length = MAX_CONFIGURATION_FILE_LINE_SIZE - 1 ∧
        (line ++ behind.take 1).getLast? ≠ some LF) := by
      rintro ⟨hlength, hlast⟩
      rcases heol with heol | heol
      · rw [heol, List.append_nil] at hlength
        exact hlt.ne hlength
      · rw [heol] at hlast
        exact hlast List.getLast?_concat
    obtain ⟨ipc', hload, hready⟩ := h.loadLine s hplain hlong heol
    rw [if_pos hlt]
    simp only
    rw [cstring_of_notMem hzero, if_neg hwhole, hload]
    exact ⟨ipc', rfl, hready⟩

theorem loadLines_eq (fuel : ℕ) {ipc : Ipc} {s : Settings} {file : List UInt8}
    (hfuel : file.length < fuel) (h : Ready ipc) (hplain : ∀ line ∈ file.splitOn LF, Plain line) :
    loadLines s ipc fuel file = .ok ((file.splitOn LF).foldl meaning s) := by
  induction fuel generalizing ipc s file with
  | zero => exact absurd hfuel (Nat.not_lt_zero _)
  | succ fuel ih =>
    by_cases hmem : LF ∈ file
    · obtain ⟨line, rest, rfl, hline⟩ := List.eq_append_cons_of_mem hmem
      rw [List.splitOn_append_cons_self_of_not_mem hline] at hplain ⊢
      obtain ⟨hfirst, hrest⟩ := List.forall_mem_cons.mp hplain
      have hend : ∀ c ∈ (LF :: rest).head?, c = LF := fun c hc => (Option.some.inj hc).symm
      have hne : line ++ LF :: rest ≠ [] :=
        List.append_ne_nil_of_right_ne_nil _ (List.cons_ne_nil LF rest)
      obtain ⟨ipc', hturn, hready⟩ := loadLines_line h s hline hend hne hfirst fuel
      have hlt : rest.length < fuel := by
        rw [List.length_append, List.length_cons] at hfuel
        omega
      rw [hturn, List.foldl_cons]
      exact ih hlt hready hrest
    · rw [List.splitOn_eq_singleton hmem] at hplain ⊢
      cases file with
      | nil => exact loadLines_nil s ipc _
      | cons c file =>
        have hne : c :: file ++ [] ≠ [] := List.cons_ne_nil c _
        obtain ⟨ipc', hturn, -⟩ := @loadLines_line ipc h s _ [] hmem (fun c hc => (by cases hc)) hne
          (hplain _ (List.mem_singleton_self _)) fuel
        rw [List.append_nil] at hturn
        rw [hturn]
        exact loadLines_nil _ ipc' fuel

theorem setDelimeter_inside {ipc : Ipc} {num : ℤ} (hnum : 0 ≤ num)
    (h : num < ipc.delimeters.length) (tmp : UInt8) :
    ipc.setDelimeter num tmp = .ok { ipc with delimeters := ipc.delimeters.set num.toNat tmp } := by
  unfold Ipc.setDelimeter
  rw [if_neg (not_le_of_gt h), if_neg (not_lt_of_ge hnum)]

theorem lineParser_ready (garbage : ℕ → Tokens) :
    ∃ ipc, lineParser garbage = .ok ipc ∧ Ready ipc := by
  have hsize := (@start_holds MAX_CONFIGURATION_FILE_LINE_SIZE (by decide) 2 garbage).size
  unfold lineParser
  unfold start at hsize
  simp only at hsize
  have hdefault : (ipcCreate MAX_CONFIGURATION_FILE_LINE_SIZE 2 garbage).delimeters = [LF, 44] := rfl
  have hmax : (ipcCreate MAX_CONFIGURATION_FILE_LINE_SIZE 2 garbage).tokens_max =
      MAX_CONFIGURATION_FILE_LINE_SIZE := rfl
  have hcount : (ipcCreate MAX_CONFIGURATION_FILE_LINE_SIZE 2 garbage).tokens_count = 0 := rfl
  generalize ipcCreate MAX_CONFIGURATION_FILE_LINE_SIZE 2 garbage = created at *
  have hfirst : created.setDelimeter 0 32 = .ok { created with delimeters := [32, 44] } := by
    rw [setDelimeter_inside le_rfl (by rw [hdefault]; decide), hdefault]
    rfl
  have hready : Ready { created with delimeters := blanks } := ⟨rfl, hmax, [], .nil hsize hcount⟩
  refine ⟨_, ?_, hready⟩
  rw [hfirst]
  exact setDelimeter_inside Int.one_nonneg (by show (1 : ℤ) < 2; decide) 9

def noTokens : ℕ → Tokens := fun _ => ⟨0, 0⟩

/-- The settings of an instance that has just been started. -/
def defaultSettings : Settings where
  varSocketTimeoutREAD_seconds := 8
  varSocketTimeoutWRITE_seconds := 8
  KEEPALIVE_ENABLED := 1
  BINDING_PORT := 8080
  CHANGE_PRIORITY := 0
  USERNAME_UID_FOR_DAEMON := ascii "www-data"
  CHANGE_TO_UID := 1500
  CACHING_ENABLED := 1
  MAX_CACHE_SIZE_IN_MB := 128
  MAX_CACHE_SIZE_FOR_EACH_FILE_IN_MB := 3
  MAX_SEPERATE_CACHE_ITEMS := 1024
  ENABLE_POST := 0
  MAX_POST_TRANSACTION_SIZE := 4194304

end AmmarServer.ServerConfiguration
