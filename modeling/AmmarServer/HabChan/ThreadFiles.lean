import AmmarServer.HabChan.Threads

/-! What is read back of the files of a thread when its fields hold no delimeter. -/

namespace AmmarServer.HabChan
open Bytes CString TextFile InputParser

def delimeters : List UInt8 := [LF, 44, 61, 40, 41]

/-- What one word of the parser can be. -/
def Plain (s : List UInt8) : Prop := ∀ c ∈ s, c ∉ delimeters

instance (s : List UInt8) : Decidable (Plain s) := List.decidableBAll _ s

theorem plain_decimal (n : ℕ) : Plain (decimal n) := by
  have hdigit : ∀ c : UInt8, isDigit c = true → c ∉ delimeters := by
    apply forall_byte
    decide +kernel
  exact fun c hc => hdigit c (isDigit_decimal c hc)

theorem Plain.append {s s' : List UInt8} (h : Plain s) (h' : Plain s') : Plain (s ++ s') := by
  intro c hc
  rcases List.mem_append.mp hc with hc | hc
  · exact h c hc
  · exact h' c hc

theorem Plain.cons {s : List UInt8} {c : UInt8} (hc : c ∉ delimeters) (h : Plain s) :
    Plain (c :: s) := List.forall_mem_cons.mpr ⟨hc, h⟩

/-! One line. -/

theorem seperateFrom_values {values : List (List UInt8)} (hvalues : ∀ v ∈ values, Plain v)
    {room : ℕ} (hroom : values.length < room) :
    seperateFrom delimeters room [] false (List.intercalate [44] values ++ [41, LF]) =
      values.filter (· ≠ []) := by
  have hend : ∀ room, seperateFrom delimeters (room + 1) [] false [LF] = [] := fun _ => rfl
  induction values generalizing room with
  | nil =>
    obtain ⟨room, rfl⟩ : ∃ n, room = n + 1 := ⟨room - 1, by rw [List.length_nil] at hroom; omega⟩
    rfl
  | cons v values ih =>
    obtain ⟨room, rfl⟩ : ∃ n, room = n + 2 := ⟨room - 2, by rw [List.length_cons] at hroom; omega⟩
    obtain ⟨hv, hvalues⟩ := List.forall_mem_cons.mp hvalues
    cases values with
    | nil =>
      have htext : List.intercalate [44] [v] ++ [41, LF] = v ++ 41 :: [LF] := by
        simp [List.intercalate]
      rw [htext, seperateFrom_cons hv (room + 1) (by decide)]
      split_ifs with hnil
      · rw [hnil, hend]
        rfl
      · rw [hend, List.filter_cons_of_pos (by simpa using hnil), List.filter_nil]
    | cons w values =>
      have htext : List.intercalate [44] (v :: w :: values) ++ [41, LF] =
          v ++ 44 :: (List.intercalate [44] (w :: values) ++ [41, LF]) := by
        simp [List.intercalate]
      rw [htext, seperateFrom_cons hv (room + 1) (by decide)]
      rw [List.length_cons] at hroom
      split_ifs with hnil
      · rw [ih hvalues (by omega), hnil]
        rfl
      · rw [List.filter_cons_of_pos (by simpa using hnil), ih hvalues (by omega)]

theorem words_line {name : String} (hname : Plain (ascii name)) (hne : ascii name ≠ [])
    {values : List (List UInt8)} (hvalues : ∀ v ∈ values, Plain v) (hroom : values.length < 1000) :
    words (line name values ++ [LF]) = ascii name :: values.filter (· ≠ []) := by
  have hmax : inputParserCreate LINE_MAX_LENGTH 5 = ⟨delimeters, 1023 + 1⟩ := rfl
  have htext : line name values ++ [LF] =
      ascii name ++ 40 :: (List.intercalate [44] values ++ [41, LF]) := by
    simp [line]
  unfold words inputParserSeperateWords
  rw [hmax, htext, seperateFrom_cons hname 1023 (by decide), if_neg hne,
    seperateFrom_values hvalues (by omega)]

/-- The names of the lines, and how the source spells them when it reads. -/
def names : List (String × String) :=
  [("op", "OP"), ("password", "PASSWORD"), ("deleted", "DELETED"), ("imagename", "IMAGENAME"),
    ("imagecached", "IMAGECACHED"), ("timestamp", "TIMESTAMP"), ("title", "TITLE"),
    ("lastReply", "LASTREPLY"), ("numberOfReplies", "NUMBEROFREPLIES"),
    ("numberOfImages", "NUMBEROFIMAGES"), ("sticky", "STICKY")]

theorem names_plain : ∀ n ∈ names, Plain (ascii n.1) ∧ ascii n.1 ≠ [] ∧ (ascii n.1).length ≤ 15 := by
  decide

theorem names_apart : ∀ n ∈ names, ∀ m ∈ names,
    ((ascii n.1).map toupper = (ascii m.2).map toupper ↔ n.2 = m.2) := by
  decide

/-- A line that was written under a name is read under that name only. -/
theorem named_iff {n m : String × String} (hn : n ∈ names) (hm : m ∈ names)
    (ws : List (List UInt8)) : named (ascii n.1 :: ws) m.2 = decide (n.2 = m.2) := by
  unfold named inputParserWordCompareNoCaseAuto
  exact decide_eq_decide.mpr (names_apart n hn m hm)

theorem readWord_line {name : String} {v : List UInt8} (hfits : v.length < MAX_STRING_SIZE) :
    readWord (ascii name :: [v].filter (· ≠ [])) [] = v := by
  cases v with
  | nil => rfl
  | cons c v =>
    show (if MAX_STRING_SIZE < (c :: v).length + 1 then [] else c :: v) = c :: v
    rw [if_neg (Nat.not_lt.mpr hfits)]

theorem filter_decimal (ns : List ℕ) :
    (ns.map decimal).filter (· ≠ []) = ns.map decimal := by
  rw [List.filter_eq_self]
  intro v hv
  obtain ⟨n, -, rfl⟩ := List.mem_map.mp hv
  simpa using decimal_ne_nil n

theorem readByte_line (name : String) (n : UInt8) :
    (inputParserGetWordInt (ascii name :: [decimal n.toNat].filter (· ≠ [])) 1).toUInt8 = n := by
  have hfilter := filter_decimal [n.toNat]
  rw [List.map_singleton] at hfilter
  rw [hfilter]
  show (str2Int (decimal n.toNat)).toUInt8 = n
  have hword : n.toNat = n.toUInt32.toNat := (UInt8.toNat_toUInt32 n).symm
  rw [hword, str2Int_decimal]
  exact UInt8.toUInt8_toUInt32 n

theorem readTimestamp_line (name : String) (t : Timestamp) :
    readTimestamp (ascii name :: t.values.filter (· ≠ [])) = t := by
  have hvalues : t.values =
      [t.year.toNat, t.month.toNat, t.day.toNat, t.hour.toNat, t.minute.toNat,
        t.second.toNat].map decimal := rfl
  rw [hvalues, filter_decimal]
  show (⟨str2Int (decimal t.year.toNat), str2Int (decimal t.month.toNat),
    str2Int (decimal t.day.toNat), str2Int (decimal t.hour.toNat), str2Int (decimal t.minute.toNat),
    str2Int (decimal t.second.toNat)⟩ : Timestamp) = t
  simp only [str2Int_decimal]

/-! A whole file. -/

/-- What a buffer holds and one word can be. -/
structure Kept (s : List UInt8) : Prop where
  plain : Plain s
  fits : s.length < MAX_STRING_SIZE

theorem Kept.values {s : List UInt8} (h : Kept s) : ∀ v ∈ [s], Plain v := by
  intro v hv
  rw [List.mem_singleton.mp hv]
  exact h.plain

theorem kept_nil : Kept [] := ⟨fun _ hc => (by cases hc), by decide⟩

theorem plain_values (t : Timestamp) : ∀ v ∈ t.values, Plain v := by
  intro v hv
  obtain ⟨n, -, rfl⟩ := List.mem_map.mp hv
  exact plain_decimal n.toNat

theorem decimal_values (n : ℕ) : ∀ v ∈ [decimal n], Plain v := by
  intro v hv
  rw [List.mem_singleton.mp hv]
  exact plain_decimal n

/-- A line that `fgets` takes as one. -/
def Line (l : List UInt8) : Prop := LF ∉ l ∧ l.length < LINE_MAX_LENGTH - 1

theorem mem_intercalate {values : List (List UInt8)} {c : UInt8}
    (h : c ∈ List.intercalate [44] values) : c = 44 ∨ ∃ v ∈ values, c ∈ v := by
  induction values with
  | nil => cases h
  | cons v values ih =>
    cases values with
    | nil =>
      have htext : List.intercalate [44] [v] = v := by simp [List.intercalate]
      exact .inr ⟨v, List.mem_singleton_self v, htext ▸ h⟩
    | cons w values =>
      have htext : List.intercalate [44] (v :: w :: values) =
          v ++ 44 :: List.intercalate [44] (w :: values) := by
        simp [List.intercalate]
      rw [htext, List.mem_append, List.mem_cons] at h
      rcases h with h | h | h
      · exact .inr ⟨v, List.mem_cons_self .., h⟩
      · exact .inl h
      · obtain h | ⟨u, hu, h⟩ := ih h
        · exact .inl h
        · exact .inr ⟨u, List.mem_cons_of_mem _ hu, h⟩

theorem line_whole {n : String × String} (hn : n ∈ names) {values : List (List UInt8)}
    (hvalues : ∀ v ∈ values, Plain v) (hlength : (List.intercalate [44] values).length < 1000) :
    Line (line n.1 values) := by
  obtain ⟨hname, -, hshort⟩ := names_plain n hn
  constructor
  · intro hcon
    have hLF : LF ∈ delimeters := by decide
    have hvalue : LF ∉ List.intercalate [44] values := by
      intro hcon
      rcases mem_intercalate hcon with hcon | ⟨v, hv, hcon⟩
      · exact absurd hcon (by decide)
      · exact hvalues v hv LF hcon hLF
    rcases List.mem_append.mp hcon with hcon | hcon
    · exact hname LF hcon hLF
    · rcases List.mem_cons.mp hcon with hcon | hcon
      · exact absurd hcon (by decide)
      · rcases List.mem_append.mp hcon with hcon | hcon
        · exact hvalue hcon
        · exact absurd hcon (by decide)
  · unfold line LINE_MAX_LENGTH
    rw [List.length_append, List.length_cons, List.length_append]
    show _ + (_ + 1 + 1) < 1023
    omega

theorem lines_fileText {ls : List (List UInt8)} (hls : ∀ l ∈ ls, Line l) :
    lines (fileText ls) = ls.map (· ++ [LF]) := by
  refine readLines_lines hls ?_
  unfold fileText
  induction ls with
  | nil => exact Nat.zero_le _
  | cons l ls ih =>
    have hrest := ih fun l hl => hls l (List.mem_cons_of_mem _ hl)
    rw [List.flatMap_cons, List.length_append, List.length_append, List.length_cons,
      List.length_singleton]
    omega

theorem length_values (t : Timestamp) : (List.intercalate [44] t.values).length < 1000 := by
  have hshort : ∀ n : UInt32, (decimal n.toNat).length ≤ 10 := fun n =>
    decimal_length (by decide) (lt_trans n.toNat_lt (by decide))
  have htext : List.intercalate [44] t.values =
      decimal t.year.toNat ++ 44 :: (decimal t.month.toNat ++ 44 :: (decimal t.day.toNat ++
        44 :: (decimal t.hour.toNat ++ 44 :: (decimal t.minute.toNat ++
          44 :: decimal t.second.toNat)))) := by
    simp [Timestamp.values, List.intercalate]
  rw [htext]
  simp only [List.length_append, List.length_cons]
  have := hshort t.year
  have := hshort t.month
  have := hshort t.day
  have := hshort t.hour
  have := hshort t.minute
  have := hshort t.second
  omega

theorem Kept.line_whole {s : List UInt8} (h : Kept s) {n : String × String} (hn : n ∈ names) :
    Line (line n.1 [s]) := by
  have htext : List.intercalate [44] [s] = s := by simp [List.intercalate]
  refine HabChan.line_whole hn h.values ?_
  rw [htext]
  exact lt_trans h.fits (by decide)

theorem decimal_line_whole {n : String × String} (hn : n ∈ names) {value : ℕ}
    (hvalue : value < 10 ^ 30) : Line (line n.1 [decimal value]) := by
  have htext : List.intercalate [44] [decimal value] = decimal value := by simp [List.intercalate]
  refine line_whole hn (decimal_values value) ?_
  rw [htext]
  exact (decimal_length (by decide) hvalue).trans_lt (by decide)

theorem length_one_lt (v : List UInt8) : [v].length < 1000 := by
  rw [List.length_singleton]
  decide

theorem length_values_lt (t : Timestamp) : t.values.length < 1000 := by
  show 6 < 1000
  decide

/-- What the loops of `loadPostHeader` and `loadThread` make of a line that was written. -/
theorem headerLine_line {n : String × String} (hn : n ∈ names) {values : List (List UInt8)}
    (hvalues : ∀ v ∈ values, Plain v) (hroom : values.length < 1000) (p : Post) :
    headerLine p (line n.1 values ++ [LF]) =
      let ws := ascii n.1 :: values.filter (· ≠ [])
      if n.2 = "OP" then { p with op := readWord ws p.op }
      else if n.2 = "PASSWORD" then { p with password := readWord ws p.password }
      else if n.2 = "DELETED" then { p with deleted := (inputParserGetWordInt ws 1).toUInt8 }
      else if n.2 = "IMAGENAME" then
        { p with hasFile := true, fileOriginalName := readWord ws p.fileOriginalName }
      else if n.2 = "IMAGECACHED" then { p with fileCachedName := readWord ws p.fileCachedName }
      else if n.2 = "TIMESTAMP" then { p with creation := readTimestamp ws }
      else p := by
  obtain ⟨hname, hne, -⟩ := names_plain n hn
  have hnamed : ∀ m ∈ names, ∀ ws, named (ascii n.1 :: ws) m.2 = decide (n.2 = m.2) :=
    fun m hm ws => named_iff hn hm ws
  simp only [names, List.forall_mem_cons] at hnamed
  obtain ⟨hop, hpassword, hdeleted, himage, hcached, hstamp, -⟩ := hnamed
  unfold headerLine
  rw [words_line hname hne hvalues hroom]
  simp only [hop, hpassword, hdeleted, himage, hcached, hstamp, List.cons_ne_nil, if_false,
    decide_eq_true_eq]

theorem statusLine_line {n : String × String} (hn : n ∈ names) {values : List (List UInt8)}
    (hvalues : ∀ v ∈ values, Plain v) (hroom : values.length < 1000) (t : Thread) :
    statusLine t (line n.1 values ++ [LF]) =
      let ws := ascii n.1 :: values.filter (· ≠ [])
      if n.2 = "OP" then { t with op := readWord ws t.op }
      else if n.2 = "PASSWORD" then { t with password := readWord ws t.password }
      else if n.2 = "DELETED" then { t with deleted := (inputParserGetWordInt ws 1).toUInt8 }
      else if n.2 = "TITLE" then { t with title := readWord ws t.title }
      else if n.2 = "LASTREPLY" then { t with lastReply := readTimestamp ws }
      else if n.2 = "NUMBEROFREPLIES" then t
      else if n.2 = "NUMBEROFIMAGES" then t
      else if n.2 = "STICKY" then { t with sticky := (inputParserGetWordInt ws 1).toUInt8 }
      else t := by
  obtain ⟨hname, hne, -⟩ := names_plain n hn
  have hnamed : ∀ m ∈ names, ∀ ws, named (ascii n.1 :: ws) m.2 = decide (n.2 = m.2) :=
    fun m hm ws => named_iff hn hm ws
  simp only [names, List.forall_mem_cons] at hnamed
  obtain ⟨hop, hpassword, hdeleted, -, -, -, htitle, hlast, hreplies, himages, hsticky, -⟩ := hnamed
  unfold statusLine
  rw [words_line hname hne hvalues hroom]
  simp only [hop, hpassword, hdeleted, htitle, hlast, hreplies, himages, hsticky,
    List.cons_ne_nil, if_false, decide_eq_true_eq]

/-- A post whose header keeps it. -/
structure Savable (p : Post) : Prop where
  op : Kept p.op
  password : Kept p.password
  original : Kept p.fileOriginalName
  cached : Kept p.fileCachedName
  file : p.hasFile = true → p.fileCachedName ≠ []
  noFile : p.hasFile = false → p.fileOriginalName = [] ∧ p.fileCachedName = []

theorem Savable.lines {p : Post} (h : Savable p) : ∀ l ∈ headerLines p, Line l := by
  have hop := h.op.line_whole (n := ("op", "OP")) (by decide)
  have hpassword := h.password.line_whole (n := ("password", "PASSWORD")) (by decide)
  have hdeleted := decimal_line_whole (n := ("deleted", "DELETED")) (by decide)
    (lt_trans p.deleted.toNat_lt (by decide))
  have himage := h.original.line_whole (n := ("imagename", "IMAGENAME")) (by decide)
  have hcached := h.cached.line_whole (n := ("imagecached", "IMAGECACHED")) (by decide)
  have hstamp := line_whole (n := ("timestamp", "TIMESTAMP")) (by decide) (plain_values p.creation)
    (length_values p.creation)
  intro l hl
  unfold headerLines at hl
  simp only [List.mem_append, List.mem_cons, List.not_mem_nil, or_false] at hl
  rcases hl with ((rfl | rfl | rfl) | hl) | rfl
  · exact hop
  · exact hpassword
  · exact hdeleted
  · split_ifs at hl with hfile
    · rcases List.mem_cons.mp hl with rfl | hl
      · exact himage
      · rw [List.mem_singleton.mp hl]
        exact hcached
    · cases hl
  · exact hstamp

theorem Savable.foldl_headerLine {p : Post} (h : Savable p) :
    ((headerLines p).map (· ++ [LF])).foldl headerLine .zero = { p with message := none } := by
  have hop : ∀ q : Post, q.op = [] → headerLine q (line "op" [p.op] ++ [LF]) = { q with op := p.op } := by
    intro q hq
    rw [headerLine_line (n := ("op", "OP")) (by decide) h.op.values (length_one_lt _), hq]
    show { q with op := readWord _ [] } = _
    rw [readWord_line h.op.fits]
  have hpassword : ∀ q : Post, q.password = [] →
      headerLine q (line "password" [p.password] ++ [LF]) = { q with password := p.password } := by
    intro q hq
    rw [headerLine_line (n := ("password", "PASSWORD")) (by decide) h.password.values (length_one_lt _), hq]
    show { q with password := readWord _ [] } = _
    rw [readWord_line h.password.fits]
  have hdeleted : ∀ q : Post,
      headerLine q (line "deleted" [decimal p.deleted.toNat] ++ [LF]) =
        { q with deleted := p.deleted } := by
    intro q
    rw [headerLine_line (n := ("deleted", "DELETED")) (by decide) (decimal_values _) (length_one_lt _)]
    show { q with deleted := (inputParserGetWordInt _ 1).toUInt8 } = _
    rw [readByte_line]
  have himage : ∀ q : Post, q.fileOriginalName = [] →
      headerLine q (line "imagename" [p.fileOriginalName] ++ [LF]) =
        { q with hasFile := true, fileOriginalName := p.fileOriginalName } := by
    intro q hq
    rw [headerLine_line (n := ("imagename", "IMAGENAME")) (by decide) h.original.values (length_one_lt _),
      hq]
    show { q with hasFile := true, fileOriginalName := readWord _ [] } = _
    rw [readWord_line h.original.fits]
  have hcached : ∀ q : Post, q.fileCachedName = [] →
      headerLine q (line "imagecached" [p.fileCachedName] ++ [LF]) =
        { q with fileCachedName := p.fileCachedName } := by
    intro q hq
    rw [headerLine_line (n := ("imagecached", "IMAGECACHED")) (by decide) h.cached.values (length_one_lt _),
      hq]
    show { q with fileCachedName := readWord _ [] } = _
    rw [readWord_line h.cached.fits]
  have hstamp : ∀ q : Post,
      headerLine q (line "timestamp" p.creation.values ++ [LF]) = { q with creation := p.creation } := by
    intro q
    rw [headerLine_line (n := ("timestamp", "TIMESTAMP")) (by decide) (plain_values _) (length_values_lt _)]
    show { q with creation := readTimestamp _ } = _
    rw [readTimestamp_line]
  unfold headerLines
  cases hfile : p.hasFile with
  | true =>
    simp only [if_true, List.cons_append, List.nil_append, List.map_cons, List.map_nil,
      List.foldl_cons, List.foldl_nil]
    rw [hop _ rfl, hpassword _ rfl, hdeleted, himage _ rfl, hcached _ rfl, hstamp]
    rfl
  | false =>
    obtain ⟨horiginal, hcached⟩ := h.noFile hfile
    simp only [Bool.false_eq_true, if_false, List.append_nil, List.cons_append, List.nil_append,
      List.map_cons, List.map_nil, List.foldl_cons, List.foldl_nil]
    rw [hop _ rfl, hpassword _ rfl, hdeleted, hstamp, horiginal, hcached]
    rfl

theorem loadPostHeader_saved {p : Post} (h : Savable p) (postIndex : ℕ) :
    loadPostHeader true (some (fileText (headerLines p))) postIndex =
      some { p with message := none } := by
  unfold loadPostHeader
  simp only [if_true, lines_fileText h.lines, h.foldl_headerLine]
  rw [if_neg]
  rintro ⟨hfile, hcached⟩
  exact h.file hfile hcached

/-- A thread whose `status.ini` keeps it. -/
structure Recorded (t : Thread) : Prop where
  op : Kept t.op
  password : Kept t.password
  title : Kept t.title
  count : t.replies.length ≤ MAX_POSTS_PER_THREAD
  images : t.numberOfImages ≤ t.replies.length

theorem Recorded.lines {t : Thread} (h : Recorded t) : ∀ l ∈ statusLines t, Line l := by
  have hop := h.op.line_whole (n := ("op", "OP")) (by decide)
  have hpassword := h.password.line_whole (n := ("password", "PASSWORD")) (by decide)
  have hdeleted := decimal_line_whole (n := ("deleted", "DELETED")) (by decide)
    (lt_trans t.deleted.toNat_lt (by decide))
  have htitle := h.title.line_whole (n := ("title", "TITLE")) (by decide)
  have hlast := line_whole (n := ("lastReply", "LASTREPLY")) (by decide) (plain_values t.lastReply)
    (length_values t.lastReply)
  have hcount : t.replies.length < 10 ^ 30 := h.count.trans_lt (by decide)
  have hreplies := decimal_line_whole (n := ("numberOfReplies", "NUMBEROFREPLIES")) (by decide) hcount
  have himages := decimal_line_whole (n := ("numberOfImages", "NUMBEROFIMAGES")) (by decide)
    (h.images.trans_lt hcount)
  have hsticky := decimal_line_whole (n := ("sticky", "STICKY")) (by decide)
    (lt_trans t.sticky.toNat_lt (by decide))
  intro l hl
  unfold statusLines at hl
  simp only [List.mem_cons, List.not_mem_nil, or_false] at hl
  rcases hl with rfl | rfl | rfl | rfl | rfl | rfl | rfl | rfl
  · exact hop
  · exact hpassword
  · exact hdeleted
  · exact htitle
  · exact hlast
  · exact hreplies
  · exact himages
  · exact hsticky

theorem Recorded.foldl_statusLine {t : Thread} (h : Recorded t) (name : List UInt8) :
    ((statusLines t).map (· ++ [LF])).foldl statusLine { Thread.zero with name } =
      { Thread.zero with
        name
        op := t.op
        password := t.password
        deleted := t.deleted
        title := t.title
        lastReply := t.lastReply
        sticky := t.sticky } := by
  have hop : ∀ q : Thread, q.op = [] →
      statusLine q (line "op" [t.op] ++ [LF]) = { q with op := t.op } := by
    intro q hq
    rw [statusLine_line (n := ("op", "OP")) (by decide) h.op.values (length_one_lt _), hq]
    show { q with op := readWord _ [] } = _
    rw [readWord_line h.op.fits]
  have hpassword : ∀ q : Thread, q.password = [] →
      statusLine q (line "password" [t.password] ++ [LF]) = { q with password := t.password } := by
    intro q hq
    rw [statusLine_line (n := ("password", "PASSWORD")) (by decide) h.password.values
      (length_one_lt _), hq]
    show { q with password := readWord _ [] } = _
    rw [readWord_line h.password.fits]
  have hdeleted : ∀ q : Thread,
      statusLine q (line "deleted" [decimal t.deleted.toNat] ++ [LF]) =
        { q with deleted := t.deleted } := by
    intro q
    rw [statusLine_line (n := ("deleted", "DELETED")) (by decide) (decimal_values _)
      (length_one_lt _)]
    show { q with deleted := (inputParserGetWordInt _ 1).toUInt8 } = _
    rw [readByte_line]
  have htitle : ∀ q : Thread, q.title = [] →
      statusLine q (line "title" [t.title] ++ [LF]) = { q with title := t.title } := by
    intro q hq
    rw [statusLine_line (n := ("title", "TITLE")) (by decide) h.title.values (length_one_lt _), hq]
    show { q with title := readWord _ [] } = _
    rw [readWord_line h.title.fits]
  have hlast : ∀ q : Thread,
      statusLine q (line "lastReply" t.lastReply.values ++ [LF]) =
        { q with lastReply := t.lastReply } := by
    intro q
    rw [statusLine_line (n := ("lastReply", "LASTREPLY")) (by decide) (plain_values _)
      (length_values_lt _)]
    show { q with lastReply := readTimestamp _ } = _
    rw [readTimestamp_line]
  have hreplies : ∀ q : Thread,
      statusLine q (line "numberOfReplies" [decimal t.replies.length] ++ [LF]) = q := by
    intro q
    rw [statusLine_line (n := ("numberOfReplies", "NUMBEROFREPLIES")) (by decide) (decimal_values _)
      (length_one_lt _)]
    rfl
  have himages : ∀ q : Thread,
      statusLine q (line "numberOfImages" [decimal t.numberOfImages] ++ [LF]) = q := by
    intro q
    rw [statusLine_line (n := ("numberOfImages", "NUMBEROFIMAGES")) (by decide) (decimal_values _)
      (length_one_lt _)]
    rfl
  have hsticky : ∀ q : Thread,
      statusLine q (line "sticky" [decimal t.sticky.toNat] ++ [LF]) = { q with sticky := t.sticky } := by
    intro q
    rw [statusLine_line (n := ("sticky", "STICKY")) (by decide) (decimal_values _) (length_one_lt _)]
    show { q with sticky := (inputParserGetWordInt _ 1).toUInt8 } = _
    rw [readByte_line]
  unfold statusLines
  simp only [List.map_cons, List.map_nil, List.foldl_cons, List.foldl_nil]
  rw [hop _ rfl, hpassword _ rfl, hdeleted, htitle _ rfl, hlast, hreplies, himages, hsticky]

end AmmarServer.HabChan
