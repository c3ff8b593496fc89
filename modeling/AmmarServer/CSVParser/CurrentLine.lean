import AmmarServer.Lib.Run
import AmmarServer.CSVParser.CSVParser

/-! The fields of the current line over any order of calls. What was cut out of a line and what was
counted in it stays with the parser, so that both are for one line only. -/

namespace AmmarServer.CSV
open Bytes CString

/-! Lines and their pieces. -/

/-- A line without its end. -/
def lineText (line : List UInt8) : List UInt8 :=
  if line.getLast? = some LF then
    if line.dropLast.getLast? = some CR then line.dropLast.dropLast else line.dropLast
  else line

/-- What stands between the delimiters of a line. -/
def pieces (delimiters line : List UInt8) : List (List UInt8) :=
  (lineText line).splitOnP delimiters.contains

/-- A text of one line. -/
def Clean (text : List UInt8) : Prop := ∀ c ∈ text, c ≠ 0 ∧ c ≠ CR ∧ c ≠ LF

/-- A line that ends, with neither a NUL nor another carriage return. -/
def Ends (line : List UInt8) (eol : Eol) : Prop := ∃ text, Clean text ∧ line = text ++ eol.bytes

/-! Histories. -/

inductive Call
  | parseNextLine (address : ℕ)
  | getField (fieldNumber : ℕ)
  | getNumberOfFields
deriving DecidableEq, Repr

inductive Answer
  | parsed (answer : Bool)
  | field (text : Option (List UInt8))
  | number (fields : ℕ)
deriving DecidableEq, Repr

/-- The answer with the text of a field as it is when the call returns. -/
def call (csv : CSVParser) : Call → Except Fault (Answer × CSVParser)
  | .parseNextLine address =>
    .ok (.parsed (parseNextLine csv address).1, (parseNextLine csv address).2)
  | .getField fieldNumber =>
    (getField csv fieldNumber).bind fun (pointer, csv) =>
      match pointer with
      | none => .ok (.field none, csv)
      | some pointer => (fieldText csv pointer).map fun text => (.field (some text), csv)
  | .getNumberOfFields => (getNumberOfFields csv).map fun (fields, csv) => (.number fields, csv)

/-- A parser with the line that it read last, the number of lines, and the lines in which a field was
last cut out and fields were last counted. -/
structure Reading where
  csv : CSVParser
  current : Option (List UInt8)
  line : ℕ
  fieldLine : Option ℕ
  countLine : Option ℕ

def start (delimiters file : List UInt8) : Reading :=
  { csv := startParsingFile delimiters file
    current := none
    line := 0
    fieldLine := none
    countLine := none }

/-- What a call is to answer about the current line. -/
def expected (r : Reading) : Call → Answer
  | .parseNextLine _ => .parsed (!r.csv.unread.isEmpty)
  | .getField fieldNumber =>
    .field (r.current.bind fun line => (pieces r.csv.delimiters line)[fieldNumber]?)
  | .getNumberOfFields =>
    .number ((r.current.map fun line => (pieces r.csv.delimiters line).length).getD 0)

/-- What is noted beside a call that was answered. -/
def noted (r : Reading) (csv : CSVParser) : Call → Reading
  | .parseNextLine _ =>
    if r.csv.unread.isEmpty then { r with csv }
    else { r with csv, current := some (readLine r.csv.unread).1, line := r.line + 1 }
  | .getField _ => { r with csv, fieldLine := r.current.map fun _ => r.line }
  | .getNumberOfFields => { r with csv, countLine := r.current.map fun _ => r.line }

def step (s : Except Fault Reading) (c : Call) : Except Fault Reading :=
  s.bind fun r => (call r.csv c).map fun (_, csv) => noted r csv c

/-- The call returns what it is to answer. -/
def Right (s : Except Fault Reading) (c : Call) : Prop :=
  ∃ r csv, s = .ok r ∧ call r.csv c = .ok (expected r c, csv)

/-- The condition on a call in the state that it comes to. -/
def Meets (s : Except Fault Reading) (c : Call) : Prop :=
  ∃ r, s = .ok r ∧
    match c, r.current with
    | .parseNextLine address, _ => address ≠ 0
    | .getField _, none => r.csv.block = 0
    | .getNumberOfFields, none => r.csv.block = 0
    | .getField fieldNumber, some line =>
      (∃ eol, Ends line eol) ∧ fieldNumber < (pieces r.csv.delimiters line).length ∧
        (r.fieldLine = none ∨ r.fieldLine = some r.line)
    | .getNumberOfFields, some line =>
      Ends line .lf ∧ (pieces r.csv.delimiters line).length < 2 ^ 32 ∧
        (r.countLine = some r.line ∨ r.countLine = none ∧ r.fieldLine ≠ some r.line)

/-! The pieces of a line. -/

theorem lineText_ends {text : List UInt8} (h : Clean text) (eol : Eol) :
    lineText (text ++ eol.bytes) = text := by
  unfold lineText
  cases eol with
  | lf =>
    have hlast : text.getLast? ≠ some CR := fun hlast =>
      (h CR (List.mem_of_mem_getLast? hlast)).2.1 rfl
    simp only [Eol.bytes, List.getLast?_concat, if_true, List.dropLast_concat]
    rw [if_neg hlast]
  | crlf =>
    have hsplit : text ++ [CR, LF] = (text ++ [CR]) ++ [LF] := by simp
    simp only [Eol.bytes, hsplit, List.getLast?_concat, if_true, List.dropLast_concat]

section Scan
variable {csv : CSVParser}

theorem split_first (delimiters text : List UInt8) :
    (∀ c ∈ text, c ∉ delimiters) ∨ ∃ a d b, text = a ++ d :: b ∧ (∀ c ∈ a, c ∉ delimiters) ∧
      d ∈ delimiters := by
  induction text with
  | nil => exact .inl fun c hc => (by cases hc)
  | cons c text ih =>
    by_cases hc : c ∈ delimiters
    · exact .inr ⟨[], c, text, rfl, fun d hd => (by cases hd), hc⟩
    · rcases ih with hnone | ⟨a, d, b, rfl, ha, hd⟩
      · exact .inl (List.forall_mem_cons.mpr ⟨hc, hnone⟩)
      · exact .inr ⟨c :: a, d, b, rfl, List.forall_mem_cons.mpr ⟨hc, ha⟩, hd⟩

/-- A piece as the scan sees it: nothing in it ends a field. -/
def Piece (delimiters piece : List UInt8) : Prop :=
  ∀ c ∈ piece, c ≠ 0 ∧ isDelimiter delimiters c = false

theorem Clean.piece {delimiters text : List UInt8} (h : Clean text)
    (hnone : ∀ c ∈ text, c ∉ delimiters) : Piece delimiters text := by
  intro c hc
  obtain ⟨hzero, hcr, hlf⟩ := h c hc
  refine ⟨hzero, ?_⟩
  unfold isDelimiter
  rw [isNewline_eq_false_iff.mpr ⟨hcr, hlf⟩, Bool.false_or]
  exact Bool.eq_false_of_not_eq_true fun hmem => hnone c hc (List.contains_iff_mem.mp hmem)

theorem findAnyDelimiter_piece {front piece behind : List UInt8} {d : UInt8}
    (hline : csv.lastLine = front ++ (piece ++ d :: behind)) (hpiece : Piece csv.delimiters piece)
    (hd : isDelimiter csv.delimiters d = true) (hzero : d ≠ 0) :
    findAnyDelimiter csv front.length = .ok (some (front.length + piece.length)) := by
  have hfind : (csv.lastLine.drop front.length).findIdx?
      (fun c => c == 0 || isDelimiter csv.delimiters c) = some piece.length := by
    rw [hline, List.drop_left, List.findIdx?_append]
    have hmiss : piece.findIdx? (fun c => c == 0 || isDelimiter csv.delimiters c) = none := by
      rw [List.findIdx?_eq_none_iff]
      intro c hc
      obtain ⟨hne, hno⟩ := hpiece c hc
      rw [hno, Bool.or_false]
      exact beq_eq_false_iff_ne.mpr hne
    rw [hmiss, List.findIdx?_cons, hd, Bool.or_true]
    exact congrArg some (Nat.zero_add _)
  have hchar : charAt csv.lastLine (front.length + piece.length) = d := by
    have hlt : front.length + piece.length < csv.lastLine.length := by
      rw [hline]
      simp only [List.length_append, List.length_cons]
      omega
    rw [charAt_eq hlt]
    simp [hline]
  unfold findAnyDelimiter
  rw [hfind]
  simp only
  rw [hchar, if_neg hzero]

theorem splitOnP_clean {delimiters text : List UInt8} (hnone : ∀ c ∈ text, c ∉ delimiters) :
    text.splitOnP delimiters.contains = [text] :=
  List.splitOnP_eq_singleton fun c hc =>
    Bool.eq_false_of_not_eq_true fun hmem => hnone c hc (List.contains_iff_mem.mp hmem)

theorem splitOnP_first {delimiters a b : List UInt8} {d : UInt8} (ha : ∀ c ∈ a, c ∉ delimiters)
    (hd : d ∈ delimiters) :
    (a ++ d :: b).splitOnP delimiters.contains = a :: b.splitOnP delimiters.contains := by
  rw [List.splitOnP_append_cons a b (List.contains_iff_mem.mpr hd), splitOnP_clean ha]
  rfl

theorem isDelimiter_of_mem {delimiters : List UInt8} {d : UInt8} (hd : d ∈ delimiters) :
    isDelimiter delimiters d = true := by
  unfold isDelimiter
  rw [List.contains_iff_mem.mpr hd, Bool.or_true]

theorem skipFields_piece {e : UInt8} {behind : List UInt8} (he : isDelimiter csv.delimiters e = true)
    (hezero : e ≠ 0) {k : ℕ} {front text : List UInt8}
    (hline : csv.lastLine = front ++ (text ++ e :: behind)) (hclean : Clean text)
    (hk : k < (text.splitOnP csv.delimiters.contains).length) :
    ∃ before piece d after, text ++ e :: behind = before ++ (piece ++ d :: after) ∧
      Piece csv.delimiters piece ∧ isDelimiter csv.delimiters d = true ∧ d ≠ 0 ∧
      before.length + piece.length ≤ text.length ∧
      (text.splitOnP csv.delimiters.contains)[k]? = some piece ∧
      skipFields csv k (some front.length) = .ok (some (front.length + before.length)) := by
  induction k generalizing front text with
  | zero =>
    rcases split_first csv.delimiters text with hnone | ⟨a, d, b, rfl, ha, hd⟩
    · rw [splitOnP_clean hnone]
      exact ⟨[], text, e, behind, rfl, hclean.piece hnone, he, hezero, (Nat.zero_add _).le, rfl, rfl⟩
    · have hfirst : Clean a := fun c hc => hclean c (List.mem_append_left _ hc)
      have hdzero := (hclean d (List.mem_append_right _ (List.mem_cons_self ..))).1
      rw [splitOnP_first ha hd]
      refine ⟨[], a, d, b ++ e :: behind, ?_, hfirst.piece ha, isDelimiter_of_mem hd, hdzero, ?_, rfl,
        rfl⟩
      · rw [List.append_assoc]
        rfl
      · simp
  | succ k ih =>
    rcases split_first csv.delimiters text with hnone | ⟨a, d, b, rfl, ha, hd⟩
    · rw [splitOnP_clean hnone, List.length_singleton] at hk
      omega
    · have hfirst : Clean a := fun c hc => hclean c (List.mem_append_left _ hc)
      have hrest : Clean b := fun c hc =>
        hclean c (List.mem_append_right _ (List.mem_cons_of_mem _ hc))
      have hdzero := (hclean d (List.mem_append_right _ (List.mem_cons_self ..))).1
      rw [splitOnP_first ha hd, List.length_cons] at hk
      have hfind : findAnyDelimiter csv front.length = .ok (some (front.length + a.length)) := by
        have hfound : csv.lastLine = front ++ (a ++ d :: (b ++ e :: behind)) := by
          rw [hline, List.append_assoc]
          rfl
        exact findAnyDelimiter_piece hfound (hfirst.piece ha) (isDelimiter_of_mem hd) hdzero
      -- The scan goes on behind the first delimiter.
      obtain ⟨before, piece, d', after, hsplit, hpiece, hd', hzero', hlength, hget, hskip⟩ :=
        @ih (front ++ (a ++ [d])) b (by rw [hline]; simp) hrest (by omega)
      refine ⟨a ++ d :: before, piece, d', after, ?_, hpiece, hd', hzero', ?_, ?_, ?_⟩
      · rw [List.append_assoc, List.cons_append, hsplit]
        simp
      · simp only [List.length_append, List.length_cons]
        omega
      · rw [splitOnP_first ha hd, List.getElem?_cons_succ]
        exact hget
      · have hplace : front.length + a.length + 1 = (front ++ (a ++ [d])).length := by
          simp [Nat.add_assoc]
        rw [skipFields, hfind]
        show skipFields csv k (some (front.length + a.length + 1)) = _
        rw [hplace, hskip]
        simp only [List.length_append, List.length_cons, List.length_nil]
        congr 2
        omega

theorem countFields_pieces {delimiters text behind : List UInt8} (hclean : Clean text) :
    countFields delimiters (text ++ LF :: 0 :: behind) =
      .ok (text.splitOnP delimiters.contains).length := by
  induction text with
  | nil =>
    have hend : isDelimiter delimiters LF = true := by
      unfold isDelimiter
      rw [isNewline_LF, Bool.true_or]
    rw [List.nil_append, countFields, if_neg (by decide), if_pos hend, countFields, if_pos rfl]
    rfl
  | cons c text ih =>
    obtain ⟨⟨hzero, hcr, hlf⟩, hrest⟩ := List.forall_mem_cons.mp hclean
    have hnewline : isNewline c = false := isNewline_eq_false_iff.mpr ⟨hcr, hlf⟩
    have hsame : isDelimiter delimiters c = delimiters.contains c := by
      unfold isDelimiter
      rw [hnewline, Bool.false_or]
    rw [List.cons_append, countFields, if_neg hzero, hsame, List.splitOnP_cons_eq_if_modifyHead,
      ih hrest]
    split
    · rfl
    · rw [List.length_modifyHead]

end Scan

/-! A field that was cut out. -/

/-- The parser holds a field of the line, whose delimiter it can put back. -/
structure Cut (csv : CSVParser) (line : List UInt8) : Prop where
  haveAFieldResult : csv.haveAFieldResult = true
  lastDelimiterSetToNull : csv.lastDelimiterSetToNull = true
  restores : ∃ stop rest, csv.lastDelimiterSetToNullPtr = ⟨csv.block, stop⟩ ∧ stop < line.length ∧
    csv.previousDelimiterValue = charAt (line ++ 0 :: rest) stop ∧
    csv.lastLine = (line ++ 0 :: rest).set stop 0
  result : ∃ piece, (pieces csv.delimiters line)[csv.fieldIDOflastDelimiter]? = some piece ∧
    fieldText csv csv.lastFieldResult = .ok piece

/-- What the access to a field leaves alone. -/
structure SameLine (csv csv' : CSVParser) : Prop where
  handle : csv'.handle = csv.handle
  unread : csv'.unread = csv.unread
  block : csv'.block = csv.block
  delimiters : csv'.delimiters = csv.delimiters
  numberOfFields : csv'.numberOfFields = csv.numberOfFields
  numberOfDelimitersCounted : csv'.numberOfDelimitersCounted = csv.numberOfDelimitersCounted

theorem set_set_charAt (s : List UInt8) {i : ℕ} (hi : i < s.length) :
    (s.set i 0).set i (charAt s i) = s := by
  rw [List.set_set, charAt_eq hi]
  exact List.set_getElem_self hi

theorem Cut.restoreDelimiter {csv : CSVParser} {line : List UInt8} (h : Cut csv line) :
    ∃ rest, restoreDelimiter csv = .ok { csv with
      lastLine := line ++ 0 :: rest, lastDelimiterSetToNull := false } := by
  obtain ⟨stop, rest, hptr, hstop, hprevious, hline⟩ := h.restores
  have hlt : stop < (line ++ 0 :: rest).length := by
    rw [List.length_append]
    omega
  refine ⟨rest, ?_⟩
  unfold CSV.restoreDelimiter
  rw [if_pos h.lastDelimiterSetToNull, hptr, if_neg (not_not.mpr rfl)]
  simp only
  rw [hline, List.length_set, if_pos hlt, hprevious, set_set_charAt _ hlt]

theorem eol_isDelimiter (delimiters : List UInt8) (eol : Eol) :
    ∃ e rest, eol.bytes = e :: rest ∧ isDelimiter delimiters e = true ∧ e ≠ 0 := by
  obtain ⟨e, rest, heol, hnewline⟩ := eol.head_isNewline
  refine ⟨e, rest, heol, ?_, ?_⟩
  · unfold isDelimiter
    rw [hnewline, Bool.true_or]
  · rintro rfl
    cases hnewline

theorem cutField_piece {csv : CSVParser} {line rest : List UInt8} {eol : Eol} (hends : Ends line eol)
    (hline : csv.lastLine = line ++ 0 :: rest) (hset : csv.lastDelimiterSetToNull = false) {k : ℕ}
    (hk : k < (pieces csv.delimiters line).length) :
    ∃ csv', cutField csv k = .ok (csv'.lastFieldResult, csv') ∧ Cut csv' line ∧
      csv'.fieldIDOflastDelimiter = k ∧ SameLine csv csv' := by
  obtain ⟨text, hclean, rfl⟩ := hends
  have hpieces : pieces csv.delimiters (text ++ eol.bytes) =
      text.splitOnP csv.delimiters.contains := by
    unfold pieces
    rw [lineText_ends hclean]
  rw [hpieces] at hk
  obtain ⟨e, more, heol, he, hezero⟩ := eol_isDelimiter csv.delimiters eol
  have hbuffer : csv.lastLine = [] ++ (text ++ e :: (more ++ 0 :: rest)) := by
    rw [hline, heol]
    simp
  obtain ⟨before, piece, d, after, hsplit, hpiece, hd, hdzero, hlength, hget, hskip⟩ :=
    skipFields_piece he hezero hbuffer hclean hk
  have hcut : csv.lastLine = before ++ (piece ++ d :: after) := by
    rw [hbuffer, List.nil_append, hsplit]
  have hfind := findAnyDelimiter_piece hcut hpiece hd hdzero
  rw [List.length_nil, Nat.zero_add] at hskip
  have hrestore : restoreDelimiter csv = .ok csv := if_neg (Bool.eq_false_iff.mp hset)
  have hset' : csv.lastLine.set (before.length + piece.length) 0 =
      before ++ (piece ++ 0 :: after) := by
    rw [hcut, List.set_append_right _ _ (Nat.le_add_right _ _), Nat.add_sub_cancel_left,
      List.set_append_right _ _ le_rfl, Nat.sub_self, List.set_cons_zero]
  refine ⟨{ csv with
    previousDelimiterValue := charAt csv.lastLine (before.length + piece.length)
    fieldIDOflastDelimiter := k
    haveAFieldResult := true
    lastDelimiterSetToNull := true
    lastDelimiterSetToNullPtr := ⟨csv.block, before.length + piece.length⟩
    lastFieldResult := ⟨csv.block, before.length⟩
    lastLine := csv.lastLine.set (before.length + piece.length) 0 }, ?_, ?_, rfl,
    ⟨rfl, rfl, rfl, rfl, rfl, rfl⟩⟩
  · unfold cutField
    rw [hrestore]
    show (skipFields csv k (some 0)).bind _ = _
    rw [hskip]
    show (findAnyDelimiter csv before.length).bind _ = _
    rw [hfind]
    rfl
  · refine ⟨rfl, rfl, ⟨_, rest, rfl, ?_, ?_, ?_⟩, ⟨piece, ?_, ?_⟩⟩
    · rw [List.length_append, heol, List.length_cons]
      omega
    · rw [hline]
    · rw [hline]
    · rw [hpieces]
      exact hget
    · have hdrop : (csv.lastLine.set (before.length + piece.length) 0).drop before.length =
          piece ++ 0 :: after := by
        rw [hset', List.drop_left]
      have hmem : 0 ∈ piece ++ 0 :: after := List.mem_append_right _ (List.mem_cons_self ..)
      unfold fieldText
      rw [if_neg (not_not.mpr rfl)]
      simp only
      rw [hdrop, if_pos hmem, cstring_append fun hzero => (hpiece 0 hzero).1 rfl]

/-! Each call. -/

/-- What holds behind every call that met the condition. -/
structure Inv (r : Reading) : Prop where
  handle : r.csv.handle = true
  block : r.current ≠ none → r.csv.block ≠ 0
  unread : r.current = none → r.fieldLine = none ∧ r.countLine = none
  fieldLine_le : ∀ n, r.fieldLine = some n → n ≤ r.line
  countLine_le : ∀ n, r.countLine = some n → n ≤ r.line
  uncut : r.fieldLine = none →
    r.csv.haveAFieldResult = false ∧ r.csv.lastDelimiterSetToNull = false
  uncounted : r.countLine = none → r.csv.numberOfDelimitersCounted = false
  whole : ∀ line, r.current = some line → r.fieldLine ≠ some r.line →
    ∃ rest, r.csv.lastLine = line ++ 0 :: rest
  cut : ∀ line, r.current = some line → r.fieldLine = some r.line → Cut r.csv line
  counted : ∀ line, r.current = some line → r.countLine = some r.line →
    r.csv.numberOfDelimitersCounted = true ∧
      r.csv.numberOfFields = (pieces r.csv.delimiters line).length

theorem Inv.start (delimiters file : List UInt8) : Inv (start delimiters file) :=
  ⟨rfl, fun h => absurd rfl h, fun _ => ⟨rfl, rfl⟩, fun _ h => (by cases h), fun _ h => (by cases h),
    fun _ => ⟨rfl, rfl⟩, fun _ => rfl, fun _ h => (by cases h), fun _ h => (by cases h),
    fun _ h => (by cases h)⟩

/-- The parser behind a line that was read. -/
def CSVParser.behindLine (csv : CSVParser) (address : ℕ) : CSVParser :=
  { csv with
    block := address
    lastLine := (readLine csv.unread).1 ++
      0 :: csv.lastLine.drop ((readLine csv.unread).1.length + 1)
    unread := (readLine csv.unread).2
    linesParsed := (csv.linesParsed + 1) % 2 ^ 32 }

theorem parseNextLine_end {csv : CSVParser} {address : ℕ} (hhandle : csv.handle = true)
    (haddress : address ≠ 0) (hunread : csv.unread = []) :
    parseNextLine csv address =
      (false, { csv with block := if csv.block = 0 then address else csv.block }) := by
  unfold parseNextLine
  rw [if_neg (by simp [hhandle, haddress]), if_pos hunread]

theorem parseNextLine_line {csv : CSVParser} {address : ℕ} (hhandle : csv.handle = true)
    (haddress : address ≠ 0) (hunread : csv.unread ≠ []) :
    parseNextLine csv address = (true, csv.behindLine address) := by
  unfold parseNextLine
  rw [if_neg (by simp [hhandle, haddress]), if_neg hunread]
  rfl

namespace Inv
variable {r : Reading}

theorem atEnd (h : Inv r) (address : ℕ) :
    Inv { r with csv :=
      { r.csv with block := if r.csv.block = 0 then address else r.csv.block } } := by
  refine ⟨h.handle, fun hcurrent => ?_, h.unread, h.fieldLine_le, h.countLine_le, h.uncut,
    h.uncounted, h.whole, fun line hline hcutLine => ?_, h.counted⟩
  · exact (if_neg (h.block hcurrent)).trans_ne (h.block hcurrent)
  · have hsome : r.current ≠ none := fun hnone => by
      rw [show r.current = some line from hline] at hnone
      cases hnone
    have hblock : (if r.csv.block = 0 then address else r.csv.block) = r.csv.block :=
      if_neg (h.block hsome)
    simp only [hblock]
    exact h.cut line hline hcutLine

theorem behindLine (h : Inv r) {address : ℕ} (haddress : address ≠ 0) :
    Inv { r with
      csv := r.csv.behindLine address
      current := some (readLine r.csv.unread).1
      line := r.line + 1 } := by
  have hnew : ∀ n : Option ℕ, (∀ m, n = some m → m ≤ r.line) → n ≠ some (r.line + 1) := by
    intro n hle hn
    exact absurd (hle _ hn) (Nat.not_succ_le_self r.line)
  refine ⟨h.handle, fun _ => haddress, fun hnone => (by cases hnone),
    fun n hn => (h.fieldLine_le n hn).trans (Nat.le_succ _),
    fun n hn => (h.countLine_le n hn).trans (Nat.le_succ _), h.uncut, h.uncounted,
    fun line hline _ => ?_, fun line _ hn => absurd hn (hnew _ h.fieldLine_le),
    fun line _ hn => absurd hn (hnew _ h.countLine_le)⟩
  obtain rfl := Option.some.inj hline
  exact ⟨_, rfl⟩

theorem parseNextLine (h : Inv r) {address : ℕ} (haddress : address ≠ 0) :
    ∃ csv, call r.csv (.parseNextLine address) = .ok (expected r (.parseNextLine address), csv) ∧
      Inv (noted r csv (.parseNextLine address)) := by
  unfold call expected noted
  cases hunread : r.csv.unread with
  | nil =>
    simp only [parseNextLine_end h.handle haddress hunread]
    exact ⟨_, rfl, h.atEnd address⟩
  | cons c file =>
    have hne : r.csv.unread ≠ [] := hunread ▸ List.cons_ne_nil c file
    simp only [parseNextLine_line h.handle haddress hne]
    refine ⟨_, rfl, ?_⟩
    rw [← hunread, if_neg (by simpa using hne)]
    exact h.behindLine haddress

theorem getField_none (h : Inv r) {k : ℕ} (hcurrent : r.current = none) (hblock : r.csv.block = 0) :
    ∃ csv, call r.csv (.getField k) = .ok (expected r (.getField k), csv) ∧
      Inv (noted r csv (.getField k)) := by
  have hget : getField r.csv k = .ok (none, { r.csv with haveAFieldResult := false }) :=
    if_neg fun hboth => hboth.2 hblock
  unfold call expected noted
  simp only [hget, hcurrent]
  exact ⟨_, rfl, h.handle, fun hsome => absurd rfl hsome, fun _ => ⟨rfl, (h.unread hcurrent).2⟩,
    fun n hn => (by cases hn), h.countLine_le,
    fun _ => ⟨rfl, (h.uncut (h.unread hcurrent).1).2⟩, h.uncounted, fun line hline => (by cases hline),
    fun line hline => (by cases hline), fun line hline => (by cases hline)⟩

/-- What holds behind a field of the current line that was cut out. -/
theorem of_cut (h : Inv r) {csv : CSVParser} {line : List UInt8} (hcurrent : r.current = some line)
    (hcut : Cut csv line) (hsame : SameLine r.csv csv) :
    Inv { r with csv, fieldLine := some r.line } := by
  have hblock : r.current ≠ none := hcurrent ▸ Option.some_ne_none line
  refine ⟨hsame.handle.trans h.handle, fun _ => hsame.block.trans_ne (h.block hblock),
    fun hnone => absurd hnone hblock, fun n hn => (Option.some.inj hn).ge, h.countLine_le,
    fun hnone => (by cases hnone), fun hnone => ?_, fun _ _ hne => absurd rfl hne,
    fun line' hline' _ => ?_, fun line' hline' hcount => ?_⟩
  · exact hsame.numberOfDelimitersCounted.trans (h.uncounted hnone)
  · obtain rfl := Option.some.inj (hcurrent.symm.trans hline')
    exact hcut
  · obtain ⟨hcounted, hnumber⟩ := h.counted line' hline' hcount
    refine ⟨hsame.numberOfDelimitersCounted.trans hcounted, ?_⟩
    show csv.numberOfFields = (pieces csv.delimiters line').length
    rw [hsame.numberOfFields, hsame.delimiters, hnumber]

theorem getField_some (h : Inv r) {k : ℕ} {line : List UInt8} {eol : Eol}
    (hcurrent : r.current = some line) (hends : Ends line eol)
    (hk : k < (pieces r.csv.delimiters line).length)
    (hfield : r.fieldLine = none ∨ r.fieldLine = some r.line) :
    ∃ csv, call r.csv (.getField k) = .ok (expected r (.getField k), csv) ∧
      Inv (noted r csv (.getField k)) := by
  have hblock : r.csv.block ≠ 0 := h.block (hcurrent ▸ Option.some_ne_none line)
  have hopen : r.csv.handle = true ∧ r.csv.block ≠ 0 := ⟨h.handle, hblock⟩
  -- It is enough to answer with a field of the line.
  suffices hanswer : ∃ csv, getField r.csv k = .ok (some csv.lastFieldResult, csv) ∧ Cut csv line ∧
      csv.fieldIDOflastDelimiter = k ∧ SameLine r.csv csv by
    obtain ⟨csv, hget, hcut, hnumber, hsame⟩ := hanswer
    obtain ⟨piece, hpiece, htext⟩ := hcut.result
    rw [hnumber, hsame.delimiters] at hpiece
    refine ⟨csv, ?_, ?_⟩
    · unfold call expected
      simp only [hget, hcurrent, Option.bind_some, hpiece]
      show (fieldText csv csv.lastFieldResult).map _ = _
      rw [htext]
      rfl
    · unfold noted
      simp only [hcurrent, Option.map_some]
      rw [← hcurrent]
      exact h.of_cut hcurrent hcut hsame
  rcases hfield with hnone | hsome
  · obtain ⟨hhave, hset⟩ := h.uncut hnone
    obtain ⟨rest, hline⟩ := h.whole line hcurrent (hnone ▸ fun hother => (by cases hother))
    obtain ⟨csv, hcutField, hcut, hnumber, hsame⟩ := cutField_piece hends hline hset hk
    refine ⟨csv, ?_, hcut, hnumber, hsame⟩
    unfold getField
    rw [if_pos hopen, if_neg (by simp [hhave]), hcutField]
    rfl
  · have hcut := h.cut line hcurrent hsome
    by_cases hsameField : k = r.csv.fieldIDOflastDelimiter
    · refine ⟨r.csv, ?_, hcut, hsameField.symm, rfl, rfl, rfl, rfl, rfl, rfl⟩
      unfold getField
      rw [if_pos hopen, if_pos ⟨hcut.haveAFieldResult, hsameField⟩]
    · obtain ⟨rest, hrestore⟩ := hcut.restoreDelimiter
      obtain ⟨csv, hcutField, hcut', hnumber, hsame⟩ :=
        @cutField_piece { r.csv with lastLine := line ++ 0 :: rest, lastDelimiterSetToNull := false }
          line rest eol hends rfl rfl k hk
      refine ⟨csv, ?_, hcut', hnumber, hsame.handle, hsame.unread, hsame.block, hsame.delimiters,
        hsame.numberOfFields, hsame.numberOfDelimitersCounted⟩
      have hagain : cutField r.csv k = cutField { r.csv with
          lastLine := line ++ 0 :: rest, lastDelimiterSetToNull := false } k := by
        unfold cutField
        rw [hrestore]
        rfl
      unfold getField
      rw [if_pos hopen, if_neg fun hboth => hsameField hboth.2, hagain, hcutField]
      rfl

theorem getNumberOfFields_none (h : Inv r) (hcurrent : r.current = none) (hblock : r.csv.block = 0) :
    ∃ csv, call r.csv .getNumberOfFields = .ok (expected r .getNumberOfFields, csv) ∧
      Inv (noted r csv .getNumberOfFields) := by
  obtain ⟨hfield, hcount⟩ := h.unread hcurrent
  have hget : getNumberOfFields r.csv =
      .ok (0, { r.csv with numberOfFields := 0, numberOfDelimitersCounted := false }) := by
    unfold getNumberOfFields countNumberOfFields
    rw [if_neg (Bool.eq_false_iff.mp (h.uncounted hcount)), if_pos hblock]
  unfold call expected noted
  simp only [hget, hcurrent]
  exact ⟨_, rfl, h.handle, fun hsome => absurd rfl hsome, fun _ => ⟨hfield, rfl⟩, h.fieldLine_le,
    fun n hn => (by cases hn), h.uncut, fun _ => rfl, fun line hline => (by cases hline),
    fun line hline => (by cases hline), fun line hline => (by cases hline)⟩

theorem of_counted (h : Inv r) {line : List UInt8} (hcurrent : r.current = some line) :
    Inv { r with
      csv := { r.csv with
        numberOfFields := (pieces r.csv.delimiters line).length
        numberOfDelimitersCounted := true }
      countLine := some r.line } := by
  have hsome : r.current ≠ none := hcurrent ▸ Option.some_ne_none line
  refine ⟨h.handle, fun _ => h.block hsome, fun hnone => absurd hnone hsome, h.fieldLine_le,
    fun n hn => (Option.some.inj hn).ge, h.uncut, fun hnone => (by cases hnone), h.whole,
    fun line' hline' hcutLine => ?_, fun line' hline' _ => ⟨rfl, ?_⟩⟩
  · have hcut := h.cut line' hline' hcutLine
    exact ⟨hcut.1, hcut.2, hcut.3, hcut.4⟩
  · obtain rfl := Option.some.inj (hcurrent.symm.trans hline')
    rfl

theorem getNumberOfFields_some (h : Inv r) {line : List UInt8} (hcurrent : r.current = some line)
    (hends : Ends line .lf) (hfits : (pieces r.csv.delimiters line).length < 2 ^ 32)
    (hcount : r.countLine = some r.line ∨ r.countLine = none ∧ r.fieldLine ≠ some r.line) :
    ∃ csv, call r.csv .getNumberOfFields = .ok (expected r .getNumberOfFields, csv) ∧
      Inv (noted r csv .getNumberOfFields) := by
  have hblock : r.csv.block ≠ 0 := h.block (hcurrent ▸ Option.some_ne_none line)
  have hget : getNumberOfFields r.csv = .ok ((pieces r.csv.delimiters line).length, { r.csv with
      numberOfFields := (pieces r.csv.delimiters line).length
      numberOfDelimitersCounted := true }) := by
    unfold getNumberOfFields
    rcases hcount with hsome | ⟨hnone, huncut⟩
    · obtain ⟨hcounted, hnumber⟩ := h.counted line hcurrent hsome
      rw [if_pos hcounted, ← hnumber, ← hcounted]
    · obtain ⟨rest, hline⟩ := h.whole line hcurrent huncut
      obtain ⟨text, hclean, rfl⟩ := hends
      have hbuffer : r.csv.lastLine = text ++ LF :: 0 :: rest := by
        rw [hline]
        simp [Eol.bytes]
      have hpieces : pieces r.csv.delimiters (text ++ Eol.lf.bytes) =
          text.splitOnP r.csv.delimiters.contains := by
        unfold pieces
        rw [lineText_ends hclean]
      rw [hpieces] at hfits
      rw [if_neg (Bool.eq_false_iff.mp (h.uncounted hnone))]
      unfold countNumberOfFields
      have hfields := @countFields_pieces r.csv.delimiters text rest hclean
      rw [← hbuffer] at hfields
      rw [if_neg hblock, hfields, hpieces]
      simp only [Except.map, Nat.mod_eq_of_lt hfits]
  unfold call expected noted
  simp only [hget, hcurrent]
  refine ⟨_, rfl, ?_⟩
  have hafter := h.of_counted hcurrent
  rw [hcurrent] at hafter
  exact hafter

end Inv

theorem Inv.call {r : Reading} (h : Inv r) {c : Call} (hmeets : Meets (.ok r) c) :
    ∃ csv, CSV.call r.csv c = .ok (expected r c, csv) ∧ Inv (noted r csv c) := by
  obtain ⟨r', hr, hmeets⟩ := hmeets
  obtain rfl := Except.ok.inj hr
  cases c with
  | parseNextLine address => exact h.parseNextLine hmeets
  | getField k =>
    cases hcurrent : r.current with
    | none =>
      rw [hcurrent] at hmeets
      exact h.getField_none hcurrent hmeets
    | some line =>
      rw [hcurrent] at hmeets
      obtain ⟨⟨eol, hends⟩, hk, hfield⟩ := hmeets
      exact h.getField_some hcurrent hends hk hfield
  | getNumberOfFields =>
    cases hcurrent : r.current with
    | none =>
      rw [hcurrent] at hmeets
      exact h.getNumberOfFields_none hcurrent hmeets
    | some line =>
      rw [hcurrent] at hmeets
      obtain ⟨hends, hfits, hcount⟩ := hmeets
      exact h.getNumberOfFields_some hcurrent hends hfits hcount

/-- In every history whose calls meet the condition, each call answers about the current line. -/
theorem answers_right {s : Except Fault Reading} (hs : ∀ r, s = .ok r → Inv r) (calls : List Call)
    (h : Run.Allowed step Meets s calls) : Run.Allowed step Right s calls := by
  induction calls generalizing s with
  | nil => trivial
  | cons c calls ih =>
    obtain ⟨hmeets, hrest⟩ := h
    obtain ⟨r, rfl, -⟩ := id hmeets
    obtain ⟨csv, hcall, hinv⟩ := (hs r rfl).call hmeets
    have hstep : step (.ok r) c = .ok (noted r csv c) := by
      show (call r.csv c).map _ = _
      rw [hcall]
      rfl
    refine ⟨⟨r, csv, rfl, hcall⟩, ih ?_ hrest⟩
    rw [hstep]
    rintro r' hr'
    obtain rfl := Except.ok.inj hr'
    exact hinv

/-- For every file and every set of delimiters, the answers of a history are those about the current
line if each call meets the condition. -/
theorem currentLine_answers (delimiters file : List UInt8) (calls : List Call)
    (h : Run.Allowed step Meets (.ok (start delimiters file)) calls) :
    Run.Allowed step Right (.ok (start delimiters file)) calls :=
  answers_right (fun _ hr => Except.ok.inj hr ▸ Inv.start delimiters file) calls h

/-- The lines `a;b` and `c`. -/
def twoLines : List UInt8 := [97, 59, 98, 10, 99, 10]

set_option maxRecDepth 4000 in
theorem ends_first : Ends [97, 59, 98, 10] .lf := ⟨[97, 59, 98], by unfold Clean; decide, rfl⟩

theorem currentLine_answers_first :
    Run.Allowed step Right (.ok (start [59] twoLines))
      [.parseNextLine 4096, .getNumberOfFields, .getField 1, .getField 0] := by
  refine currentLine_answers [59] twoLines _ ⟨?_, ?_, ?_, ?_, trivial⟩
  · exact ⟨_, rfl, by decide⟩
  · exact ⟨_, rfl, ends_first, by decide, .inr ⟨rfl, by decide⟩⟩
  · exact ⟨_, rfl, ⟨.lf, ends_first⟩, by decide, .inl rfl⟩
  · exact ⟨_, rfl, ⟨.lf, ends_first⟩, by decide, .inr rfl⟩

/-- The fields of the first line are also reported for the second one. -/
theorem secondLine_counted :
    ¬ ∀ (delimiters file : List UInt8) (calls : List Call),
      (∀ address, .parseNextLine address ∈ calls → address ≠ 0) →
      Run.Allowed step Right (.ok (start delimiters file)) calls := by
  intro h
  have hrun := h [59] twoLines
    [.parseNextLine 4096, .getNumberOfFields, .parseNextLine 4096, .getNumberOfFields] (by simp)
  obtain ⟨r, csv, hr, hcall⟩ := hrun.2.2.2.1
  obtain rfl := Except.ok.inj hr
  have hanswer : some (Answer.number 2) = some (Answer.number 1) :=
    congrArg (fun answer => answer.toOption.map (·.1)) hcall
  cases hanswer

end AmmarServer.CSV
