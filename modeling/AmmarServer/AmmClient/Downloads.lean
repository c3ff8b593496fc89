import AmmarServer.AmmClient.Protocol

/-! Downloads and the responses that they end with. What is judged is the text in the whole buffer, and the
length is counted from where the number stands, so that a download ends with less than the response. -/

namespace AmmarServer.AmmClient
open Bytes CString TextFile

/-- A response with a `Content-Length` field in any place and any spelling. -/
structure Response where
  statusLine : List UInt8
  linesBefore : List (List UInt8)
  fieldName : List UInt8
  space : List UInt8
  linesBehind : List (List UInt8)
  body : List UInt8
  status : ascii "HTTP/1." <+: statusLine
  noNewline : ∀ line ∈ statusLine :: (linesBefore ++ linesBehind), NoNewline line ∧ line ≠ []
  name : EqIgnoreCase fieldName contentLengthName
  blank : ∀ c ∈ space, c = 32 ∨ c = 9

namespace Response

def line (text : List UInt8) : List UInt8 := text ++ [CR, LF]

/-- What stands in front of the field. -/
def before (r : Response) : List UInt8 := line r.statusLine ++ r.linesBefore.flatMap line

def bytes (r : Response) : List UInt8 :=
  line r.statusLine ++ (r.linesBefore.flatMap line ++
    (line (r.fieldName ++ r.space ++ decimal r.body.length) ++ (r.linesBehind.flatMap line ++
      ([CR, LF] ++ r.body))))

end Response

/-- Each way of cutting the response into what the calls of `recv` return, with anything left in the
buffer. -/
def Delivered (r : Response) (capacity : ℕ) (leftover : List UInt8) (cuts : List (List UInt8)) : Prop :=
  leftover.length = capacity ∧ cuts.flatten = r.bytes ∧ ∀ piece ∈ cuts, piece ≠ []

/-- The whole response and no more, once it is there. -/
def whole (r : Response) : Except Fault (Option Outcome) :=
  .ok (some { answer := true, filecontentSize := r.bytes.length })

def CleanExact (r : Response) (capacity : ℕ) : Prop :=
  ∀ leftover cuts, Delivered r capacity leftover cuts →
    recvFileInternalClean (cuts.map .data) leftover = whole r

def FastExact (r : Response) (capacity : ℕ) : Prop :=
  ∀ leftover cuts, Delivered r capacity leftover cuts →
    recvFileInternalFast (cuts.map fun piece => .ready (.data piece)) leftover = whole r

/-- The text is read within what was received of the response. -/
def ReadsReceived (r : Response) (capacity : ℕ) : Prop :=
  ∀ (leftover : List UInt8) (n : ℕ), leftover.length = capacity → n ≤ r.bytes.length →
    ∃ answer read, isFileDownloadComplete (r.bytes.take n ++ leftover.drop n) n = .ok (answer, read) ∧
      read ≤ n

/-! Responses. -/

section Response
variable (r : Response)

theorem Response.bytes_cons : ∃ behind, r.bytes = 72 :: behind ∧ 28 ≤ behind.length := by
  obtain ⟨rest, hrest⟩ := r.status
  have hname : r.fieldName.length = 15 := by
    have hlength := congrArg List.length r.name
    rwa [List.length_map, List.length_map] at hlength
  have hnumber := List.length_pos_iff.mpr (decimal_ne_nil r.body.length)
  have hstatus : Response.line r.statusLine = 72 :: (ascii "TTP/1." ++ (rest ++ [CR, LF])) := by
    rw [Response.line, ← hrest, List.append_assoc]
    rfl
  refine ⟨_, by rw [Response.bytes, hstatus, List.cons_append], ?_⟩
  have hline := r.fieldName.length
  simp only [List.length_append, Response.line, List.length_cons, List.length_nil, hname]
  have hascii : (ascii "TTP/1.").length = 6 := rfl
  omega

end Response

/-! A buffer that a text was left in. -/

section Leftover

/-- What is left behind an empty text, with a number that takes the length of what was received back to
it. -/
def stale (n : ℕ) : List UInt8 := 0 :: (ascii "Content-Length: -16" ++ 0 :: List.replicate n 0)

theorem stale_length (n : ℕ) : (stale n).length = n + 21 := by
  have hascii : (ascii "Content-Length: -16").length = 19 := rfl
  rw [stale, List.length_cons, List.length_append, List.length_cons, List.length_replicate, hascii]
  omega

theorem cstring_stale (n : ℕ) :
    cstring (72 :: (stale n).tail) = 72 :: ascii "Content-Length: -16" := by
  have hplain : (0 : UInt8) ∉ 72 :: ascii "Content-Length: -16" := by decide
  exact cstring_append hplain (List.replicate n 0)

theorem number_stale (n : ℕ) :
    ∃ read, atoiAt (72 :: (stale n).tail) (1 + 16) = .ok (4294967280, read) := by
  have hdrop : (72 :: (stale n).tail).drop (1 + 16) = 45 :: 49 :: 54 :: 0 :: List.replicate n 0 := rfl
  have hbehind : behindNumber (45 :: 49 :: 54 :: 0 :: List.replicate n 0) = 0 :: List.replicate n 0 := rfl
  have hdigits : digits (49 :: 54 :: 0 :: List.replicate n 0) = 16 := rfl
  have hvalue : atoi (45 :: 49 :: 54 :: 0 :: List.replicate n 0) = 4294967280 := by
    have hminus : strtol (45 :: 49 :: 54 :: 0 :: List.replicate n 0) =
        0 - UInt64.ofNat (min (digits (49 :: 54 :: 0 :: List.replicate n 0)) (2 ^ 63)) := rfl
    rw [atoi, hminus, hdigits]
    decide
  rw [atoiAt, hdrop, hbehind, hvalue]
  exact ⟨_, rfl⟩

theorem complete_stale (n : ℕ) :
    ∃ read, isFileDownloadComplete (72 :: (stale n).tail) 1 = .ok (true, read) := by
  have hplace : Substitution.firstAt contentLengthName (72 :: ascii "Content-Length: -16") = some 1 := by
    decide
  have hfound : strstr (72 :: (stale n).tail) contentLengthName =
      .ok (some 1, 1 + contentLengthName.length) := by
    rw [strstr, cstring_stale, hplace]
  obtain ⟨read, hread⟩ := number_stale n
  rw [isFileDownloadComplete, hfound]
  simp only [Except.bind, hread]
  exact ⟨_, rfl⟩

theorem cleared_stale (n : ℕ) : cleared (stale n) = .ok (stale n) := by
  have hpositive : strlen (stale n) < (stale n).length := by
    rw [stale_length]
    exact Nat.succ_pos (n + 20)
  rw [cleared, if_pos hpositive]
  rfl

/-- One byte is enough. -/
theorem received_stale (n : ℕ) :
    received (.data [72]) 0 (stale n) = .ok (.inl { answer := true, filecontentSize := 1 }) := by
  obtain ⟨read, hread⟩ := complete_stale n
  have hroom : [(72 : UInt8)].take ((stale n).length - 0) = [72] := by
    apply List.take_of_length_le
    rw [stale_length]
    exact Nat.succ_le_succ (Nat.zero_le _)
  have hbuffer : (stale n).take 0 ++ ([72] ++ (stale n).drop (0 + [(72 : UInt8)].length)) =
      72 :: (stale n).tail := rfl
  unfold received
  dsimp only [Recv.bytes]
  rw [if_neg (by decide), hroom, hbuffer]
  have hsize : 0 + [(72 : UInt8)].length = 1 := rfl
  rw [hsize, hread]
  rfl

theorem recvFileInternalClean_stale (n : ℕ) (recvs : List Recv) :
    recvFileInternalClean (.data [72] :: recvs) (stale n) =
      .ok (some { answer := true, filecontentSize := 1 }) := by
  rw [recvFileInternalClean, cleared_stale]
  change cleanLoop _ _ _ = _
  rw [cleanLoop, received_stale]
  rfl

theorem recvFileInternalFast_stale (n : ℕ) (polls : List Poll) :
    recvFileInternalFast (.ready (.data [72]) :: polls) (stale n) =
      .ok (some { answer := true, filecontentSize := 1 }) := by
  rw [recvFileInternalFast, cleared_stale]
  change fastLoop _ _ _ = _
  rw [fastLoop, received_stale]
  rfl

end Leftover

/-! What is read. -/

theorem complete_first (n : ℕ) :
    isFileDownloadComplete (72 :: List.replicate (n + 1) 0) 1 = .ok (false, 2) := by
  have hplain : (0 : UInt8) ∉ [72] := by decide
  have htext : cstring (72 :: List.replicate (n + 1) 0) = [72] :=
    cstring_append hplain (List.replicate n 0)
  have hplace : Substitution.firstAt contentLengthName [72] = none := by decide
  have hend : strlen (72 :: List.replicate (n + 1) 0) = 1 := congrArg List.length htext
  have hroom : 1 < (72 :: List.replicate (n + 1) (0 : UInt8)).length := by
    rw [List.length_cons, List.length_replicate]
    omega
  rw [isFileDownloadComplete, strstr, htext, hplace, hend]
  dsimp only
  rw [if_pos hroom]
  rfl

theorem reads_behind (r : Response) (spare : ℕ) : ¬ReadsReceived r (r.bytes.length + spare) := by
  intro hreads
  obtain ⟨behind, hbytes, hlength⟩ := r.bytes_cons
  obtain ⟨n, hn⟩ : ∃ n, r.bytes.length + spare = n + 1 + 1 :=
    ⟨r.bytes.length + spare - 2, by rw [hbytes, List.length_cons]; omega⟩
  obtain ⟨answer, read, hcomplete, hle⟩ :=
    hreads (List.replicate (r.bytes.length + spare) 0) 1 List.length_replicate
      (by rw [hbytes]; exact Nat.succ_le_succ (Nat.zero_le _))
  have hbuffer : r.bytes.take 1 ++ (List.replicate (r.bytes.length + spare) 0).drop 1 =
      72 :: List.replicate (n + 1) 0 := by
    rw [hn, hbytes]
    rfl
  rw [hbuffer, complete_first n] at hcomplete
  cases hcomplete
  exact absurd hle (by decide)

/-! Without anything left in the buffer. -/

section Zeroed
variable {before rest : List UInt8} {n : ℕ}

theorem behindNumber_decimal (n : ℕ) (hstop : ∀ c ∈ rest.head?, isDigit c = false) :
    behindNumber (decimal n ++ rest) = rest := by
  obtain ⟨c, s, hs⟩ := List.exists_cons_of_ne_nil (decimal_ne_nil n)
  obtain ⟨hspace, hminus, hplus, -⟩ :=
    plain_of_isDigit (isDigit_decimal c (hs ▸ List.mem_cons_self ..))
  have hskip : (decimal n ++ rest).dropWhile isSpace = decimal n ++ rest := by
    rw [hs, List.cons_append, List.dropWhile_cons_of_neg (by simp [hspace])]
  have hhead : (decimal n ++ rest).head? = some c := by
    rw [hs, List.cons_append, List.head?_cons]
  have hsign : ¬(some c = some (45 : UInt8) ∨ some c = some 43) := by
    rintro (hcon | hcon)
    · exact hminus (Option.some.inj hcon)
    · exact hplus (Option.some.inj hcon)
  rw [behindNumber, hskip, hhead, if_neg hsign, List.dropWhile_append_of_pos isDigit_decimal]
  cases rest with
  | nil => rfl
  | cons d rest => exact List.dropWhile_cons_of_neg (by simp [hstop d rfl])

theorem atoiAt_number (hstop : ∀ c ∈ rest.head?, isDigit c = false) (hrest : rest ≠ [])
    (hn : n < 2 ^ 31) :
    ∃ read, atoiAt (before ++ (decimal n ++ rest)) before.length = .ok (UInt32.ofNat n, read) := by
  obtain ⟨c, s, rfl⟩ := List.exists_cons_of_ne_nil hrest
  have hvalue : atoi (decimal n ++ c :: s) = UInt32.ofNat n := by
    have hsmall : n ≤ 2 ^ 63 - 1 := by omega
    rw [atoi, strtol_decimal_append n hstop, Nat.min_eq_left hsmall, UInt64.toUInt32_ofNat']
  rw [atoiAt, List.drop_left, behindNumber_decimal n hstop, hvalue]
  exact ⟨_, rfl⟩

/-- What is compared with the bytes received is the length of the body and of what stands before the
number. -/
theorem complete_before (hfirst : Substitution.firstAt contentLengthName (before ++ contentLengthName) =
      some before.length) (hplain : 0 ∉ before) (hn : 0 < n) (hsmall : before.length + 16 + n < 2 ^ 31)
    (hstop : ∀ c ∈ rest.head?, isDigit c = false) (hrest : rest ≠ []) {size : ℕ}
    (hsize : before.length + 16 + n ≤ size) :
    ∃ read, isFileDownloadComplete (before ++ (contentLengthName ++ 32 :: (decimal n ++ rest))) size =
      .ok (true, read) := by
  have htext : ∃ behind, cstring (before ++ (contentLengthName ++ 32 :: (decimal n ++ rest))) =
      before ++ contentLengthName ++ behind := by
    have hall : ∀ c ∈ before ++ contentLengthName, decide (c ≠ 0) = true := by
      intro c hc
      simp only [decide_eq_true_eq]
      rintro rfl
      rcases List.mem_append.mp hc with hc | hc
      · exact hplain hc
      · exact absurd hc (by decide)
    rw [← List.append_assoc, cstring, List.takeWhile_append_of_pos hall]
    exact ⟨_, rfl⟩
  obtain ⟨behind, hbehind⟩ := htext
  have hplace := Substitution.firstAt_append hfirst behind
  have hnumber : (before ++ (contentLengthName ++ [32])).length = before.length + 16 :=
    List.length_append
  obtain ⟨read, hread⟩ :=
    @atoiAt_number (before ++ (contentLengthName ++ [32])) rest n hstop hrest (by omega)
  have hwhole : before ++ (contentLengthName ++ 32 :: (decimal n ++ rest)) =
      before ++ (contentLengthName ++ [32]) ++ (decimal n ++ rest) := by
    simp only [List.append_assoc, List.cons_append, List.nil_append]
  rw [isFileDownloadComplete, strstr, hbehind, hplace]
  dsimp only [Except.bind]
  rw [hwhole, ← hnumber, hread, hnumber]
  have hrange : n < UInt32.size := lt_of_lt_of_le (by omega : n < 2 ^ 31) (by decide)
  have hword : (UInt32.ofNat n).toNat = n := UInt32.toNat_ofNat_of_lt' hrange
  have hcompared : (before.length + 16 + (UInt32.ofNat n).toNat) % 2 ^ 32 ≤ size := by
    rw [hword, Nat.mod_eq_of_lt (by omega)]
    exact hsize
  have hnonzero : UInt32.ofNat n ≠ 0 := by
    intro hzero
    rw [hzero] at hword
    exact absurd hn (by rw [← hword]; decide)
  dsimp only
  rw [decide_eq_true (And.intro hnonzero hcompared)]
  exact ⟨_, rfl⟩

theorem cleared_zeroed (size : ℕ) :
    cleared (List.replicate (size + 1) 0) = .ok (List.replicate (size + 1) 0) := by
  have hlength : strlen (List.replicate (size + 1) (0 : UInt8)) = 0 := rfl
  rw [cleared, hlength, if_pos (by rw [List.length_replicate]; exact Nat.succ_pos size)]
  rfl

theorem received_zeroed {piece : List UInt8} {size : ℕ} (hsize : piece.length ≤ size)
    (hcomplete : ∃ read, isFileDownloadComplete (piece ++ List.replicate (size - piece.length) 0)
      piece.length = .ok (true, read)) :
    received (.data piece) 0 (List.replicate size 0) =
      .ok (.inl { answer := true, filecontentSize := piece.length }) := by
  obtain ⟨read, hread⟩ := hcomplete
  have hroom : piece.take ((List.replicate size (0 : UInt8)).length - 0) = piece := by
    apply List.take_of_length_le
    rw [List.length_replicate]
    exact hsize
  unfold received
  dsimp only [Recv.bytes]
  rw [if_neg (by simp), hroom, Nat.zero_add, List.drop_replicate, List.take_zero, List.nil_append, hread]
  rfl

theorem Response.bytes_usual {r : Response} (hname : r.fieldName = contentLengthName)
    (hspace : r.space = [32]) : ∃ behind, r.body.length + 3 ≤ behind.length ∧
      r.bytes = r.before ++ (contentLengthName ++ 32 :: (decimal r.body.length ++ CR :: behind)) := by
  refine ⟨LF :: (r.linesBehind.flatMap Response.line ++ CR :: LF :: r.body), ?_, ?_⟩
  · simp only [List.length_cons, List.length_append]
    omega
  · rw [Response.bytes, Response.before, Response.line, hname, hspace]
    simp only [Response.line, List.append_assoc, List.cons_append, List.nil_append]

/-- A response in the usual spelling is taken for the whole when all but its last byte is there. -/
theorem early_zeroed (r : Response) (spare : ℕ) (recvs : List Recv) (hname : r.fieldName = contentLengthName)
    (hspace : r.space = [32]) (hplain : 0 ∉ r.before) (hbody : r.body ≠ [])
    (hfirst : Substitution.firstAt contentLengthName (r.before ++ contentLengthName) =
      some r.before.length) (hsmall : r.bytes.length < 2 ^ 31) :
    recvFileInternalClean (.data r.bytes.dropLast :: recvs) (List.replicate (r.bytes.length + spare) 0) =
      .ok (some { answer := true, filecontentSize := r.bytes.length - 1 }) := by
  obtain ⟨behind, hlength, hbytes⟩ := Response.bytes_usual hname hspace
  have htotal : r.bytes.length =
      r.before.length + 16 + ((decimal r.body.length).length + 1 + behind.length) := by
    have hnameLength : contentLengthName.length = 15 := rfl
    rw [hbytes]
    simp only [List.length_append, List.length_cons, hnameLength]
    omega
  have hdrop : r.bytes.dropLast = r.before ++ (contentLengthName ++
      32 :: (decimal r.body.length ++ CR :: behind.dropLast)) := by
    have hne : behind ≠ [] := by
      rintro rfl
      cases hlength
    have hsplit : ∀ text : List UInt8, r.before ++ (contentLengthName ++
        32 :: (decimal r.body.length ++ CR :: text)) = r.before ++ (contentLengthName ++
          32 :: (decimal r.body.length ++ [CR])) ++ text := by
      intro text
      simp only [List.append_assoc, List.cons_append, List.nil_append]
    rw [hbytes, hsplit behind, hsplit behind.dropLast, List.dropLast_append_of_ne_nil hne]
  have hcomplete : ∃ read, isFileDownloadComplete (r.bytes.dropLast ++
      List.replicate (r.bytes.length + spare - r.bytes.dropLast.length) 0) r.bytes.dropLast.length =
        .ok (true, read) := by
    rw [List.length_dropLast, hdrop]
    simp only [List.append_assoc, List.cons_append]
    apply complete_before hfirst hplain (List.length_pos_iff.mpr hbody) (by omega)
    · rintro c ⟨⟩
      decide
    · exact List.cons_ne_nil _ _
    · omega
  have hfits : r.bytes.dropLast.length ≤ r.bytes.length + spare := by
    rw [List.length_dropLast]
    omega
  obtain ⟨size, hsize⟩ : ∃ size, r.bytes.length + spare = size + 1 :=
    ⟨r.bytes.length + spare - 1, by omega⟩
  rw [recvFileInternalClean, hsize, cleared_zeroed, ← hsize]
  change cleanLoop _ _ _ = _
  rw [cleanLoop, received_zeroed hfits hcomplete, List.length_dropLast]
  rfl

end Zeroed

/-! All responses. -/

set_option maxRecDepth 4000 in
/-- `HTTP/1.1 200 OK` with the body `hello` -/
def hello : Response where
  statusLine := ascii "HTTP/1.1 200 OK"
  linesBefore := []
  fieldName := contentLengthName
  space := [32]
  linesBehind := []
  body := ascii "hello"
  status := by decide
  noNewline := by
    intro line hline
    cases List.mem_singleton.mp hline
    refine ⟨?_, by decide⟩
    unfold NoNewline
    decide
  name := rfl
  blank := by decide

end AmmarServer.AmmClient
