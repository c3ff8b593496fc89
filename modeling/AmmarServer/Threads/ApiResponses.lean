import AmmarServer.Lib.TextFiles
import AmmarServer.Threads.ApiServe

/-! Where `ApiProtocol_Finish` of `threads/apiProtocol.c` puts a response: the header backwards from
the body in the memory of a response buffer, with the 32-bit lengths that the pieces are counted
in. -/

namespace AmmarServer.ApiProtocol
open Bytes CString

/-! ## The header, piece by piece -/

/-- The header being built and whether every piece has fitted so far. -/
structure HeaderPut where
  bytes : List UInt8 := []
  fits : Bool := true
  deriving DecidableEq, Repr

/-- `*length`, which a piece that does not fit sets to the size of the array. -/
def HeaderPut.length (header : HeaderPut) : ℕ :=
  if header.fits then header.bytes.length else API_RESPONSE_HEADER_RESERVE

/-- `ApiHeaderPut` of a string with its `strlen` as an `unsigned int`; `none` is a `memcpy` past the
end of the array. -/
def HeaderPut.put (header : HeaderPut) (piece : List UInt8) : Option HeaderPut :=
  let n := piece.length % 2 ^ 32
  if (header.length + n) % 2 ^ 32 ≥ API_RESPONSE_HEADER_RESERVE then
    some { header with fits := false }
  else if header.length + n ≥ API_RESPONSE_HEADER_RESERVE then none
  else some { header with bytes := header.bytes ++ piece.take n }

/-- The pieces of a header in front of a body of `bodyLength` bytes. -/
def headerPieces (keepAlive : Bool) (bodyLength : ℕ) (res : APIResponse) : List (List UInt8) := [
  ascii "HTTP/1.1 ", apiHeaderUnsigned res.statusCode, ascii " ",
  ascii (getHTTPReasonPhrase res.statusCode), ascii "\r\nContent-Type: ",
  res.contentType.getD (ascii "text/plain"), ascii "\r\nContent-Length: ",
  apiHeaderUnsigned bodyLength, ascii "\r\n", res.extraHeaders.getD [],
  if keepAlive then [] else ascii "Connection: close\r\n", ascii "\r\n"]

/-- `ApiProtocol_Finish` over the memory of the buffer: what it leaves there, with `*response` as an
offset and the length returned, or no response. -/
def finishInMemory (memory : List UInt8) (keepAlive : Bool) (bodySize : ℕ)
    (method : TypesOfRequests) (res : APIResponse) : Option (List UInt8 × Option (ℕ × ℕ)) :=
  let bodyLength := min res.body.length bodySize
  match (headerPieces keepAlive bodyLength res).foldlM HeaderPut.put {} with
  | none => none
  | some header =>
    if !header.fits ∨ header.length = 0 ∨ header.length ≥ API_RESPONSE_HEADER_RESERVE then
      some (memory, none)
    else
      let start := API_RESPONSE_HEADER_RESERVE - header.length
      some (memory.take start ++ (header.bytes ++ memory.drop (start + header.length)),
        some (start, header.length + if method = .HEAD then 0 else bodyLength))

/-- A piece short enough for its sum with a length not to wrap. -/
def ShortPiece (piece : List UInt8) : Prop :=
  API_RESPONSE_HEADER_RESERVE + piece.length < 2 ^ 32

theorem HeaderPut.put_of_short {header : HeaderPut} {piece : List UInt8} (hpiece : ShortPiece piece)
    (hroom : header.fits = true → header.bytes.length < API_RESPONSE_HEADER_RESERVE) :
    header.put piece =
      if header.fits = true ∧ header.bytes.length + piece.length < API_RESPONSE_HEADER_RESERVE then
        some { header with bytes := header.bytes ++ piece }
      else some { header with fits := false } := by
  unfold ShortPiece at hpiece
  have hn : piece.length % 2 ^ 32 = piece.length := Nat.mod_eq_of_lt (by omega)
  unfold HeaderPut.put HeaderPut.length
  dsimp only
  rw [hn, List.take_length]
  cases hfits : header.fits with
  | true =>
    have hroom := hroom hfits
    rw [if_pos rfl, Nat.mod_eq_of_lt (by omega)]
    by_cases hlt : header.bytes.length + piece.length < API_RESPONSE_HEADER_RESERVE
    · rw [if_neg (Nat.not_le_of_lt hlt), if_neg (Nat.not_le_of_lt hlt), if_pos ⟨rfl, hlt⟩]
    · rw [if_pos (Nat.le_of_not_lt hlt), if_neg fun h => hlt h.2]
  | false =>
    rw [if_neg Bool.false_ne_true, Nat.mod_eq_of_lt hpiece, if_pos (Nat.le_add_right ..),
      if_neg fun h => Bool.false_ne_true h.1]

theorem foldlM_put {pieces : List (List UInt8)} (hpieces : ∀ piece ∈ pieces, ShortPiece piece)
    (header : HeaderPut)
    (hroom : header.fits = true → header.bytes.length < API_RESPONSE_HEADER_RESERVE) :
    ∃ header', pieces.foldlM HeaderPut.put header = some header' ∧
      (header'.fits = true ↔ header.fits = true ∧
        (header.bytes ++ pieces.flatten).length < API_RESPONSE_HEADER_RESERVE) ∧
      (header'.fits = true → header'.bytes = header.bytes ++ pieces.flatten) := by
  induction pieces generalizing header with
  | nil => exact ⟨header, rfl, by simpa using hroom, by simp⟩
  | cons piece pieces ih =>
    obtain ⟨hpiece, hpieces⟩ := List.forall_mem_cons.mp hpieces
    rw [List.foldlM_cons, HeaderPut.put_of_short hpiece hroom, List.flatten_cons]
    split
    · rename_i hfits
      obtain ⟨header', hfold, hiff, hbytes⟩ := ih hpieces
        { header with bytes := header.bytes ++ piece } fun _ => by
          rw [List.length_append]
          exact hfits.2
      rw [List.append_assoc] at hiff hbytes
      exact ⟨header', hfold, hiff, hbytes⟩
    · rename_i hfull
      obtain ⟨header', hfold, hiff, -⟩ := ih hpieces { header with fits := false }
        fun hcon => absurd hcon Bool.false_ne_true
      have hnot : ¬ header'.fits = true := fun hcon => Bool.false_ne_true (hiff.mp hcon).1
      refine ⟨header', hfold, iff_of_false hnot fun hcon => hfull ⟨hcon.1, ?_⟩,
        fun hcon => absurd hcon hnot⟩
      have hlt := hcon.2
      simp only [List.length_append] at hlt
      omega

/-! ## The lines of a response -/

/-- Lines with their line ends. -/
def linesText (lines : List (List UInt8)) : List UInt8 := lines.flatMap (· ++ [CR, LF])

/-- The texts of a handler: a content type that may go on in further lines, and header lines each of
which has its line end. -/
structure HandlerText (res : APIResponse) where
  type : List UInt8
  typeLines : List (List UInt8)
  extraLines : List (List UInt8)
  contentType : res.contentType.getD (ascii "text/plain") ++ [CR, LF] =
    linesText (type :: typeLines)
  extraHeaders : res.extraHeaders.getD [] = linesText extraLines
  type_noNewline : NoNewline type
  noNewline : ∀ line ∈ typeLines ++ extraLines, line ≠ [] ∧ NoNewline line
  contentType_short : ShortPiece (res.contentType.getD (ascii "text/plain"))
  extraHeaders_short : ShortPiece (res.extraHeaders.getD [])

def statusLine (statusCode : ℕ) : List UInt8 :=
  ascii "HTTP/1.1 " ++ apiHeaderUnsigned statusCode ++ ascii " " ++
    ascii (getHTTPReasonPhrase statusCode)

def contentLengthLine (n : ℕ) : List UInt8 := ascii "Content-Length: " ++ TextFile.decimal n

def connectionClose : List UInt8 := ascii "Connection: close"

/-- The header lines behind the status line. -/
def responseLines {res : APIResponse} (text : HandlerText res) (keepAlive : Bool) :
    List (List UInt8) :=
  (ascii "Content-Type: " ++ text.type) :: text.typeLines ++
    contentLengthLine res.body.length :: text.extraLines ++
    if keepAlive then [] else [connectionClose]

/-- A status line, header lines and a blank line. -/
def responseHeader {res : APIResponse} (text : HandlerText res) (keepAlive : Bool) : List UInt8 :=
  linesText (statusLine res.statusCode :: responseLines text keepAlive) ++ [CR, LF]

theorem apiHeaderUnsigned_eq (n : ℕ) : apiHeaderUnsigned n = TextFile.decimal n := by
  rw [apiHeaderUnsigned, ascii, Nat.repr, String.toList_ofList, TextFile.decimal]

theorem linesText_cons (line : List UInt8) (lines : List (List UInt8)) :
    linesText (line :: lines) = line ++ CR :: LF :: linesText lines := by
  rw [linesText, List.flatMap_cons, List.append_assoc]
  rfl

theorem linesText_append (lines lines' : List (List UInt8)) :
    linesText (lines ++ lines') = linesText lines ++ linesText lines' := List.flatMap_append

theorem flatten_headerPieces {res : APIResponse} (text : HandlerText res) (keepAlive : Bool) :
    (headerPieces keepAlive res.body.length res).flatten = responseHeader text keepAlive := by
  have hliteral : ascii "\r\nContent-Type: " = CR :: LF :: ascii "Content-Type: " ∧
      ascii "\r\nContent-Length: " = CR :: LF :: ascii "Content-Length: " ∧
      ascii "\r\n" = [CR, LF] ∧
      ascii "Connection: close\r\n" = connectionClose ++ [CR, LF] := by
    decide
  obtain ⟨htypeName, hlengthName, hcrlf, hclose⟩ := hliteral
  have hclosing : (if keepAlive then [] else ascii "Connection: close\r\n") =
      linesText (if keepAlive then [] else [connectionClose]) := by
    cases keepAlive with
    | true => rfl
    | false => exact hclose
  have hvalue : ∀ rest, res.contentType.getD (ascii "text/plain") ++ CR :: LF :: rest =
      text.type ++ CR :: LF :: (linesText text.typeLines ++ rest) := by
    intro rest
    have htype := congrArg (· ++ rest) text.contentType
    simpa only [linesText_cons, List.append_assoc, List.cons_append, List.nil_append] using htype
  rw [responseHeader, linesText_cons, responseLines, linesText_append, List.cons_append,
    linesText_cons, linesText_append, linesText_cons, statusLine, contentLengthLine, headerPieces,
    hclosing, text.extraHeaders, htypeName, hlengthName, hcrlf, apiHeaderUnsigned_eq,
    apiHeaderUnsigned_eq]
  simp only [List.flatten_cons, List.flatten_nil, List.append_assoc, List.cons_append,
    List.nil_append, hvalue, List.append_nil]

/-- The reason phrases there are. -/
def reasonPhrases : List String := [
  "OK", "Created", "Accepted", "No Content", "Partial Content", "Moved Permanently", "Found",
  "Not Modified", "Bad Request", "Unauthorized", "Forbidden", "Not Found", "Method Not Allowed",
  "Request Timeout", "Conflict", "Precondition Failed", "Content Too Large",
  "Unsupported Media Type", "Range Not Satisfiable", "Expectation Failed", "Unprocessable Content",
  "Too Many Requests", "Internal Server Error", "Not Implemented", "Service Unavailable",
  "Informational", "Redirection"]

theorem reason_mem (statusCode : ℕ) : getHTTPReasonPhrase statusCode ∈ reasonPhrases := by
  unfold getHTTPReasonPhrase
  repeat' split
  all_goals simp only [reasonPhrases, List.mem_cons, true_or, or_true]

theorem noNewline_literals : NoNewline (ascii "HTTP/1.1 ") ∧ NoNewline (ascii " ") ∧
    NoNewline (ascii "Content-Type: ") ∧ NoNewline (ascii "Content-Length: ") ∧
    NoNewline connectionClose ∧ ∀ reason ∈ reasonPhrases, NoNewline (ascii reason) := by
  decide

theorem literals_ne_nil : ascii "HTTP/1.1 " ≠ [] ∧ ascii "Content-Type: " ≠ [] ∧
    ascii "Content-Length: " ≠ [] ∧ connectionClose ≠ [] := by
  decide

theorem noNewline_decimal (n : ℕ) : NoNewline (TextFile.decimal n) := by
  have hall : ∀ c : UInt8, isDigit c = true → isNewline c = false := by
    apply forall_byte
    decide +kernel
  exact fun c hc => hall c (TextFile.isDigit_decimal c hc)

/-- Every line of a response is one line, and not the blank one. -/
theorem responseLines_plain {res : APIResponse} (text : HandlerText res) (keepAlive : Bool) :
    ∀ line ∈ statusLine res.statusCode :: responseLines text keepAlive,
      line ≠ [] ∧ NoNewline line := by
  obtain ⟨hversion, hspace, htypeName, hlengthName, hclose, hreason⟩ := noNewline_literals
  obtain ⟨hversion_ne, htypeName_ne, hlengthName_ne, hclose_ne⟩ := literals_ne_nil
  intro line hline
  rw [responseLines, List.mem_cons, List.mem_append, List.cons_append, List.mem_cons,
    List.mem_append, List.mem_cons] at hline
  rcases hline with rfl | (rfl | hline | rfl | hline) | hline
  · -- the status line
    refine ⟨by simp [statusLine, hversion_ne], ?_⟩
    rw [statusLine, apiHeaderUnsigned_eq]
    simp only [noNewline_append]
    exact ⟨⟨⟨hversion, noNewline_decimal _⟩, hspace⟩, hreason _ (reason_mem _)⟩
  · exact ⟨by simp [htypeName_ne], noNewline_append.mpr ⟨htypeName, text.type_noNewline⟩⟩
  · exact text.noNewline line (List.mem_append_left _ hline)
  · exact ⟨by simp [contentLengthLine, hlengthName_ne],
      noNewline_append.mpr ⟨hlengthName, noNewline_decimal _⟩⟩
  · exact text.noNewline line (List.mem_append_right _ hline)
  · split at hline
    · cases hline
    · obtain rfl := List.mem_singleton.mp hline
      exact ⟨hclose_ne, hclose⟩

/-- The response closes the connection exactly when the frame does, unless a line of the handler
does. -/
theorem connectionClose_mem_iff {res : APIResponse} (text : HandlerText res) (keepAlive : Bool) :
    connectionClose ∈ responseLines text keepAlive ↔
      keepAlive = false ∨ connectionClose ∈ text.typeLines ++ text.extraLines := by
  have hother : ∀ value n, connectionClose ≠ ascii "Content-Type: " ++ value ∧
      connectionClose ≠ contentLengthLine n := by
    intro value n
    have htake : connectionClose.take 8 ≠ (ascii "Content-Type: ").take 8 ∧
        connectionClose.take 8 ≠ (ascii "Content-Length: ").take 8 := by decide
    have hlong : 8 ≤ (ascii "Content-Type: ").length ∧ 8 ≤ (ascii "Content-Length: ").length := by
      decide
    constructor
    · intro hcon
      rw [hcon, List.take_append_of_le_length hlong.1] at htake
      exact htake.1 rfl
    · intro hcon
      rw [hcon, contentLengthLine, List.take_append_of_le_length hlong.2] at htake
      exact htake.2 rfl
  rw [responseLines, List.mem_append, List.cons_append, List.mem_cons, List.mem_append,
    List.mem_cons, List.mem_append]
  have htype := (hother text.type 0).1
  have hlength := (hother [] res.body.length).2
  cases keepAlive with
  | true => simp [htype, hlength]
  | false => simp

/-! ## The response in the buffer -/

theorem shortPiece_of_length_le {piece : List UInt8} (h : piece.length ≤ 2 ^ 16) :
    ShortPiece piece := by
  unfold ShortPiece API_RESPONSE_HEADER_RESERVE
  omega

theorem shortPiece_literals : (ascii "HTTP/1.1 ").length ≤ 2 ^ 16 ∧ (ascii " ").length ≤ 2 ^ 16 ∧
    (ascii "\r\nContent-Type: ").length ≤ 2 ^ 16 ∧ (ascii "\r\nContent-Length: ").length ≤ 2 ^ 16 ∧
    (ascii "\r\n").length ≤ 2 ^ 16 ∧ (ascii "Connection: close\r\n").length ≤ 2 ^ 16 ∧
    ∀ reason ∈ reasonPhrases, (ascii reason).length ≤ 2 ^ 16 := by
  decide

theorem shortPiece_unsigned {n : ℕ} (hn : n < 2 ^ 32) : ShortPiece (apiHeaderUnsigned n) := by
  have hdigits : (TextFile.decimal n).length ≤ 10 := TextFile.decimal_length (by decide) (by omega)
  rw [apiHeaderUnsigned_eq]
  exact shortPiece_of_length_le (hdigits.trans (by decide))

theorem headerPieces_short {res : APIResponse} (text : HandlerText res) (keepAlive : Bool)
    {bodyLength : ℕ} (hstatus : res.statusCode < 2 ^ 32) (hbody : bodyLength < 2 ^ 32) :
    ∀ piece ∈ headerPieces keepAlive bodyLength res, ShortPiece piece := by
  obtain ⟨h1, h2, h3, h4, h5, h6, h7⟩ := shortPiece_literals
  have hclose : ShortPiece (if keepAlive then [] else ascii "Connection: close\r\n") := by
    apply shortPiece_of_length_le
    split
    · exact Nat.zero_le _
    · exact h6
  simp only [headerPieces, List.forall_mem_cons]
  exact ⟨shortPiece_of_length_le h1, shortPiece_unsigned hstatus, shortPiece_of_length_le h2,
    shortPiece_of_length_le (h7 _ (reason_mem _)), shortPiece_of_length_le h3,
    text.contentType_short, shortPiece_of_length_le h4, shortPiece_unsigned hbody,
    shortPiece_of_length_le h5, text.extraHeaders_short, hclose, shortPiece_of_length_le h5,
    List.forall_mem_nil _⟩

theorem responseHeader_length_pos {res : APIResponse} (text : HandlerText res) (keepAlive : Bool) :
    0 < (responseHeader text keepAlive).length := by
  rw [responseHeader, List.length_append]
  exact Nat.add_pos_right _ (by decide)

/-- What `ApiProtocol_Finish` does with a body that is inside its buffer. -/
theorem finishInMemory_eq {res : APIResponse} (text : HandlerText res) (memory : List UInt8)
    (keepAlive : Bool) (method : TypesOfRequests) {bodySize : ℕ} (hstatus : res.statusCode < 2 ^ 32)
    (hsize : bodySize < 2 ^ 32) (hbody : res.body.length ≤ bodySize) :
    finishInMemory memory keepAlive bodySize method res =
      some (
        if (responseHeader text keepAlive).length < API_RESPONSE_HEADER_RESERVE then
          let start := API_RESPONSE_HEADER_RESERVE - (responseHeader text keepAlive).length
          (memory.take start ++
              (responseHeader text keepAlive ++ memory.drop API_RESPONSE_HEADER_RESERVE),
            some (start, (responseHeader text keepAlive).length +
              if method = .HEAD then 0 else res.body.length))
        else (memory, none)) := by
  have hpieces := headerPieces_short text keepAlive hstatus (hbody.trans_lt hsize)
  obtain ⟨put, hfold, hfits, hbytes⟩ := foldlM_put hpieces {} fun _ => by decide
  rw [List.nil_append, flatten_headerPieces] at hfits hbytes
  have hpos := responseHeader_length_pos text keepAlive
  unfold finishInMemory
  rw [Nat.min_eq_left hbody]
  dsimp only
  rw [hfold]
  dsimp only
  by_cases hroom : (responseHeader text keepAlive).length < API_RESPONSE_HEADER_RESERVE
  · have hput := hfits.mpr ⟨rfl, hroom⟩
    have hbytes := hbytes hput
    have hlength : put.length = (responseHeader text keepAlive).length := by
      rw [HeaderPut.length, if_pos hput, hbytes]
    have hgo : ¬ ((!put.fits) = true ∨ put.length = 0 ∨
        put.length ≥ API_RESPONSE_HEADER_RESERVE) := by
      rw [hput, hlength]
      rintro (hcon | hcon | hcon)
      · cases hcon
      · exact hpos.ne' hcon
      · exact Nat.not_le_of_lt hroom hcon
    rw [if_neg hgo, if_pos hroom, hlength, hbytes, Nat.sub_add_cancel hroom.le]
  · have hput : put.fits = false := by
      rw [← Bool.not_eq_true, hfits]
      exact fun hcon => hroom hcon.2
    rw [if_pos (.inl (by rw [hput]; rfl)), if_neg hroom]

/-- The bytes that a transport sends. -/
def sentFrom (memory : List UInt8) (response : ℕ × ℕ) : List UInt8 :=
  (memory.drop response.1).take response.2

theorem sentFrom_placed {reserve header : List UInt8} (body rest : List UInt8)
    (method : TypesOfRequests) (hreserve : reserve.length = API_RESPONSE_HEADER_RESERVE)
    (hroom : header.length ≤ API_RESPONSE_HEADER_RESERVE) :
    sentFrom ((reserve ++ (body ++ rest)).take (API_RESPONSE_HEADER_RESERVE - header.length) ++
          (header ++ (reserve ++ (body ++ rest)).drop API_RESPONSE_HEADER_RESERVE))
        (API_RESPONSE_HEADER_RESERVE - header.length,
          header.length + if method = .HEAD then 0 else body.length) =
      header ++ if method = .HEAD then [] else body := by
  have hstart : ((reserve ++ (body ++ rest)).take
      (API_RESPONSE_HEADER_RESERVE - header.length)).length =
      API_RESPONSE_HEADER_RESERVE - header.length := by
    rw [List.length_take, List.length_append, hreserve]
    omega
  have hbehind : (reserve ++ (body ++ rest)).drop API_RESPONSE_HEADER_RESERVE = body ++ rest := by
    rw [← hreserve, List.drop_left]
  rw [sentFrom, hbehind]
  dsimp only
  generalize (reserve ++ (body ++ rest)).take _ = front at hstart ⊢
  rw [← hstart, List.drop_left]
  split
  · rw [Nat.add_zero, List.take_left, List.append_nil]
  · rw [← List.append_assoc, ← List.length_append, List.take_left]

theorem foldl_apiHeaderPut_of_room {pieces : List (List UInt8)} {header : List UInt8}
    (h : (header ++ pieces.flatten).length < API_RESPONSE_HEADER_RESERVE) :
    pieces.foldl apiHeaderPut (some header) = some (header ++ pieces.flatten) := by
  induction pieces generalizing header with
  | nil => rw [List.foldl_nil, List.flatten_nil, List.append_nil]
  | cons piece pieces ih =>
    rw [List.flatten_cons, ← List.append_assoc] at h ⊢
    have hpiece : ¬ header.length + piece.length ≥ API_RESPONSE_HEADER_RESERVE := by
      simp only [List.length_append] at h
      omega
    rw [List.foldl_cons, apiHeaderPut, if_neg hpiece, ih h]

theorem finish_eq_sentFrom {res : APIResponse} (text : HandlerText res) (keepAlive : Bool)
    (method : TypesOfRequests) {bodySize : ℕ} {reserve : List UInt8} (rest : List UInt8)
    (hreserve : reserve.length = API_RESPONSE_HEADER_RESERVE) (hstatus : res.statusCode < 2 ^ 32)
    (hsize : bodySize < 2 ^ 32) (hbody : res.body.length ≤ bodySize) :
    finish keepAlive bodySize method res =
      (finishInMemory (reserve ++ (res.body ++ rest)) keepAlive bodySize method res).bind
        fun left => left.2.map (sentFrom left.1) := by
  have hflatten := flatten_headerPieces text keepAlive
  have hfinish : finish keepAlive bodySize method res =
      ((headerPieces keepAlive res.body.length res).foldl apiHeaderPut (some [])).map
        fun header => header ++ if method = .HEAD then [] else res.body := by
    rw [finish, List.take_of_length_le hbody, headerPieces]
  rw [hfinish, finishInMemory_eq text _ keepAlive method hstatus hsize hbody, Option.bind_some]
  by_cases hroom : (responseHeader text keepAlive).length < API_RESPONSE_HEADER_RESERVE
  · have hfold : (headerPieces keepAlive res.body.length res).foldl apiHeaderPut (some []) =
        some ([] ++ (headerPieces keepAlive res.body.length res).flatten) :=
      foldl_apiHeaderPut_of_room (by rwa [List.nil_append, hflatten])
    rw [hfold, List.nil_append, hflatten, if_pos hroom, Option.map_some, Option.map_some,
      sentFrom_placed res.body rest method hreserve hroom.le]
  · rw [if_neg hroom]
    cases hfold : (headerPieces keepAlive res.body.length res).foldl apiHeaderPut (some []) with
    | none => rfl
    | some written =>
      obtain ⟨hwritten, hlength⟩ := foldl_apiHeaderPut hfold
      rw [List.nil_append, hflatten] at hwritten
      exact absurd (hwritten ▸ hlength (List.cons_ne_nil _ _)) hroom

/-- A response is one block in front of and over the body that the handler wrote: a status line,
header lines and a blank line, and the body unless only its header was asked for. Where the header
does not fit there is no response, and the buffer is as it was. -/
theorem finish_selfFraming {res : APIResponse} (text : HandlerText res) (keepAlive : Bool)
    (method : TypesOfRequests) {bodySize : ℕ} {reserve rest : List UInt8}
    (hreserve : reserve.length = API_RESPONSE_HEADER_RESERVE) (hstatus : res.statusCode < 2 ^ 32)
    (hsize : bodySize < 2 ^ 32) (hbody : res.body.length ≤ bodySize) :
    (∀ line ∈ statusLine res.statusCode :: responseLines text keepAlive,
        line ≠ [] ∧ NoNewline line) ∧
      contentLengthLine res.body.length ∈ responseLines text keepAlive ∧
      (connectionClose ∈ responseLines text keepAlive ↔
        keepAlive = false ∨ connectionClose ∈ text.typeLines ++ text.extraLines) ∧
      ((responseHeader text keepAlive).length < API_RESPONSE_HEADER_RESERVE →
        ∃ memory' response,
          finishInMemory (reserve ++ (res.body ++ rest)) keepAlive bodySize method res =
            some (memory', some response) ∧
          response.1 + (responseHeader text keepAlive).length = API_RESPONSE_HEADER_RESERVE ∧
          sentFrom memory' response =
            responseHeader text keepAlive ++ if method = .HEAD then [] else res.body) ∧
      (API_RESPONSE_HEADER_RESERVE ≤ (responseHeader text keepAlive).length →
        finishInMemory (reserve ++ (res.body ++ rest)) keepAlive bodySize method res =
          some (reserve ++ (res.body ++ rest), none)) := by
  refine ⟨responseLines_plain text keepAlive, by simp [responseLines],
    connectionClose_mem_iff text keepAlive, fun hroom => ?_, fun hfull => ?_⟩
  · rw [finishInMemory_eq text _ keepAlive method hstatus hsize hbody, if_pos hroom]
    exact ⟨_, _, rfl, Nat.sub_add_cancel hroom.le,
      sentFrom_placed res.body rest method hreserve hroom.le⟩
  · rw [finishInMemory_eq text _ keepAlive method hstatus hsize hbody,
      if_neg (Nat.not_lt_of_le hfull)]

theorem prepared_contentType (body : List UInt8) :
    ({ body := body } : APIResponse).contentType.getD (ascii "text/plain") =
      ascii "application/json" := by
  rw [Option.getD_some]

theorem prepared_line (body : List UInt8) :
    ({ body := body } : APIResponse).contentType.getD (ascii "text/plain") ++ [CR, LF] =
      linesText [ascii "application/json"] := by
  rw [prepared_contentType, linesText_cons]
  exact congrArg _ (List.append_nil [CR, LF]).symm

theorem prepared_noNewline : NoNewline (ascii "application/json") := by decide

theorem prepared_short (body : List UInt8) :
    ShortPiece (({ body := body } : APIResponse).contentType.getD (ascii "text/plain")) := by
  rw [prepared_contentType]
  exact shortPiece_of_length_le (by decide)

/-- The texts of a response that a handler leaves as `ApiProtocol_Prepare` has filled it in. -/
def preparedText (body : List UInt8) : HandlerText { body := body } where
  type := ascii "application/json"
  typeLines := []
  extraLines := []
  contentType := prepared_line body
  extraHeaders := Option.getD_none
  type_noNewline := prepared_noNewline
  noNewline := List.forall_mem_nil _
  contentType_short := prepared_short body
  extraHeaders_short := shortPiece_of_length_le (Nat.zero_le _)

theorem finish_prepared : ∃ memory' response,
    finishInMemory (List.replicate 256 0 ++ (ascii "1" ++ [0])) true 1 .GET
        { body := ascii "1" } = some (memory', some response) ∧
      response.1 + (responseHeader (preparedText (ascii "1")) true).length = 256 ∧
      sentFrom memory' response = responseHeader (preparedText (ascii "1")) true ++ ascii "1" := by
  have hroom : (responseHeader (preparedText (ascii "1")) true).length < 256 ∧
      (ascii "1").length ≤ 1 := by
    decide
  exact (finish_selfFraming (preparedText (ascii "1")) true .GET (List.length_replicate ..)
    (by decide) (by decide) hroom.2).2.2.2.1 hroom.1

/-- A status line and header lines, a blank line, and the body. -/
def SelfFramed (block body : List UInt8) : Prop :=
  ∃ lines, (∀ line ∈ lines, line ≠ [] ∧ NoNewline line) ∧
    block = linesText lines ++ [CR, LF] ++ body

theorem SelfFramed.blank_line {block body : List UInt8} (h : SelfFramed block body) :
    block.head? = some CR ∨ [CR, LF, CR, LF] <:+: block := by
  obtain ⟨lines, -, rfl⟩ := h
  rcases List.eq_nil_or_concat lines with rfl | ⟨lines, line, rfl⟩
  · exact .inl rfl
  · refine .inr ⟨linesText lines ++ line, body, ?_⟩
    rw [List.concat_eq_append, linesText_append, linesText_cons]
    simp [linesText]

/-- A header line that is handed over without its line end swallows the blank line. -/
theorem extraHeaders_unended :
    ¬ [CR, LF, CR, LF] <:+: ascii "X: 1" ∧ ∃ memory' response,
      finishInMemory (List.replicate 256 0 ++ (ascii "a" ++ [0])) true 1 .GET
          { extraHeaders := some (ascii "X: 1"), body := ascii "a" } =
        some (memory', some response) ∧
      ¬ SelfFramed (sentFrom memory' response) (ascii "a") := by
  have hcomputed : ¬ [CR, LF, CR, LF] <:+: ascii "X: 1" ∧
      (finishInMemory (List.replicate 256 0 ++ (ascii "a" ++ [0])) true 1 .GET
        { extraHeaders := some (ascii "X: 1"), body := ascii "a" }).any fun left =>
          left.2.any fun response => (sentFrom left.1 response).head? != some CR ∧
            ¬ [CR, LF, CR, LF] <:+: sentFrom left.1 response := by
    decide +kernel
  refine ⟨hcomputed.1, ?_⟩
  obtain ⟨⟨memory', sent⟩, hfinish, hsent⟩ := (Option.any_eq_true ..).mp hcomputed.2
  obtain ⟨response, rfl, hblock⟩ := (Option.any_eq_true ..).mp hsent
  have hblock := of_decide_eq_true hblock
  refine ⟨memory', response, hfinish, fun hcon => ?_⟩
  rcases hcon.blank_line with h | h
  · exact absurd h (bne_iff_ne.mp hblock.1)
  · exact hblock.2 h

end AmmarServer.ApiProtocol
