import AmmarServer.HeaderAnalysis.ChunkedTransfer
import AmmarServer.HeaderAnalysis.GetData

/-! A request is analysed line by line in the buffer that it was received into:
`keepAnalyzingHTTPHeader` and `HTTPRequestIsComplete` of `header_analysis/generic_header_tools.c`,
the handlers of `header_analysis/http_header_analysis.c` and `header_analysis/cookie_data.c` that
write to the buffer, and the recognizer of `stringscanners/httpHeader.c`. Of a request the model has
the fields that decide what is written and when it is complete. -/

namespace AmmarServer.HeaderAnalysis
open Bytes CString

def MAX_HTTP_REQUEST_HEADER : ℕ := 8192
def EXTRA_SPACE : ℕ := 32

/-! ## The recognizer -/

inductive HttpHeaderKind
  | EMPTY | AUTHORIZATION | ACCEPT_ENCODING | COOKIE | CONNECTION | HOST | IF_NONE_MATCH
  | IF_MODIFIED_SINCE | IF_UNMODIFIED_SINCE | EXPECT | TRANSFER_ENCODING | RANGE | REFERRER
  | REFERER | USER_AGENT
  deriving DecidableEq, Repr

/-- The words that one case of the recognizer is left with, one after the other. -/
def scanForHeaderWords (str : List UInt8) (strLength : ℕ) :
    List (String × HttpHeaderKind) → HttpHeaderKind
  | [] => .EMPTY
  | (word, kind) :: words =>
    if (ascii word).length ≤ strLength ∧ strncasecmpEq str (ascii word) (ascii word).length then kind
    else scanForHeaderWords str strLength words

/-- `scanFor_httpHeader`. -/
def scanForHttpHeader (str : List UInt8) (strLength : ℕ) : HttpHeaderKind :=
  if strLength < 5 then .EMPTY
  else
    let first := toUpper (charAt str 0)
    let second := toUpper (charAt str 1)
    let third := toUpper (charAt str 2)
    let words := scanForHeaderWords str strLength
    if first = 65 then
      if second = 67 then words [("ACCEPT-ENCODING:", .ACCEPT_ENCODING)]
      else if second = 85 then words [("AUTHORIZATION:", .AUTHORIZATION)]
      else .EMPTY
    else if first = 67 then
      if second = 79 then
        if third = 78 then words [("CONNECTION:", .CONNECTION)]
        else if third = 79 then words [("COOKIE:", .COOKIE)]
        else .EMPTY
      else .EMPTY
    else if first = 69 then words [("EXPECT:", .EXPECT)]
    else if first = 72 then words [("HOST:", .HOST)]
    else if first = 73 then
      if second = 70 ∧ third = 45 then
        words [("IF-NONE-MATCH:", .IF_NONE_MATCH), ("IF-MODIFIED-SINCE:", .IF_MODIFIED_SINCE),
          ("IF-UNMODIFIED-SINCE:", .IF_UNMODIFIED_SINCE)]
      else .EMPTY
    else if first = 82 then
      if second = 65 then words [("RANGE:", .RANGE)]
      else if second = 69 ∧ third = 70 then
        words [("REFERRER:", .REFERRER), ("REFERER:", .REFERER)]
      else .EMPTY
    else if first = 84 then words [("TRANSFER-ENCODING:", .TRANSFER_ENCODING)]
    else if first = 85 then words [("USER-AGENT:", .USER_AGENT)]
    else .EMPTY

/-! ## The handlers that write -/

/-- A pointer into the buffer with the bytes from there on, and the value if there is one. -/
structure CookieItem where
  name : ℕ
  nameSize : ℕ
  value : Option (ℕ × ℕ)
  deriving DecidableEq, Repr

structure IncomingHeader where
  headerRAW : List UInt8
  headerRAWSize : ℕ
  MAXheaderRAWSize : ℕ
  headerRAWHeadSize : ℕ
  parsingStartOffset : ℕ
  parsingCurrentLine : ℕ
  requestType : TypesOfRequests
  chunked : Bool
  transferEncodingUnsupported : Bool
  ContentLength : ℕ
  authorized : Bool
  COOKIEItem : List CookieItem
  failed : Bool
  errorResponseCode : ℕ
  headerRAWRequestedSize : ℕ

/-- What an instance settles, with two functions that are not modelled: the handler of the lines of a
POST request, and whether a `Connection` line names `keep-alive` or `close`. -/
structure Instance where
  PASSWORD_PROTECTION : Bool
  BASE64PASSWORD : Option (List UInt8)
  ENABLE_POST : Bool
  MAX_POST_TRANSACTION_SIZE : ℕ
  webserver_root : List UInt8
  analyzePOSTLineRequest : IncomingHeader → ℕ → ℕ → IncomingHeader
  checkHTTPHeaderCategory : List UInt8 → ℕ → Bool

/-- Below `!`, for a `char` that is signed. -/
def isEmptyChar (c : UInt8) : Bool := c < 33 || 128 ≤ c

/-- `trim_last_empty_chars`, from the last byte to the first. -/
def trimLastEmptyChars (buffer : List UInt8) (input : ℕ) : ℕ → List UInt8
  | 0 => buffer
  | i + 1 =>
    trimLastEmptyChars
      (if isEmptyChar (charAt buffer (input + i)) then buffer.set (input + i) 0 else buffer) input i

/-- Where the credentials of a line start. -/
def credentialsStart (line : List UInt8) (request_length : ℕ) : ℕ :=
  let payload_start := skipWhile line request_length (· = 32) (14 + 1)
  skipWhile line request_length (· = 32) (payload_start + 5)

/-- `ProcessAuthorizationHTTPLine` for the line at `request`. -/
def processAuthorizationHTTPLine (BASE64PASSWORD : List UInt8) (output : IncomingHeader)
    (request request_length : ℕ) : IncomingHeader :=
  let payload_start := credentialsStart (output.headerRAW.drop request) request_length
  if payload_start < request_length then
    let buffer := trimLastEmptyChars output.headerRAW request request_length
    let payload := request + payload_start
    let payloadLength :=
      ((buffer.drop payload).takeWhile fun c => c ≠ 0 ∧ c ≠ CR ∧ c ≠ LF).length
    let buffer := buffer.set (payload + payloadLength) 0
    { output with
      headerRAW := buffer
      authorized := cstring BASE64PASSWORD == cstring (buffer.drop payload) }
  else output

/-- What ends a line of cookies early. -/
def isTerminator (c : UInt8) : Bool := c == LF || c == CR || c == 0

/-- The loop of `finalizeGenericCookieField`, from `ptr` up to `stop`. -/
def cookieLoop (stop : ℕ) :
    ℕ → ℕ → List UInt8 → List CookieItem → List UInt8 × List CookieItem
  | 0, _, buffer, target => (buffer, target)
  | fuel + 1, ptr, buffer, target =>
    if ptr < stop then
      let nameStart := skipWhile buffer stop (fun c => c = 32 ∨ c = 59) ptr
      if nameStart ≥ stop ∨ isTerminator (charAt buffer nameStart) then (buffer, target)
      else if target.length ≥ MAX_HTTP_GET_VARIABLE_COUNT then (buffer, target)
      else
        let ptr := skipWhile buffer stop
          (fun c => c ≠ 61 ∧ c ≠ 59 ∧ !isTerminator c) nameStart
        if ptr ≥ stop ∨ charAt buffer ptr ≠ 61 then
          let hitLineTerminator := ptr ≥ stop ∨ isTerminator (charAt buffer ptr)
          let target := target ++ [⟨nameStart, ptr - nameStart, none⟩]
          let buffer' := if ptr < stop then buffer.set ptr 0 else buffer
          if hitLineTerminator then (buffer', target)
          else cookieLoop stop fuel (ptr + 1) buffer' target
        else
          let nameSize := ptr - nameStart
          let buffer := buffer.set ptr 0
          let valueStart := ptr + 1
          let ptr := skipWhile buffer stop (fun c => c ≠ 59 ∧ !isTerminator c) valueStart
          let hitLineTerminator := ptr ≥ stop ∨ isTerminator (charAt buffer ptr)
          let target := target ++ [⟨nameStart, nameSize, some (valueStart, ptr - valueStart)⟩]
          let buffer' := if ptr < stop then buffer.set ptr 0 else buffer
          if hitLineTerminator then (buffer', target)
          else cookieLoop stop fuel (ptr + 1) buffer' target
    else (buffer, target)

/-- `finalizeCOOKIEData`. -/
def finalizeCOOKIEData (output : IncomingHeader) (value valueLength : ℕ) : IncomingHeader :=
  if valueLength = 0 then { output with COOKIEItem := [] }
  else
    let (buffer, items) :=
      cookieLoop (value + valueLength) (valueLength + 1) value output.headerRAW []
    { output with headerRAW := buffer, COOKIEItem := items }

/-- What `ProcessFirstHTTPLine` leaves of the buffer that starts with the line. -/
def firstLineArray (request : List UInt8) (request_length : ℕ) : List UInt8 :=
  if request_length < 3 then request
  else
    let requestType := scanForFirstLines request request_length
    if requestType = .GET ∨ requestType = .HEAD ∨ requestType = .POST then
      let s := if requestType = .GET then 3 else 4
      let s := skipWhile request request_length (· = 32) s
      if s ≥ request_length then request
      else
        let e := skipWhile request request_length (· ≠ 32) s
        if e ≥ request_length then request
        else
          let request := request.set e 0
          let stripped := (originForm (request.drop s)).2
          -- `stripped` points into the buffer, as far from its end as the string is long
          let front := request.take (request.length - stripped.length)
          if strlen stripped ≥ MAX_RESOURCE - 2 then front ++ stripped
          else
            let stripped := (stripGETRequestQueryAndFragment stripped MAX_QUERY).2
            front ++ stripHTMLCharactersInplace stripped true
    else request

/-! ## One line -/

/-- The codings that a `Transfer-Encoding` line names. -/
def transferCodings (value : List UInt8) : List (List UInt8) :=
  let blank := fun c : UInt8 => c = 32 ∨ c = 9
  ((value.splitOnP (· == 44)).map fun coding => (coding.dropWhile blank).rdropWhile blank).filter
    (· ≠ [])

def namesCoding (name : String) (coding : List UInt8) : Bool :=
  coding.length == (ascii name).length && strncasecmpEq coding (ascii name) (ascii name).length

/-- The `requestType` that the request line leaves. -/
def requestTypeOf : Except TypesOfRequests HTTPHeader → TypesOfRequests
  | .error requestType => requestType
  | .ok header => header.requestType

/-- `AnalyzeHTTPLineRequest` for the line of `request_length` bytes at `request`. -/
def analyzeHTTPLineRequest (inst : Instance) (output : IncomingHeader)
    (request request_length lines_gathered : ℕ) : IncomingHeader :=
  if lines_gathered = 1 then
    let line := output.headerRAW.drop request
    { output with
      headerRAW := output.headerRAW.take request ++ firstLineArray line request_length
      requestType :=
        requestTypeOf (processFirstHTTPLine true line request_length inst.webserver_root) }
  else
    let line := output.headerRAW.drop request
    let post := fun output : IncomingHeader =>
      if output.requestType = .POST then inst.analyzePOSTLineRequest output request request_length
      else output
    match scanForHttpHeader line request_length with
    | .AUTHORIZATION =>
      match inst.PASSWORD_PROTECTION, inst.BASE64PASSWORD with
      | true, some password => processAuthorizationHTTPLine password output request request_length
      | _, _ => post output
    | .COOKIE => finalizeCOOKIEData output (request + 7) (request_length - 7)
    | .TRANSFER_ENCODING =>
      let codings := transferCodings ((line.take request_length).drop 18)
      { output with
        chunked := output.chunked || codings.any (namesCoding "chunked")
        transferEncodingUnsupported := output.transferEncodingUnsupported || codings.isEmpty ||
          codings.any fun coding =>
            !namesCoding "chunked" coding && !namesCoding "identity" coding }
    | .CONNECTION =>
      if inst.checkHTTPHeaderCategory line request_length then output else post output
    -- these lines change other fields, or none, and return
    | .HOST | .IF_NONE_MATCH | .IF_MODIFIED_SINCE | .IF_UNMODIFIED_SINCE | .EXPECT | .RANGE
    | .REFERER => output
    | _ => post output

/-! ## All lines -/

/-- The condition of both scans for the end of a header. -/
def endsAt (request : List UInt8) (i : ℕ) : Bool :=
  charAt request i == LF &&
    ((1 ≤ i && charAt request (i - 1) == LF) ||
      (3 ≤ i && charAt request (i - 3) == CR && charAt request (i - 2) == LF &&
        charAt request (i - 1) == CR))

def scanForwards (request : List UInt8) : ℕ → ℕ → ℕ
  | 0, _ => 0
  | fuel + 1, i => if endsAt request i then i else scanForwards request fuel (i + 1)

/-- `HTTPHeaderScanForHeaderEndFromStart`; 0 where there is none. -/
def scanForHeaderEndFromStart (request : List UInt8) (request_length : ℕ) : ℕ :=
  if request_length < 4 then 0 else scanForwards request (request_length - 3) 3

def scanBackwards (request : List UInt8) (dontSearchBefore : ℕ) : ℕ → ℕ
  | 0 => 0
  | i + 1 =>
    if i + 1 > dontSearchBefore + 1 then
      if endsAt request (i + 1) then i + 1 else scanBackwards request dontSearchBefore i
    else 0

/-- `HTTPHeaderScanForHeaderEndFromEnd`; 0 where there is none. -/
def scanForHeaderEndFromEnd (request : List UInt8) (dontSearchBefore request_length : ℕ) : ℕ :=
  if request_length < 4 then 0 else scanBackwards request dontSearchBefore (request_length - 1)

/-- `CapRequestLengthToHeaderEnd`. -/
def capRequestLengthToHeaderEnd (output : IncomingHeader) (startOffset requestLength : ℕ) : ℕ :=
  if !output.chunked ∨ output.headerRAWHeadSize = 0 then requestLength
  else
    let headerEndAbsolute := output.headerRAWHeadSize + 1
    if headerEndAbsolute ≤ startOffset then 0
    else min requestLength (headerEndAbsolute - startOffset)

/-- What becomes of a line that has come to its end. -/
def analyzeLine (inst : Instance) (output : IncomingHeader)
    (startOfNewLine newLineLength : ℕ) : IncomingHeader :=
  let output := { output with parsingCurrentLine := output.parsingCurrentLine + 1 }
  if output.headerRAWHeadSize > 0 ∧ startOfNewLine ≥ output.headerRAWHeadSize + 1 then
    if output.requestType = .POST then
      inst.analyzePOSTLineRequest output startOfNewLine newLineLength
    else output
  else
    analyzeHTTPLineRequest inst output startOfNewLine newLineLength output.parsingCurrentLine

/-- The loop of `keepAnalyzingHTTPHeader`. `startOfNewLine` is an offset into the buffer, `i` one
into what was not analysed before. -/
def keepAnalyzingLoop (inst : Instance) (startOffset : ℕ) :
    ℕ → ℕ → ℕ → ℕ → ℕ → IncomingHeader → IncomingHeader
  | 0, _, _, _, _, output => output
  | fuel + 1, requestLength, i, newLineLength, startOfNewLine, output =>
    let requestLength' := capRequestLengthToHeaderEnd output startOffset requestLength
    if i < requestLength ∧ i < requestLength' then
      if isNewline (charAt output.headerRAW (startOffset + i)) ∧ newLineLength > 0 then
        let output := analyzeLine inst output startOfNewLine newLineLength
        let next := startOffset + (i + 1)
        -- the second byte of CRLF
        let skipped := if isNewline (charAt output.headerRAW next) then 1 else 0
        keepAnalyzingLoop inst startOffset fuel requestLength' (i + skipped + 1) 0 (next + skipped)
          { output with parsingStartOffset := next + skipped }
      else
        keepAnalyzingLoop inst startOffset fuel requestLength' (i + 1) (newLineLength + 1)
          startOfNewLine output
    else output

/-- `keepAnalyzingHTTPHeader`. -/
def keepAnalyzingHTTPHeader (inst : Instance) (output : IncomingHeader) : IncomingHeader :=
  if output.headerRAWSize = 0 then output
  else
    let output :=
      if output.headerRAWHeadSize = 0 then
        { output with
          headerRAWHeadSize := scanForHeaderEndFromStart output.headerRAW output.headerRAWSize }
      else output
    let startOffset := output.parsingStartOffset
    let requestLength := capRequestLengthToHeaderEnd output startOffset
      (output.headerRAWSize - startOffset)
    let requestLength := min requestLength output.MAXheaderRAWSize
    keepAnalyzingLoop inst startOffset requestLength requestLength 0 0 startOffset output

/-! ## Completion -/

def failWith (output : IncomingHeader) (errorResponseCode : ℕ) : Bool × IncomingHeader :=
  (true, { output with failed := true, errorResponseCode := errorResponseCode })

/-- `HTTPRequestIsComplete`. -/
def httpRequestIsComplete (inst : Instance) (output : IncomingHeader) : Bool × IncomingHeader :=
  if output.requestType = .POST then
    let output :=
      if output.headerRAWHeadSize = 0 then
        { output with
          headerRAWHeadSize := scanForHeaderEndFromStart output.headerRAW output.headerRAWSize }
      else output
    if output.headerRAWHeadSize = 0 then (false, output)
    else if output.chunked then
      let headerLength := output.headerRAWHeadSize + 1
      if output.headerRAWSize ≤ headerLength then (false, output)
      else
        let body := (output.headerRAW.take output.headerRAWSize).drop headerLength
        match httpChunkedBodyScan body inst.MAX_POST_TRANSACTION_SIZE with
        | .complete => (true, output)
        | .errorBad => failWith output 400
        | .errorTooBig => failWith output 413
        | .incomplete =>
          if output.headerRAWSize ≥ output.MAXheaderRAWSize ∧
              (!inst.ENABLE_POST ∨ output.MAXheaderRAWSize ≥ inst.MAX_POST_TRANSACTION_SIZE) then
            failWith output 413
          else (false, output)
    else
      let totalHTTPRecvSize := uint (output.ContentLength + (output.headerRAWHeadSize + 1))
      if output.ContentLength > inst.MAX_POST_TRANSACTION_SIZE then failWith output 413
      else if totalHTTPRecvSize > output.headerRAWSize then
        (false, { output with headerRAWRequestedSize := totalHTTPRecvSize })
      else if output.headerRAWSize ≤ totalHTTPRecvSize then (true, output)
      else
        (scanForHeaderEndFromEnd output.headerRAW 0 output.headerRAWSize != 0, output)
  else (scanForHeaderEndFromEnd output.headerRAW 0 output.headerRAWSize != 0, output)

/-- A request as `receiveAndParseIncomingHTTPRequest` has received it, into a buffer of zeros. -/
def receivedRequest (bytes : List UInt8) : IncomingHeader where
  headerRAW := bytes ++ List.replicate (MAX_HTTP_REQUEST_HEADER + EXTRA_SPACE - bytes.length) 0
  headerRAWSize := bytes.length
  MAXheaderRAWSize := MAX_HTTP_REQUEST_HEADER
  headerRAWHeadSize := 0
  parsingStartOffset := 0
  parsingCurrentLine := 0
  requestType := .NONE
  chunked := false
  transferEncodingUnsupported := false
  ContentLength := 0
  authorized := false
  COOKIEItem := []
  failed := false
  errorResponseCode := 0
  headerRAWRequestedSize := 0

end AmmarServer.HeaderAnalysis
