import AmmarServer.Lib.Bytes
import AmmarServer.Lib.CString
import Mathlib.Data.List.DropRight

/-! The framing half of `threads/apiProtocol.c`: where a request ends and whether its length can be
worked out, and the partial buffer a connection keeps. A position in a buffer is an offset, and a
pointer handed out by a lookup is the list of the bytes from it on. -/

namespace AmmarServer.ApiProtocol
open Bytes CString

def API_MAX_REQUEST_SIZE : Nat := 32 * 1024
def API_INITIAL_BUFFER_SIZE : Nat := 2048
def API_RESPONSE_HEADER_RESERVE : Nat := 256

/-! ## Looking a header up -/

/-- The value of a matching line: its pointer and `*valueLength`. -/
def headerValue (line : List UInt8) (lineLength nameLength : Nat) : List UInt8 × Nat :=
  let behindColon := (line.take lineLength).drop (nameLength + 1)
  let skipped := (behindColon.takeWhile (fun c => c == 32 || c == 9)).length
  let valueEnd := (behindColon.drop skipped).rdropWhile (fun c => c == CR || (c == 32 || c == 9))
  (line.drop (nameLength + 1 + skipped), valueEnd.length)

/-- The line loop of `AmmServer_APIRequestHeader`. The search stops at the first match. -/
def apiRequestHeaderLoop (headerName : List UInt8) : Nat → List UInt8 → Option (List UInt8 × Nat)
  | 0, _ => none
  | fuel + 1, line =>
    if line = [] then none
    else
      let lineLength := (line.takeWhile (· ≠ LF)).length
      let nameLength := headerName.length
      if lineLength > nameLength ∧ (line)[nameLength]? = some 58 ∧
          strncasecmpEq line headerName nameLength then
        some (headerValue line lineLength nameLength)
      else
        match line.drop lineLength with
        | [] => none
        | _ :: next => apiRequestHeaderLoop headerName fuel next

/-- `AmmServer_APIRequestHeader`; `none` is the null pointer. -/
def apiRequestHeader (headers headerName : List UInt8) : Option (List UInt8 × Nat) :=
  apiRequestHeaderLoop headerName (headers.length + 1) headers

/-! ## Framing -/

/-- `FindRequestHeaderEnd`: LF LF or CR LF CR LF, whichever comes first. -/
def findRequestHeaderEnd : List UInt8 → Option Nat
  | a :: b :: rest =>
    if a = LF ∧ b = LF then some 2
    else if [CR, LF, CR, LF] <+: a :: b :: rest then some 4
    else (findRequestHeaderEnd (b :: rest)).map (· + 1)
  | _ => none

inductive ApiFrameResult
  | incomplete
  | ready
  | refused
  deriving DecidableEq, Repr

structure ApiFrame where
  request : Nat := 0
  headerEnd : Nat := 0
  bodyLength : Nat := 0
  totalLength : Nat := 0
  keepAlive : Bool := false
  refuseStatus : Nat := 0
  deriving DecidableEq, Repr

/-- The digit loop over a Content-Length value; an error is the status to refuse with. -/
def contentLengthDigits : List UInt8 → Nat → Except Nat Nat
  | [], bodyLength => .ok bodyLength
  | c :: rest, bodyLength =>
    if c < 48 ∨ c > 57 then .error 400
    else
      let bodyLength := bodyLength * 10 + digitValue c
      if bodyLength > API_MAX_REQUEST_SIZE then .error 413
      else contentLengthDigits rest bodyLength

/-- The status a Transfer-Encoding lookup is refused with. -/
def transferEncodingRefusal (lookup : Option (List UInt8 × Nat)) : Option Nat :=
  match lookup with
  | none => none
  | some (value, valueLength) =>
    if valueLength > 0 ∧ ¬ strncasecmpEq value (ascii "identity") 8 then some 501 else none

def contentLengthOf (lookup : Option (List UInt8 × Nat)) : Except Nat Nat :=
  match lookup with
  | none => .ok 0
  | some (value, valueLength) =>
    if valueLength > 0 then contentLengthDigits (value.take valueLength) 0 else .ok 0

def frameKeepAlive (block : List UInt8) : Bool :=
  let keepAlive := !memmem block (ascii "HTTP/1.0")
  match apiRequestHeader block (ascii "Connection") with
  | none => keepAlive
  | some (value, valueLength) =>
    if valueLength = 0 then keepAlive
    else if strncasecmpEq value (ascii "close") 5 then false
    else if strncasecmpEq value (ascii "keep-alive") 10 then true
    else keepAlive

/-- `ApiProtocol_NextFrame` over the `used` bytes of a buffer. -/
def nextFrame (buf : List UInt8) (offset : Nat) : ApiFrameResult × ApiFrame :=
  if offset ≥ buf.length then (.incomplete, {})
  else
    let request := buf.drop offset
    match findRequestHeaderEnd request with
    | none => (.incomplete, {})
    | some headerEnd =>
      let frame : ApiFrame := { request := offset, headerEnd := headerEnd }
      let block := request.take headerEnd
      match transferEncodingRefusal (apiRequestHeader block (ascii "Transfer-Encoding")) with
      | some status => (.refused, { frame with refuseStatus := status })
      | none =>
        match contentLengthOf (apiRequestHeader block (ascii "Content-Length")) with
        | .error status => (.refused, { frame with refuseStatus := status })
        | .ok bodyLength =>
          if request.length < headerEnd + bodyLength then (.incomplete, frame)
          else (.ready, { frame with
            bodyLength := bodyLength
            totalLength := headerEnd + bodyLength
            keepAlive := frameKeepAlive block })

/-! ## The partial buffer -/

/-- The bytes a connection is left holding (`used` is their number) and the room allocated. -/
structure ApiPartialRequest where
  data : List UInt8 := []
  size : Nat := 0
  deriving DecidableEq, Repr

def ApiPartialRequest.used (p : ApiPartialRequest) : Nat := p.data.length

/-- The doubling loop of `EnsurePartialCapacity`. -/
def doubleUntil (needed : Nat) : Nat → Nat → Nat
  | 0, size => size
  | fuel + 1, size => if size < needed then doubleUntil needed fuel (size * 2) else size

/-- `EnsurePartialCapacity`; `realloc` says whether memory was to be had. -/
def ensurePartialCapacity (partialRequest : ApiPartialRequest) (needed : Nat) (realloc : Bool) :
    Option ApiPartialRequest :=
  if needed > API_MAX_REQUEST_SIZE then none
  else if partialRequest.size ≥ needed then some partialRequest
  else
    let size := if partialRequest.size > 0 then partialRequest.size else API_INITIAL_BUFFER_SIZE
    let size := min (doubleUntil needed needed size) API_MAX_REQUEST_SIZE
    if realloc then some { partialRequest with size := size } else none

def partialFree (_ : ApiPartialRequest) : ApiPartialRequest := {}

/-- `ApiProtocol_PartialKeepTail` of the buffer `buf`, which may be the partial buffer itself. -/
def partialKeepTail (partialRequest : ApiPartialRequest) (buf : List UInt8) (consumed : Nat)
    (realloc : Bool) : Option ApiPartialRequest :=
  if buf.length - consumed = 0 then some (partialFree partialRequest)
  else
    (ensurePartialCapacity partialRequest (buf.length - consumed) realloc).map
      fun grown => { grown with data := buf.drop consumed }

/-- `ApiProtocol_PartialAppend`; on failure the buffer is as it was. -/
def partialAppend (partialRequest : ApiPartialRequest) (from' : List UInt8) (realloc : Bool) :
    Option ApiPartialRequest :=
  if from' = [] then some partialRequest
  else
    (ensurePartialCapacity partialRequest (partialRequest.used + from'.length) realloc).map
      fun grown => { grown with data := grown.data ++ from' }

end AmmarServer.ApiProtocol
