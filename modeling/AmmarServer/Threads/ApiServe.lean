import AmmarServer.Threads.ApiProtocol
import AmmarServer.Tools.HttpTools

/-! The serving half of `threads/apiProtocol.c`: what a handler is given of a framed request, and the
bytes its response is laid out as. -/

namespace AmmarServer.ApiProtocol
open Bytes CString

/-- What a handler reads. The NULs that end path and query in the buffer are in bytes that are
consumed together with the request. -/
structure APIRequest where
  method : TypesOfRequests
  path : List UInt8
  query : Option (List UInt8)
  headers : List UInt8
  body : Option (List UInt8)
  deriving DecidableEq, Repr

/-- What a handler fills in. -/
structure APIResponse where
  statusCode : Nat := 200
  contentType : Option (List UInt8) := some (ascii "application/json")
  extraHeaders : Option (List UInt8) := none
  body : List UInt8 := []
  deferred : Bool := false
  deriving DecidableEq, Repr

/-- The method and `*methodLength`. -/
def methodFromRequestLine (line : List UInt8) : TypesOfRequests × Nat :=
  if 32 ∈ line then
    let method := line.takeWhile (· ≠ 32)
    let code :=
      if method = ascii "GET" then .GET
      else if method = ascii "PUT" then .PUT
      else if method = ascii "POST" then .POST
      else if method = ascii "HEAD" then .HEAD
      else if method = ascii "DELETE" then .DELETE
      else .NONE
    (code, method.length)
  else (.NONE, 0)

/-- `ApiProtocol_Prepare`; `none` is its failure with status 400. -/
def prepare (buf : List UInt8) (frame : ApiFrame) : Option APIRequest :=
  let request := buf.drop frame.request
  let block := request.take frame.headerEnd
  if LF ∈ block then
    let line := block.takeWhile (· ≠ LF)
    let (method, methodLength) := methodFromRequestLine line
    let targetStart := if methodLength > 0 then methodLength + 1 else 0
    if targetStart > line.length then none
    else
      let behind := line.drop targetStart
      let target := if 32 ∈ behind then behind.takeWhile (· ≠ 32)
        else behind.rdropWhile (fun c => c == CR || c == 32)
      let hasQuery := 63 ∈ target
      some {
        method := method
        path := (target.takeWhile (· ≠ 63)).takeWhile (· ≠ 0)
        query := if hasQuery then some ((target.dropWhile (· ≠ 63)).drop 1) else none
        headers := (block.drop (line.length + 1)).rdropWhile isNewline
        body := if frame.bodyLength > 0 then
            some ((request.drop frame.headerEnd).take frame.bodyLength)
          else none }
  else none

/-- `ApiHeaderPut`. Once a piece did not fit, none does. -/
def apiHeaderPut (header : Option (List UInt8)) (piece : List UInt8) : Option (List UInt8) :=
  match header with
  | none => none
  | some written =>
    if written.length + piece.length ≥ API_RESPONSE_HEADER_RESERVE then none
    else some (written ++ piece)

def apiHeaderUnsigned (value : Nat) : List UInt8 := ascii (Nat.repr value)

/-- `ApiProtocol_Finish`: the response, header and body in one block; `none` is its failure with
status 500. -/
def finish (keepAlive : Bool) (bodySize : Nat) (method : TypesOfRequests) (res : APIResponse) :
    Option (List UInt8) :=
  let body := res.body.take bodySize
  let pieces := [
    ascii "HTTP/1.1 ", apiHeaderUnsigned res.statusCode, ascii " ",
    ascii (getHTTPReasonPhrase res.statusCode), ascii "\r\nContent-Type: ",
    res.contentType.getD (ascii "text/plain"), ascii "\r\nContent-Length: ",
    apiHeaderUnsigned body.length, ascii "\r\n", res.extraHeaders.getD [],
    if keepAlive then [] else ascii "Connection: close\r\n", ascii "\r\n"]
  (pieces.foldl apiHeaderPut (some [])).map
    fun header => header ++ if method = .HEAD then [] else body

def statusOnlyResponse (statusCode : Nat) : List UInt8 :=
  ascii "HTTP/1.1 " ++ apiHeaderUnsigned statusCode ++ ascii " " ++
    ascii (getHTTPReasonPhrase statusCode) ++
    ascii "\r\nContent-Length: 0\r\nConnection: close\r\n\r\n"

theorem statusOnlyResponse_ne_nil (statusCode : Nat) : statusOnlyResponse statusCode ≠ [] := by
  have h : ascii "HTTP/1.1 " ≠ [] := by decide
  simp [statusOnlyResponse, h]

/-! ## The room a response takes -/

theorem apiHeaderPut_length {header : Option (List UInt8)} {piece written : List UInt8}
    (h : apiHeaderPut header piece = some written) :
    written.length < API_RESPONSE_HEADER_RESERVE ∧
      ∃ before, header = some before ∧ written = before ++ piece := by
  cases header with
  | none => cases h
  | some before =>
    rw [apiHeaderPut] at h
    split_ifs at h with hroom
    obtain rfl := Option.some.inj h
    exact ⟨by rw [List.length_append]; omega, before, rfl, rfl⟩

theorem foldl_apiHeaderPut {pieces : List (List UInt8)} {header written : List UInt8}
    (h : pieces.foldl apiHeaderPut (some header) = some written) :
    written = header ++ pieces.flatten ∧
      (pieces ≠ [] → written.length < API_RESPONSE_HEADER_RESERVE) := by
  induction pieces using List.reverseRecOn generalizing written with
  | nil => exact ⟨by simpa using (Option.some.inj h).symm, fun hcon => absurd rfl hcon⟩
  | append_singleton pieces piece ih =>
    rw [List.foldl_append, List.foldl_cons, List.foldl_nil] at h
    obtain ⟨hlength, before, hbefore, rfl⟩ := apiHeaderPut_length h
    refine ⟨?_, fun _ => hlength⟩
    rw [(ih hbefore).1]
    simp

/-- A response fits into the buffer it is laid out in. -/
theorem finish_length {keepAlive : Bool} {bodySize : Nat} {method : TypesOfRequests}
    {res : APIResponse} {response : List UInt8}
    (h : finish keepAlive bodySize method res = some response) :
    0 < response.length ∧ response.length ≤ API_RESPONSE_HEADER_RESERVE + bodySize := by
  obtain ⟨header, hheader, rfl⟩ := Option.map_eq_some_iff.mp h
  obtain ⟨hwritten, hlength⟩ := foldl_apiHeaderPut hheader
  have hlength := hlength (List.cons_ne_nil _ _)
  have hbody : (if method = .HEAD then [] else res.body.take bodySize).length ≤ bodySize := by
    split
    · exact Nat.zero_le _
    · exact List.length_take_le ..
  have hpos : 0 < header.length := by
    rw [hwritten]
    have hversion : 0 < (ascii "HTTP/1.1 ").length := by decide
    simp only [List.nil_append, List.flatten_cons, List.length_append]
    omega
  rw [List.length_append]
  omega

/-- The statuses a transport answers with by itself. -/
def ownStatuses : List Nat := [400, 413, 500, 501]

theorem statusOnlyResponse_length {statusCode : Nat} (h : statusCode ∈ ownStatuses) :
    0 < (statusOnlyResponse statusCode).length ∧
      (statusOnlyResponse statusCode).length ≤ API_RESPONSE_HEADER_RESERVE := by
  have hall : ∀ code ∈ ownStatuses, 0 < (statusOnlyResponse code).length ∧
      (statusOnlyResponse code).length ≤ API_RESPONSE_HEADER_RESERVE := by
    decide
  exact hall statusCode h

theorem contentLengthDigits_error {value : List UInt8} {n status : Nat}
    (h : contentLengthDigits value n = .error status) : status ∈ ownStatuses := by
  induction value generalizing n with
  | nil => cases h
  | cons c rest ih =>
    simp only [contentLengthDigits] at h
    split_ifs at h
    · obtain rfl := Except.error.inj h
      decide
    · obtain rfl := Except.error.inj h
      decide
    · exact ih h

theorem nextFrame_refuseStatus {buf : List UInt8} {offset : Nat} {frame : ApiFrame}
    (h : nextFrame buf offset = (.refused, frame)) : frame.refuseStatus ∈ ownStatuses := by
  unfold nextFrame at h
  split at h
  · cases h
  simp only at h
  split at h
  · cases h
  split at h
  · rename_i lookup _ _ hcoding
    obtain rfl := (Prod.mk.inj h).2
    unfold transferEncodingRefusal at hcoding
    split at hcoding
    · cases hcoding
    · split_ifs at hcoding
      obtain rfl := Option.some.inj hcoding
      exact (by decide : 501 ∈ ownStatuses)
  split at h
  · rename_i hlength
    obtain rfl := (Prod.mk.inj h).2
    unfold contentLengthOf at hlength
    split at hlength
    · cases hlength
    · split_ifs at hlength
      exact contentLengthDigits_error hlength
  · split_ifs at h
    all_goals cases (Prod.mk.inj h).1

end AmmarServer.ApiProtocol
