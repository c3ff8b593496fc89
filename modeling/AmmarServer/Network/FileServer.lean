import AmmarServer.HeaderAnalysis.ByteRange
import AmmarServer.Network.Transmission
import AmmarServer.Tools.HttpTools
import AmmarServer.Tools.InplaceStrings

/-! `SendFile` of `network/file_server.c` for a resource that is cached or on disk, with the headers
of `network/sendHTTPHeader.c`. -/

namespace AmmarServer.Network
open CString HeaderAnalysis

/-- The fields of a request header that `SendFile` reads. -/
structure Request where
  requestType : TypesOfRequests
  keepalive : Bool
  eTag : Option (List UInt8)
  ifModifiedSince : Option ℤ
  ifUnmodifiedSince : Option ℤ
  range : ByteRange
deriving DecidableEq, Repr

/-- The texts of a header that depend on the build, the clock and the file, and the embedded pages
for errors. -/
structure Texts where
  version : List UInt8
  date : List UInt8
  contentType : List UInt8
  lastModified : ℤ → Option (List UInt8)
  errorPage : ℕ → List UInt8

/-- An item as `cache_GetResource` hands it over; it is not compressed. -/
structure CacheItem where
  content : List UInt8
  modification_time : ℤ
  keyHash : ℕ

/-- A regular file, and whether it can be opened when its body is due. -/
structure DiskFile where
  bytes : List UInt8
  st_mtime : ℤ
  opens : Bool
  size_lt : bytes.length < 2 ^ 63

structure Resource where
  verified_filename : List UInt8
  /-- `PathResolvesWithinDirectory` of the web root. -/
  resolves : Bool
  cached : Option CacheItem
  file : Option DiskFile
  cacheVersionETag : ℕ

/-- What is served of a resource. -/
structure Representation where
  bytes : List UInt8
  modificationTime : ℤ
  haveModificationTime : Bool
  localETag : List UInt8
  file : Option DiskFile

def decimal (n : ℕ) : List UInt8 := ascii (Nat.repr n)

def localETag (resource : Resource) (item : CacheItem) (range : ByteRange) : List UInt8 :=
  if item.keyHash % 2 ^ 32 = 0 then []
  else
    decimal resource.cacheVersionETag ++ decimal (item.keyHash % 2 ^ 32) ++
      decimal range.range_start ++ decimal range.range_end

def representation (request : Request) (resource : Resource) : Option Representation :=
  match resource.cached with
  | some item =>
    some
      { bytes := item.content
        modificationTime := item.modification_time
        haveModificationTime := item.modification_time ≠ 0
        localETag := localETag resource item request.range
        file := none }
  | none =>
    resource.file.map fun file =>
      { bytes := file.bytes
        modificationTime := file.st_mtime
        haveModificationTime := true
        localETag := []
        file := some file }

def requestETagMatches (request : Request) (localETag : List UInt8) : Bool :=
  match request.eTag with
  | none => false
  | some eTag =>
    if eTag.isEmpty then false
    else if eTag = [42] then true
    else if localETag.isEmpty then false
    else eTag = localETag

inductive Reply
  | preconditionFailed
  | rangeNotSatisfiable
  | notModified
  | whole
  | partialContent (rangeStart rangeEnd : ℕ)
deriving DecidableEq, Repr

def notModified (request : Request) (rep : Representation) : Bool :=
  match request.eTag, request.ifModifiedSince with
  -- `If-Modified-Since` is not looked at where there is an `If-None-Match`
  | some _, _ => requestETagMatches request rep.localETag
  | none, some since => rep.haveModificationTime && rep.modificationTime ≤ since
  | none, none => false

/-- What `SendFile` decides before it sends anything. -/
def replyTo (request : Request) (rep : Representation) : Reply :=
  if request.requestType = .GET ∨ request.requestType = .HEAD then
    if rep.haveModificationTime && request.ifUnmodifiedSince.any (· < rep.modificationTime) then
      .preconditionFailed
    else if notModified request rep then .notModified
    else
      match resolveByteRange request.range rep.bytes.length with
      | .ignored => .whole
      | .unsatisfiable => .rangeNotSatisfiable
      | .partialContent s e => .partialContent s e
  else .whole

variable (socket : Socket) (texts : Texts) (request : Request)

def statusLine (code : ℕ) : List UInt8 :=
  ascii "HTTP/1.1 " ++ decimal code ++ ascii " " ++ ascii (getHTTPReasonPhrase code) ++
    ascii "\nServer: Ammarserver/" ++ texts.version

def sendErrorResponse (t : Transaction) (code : ℕ) (body extraHeaders : List UInt8) :
    Bool × Transaction :=
  let header := statusLine texts code ++ ascii "\nContent-type: text/html\n" ++ texts.date ++
    extraHeaders ++ ascii "Content-Length: " ++ decimal body.length ++
    ascii "\nConnection: close\n\n"
  let (opres, t) := asrvSend socket t (.contentLength header body.length none)
  if opres ≤ 0 then (false, t)
  else if request.requestType ≠ .HEAD ∧ body ≠ [] then
    let (opres, t) := asrvSend socket t (.body body)
    if opres ≤ 0 then (false, t) else (true, { t with keepalive := false })
  else (true, { t with keepalive := false })

def sendErrorFile (t : Transaction) (code : ℕ) : ℕ × Transaction :=
  let body :=
    if code ∈ [400, 401, 403, 404, 408, 412, 413, 416, 417, 500] then texts.errorPage code else []
  match sendErrorResponse socket texts request t code body [] with
  | (false, t) => (0, t)
  | (true, t) => (body.length, t)

def sendRangeNotSatisfiable (t : Transaction) (size : ℕ) : ℕ × Transaction :=
  match sendErrorResponse socket texts request t 416 (texts.errorPage 416)
      (ascii "Content-Range: bytes */" ++ decimal size ++ ascii "\n") with
  | (false, t) => (0, t)
  | (true, t) => (1, t)

def lastModifiedPart (rep : Representation) : List Part :=
  if rep.haveModificationTime then
    ((texts.lastModified rep.modificationTime).map Part.header).toList
  else []

def etagPart (rep : Representation) (after : String) : List Part :=
  if rep.localETag.isEmpty then []
  else [.header (ascii "ETag: \"" ++ rep.localETag ++ ascii after)]

def connectionPart : Part :=
  .header (ascii (if request.keepalive then "Connection: keep-alive\n" else "Connection: close\n"))

def sendNotModified (t : Transaction) (rep : Representation) : ℕ × Transaction :=
  let header := ascii "HTTP/1.1 304 Not Modified\nServer: Ammarserver/" ++ texts.version ++
    ascii "\nCache-Control: max-age=3600\n" ++ texts.date
  let (opres, t) := asrvSend socket t (.header header)
  if opres ≤ 0 then (0, t)
  else
    match sendParts socket t (lastModifiedPart texts rep ++ etagPart rep "\" \n") with
    | (false, t) => (0, t)
    | (true, t) =>
      let (_, t) := sendPart socket t (connectionPart request)
      let (_, t) := sendPart socket t (.header (ascii "\n"))
      (1, t)

def successHeader (code : ℕ) : List UInt8 :=
  statusLine texts code ++ ascii "\nContent-type: " ++ texts.contentType ++
    ascii "\nCache-Control: max-age=3600\nAccept-Ranges: bytes\n" ++ texts.date

/-- The last lines of the header, for the range that is sent or the whole. -/
def lengthPart (size : ℕ) (range : Option (ℕ × ℕ)) : Part :=
  match range with
  | some (rangeStart, rangeEnd) =>
    .contentLength
      (ascii "Content-Range: bytes " ++ decimal rangeStart ++ ascii "-" ++ decimal rangeEnd ++
        ascii "/" ++ decimal size ++ ascii "\r\nContent-Length: " ++
        decimal (rangeEnd - rangeStart + 1) ++ ascii "\r\n\r\n")
      (rangeEnd - rangeStart + 1) (some (rangeStart, rangeEnd, size))
  | none =>
    .contentLength (ascii "Content-Length: " ++ decimal size ++ ascii "\r\n\r\n") size none

def headerParts (rep : Representation) : List Part :=
  lastModifiedPart texts rep ++ etagPart rep "\"\n" ++ [connectionPart request]

def transmitFileBodyToSocket (t : Transaction) (file : DiskFile) (offset byteCount : ℕ) :
    Bool × Transaction :=
  if byteCount = 0 then (true, t)
  else if !file.opens then (false, t)
  else transmitFileToSocketInternal socket t (file.bytes.drop offset) byteCount

def sendBody (t : Transaction) (rep : Representation) (bodyOffset bodyLength : ℕ) :
    ℕ × Transaction :=
  match rep.file with
  | none =>
    if 0 < bodyLength then
      let (opres, t) := asrvSend socket t (.body ((rep.bytes.drop bodyOffset).take bodyLength))
      -- what the send took of the body is not compared with its length
      if opres ≤ 0 then (0, t) else (1, t)
    else (1, t)
  | some file =>
    match transmitFileBodyToSocket socket t file bodyOffset bodyLength with
    | (false, t) => (0, t)
    | (true, t) => (1, t)

def sendRepresentation (t : Transaction) (rep : Representation) (range : Option (ℕ × ℕ)) :
    ℕ × Transaction :=
  let (opres, t) :=
    asrvSend socket t (.header (successHeader texts (if range.isSome then 206 else 200)))
  if opres ≤ 0 then (0, t)
  else
    match sendParts socket t (headerParts texts request rep ++ [lengthPart rep.bytes.length range])
      with
    | (false, t) => (0, t)
    | (true, t) =>
      if request.requestType = .HEAD then (1, t)
      else
        match range with
        | some (rangeStart, rangeEnd) =>
          sendBody socket t rep rangeStart (rangeEnd - rangeStart + 1)
        | none => sendBody socket t rep 0 rep.bytes.length

def sendFile (resource : Resource) : ℕ × Transaction :=
  let t : Transaction :=
    { calls := 0
      contentLength := none
      contentRange := none
      body := []
      keepalive := request.keepalive }
  if !filenameStripperOk resource.verified_filename || !resource.resolves then
    (1, (sendErrorFile socket texts request t 400).2)
  else
    match representation request resource with
    | none => sendErrorFile socket texts request t 404
    | some rep =>
      match replyTo request rep with
      | .preconditionFailed => sendErrorFile socket texts request t 412
      | .rangeNotSatisfiable => sendRangeNotSatisfiable socket texts request t rep.bytes.length
      | .notModified => sendNotModified socket texts request t rep
      | .whole => sendRepresentation socket texts request t rep none
      | .partialContent s e => sendRepresentation socket texts request t rep (some (s, e))

end AmmarServer.Network
