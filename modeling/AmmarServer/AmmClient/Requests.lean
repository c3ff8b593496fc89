import AmmarServer.AmmClient.Protocol

/-! The requests that `AmmClient/protocol.c` writes, and how `AmmClient/network.c` hands them to the
connection. -/

namespace AmmarServer.AmmClient
open Bytes CString TextFile

/-! Texts in buffers. -/

/-- The length of a text, if it is an `int`. -/
def printedSize (text : List UInt8) : ℤ := if text.length < 2 ^ 31 then text.length else -1

/-- `snprintf(buffer, room, ..)` -/
def snprintf (buffer : List UInt8) (room : ℕ) (text : List UInt8) : ℤ × List UInt8 :=
  (printedSize text,
    if room = 0 then buffer
    else
      let stored := text.take (room - 1)
      stored ++ 0 :: buffer.drop (stored.length + 1))

def strncat (buffer s : List UInt8) (n : ℕ) : Except Fault (List UInt8) :=
  let text := cstring buffer ++ s.take n
  if text.length < buffer.length then .ok (text ++ 0 :: buffer.drop (text.length + 1))
  else .error .outOfBounds

def toUnsigned (n : ℤ) : ℕ := (n % 2 ^ 32).toNat

def toInt (n : ℤ) : ℤ := (n + 2 ^ 31) % 2 ^ 32 - 2 ^ 31

/-- `%04u` -/
def padded (n : ℕ) : List UInt8 := List.replicate (4 - (decimal n).length) 48 ++ decimal n

/-! The connection. -/

/-- What a call meets: whether there is a connection, and what `send` returns, the bytes that it takes or
that it fails. -/
structure Delivery where
  connected : Bool
  results : List (Option ℕ)

/-- `while (tries<5)`, where a failure opens a new connection. The answer, and what the connection took. -/
def trySend : ℕ → List (Option ℕ) → List UInt8 → List UInt8 → Bool × List UInt8
  -- a part of the request counts as the whole of it
  | _ + 1, some taken :: _, request, wire => (true, wire ++ request.take taken)
  | tries + 1, none :: results, request, _ => trySend tries results request []
  | _, _, _, wire => (false, wire)

def sendInternal (delivery : Delivery) (request : List UInt8) (requestSize : ℕ) (wire : List UInt8) :
    Except Fault (Bool × List UInt8) :=
  if delivery.connected then
    if requestSize ≤ request.length then
      .ok (trySend 5 delivery.results (request.take requestSize) wire)
    else .error .outOfBounds
  else .ok (false, wire)

/-! An upload. -/

def BUFFERSIZE : ℕ := 4096

def newLine : List UInt8 := [CR, LF]

def dashes : List UInt8 := [45, 45]

def transmissionText (boundary : List UInt8) (first after last : Bool) : List UInt8 :=
  if first then dashes ++ boundary ++ newLine
  else if after then newLine ++ dashes ++ boundary ++ newLine
  else if last then newLine ++ dashes ++ boundary ++ dashes ++ newLine
  else newLine ++ dashes ++ boundary ++ newLine

def transmission : List UInt8 :=
  ascii "------------------------8a7a8e26954c7dff" ++ List.replicate 216 0

def transmitBoundary (delivery : Delivery) (boundary : List UInt8) (first after last : Bool)
    (wire : List UInt8) : Except Fault (Bool × List UInt8) :=
  let (transmissionSize, transmission) :=
    snprintf transmission 256 (transmissionText boundary first after last)
  sendInternal delivery transmission (toUnsigned transmissionSize) wire

/-- The strings and the bytes that a caller gives. -/
structure Upload where
  URI : List UInt8
  formname : List UInt8
  filename : List UInt8
  contentType : List UInt8
  filecontent : List UInt8

/-- Four numbers that `rand` draws. -/
structure Draws where
  a : ℕ
  b : ℕ
  c : ℕ
  d : ℕ

def boundaryText (draws : Draws) : List UInt8 :=
  List.replicate 24 45 ++ padded (draws.a % 9999) ++ padded (draws.b % 9999) ++
    padded (draws.c % 9999) ++ padded (draws.d % 9999)

def bufferBeforeText (upload : Upload) : List UInt8 :=
  ascii "Content-Disposition: form-data; name=\"" ++ cstring upload.formname ++
    ascii "\"; filename=\"" ++ cstring upload.filename ++ ascii "\"\r\nContent-Type: " ++
    cstring upload.contentType ++ ascii "\r\n\r\n"

def bufferAfterText : List UInt8 :=
  ascii "Content-Disposition: form-data; name=\"submit\"\r\n\r\n1"

def headerText (ip URI : List UInt8) (contentLength : ℕ) (boundary : List UInt8) (keepAlive : Bool) :
    List UInt8 :=
  ascii "POST " ++ cstring URI ++ ascii " HTTP/1.1\r\nHost: " ++ cstring ip ++
    ascii "\r\nUser-Agent: AmmClient/0.66\r\nAccept: */*\r\nContent-Length: " ++ decimal contentLength ++
    ascii "\r\nContent-Type: multipart/form-data; boundary=" ++ boundary ++ ascii "\r\nConnection: " ++
    (if keepAlive then ascii "keep-alive" else ascii "close") ++ ascii "\r\n\r\n"

def zeros : List UInt8 := List.replicate (BUFFERSIZE + 1) 0

/-- The answers of the seven sends, and what the connection took. -/
def sendParts (deliveries : Fin 7 → Delivery) (boundary header : List UInt8) (headerSize : ℤ)
    (before : List UInt8) (beforeSize : ℕ) (filecontent after : List UInt8) (afterSize : ℕ) :
    Except Fault (List Bool × List UInt8) := do
  let (success0, wire) ← sendInternal (deliveries 0) header (toUnsigned headerSize) []
  let (success1, wire) ← transmitBoundary (deliveries 1) boundary true false false wire
  let (success2, wire) ← sendInternal (deliveries 2) before beforeSize wire
  let (success3, wire) ← sendInternal (deliveries 3) filecontent filecontent.length wire
  let (success4, wire) ← transmitBoundary (deliveries 4) boundary false true false wire
  let (success5, wire) ← sendInternal (deliveries 5) after afterSize wire
  let (success6, wire) ← transmitBoundary (deliveries 6) boundary false false true wire
  .ok ([success0, success1, success2, success3, success4, success5, success6], wire)

def sendFileInternal (ip : List UInt8) (upload : Upload) (draws : Draws) (keepAlive : Bool)
    (deliveries : Fin 7 → Delivery) : Except Fault (Bool × List UInt8) :=
  let (boundarySize, boundary) := snprintf (List.replicate 128 0) 128 (boundaryText draws)
  let boundary := cstring boundary
  let boundarySize := toUnsigned boundarySize
  let (bufferBeforeSize, bufferBeforeFile) := snprintf zeros BUFFERSIZE (bufferBeforeText upload)
  let bufferBeforeSize := toUnsigned bufferBeforeSize
  let (bufferAfterSize, bufferAfterFile) := snprintf zeros BUFFERSIZE bufferAfterText
  let bufferAfterSize := toUnsigned bufferAfterSize
  let contentLength := (bufferBeforeSize + boundarySize + 4 + upload.filecontent.length + boundarySize +
    6 + bufferAfterSize + boundarySize + 8) % 2 ^ 32
  let (headerSize, header) :=
    snprintf zeros BUFFERSIZE (headerText ip upload.URI contentLength boundary keepAlive)
  (sendParts deliveries boundary header headerSize bufferBeforeFile bufferBeforeSize upload.filecontent
    bufferAfterFile bufferAfterSize).map fun (successes, wire) => (successes.all id, wire)

/-! A request for a file. -/

def requestText (ip URI : List UInt8) : List UInt8 :=
  ascii "GET " ++ cstring URI ++ ascii " HTTP/1.1\r\nHost: " ++ cstring ip ++ ascii "\r\nAccept: */*\r\n"

/-- What `AmmClient_RecvFileInternal` hands to the connection, if the buffer has room for it. -/
def recvFileRequest (ip URI filecontent : List UInt8) (keepAlive : Bool) :
    Except Fault (Option (List UInt8)) :=
  let (requestSize, buffer) := snprintf filecontent filecontent.length (requestText ip URI)
  let remainingSize := toInt (filecontent.length - requestSize)
  if remainingSize < 4 then .ok none
  else
    let ending := if keepAlive ∧ 27 < remainingSize then ascii "Connection: keep-alive\r\n\r\n"
      else ascii "\r\n\r\n"
    (strncat buffer ending remainingSize.toNat).map fun buffer => some (cstring buffer)

end AmmarServer.AmmClient
