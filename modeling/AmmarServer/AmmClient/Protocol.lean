import AmmarServer.Lib.CString
import AmmarServer.Lib.Substitution
import AmmarServer.Lib.TextFiles

/-! The downloads of `AmmClient/protocol.c`. The connection is the list of what the calls of `recv`, and of
`poll` in front of them, return. A buffer is its bytes, and reading behind them is a fault. -/

namespace AmmarServer.AmmClient
open Bytes CString TextFile

inductive Fault
  | outOfBounds
deriving DecidableEq, Repr

/-! Whether a download is complete. -/

/-- `"Content-Length:"` -/
def contentLengthName : List UInt8 :=
  [67, 111, 110, 116, 101, 110, 116, 45, 76, 101, 110, 103, 116, 104, 58]

/-- `strstr`, with the number of bytes that it reads. -/
def strstr (content needle : List UInt8) : Except Fault (Option ℕ × ℕ) :=
  match Substitution.firstAt needle (cstring content) with
  | some place => .ok (some place, place + needle.length)
  | none =>
    if strlen content < content.length then .ok (none, strlen content + 1) else .error .outOfBounds

/-- What stands behind the digits of a number. -/
def behindNumber (text : List UInt8) : List UInt8 :=
  let s := text.dropWhile isSpace
  (if s.head? = some 45 ∨ s.head? = some 43 then s.tail else s).dropWhile isDigit

/-- `atoi` at a place of the content, with the number of bytes up to the one that ends the number. -/
def atoiAt (content : List UInt8) (place : ℕ) : Except Fault (UInt32 × ℕ) :=
  match behindNumber (content.drop place) with
  | [] => .error .outOfBounds
  | _ :: behind => .ok (atoi (content.drop place), content.length - behind.length)

/-- The answer, and the number of bytes that are read for it. -/
def isFileDownloadComplete (content : List UInt8) (contentSize : ℕ) : Except Fault (Bool × ℕ) :=
  (strstr content contentLengthName).bind fun (place, read) =>
    match place with
    | none => .ok (false, read)
    | some place =>
      (atoiAt content (place + 16)).bind fun (contentLength, readNumber) =>
        .ok (contentLength ≠ 0 ∧ (place + 16 + contentLength.toNat) % 2 ^ 32 ≤ contentSize,
          max read readNumber)

/-! The two loops. -/

inductive Recv
  | data (bytes : List UInt8)
  | closed
  | failed
deriving DecidableEq, Repr

inductive Poll
  | ready (recv : Recv)
  | timeout
  | failed
deriving DecidableEq, Repr

/-- What a download returns, and what it leaves in `*filecontentSize`. -/
structure Outcome where
  answer : Bool
  filecontentSize : ℕ
deriving DecidableEq, Repr

def Recv.bytes : Recv → List UInt8
  | data bytes => bytes
  | _ => []

/-- What is left of a pass: an outcome, or the number of bytes that were received and the buffer. -/
def received (recv : Recv) (bytesReceived : ℕ) (filecontent : List UInt8) :
    Except Fault (Outcome ⊕ ℕ × List UInt8) :=
  if recv = .failed then .ok (.inl { answer := false, filecontentSize := filecontent.length })
  else
    let bytes := recv.bytes.take (filecontent.length - bytesReceived)
    let filecontent := filecontent.take bytesReceived ++ (bytes ++
      filecontent.drop (bytesReceived + bytes.length))
    let bytesReceived := bytesReceived + bytes.length
    (isFileDownloadComplete filecontent bytesReceived).map fun (complete, _) =>
      if complete then .inl { answer := true, filecontentSize := bytesReceived }
      else if bytes = [] ∨ filecontent.length ≤ bytesReceived then
        .inl { answer := false, filecontentSize := bytesReceived }
      else .inr (bytesReceived, filecontent)

/-- `none` while the call waits for more. -/
def cleanLoop : List Recv → ℕ → List UInt8 → Except Fault (Option Outcome)
  | [], _, _ => .ok none
  | recv :: recvs, bytesReceived, filecontent =>
    (received recv bytesReceived filecontent).bind fun
      | .inl outcome => .ok (some outcome)
      | .inr (bytesReceived, filecontent) => cleanLoop recvs bytesReceived filecontent

def fastLoop : List Poll → ℕ → List UInt8 → Except Fault (Option Outcome)
  | [], _, _ => .ok none
  | .ready recv :: polls, bytesReceived, filecontent =>
    (received recv bytesReceived filecontent).bind fun
      | .inl outcome => .ok (some outcome)
      | .inr (bytesReceived, filecontent) => fastLoop polls bytesReceived filecontent
  | _ :: _, bytesReceived, _ =>
    .ok (some { answer := false, filecontentSize := bytesReceived })

/-- `memset(filecontent,0,strlen(filecontent))` -/
def cleared (filecontent : List UInt8) : Except Fault (List UInt8) :=
  if strlen filecontent < filecontent.length then
    .ok (List.replicate (strlen filecontent) 0 ++ filecontent.drop (strlen filecontent))
  else .error .outOfBounds

def recvFileInternalClean (recvs : List Recv) (filecontent : List UInt8) :
    Except Fault (Option Outcome) :=
  (cleared filecontent).bind fun filecontent => cleanLoop recvs 0 filecontent

def recvFileInternalFast (polls : List Poll) (filecontent : List UInt8) :
    Except Fault (Option Outcome) :=
  (cleared filecontent).bind fun filecontent => fastLoop polls 0 filecontent

end AmmarServer.AmmClient
