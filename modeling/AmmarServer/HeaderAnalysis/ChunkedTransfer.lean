import AmmarServer.Lib.Bytes

/-! The chunked body scanner and decoder of `header_analysis/chunked_transfer.c`. A pointer into the
body with the number of bytes behind it is the list of those bytes; a position that is advanced is
the number of bytes consumed. -/

namespace AmmarServer
open Bytes

/-- `(unsigned long) -1`. -/
def ulongMax : Nat := 2 ^ 64 - 1

/-- The conversion to `unsigned int`. -/
def uint (n : Nat) : Nat := n % 2 ^ 32

inductive HTTPChunkedScanResult
  | incomplete
  | complete
  | errorBad
  | errorTooBig
  deriving DecidableEq, Repr

/-- `none` is the source's -1. -/
def hexValue (c : UInt8) : Option Nat :=
  if 48 ≤ c ∧ c ≤ 57 then some (c.toNat - 48)
  else if 97 ≤ c ∧ c ≤ 102 then some (10 + (c.toNat - 97))
  else if 65 ≤ c ∧ c ≤ 70 then some (10 + (c.toNat - 65))
  else none

/-- What a line parser answers: 1 with the bytes consumed and a value, 0, -1 or -2. -/
inductive LineResult
  | ok (consumed : Nat) (value : Nat)
  | more
  | malformed
  | tooBig
  deriving DecidableEq, Repr

/-- CRLF or a bare LF at the start of `body`, whose first byte is already known to end a line. -/
def endOfLine (body : List UInt8) : LineResult :=
  match body with
  | [] => .more
  | c :: rest =>
    if c = CR then
      match rest with
      | [] => .more
      | d :: _ => if d = LF then .ok 2 0 else .malformed
    else .ok 1 0

/-- The digit loop of `ParseChunkSizeLine`: the size and the number of digits, `none` when the
next digit would overflow an `unsigned long`. -/
def chunkSizeDigits : List UInt8 → Nat → Nat → Option (Nat × Nat)
  | [], size, digits => some (size, digits)
  | c :: rest, size, digits =>
    match hexValue c with
    | none => some (size, digits)
    | some value =>
      if size > (ulongMax - 15) / 16 then none
      else chunkSizeDigits rest (size * 16 + value) (digits + 1)

def parseChunkSizeLine (body : List UInt8) (maxDecodedSize decodedSoFar : Nat) : LineResult :=
  match chunkSizeDigits body 0 0 with
  | none => .malformed
  | some (size, digits) =>
    if digits = 0 then .malformed
    else
      -- chunk extensions are skipped
      let pos := digits + untilNewline (body.drop digits)
      match endOfLine (body.drop pos) with
      | .ok n _ =>
        if size > maxDecodedSize ∨ decodedSoFar > maxDecodedSize - size then .tooBig
        else .ok (pos + n) size
      | r => r

/-- The line loop of `ParseTrailerSection`; `pos` bytes are consumed already. -/
def trailerLines : Nat → List UInt8 → Nat → LineResult
  | 0, _, _ => .more
  | fuel + 1, body, pos =>
    if pos ≥ body.length then .more
    else
      let len := untilNewline (body.drop pos)
      match endOfLine (body.drop (pos + len)) with
      | .ok n _ => if len = 0 then .ok (pos + n) 0 else trailerLines fuel body (pos + len + n)
      | r => r

/-- The source tests for an empty section first, with the code its loop has for a blank line. -/
def parseTrailerSection (body : List UInt8) : LineResult :=
  match body with
  | [] => .more
  | c :: _ => if isNewline c then endOfLine body else trailerLines body.length body 0

/-- `memmove(buf + dst, buf + src, n)`. -/
def memmove (buf : List UInt8) (dst src n : Nat) : List UInt8 :=
  buf.take dst ++ (buf.drop src).take n ++ buf.drop (dst + n)

/-- One run of the walker: its answer, the bytes it leaves behind and `*decodedSize`. -/
structure WalkResult where
  result : HTTPChunkedScanResult
  body : List UInt8
  decodedSize : Nat
  deriving DecidableEq, Repr

/-- The endless loop of `WalkChunkedBody`. Every round consumes a byte or returns. -/
def walkChunks (writeBody : Bool) (maxDecodedSize : Nat) :
    Nat → List UInt8 → Nat → Nat → Nat → WalkResult
  | 0, body, _, _, _ => ⟨.incomplete, body, 0⟩
  | fuel + 1, body, readPos, writePos, decoded =>
    match parseChunkSizeLine (body.drop readPos) maxDecodedSize decoded with
    | .more => ⟨.incomplete, body, 0⟩
    | .malformed => ⟨.errorBad, body, 0⟩
    | .tooBig => ⟨.errorTooBig, body, 0⟩
    | .ok n chunkSize =>
      let readPos := readPos + n
      if chunkSize = 0 then
        match parseTrailerSection (body.drop readPos) with
        | .more => ⟨.incomplete, body, 0⟩
        | .ok _ _ => ⟨.complete, body, uint decoded⟩
        | _ => ⟨.errorBad, body, 0⟩
      -- the chunk's data has to be here in full
      else if body.length - readPos < chunkSize then ⟨.incomplete, body, 0⟩
      else
        let body := if writeBody ∧ writePos ≠ readPos then memmove body writePos readPos chunkSize
          else body
        let writePos := writePos + chunkSize
        let readPos := readPos + chunkSize
        let decoded := decoded + chunkSize
        match body.drop readPos with
        | [] => ⟨.incomplete, body, 0⟩
        | c :: _ =>
          if isNewline c then
            match endOfLine (body.drop readPos) with
            | .ok n _ => walkChunks writeBody maxDecodedSize fuel body (readPos + n) writePos decoded
            | .more => ⟨.incomplete, body, 0⟩
            | _ => ⟨.errorBad, body, 0⟩
          else ⟨.errorBad, body, 0⟩

def walkChunkedBody (writeBody : Bool) (body : List UInt8) (maxDecodedSize : Nat) : WalkResult :=
  walkChunks writeBody maxDecodedSize (body.length + 1) body 0 0 0

def httpChunkedBodyScan (body : List UInt8) (maxDecodedSize : Nat) : HTTPChunkedScanResult :=
  (walkChunkedBody false body maxDecodedSize).result

def httpChunkedBodyDecode (body : List UInt8) (maxDecodedSize : Nat) : WalkResult :=
  walkChunkedBody true body maxDecodedSize

end AmmarServer
