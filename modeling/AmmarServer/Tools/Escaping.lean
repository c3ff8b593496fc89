import Mathlib.Algebra.Group.Nat.Defs
import Mathlib.Data.List.Basic

/-! The escaping helpers of `AmmServerlib/main.c`: `filterStringForShellInjection`,
`AmmServer_HTMLEscape` and `filterStringForHtmlInjection`. Every write is checked against its buffer. -/

namespace AmmarServer.Escaping

inductive Fault
  | outOfBounds
deriving DecidableEq, Repr

/-- The text in front of the NUL of a buffer, whose size is an `unsigned int`. -/
structure Buffer where
  content : List UInt8
  bufferSize : ℕ
  noNul : 0 ∉ content
  room : content.length < bufferSize
  size_lt : bufferSize < 2 ^ 32

/-- What a call writes over the buffer: a text and its NUL. -/
def overwrite (buffer : Buffer) (text : List UInt8) : Except Fault (Bool × List UInt8) :=
  if text.length + 1 ≤ buffer.bufferSize then .ok (true, text) else .error .outOfBounds

/-! The shell. -/

/-- `'\''` for a quote. -/
def shellCode (c : UInt8) : List UInt8 := if c = 39 then [39, 92, 39, 39] else [c]

/-- The number of bytes that the loop counts, for both quotes too. -/
def requiredLength (content : List UInt8) : ℕ :=
  content.foldl (fun required c => (required + if c = 39 then 4 else 1) % 2 ^ 32) 2

/-- `memory` says whether there is memory for the scratch buffer. -/
def filterStringForShellInjection (buffer : Buffer) (memory : Bool) :
    Except Fault (Bool × List UInt8) :=
  let required := requiredLength buffer.content
  if buffer.bufferSize ≤ required then .ok (false, buffer.content)
  else if memory = false then .ok (false, buffer.content)
  else
    let scratch := 39 :: (buffer.content.flatMap shellCode ++ [39])
    if required + 1 < scratch.length + 1 then .error .outOfBounds
    else overwrite buffer scratch

/-! HTML. -/

def entity (c : UInt8) : Option (List UInt8) :=
  if c = 38 then some [38, 97, 109, 112, 59]
  else if c = 60 then some [38, 108, 116, 59]
  else if c = 62 then some [38, 103, 116, 59]
  else if c = 34 then some [38, 113, 117, 111, 116, 59]
  else if c = 39 then some [38, 35, 51, 57, 59]
  else none

/-- The loop with the rest of the input and what is written. -/
def htmlEscapeLoop (outputMaxSize : ℕ) : List UInt8 → List UInt8 → Except Fault (List UInt8)
  | [], output => .ok output
  | c :: rest, output =>
    match entity c with
    | some text =>
      if outputMaxSize ≤ (output.length + text.length) % 2 ^ 32 then .ok output
      else if outputMaxSize < output.length + text.length then .error .outOfBounds
      else htmlEscapeLoop outputMaxSize rest (output ++ text)
    | none =>
      if outputMaxSize ≤ (output.length + 1) % 2 ^ 32 then .ok output
      else if outputMaxSize < output.length + 1 then .error .outOfBounds
      else htmlEscapeLoop outputMaxSize rest (output ++ [c])

/-- `AmmServer_HTMLEscape`: the text in the output, or none where nothing is written. The length of the
input is an `unsigned int`. -/
def htmlEscape (input : List UInt8) (outputMaxSize : ℕ) : Except Fault (Option (List UInt8)) :=
  if outputMaxSize = 0 then .ok none
  else (htmlEscapeLoop outputMaxSize (input.take (input.length % 2 ^ 32)) []).map some

def filterStringForHtmlInjection (buffer : Buffer) (memory : Bool) :
    Except Fault (Bool × List UInt8) :=
  let worstCaseLength := (buffer.content.length * 6 + 1) % 2 ^ 32
  if memory = false then .ok (false, buffer.content)
  else
    match htmlEscape buffer.content worstCaseLength with
    | .error fault => .error fault
    | .ok none => .error .outOfBounds
    | .ok (some escaped) =>
      if buffer.bufferSize ≤ escaped.length then .ok (false, buffer.content)
      else overwrite buffer escaped

end AmmarServer.Escaping
