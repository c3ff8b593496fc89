import AmmarServer.Lib.WordBytes
import AmmarServer.Tools.JsonReader

/-! `AmmServer_JSONEscape` of `tools/json_tools.c`, with the input kept as the bytes from `i` on.
All sums are `unsigned int`. A fault is a byte read behind the input or written behind the
buffer. -/

namespace AmmarServer.Json
open WordBytes

variable {bytes rest : List UInt8}

def needsEscape (c : UInt8) : Bool := c == 34 || c == 92 || c < 32

/-- On the eight bytes as they lie in memory, the first one lowest. -/
def jsonEscapeNeededIn8 (v : UInt64) : Bool :=
  let ones : UInt64 := 0x0101010101010101
  let high : UInt64 := 0x8080808080808080
  let control := (v - 0x20 * ones) &&& ~~~v
  let quote := v ^^^ (0x22 * ones)
  let quote := (quote - ones) &&& ~~~quote
  let slash := v ^^^ (0x5C * ones)
  let slash := (slash - ones) &&& ~~~slash
  ((control ||| quote ||| slash) &&& high) != 0

/-- `_mm_movemask_epi8` of the hits. -/
def escapeMask (bytes : List UInt8) : ℕ :=
  bytes.foldr (fun c mask => 2 * mask + (c == 34 || c == 92 || max c 0x1F == 0x1F).toNat) 0

/-- `__builtin_ctz`. -/
def ctz : ℕ → ℕ → ℕ
  | 0, _ => 0
  | bits + 1, mask => if mask % 2 = 1 then 0 else ctz bits (mask / 2) + 1

variable (length : ℕ)

/-- The loops over whole blocks, up to one with a byte to escape. -/
def skipBlocks (block : ℕ) (needed : List UInt8 → Bool) :
    ℕ → List UInt8 → Except Fault (Bool × List UInt8)
  | 0, rest => .ok (false, rest)
  | fuel + 1, rest =>
    if (length - rest.length + block) % 2 ^ 32 > length then .ok (false, rest)
    else if rest.length < block then .error .outOfBounds
    else if needed (rest.take block) then .ok (true, rest)
    else skipBlocks block needed fuel (rest.drop block)

/-- Eight bytes at a time and then one by one. -/
def skipWords (rest : List UInt8) : Except Fault (List UInt8) :=
  (skipBlocks length 8 (fun block => jsonEscapeNeededIn8 (UInt64.ofNat (word block)))
    (rest.length + 1) rest).map fun (_, rest) => rest.dropWhile fun c => !needsEscape c

/-- The next byte to escape, from `run = i` on, with the sixteen bytes at a time where there is
SSE2. -/
def findEscape (sse2 : Bool) (rest : List UInt8) : Except Fault (List UInt8) :=
  if sse2 then
    (skipBlocks length 16 (fun block => escapeMask block != 0) (rest.length + 1) rest).bind
      fun (hit, rest) =>
        if hit then .ok (rest.drop (ctz 32 (escapeMask (rest.take 16)))) else skipWords length rest
  else skipWords length rest

/-- `hex` of the function. -/
def lowerHex (digit : UInt8) : UInt8 := if digit < 10 then 48 + digit else 97 + (digit - 10)

def escapeOf (c : UInt8) : List UInt8 :=
  if c = 34 then [92, 34]
  else if c = 92 then [92, 92]
  else if c = 8 then [92, 98]
  else if c = 12 then [92, 102]
  else if c = 10 then [92, 110]
  else if c = 13 then [92, 114]
  else if c = 9 then [92, 116]
  else [92, 117, 48, 48, lowerHex (c >>> 4 &&& 0xF), lowerHex (c &&& 0xF)]

/-- Bytes put behind the ones written, or none where the sum says that they do not fit. -/
def putEscaped (outSize : ℕ) (bytes written : List UInt8) : Except Fault (Option (List UInt8)) :=
  if (written.length + bytes.length) % 2 ^ 32 > outSize then .ok none
  else if outSize < written.length + bytes.length then .error .outOfBounds
  else .ok (some (written ++ bytes))

/-- The loop of `AmmServer_JSONEscape`, with the input from `i` on. -/
def jsonEscapeLoop (sse2 : Bool) (outSize : ℕ) :
    ℕ → List UInt8 → List UInt8 → Except Fault (Option (List UInt8))
  | 0, _, written => .ok (some written)
  | fuel + 1, rest, written =>
    if rest = [] then .ok (some written)
    else
      (findEscape length sse2 rest).bind fun found =>
        (putEscaped outSize (rest.take (rest.length - found.length)) written).bind fun copied =>
          match copied, found with
          | none, _ => .ok none
          | some written, [] => .ok (some written)
          | some written, c :: behind =>
            (putEscaped outSize (escapeOf c) written).bind fun escaped =>
              match escaped with
              | none => .ok none
              | some written => jsonEscapeLoop sse2 outSize fuel behind written

/-- `AmmServer_JSONEscape`: what it has written, the length of which it returns. Nothing is what it
returns zero for, whatever is then in the buffer. -/
def jsonEscape (sse2 : Bool) (s : List UInt8) (outSize : ℕ) : Except Fault (List UInt8) :=
  (jsonEscapeLoop s.length sse2 outSize (s.length + 1) s []).map fun written => written.getD []

end AmmarServer.Json
