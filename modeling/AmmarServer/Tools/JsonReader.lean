import Mathlib.Data.List.TakeWhile
import Mathlib.Data.UInt

/-! The JSON reader of `tools/json_tools.c`. The document is kept as the bytes from `at` on, so that
`at` is its length without them. `at` and the lengths are `unsigned int`; what is behind the last
byte must not be read. -/

namespace AmmarServer.Json

inductive Fault
  | malformed
  | outOfBounds
  deriving DecidableEq, Repr

/-- What belongs to the wanted field. Each byte that is put out has a byte of the document of its
own, so that `outLength` does not wrap. -/
structure Wanted where
  out : List UInt8
  outLength : ℕ
  found : Bool
  foundIsString : Bool
  deriving DecidableEq, Repr

structure JsonParser where
  rest : List UInt8
  depth : ℕ
  wanted : Wanted
  deriving DecidableEq, Repr

def isWhitespace (c : UInt8) : Bool := c == 32 || c == 9 || c == 10 || c == 13

def isDigit (c : UInt8) : Bool := 48 ≤ c && c ≤ 57

def skipWhitespace (p : JsonParser) : JsonParser := { p with rest := p.rest.dropWhile isWhitespace }

def emitDecodedByte (capture : Bool) (byte : UInt8) (w : Wanted) : Wanted :=
  if !capture then w
  else
    { w with
      out := if w.outLength < w.out.length then w.out.set w.outLength byte else w.out
      outLength := w.outLength + 1 }

def hexDigitValue (c : UInt8) : Option ℕ :=
  if 48 ≤ c ∧ c ≤ 57 then some (c.toNat - 48)
  else if 97 ≤ c ∧ c ≤ 102 then some (c.toNat - 97 + 10)
  else if 65 ≤ c ∧ c ≤ 70 then some (c.toNat - 65 + 10)
  else none

/-- The digits left, the bytes from the next one on, and the code point so far. -/
def hexDigits : ℕ → List UInt8 → ℕ → Except Fault (ℕ × List UInt8)
  | 0, rest, codepoint => .ok (codepoint, rest)
  | _ + 1, [], _ => .error .outOfBounds
  | digits + 1, c :: rest, codepoint =>
    match hexDigitValue c with
    | none => .error .malformed
    | some digit => hexDigits digits rest (codepoint * 16 + digit)

/-- The UTF-8 bytes of a code point. -/
def utf8Bytes (codepoint : ℕ) : List UInt8 :=
  if codepoint < 0x80 then [UInt8.ofNat codepoint]
  else if codepoint < 0x800 then
    [UInt8.ofNat (0xC0 ||| codepoint >>> 6), UInt8.ofNat (0x80 ||| codepoint &&& 0x3F)]
  else if codepoint < 0x10000 then
    [UInt8.ofNat (0xE0 ||| codepoint >>> 12), UInt8.ofNat (0x80 ||| codepoint >>> 6 &&& 0x3F),
      UInt8.ofNat (0x80 ||| codepoint &&& 0x3F)]
  else
    [UInt8.ofNat (0xF0 ||| codepoint >>> 18), UInt8.ofNat (0x80 ||| codepoint >>> 12 &&& 0x3F),
      UInt8.ofNat (0x80 ||| codepoint >>> 6 &&& 0x3F), UInt8.ofNat (0x80 ||| codepoint &&& 0x3F)]

def emitDecodedBytes (capture : Bool) (bytes : List UInt8) (w : Wanted) : Wanted :=
  bytes.foldl (fun w byte => emitDecodedByte capture byte w) w

variable (length : ℕ)

/-- The low surrogate that must follow a high one. -/
def joinLowSurrogate (codepoint : ℕ) (rest : List UInt8) : Except Fault (ℕ × List UInt8) :=
  if (length - rest.length + 6) % 2 ^ 32 ≤ length then
    match rest with
    | [] => .error .outOfBounds
    | [c] => if c = 92 then .error .outOfBounds else .error .malformed
    | c :: d :: rest =>
      if c = 92 ∧ d = 117 then
        (hexDigits 4 rest 0).bind fun (low, rest) =>
          if low < 0xDC00 ∨ low > 0xDFFF then .error .malformed
          else .ok (0x10000 + (codepoint - 0xD800) * 0x400 + (low - 0xDC00), rest)
      else .error .malformed
  else .error .malformed

/-- The code point of a `\uXXXX` whose digits begin at `rest`, joined with a second one where it is
a high surrogate. -/
def unicodeEscape (rest : List UInt8) : Except Fault (ℕ × List UInt8) :=
  if (length - rest.length + 4) % 2 ^ 32 > length then .error .malformed
  else
    (hexDigits 4 rest 0).bind fun (codepoint, rest) =>
      if codepoint ≥ 0xD800 ∧ codepoint ≤ 0xDBFF then joinLowSurrogate length codepoint rest
      else if codepoint ≥ 0xDC00 ∧ codepoint ≤ 0xDFFF then .error .malformed
      else .ok (codepoint, rest)

def parseUnicodeEscape (capture : Bool) (p : JsonParser) : Except Fault JsonParser :=
  (unicodeEscape length p.rest).map fun (codepoint, rest) =>
    { p with rest, wanted := emitDecodedBytes capture (utf8Bytes codepoint) p.wanted }

/-- The escapes of `ParseString` that stand for one byte. -/
def escapedByte (escaped : UInt8) : Option UInt8 :=
  if escaped = 34 then some 34
  else if escaped = 92 then some 92
  else if escaped = 47 then some 47
  else if escaped = 98 then some 8
  else if escaped = 102 then some 12
  else if escaped = 110 then some 10
  else if escaped = 114 then some 13
  else if escaped = 116 then some 9
  else none

/-- The loop of `ParseString`, up to the closing quote. -/
def parseStringLoop (capture : Bool) : ℕ → JsonParser → Except Fault JsonParser
  | 0, _ => .error .malformed
  | fuel + 1, p =>
    match p.rest with
    | [] => .error .malformed
    | c :: rest =>
      if c = 34 then .ok p
      else if c = 92 then
        match rest with
        | [] => .error .malformed
        | escaped :: rest =>
          match escapedByte escaped with
          | some byte =>
            parseStringLoop capture fuel
              { p with rest, wanted := emitDecodedByte capture byte p.wanted }
          | none =>
            if escaped = 117 then
              (parseUnicodeEscape length capture { p with rest }).bind
                (parseStringLoop capture fuel)
            else .error .malformed
      else if c < 32 then .error .malformed
      else
        parseStringLoop capture fuel { p with rest, wanted := emitDecodedByte capture c p.wanted }

/-- `ParseString`, with the raw bytes between the quotes. -/
def parseString (capture : Bool) (p : JsonParser) : Except Fault (List UInt8 × JsonParser) :=
  match p.rest with
  | [] => .error .malformed
  | c :: rest =>
    if c ≠ 34 then .error .malformed
    else
      let wanted := if capture then { p.wanted with outLength := 0 } else p.wanted
      (parseStringLoop length capture (rest.length + 1) { p with rest, wanted }).map fun q =>
        (rest.take (rest.length - q.rest.length), { q with rest := q.rest.tail })

/-- The digits that a number must have at some place, and the ones behind. -/
def requireDigits (rest : List UInt8) : Except Fault (List UInt8) :=
  match rest with
  | [] => .error .malformed
  | c :: _ => if isDigit c then .ok (rest.dropWhile isDigit) else .error .malformed

def parseInteger (rest : List UInt8) : Except Fault (List UInt8) :=
  match rest with
  | [] => .error .malformed
  | c :: behind =>
    if !isDigit c then .error .malformed
    else if c = 48 then .ok behind
    else .ok (rest.dropWhile isDigit)

def parseFraction (rest : List UInt8) : Except Fault (List UInt8) :=
  match rest with
  | [] => .ok rest
  | c :: behind => if c = 46 then requireDigits behind else .ok rest

def parseExponent (rest : List UInt8) : Except Fault (List UInt8) :=
  match rest with
  | [] => .ok rest
  | c :: behind =>
    if c = 101 ∨ c = 69 then
      match behind with
      | [] => .error .malformed
      | d :: digits => requireDigits (if d = 43 ∨ d = 45 then digits else behind)
    else .ok rest

def parseNumber (p : JsonParser) : Except Fault JsonParser :=
  let start := if p.rest.head? = some 45 then p.rest.tail else p.rest
  (parseInteger start).bind fun rest =>
    (parseFraction rest).bind fun rest =>
      (parseExponent rest).map fun rest => { p with rest }

def parseLiteral (literal : List UInt8) (p : JsonParser) : Except Fault JsonParser :=
  if (length - p.rest.length + literal.length) % 2 ^ 32 > length then .error .malformed
  else if p.rest.length < literal.length then .error .outOfBounds
  else if p.rest.take literal.length ≠ literal then .error .malformed
  else .ok { p with rest := p.rest.drop literal.length }

section
variable (parseValue : JsonParser → Except Fault JsonParser)

/-- The value of a member: that of the wanted field is captured where it is a string. -/
def parseMemberValue (wantedField name : List UInt8) (p : JsonParser) :
    Except Fault JsonParser :=
  if p.depth = 1 ∧ !p.wanted.found ∧ name = wantedField then
    if p.rest.head? = some 34 then
      (parseString length true
        { p with wanted := { p.wanted with found := true, foundIsString := true } }).map (·.2)
    else parseValue { p with wanted := { p.wanted with found := true, foundIsString := false } }
  else parseValue p

/-- The loop of `ParseObject`. -/
def parseMembers (wantedField : List UInt8) : ℕ → JsonParser → Except Fault JsonParser
  | 0, _ => .error .malformed
  | fuel + 1, p =>
    (parseString length false (skipWhitespace p)).bind fun (name, p) =>
      let p := skipWhitespace p
      match p.rest with
      | [] => .error .malformed
      | c :: rest =>
        if c ≠ 58 then .error .malformed
        else
          (parseMemberValue length parseValue wantedField name
            (skipWhitespace { p with rest })).bind fun p =>
            let p := skipWhitespace p
            match p.rest with
            | [] => .error .malformed
            | c :: rest =>
              if c = 44 then parseMembers wantedField fuel { p with rest }
              else if c = 125 then .ok { p with rest, depth := p.depth - 1 }
              else .error .malformed

/-- `ParseObject`, from the bracket on. -/
def parseObject (wantedField : List UInt8) (p : JsonParser) : Except Fault JsonParser :=
  let p := skipWhitespace { p with rest := p.rest.tail, depth := p.depth + 1 }
  if p.rest.head? = some 125 then .ok { p with rest := p.rest.tail, depth := p.depth - 1 }
  else parseMembers length parseValue wantedField (p.rest.length + 1) p

/-- The loop of `ParseArray`. -/
def parseElements : ℕ → JsonParser → Except Fault JsonParser
  | 0, _ => .error .malformed
  | fuel + 1, p =>
    (parseValue p).bind fun p =>
      let p := skipWhitespace p
      match p.rest with
      | [] => .error .malformed
      | c :: rest =>
        if c = 44 then parseElements fuel (skipWhitespace { p with rest })
        else if c = 93 then .ok { p with rest, depth := p.depth - 1 }
        else .error .malformed

/-- `ParseArray`, from the bracket on. -/
def parseArray (p : JsonParser) : Except Fault JsonParser :=
  let p := skipWhitespace { p with rest := p.rest.tail, depth := p.depth + 1 }
  if p.rest.head? = some 93 then .ok { p with rest := p.rest.tail, depth := p.depth - 1 }
  else parseElements parseValue (p.rest.length + 1) p

end

/-- The recursion goes no deeper than the check of the depth, 34 calls of `ParseValue`. -/
def parseValue (wantedField : List UInt8) : ℕ → JsonParser → Except Fault JsonParser
  | 0, _ => .error .malformed
  | calls + 1, p =>
    let p := skipWhitespace p
    match p.rest with
    | [] => .error .malformed
    | c :: _ =>
      if p.depth > 32 then .error .malformed
      else if c = 123 then parseObject length (parseValue wantedField calls) wantedField p
      else if c = 91 then parseArray (parseValue wantedField calls) p
      else if c = 34 then (parseString length false p).map (·.2)
      else if c = 116 then parseLiteral length [116, 114, 117, 101] p
      else if c = 102 then parseLiteral length [102, 97, 108, 115, 101] p
      else if c = 110 then parseLiteral length [110, 117, 108, 108] p
      else parseNumber p

/-- The answer of `AmmServer_JSONGetStringField`, with what it leaves in the buffer and in
`outLength` where it has found a string. -/
inductive FieldResult
  | fieldOk (out : List UInt8) (outLength : ℕ)
  | malformed
  | fieldNotAString
  deriving DecidableEq, Repr

/-- `out` is the buffer with its `outSize` bytes. A fault is a byte that is read behind the
document. -/
def jsonGetStringField (doc field out : List UInt8) : Except Fault FieldResult :=
  if doc = [] then .ok .malformed
  else
    let wanted : Wanted :=
      { out := out.set 0 0, outLength := 0, found := false, foundIsString := false }
    match parseValue doc.length field 34 ⟨doc, 0, wanted⟩ with
    | .error .malformed => .ok .malformed
    | .error .outOfBounds => .error .outOfBounds
    | .ok p =>
      if (skipWhitespace p).rest ≠ [] then .ok .malformed
      else if !p.wanted.found || !p.wanted.foundIsString then .ok .fieldNotAString
      else
        let last := if p.wanted.outLength < out.length then p.wanted.outLength else out.length - 1
        .ok (.fieldOk (p.wanted.out.set last 0) p.wanted.outLength)

end AmmarServer.Json
