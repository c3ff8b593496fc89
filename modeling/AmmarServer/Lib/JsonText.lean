import Mathlib.Data.List.TakeWhile
import Mathlib.Data.UInt

/-! The grammar of JSON texts over bytes, as RFC 8259 has it, with what the strings and the members
of an object in them denote. Bytes from 0x80 on are not looked into. Independent of any parser. -/

namespace JsonText

/-! ## Lexical grammar -/

def isBlank (c : UInt8) : Bool := c == 32 || c == 9 || c == 10 || c == 13

def isDigit (c : UInt8) : Bool := 48 ≤ c && c ≤ 57

def Blank (w : List UInt8) : Prop := ∀ c ∈ w, isBlank c = true

def Digits (ds : List UInt8) : Prop := ds ≠ [] ∧ ∀ c ∈ ds, isDigit c = true

/-- `0`, or digits of which the first is not a zero. -/
def IsInt (text : List UInt8) : Prop :=
  text = [48] ∨ ∃ c ds, text = c :: ds ∧ isDigit c = true ∧ c ≠ 48 ∧ ∀ d ∈ ds, isDigit d = true

def IsFrac (text : List UInt8) : Prop := text = [] ∨ ∃ ds, Digits ds ∧ text = 46 :: ds

def IsExp (text : List UInt8) : Prop :=
  text = [] ∨ ∃ e sign ds, (e = 101 ∨ e = 69) ∧ (sign = [] ∨ sign = [43] ∨ sign = [45]) ∧
    Digits ds ∧ text = e :: (sign ++ ds)

def IsNumber (text : List UInt8) : Prop :=
  ∃ minus int frac exp, (minus = [] ∨ minus = [45]) ∧ IsInt int ∧ IsFrac frac ∧ IsExp exp ∧
    text = minus ++ (int ++ (frac ++ exp))

/-- The value of a hexadecimal digit. -/
def hexDigit (c : UInt8) : Option ℕ :=
  if 48 ≤ c ∧ c ≤ 57 then some (c.toNat - 48)
  else if 97 ≤ c ∧ c ≤ 102 then some (c.toNat - 97 + 10)
  else if 65 ≤ c ∧ c ≤ 70 then some (c.toNat - 65 + 10)
  else none

/-- Four hexadecimal digits. -/
def Hex4 (text : List UInt8) (n : ℕ) : Prop :=
  ∃ a b c d i j k l, text = [a, b, c, d] ∧ hexDigit a = some i ∧ hexDigit b = some j ∧
    hexDigit c = some k ∧ hexDigit d = some l ∧ n = ((i * 16 + j) * 16 + k) * 16 + l

/-- What the escapes of one letter stand for. -/
def simpleEscape (c : UInt8) : Option UInt8 :=
  if c = 34 then some 34
  else if c = 92 then some 92
  else if c = 47 then some 47
  else if c = 98 then some 8
  else if c = 102 then some 12
  else if c = 110 then some 10
  else if c = 114 then some 13
  else if c = 116 then some 9
  else none

def IsHighSurrogate (n : ℕ) : Prop := 0xD800 ≤ n ∧ n ≤ 0xDBFF

def IsLowSurrogate (n : ℕ) : Prop := 0xDC00 ≤ n ∧ n ≤ 0xDFFF

instance (n : ℕ) : Decidable (IsHighSurrogate n) := inferInstanceAs (Decidable (_ ∧ _))

instance (n : ℕ) : Decidable (IsLowSurrogate n) := inferInstanceAs (Decidable (_ ∧ _))

/-- The character that a pair of surrogates stands for. -/
def joined (high low : ℕ) : ℕ := 0x10000 + (high - 0xD800) * 0x400 + (low - 0xDC00)

/-- What stands between the quotes of a string, and the bytes that it denotes. -/
inductive Chars : List UInt8 → List UInt8 → Prop
  | nil : Chars [] []
  | plain {c raw decoded} : 32 ≤ c → c ≠ 34 → c ≠ 92 → Chars raw decoded →
      Chars (c :: raw) (c :: decoded)
  | escape {c d raw decoded} : simpleEscape c = some d → Chars raw decoded →
      Chars (92 :: c :: raw) (d :: decoded)
  | unicode {text n raw decoded} : Hex4 text n → ¬ IsHighSurrogate n → ¬ IsLowSurrogate n →
      Chars raw decoded →
      Chars (92 :: 117 :: (text ++ raw)) (String.utf8EncodeChar (Char.ofNat n) ++ decoded)
  | pair {text high text' low raw decoded} : Hex4 text high → IsHighSurrogate high →
      Hex4 text' low → IsLowSurrogate low → Chars raw decoded →
      Chars (92 :: 117 :: (text ++ 92 :: 117 :: (text' ++ raw)))
        (String.utf8EncodeChar (Char.ofNat (joined high low)) ++ decoded)

def literals : List (List UInt8) :=
  [[116, 114, 117, 101], [102, 97, 108, 115, 101], [110, 117, 108, 108]]

/-! ## Values -/

/-- What is kept of a value: the bytes of a string, and of an object its members, each with its raw
key and the bytes of its value where that is a string. -/
inductive Meaning
  | other
  | string (decoded : List UInt8)
  | object (members : List (List UInt8 × Option (List UInt8)))
  deriving DecidableEq, Repr

def Meaning.decoded : Meaning → Option (List UInt8)
  | .string decoded => some decoded
  | _ => none

inductive Part
  | value
  | elements
  | members
  deriving DecidableEq, Repr

/-- `Derives part depth text meaning`: the text is such a part, with no value in it inside more than
`depth` arrays and objects of the text. -/
inductive Derives : Part → ℕ → List UInt8 → Meaning → Prop
  | literal {depth text} : text ∈ literals → Derives .value depth text .other
  | number {depth text} : IsNumber text → Derives .value depth text .other
  | string {depth raw decoded} : Chars raw decoded →
      Derives .value depth (34 :: (raw ++ [34])) (.string decoded)
  | emptyArray {depth w} : Blank w → Derives .value depth (91 :: (w ++ [93])) .other
  | array {depth text} : Derives .elements depth text .other →
      Derives .value (depth + 1) (91 :: (text ++ [93])) .other
  | emptyObject {depth w} : Blank w → Derives .value depth (123 :: (w ++ [125])) (.object [])
  | object {depth text members} : Derives .members depth text (.object members) →
      Derives .value (depth + 1) (123 :: (text ++ [125])) (.object members)
  | lastElement {depth w text m w'} : Blank w → Derives .value depth text m → Blank w' →
      Derives .elements depth (w ++ (text ++ w')) .other
  | element {depth w text m w' rest} : Blank w → Derives .value depth text m → Blank w' →
      Derives .elements depth rest .other →
      Derives .elements depth (w ++ (text ++ (w' ++ 44 :: rest))) .other
  | lastMember {depth w₁ key decoded w₂ w₃ text m w₄} : Blank w₁ → Chars key decoded →
      Blank w₂ → Blank w₃ → Derives .value depth text m → Blank w₄ →
      Derives .members depth
        (w₁ ++ 34 :: (key ++ 34 :: (w₂ ++ 58 :: (w₃ ++ (text ++ w₄)))))
        (.object [(key, m.decoded)])
  | member {depth w₁ key decoded w₂ w₃ text m w₄ rest members} : Blank w₁ → Chars key decoded →
      Blank w₂ → Blank w₃ → Derives .value depth text m → Blank w₄ →
      Derives .members depth rest (.object members) →
      Derives .members depth
        (w₁ ++ 34 :: (key ++ 34 :: (w₂ ++ 58 :: (w₃ ++ (text ++ (w₄ ++ 44 :: rest))))))
        (.object ((key, m.decoded) :: members))

/-- A value with blanks around it. -/
def Document (depth : ℕ) (doc : List UInt8) (meaning : Meaning) : Prop :=
  ∃ w text w', doc = w ++ (text ++ w') ∧ Blank w ∧ Derives .value depth text meaning ∧ Blank w'

end JsonText
