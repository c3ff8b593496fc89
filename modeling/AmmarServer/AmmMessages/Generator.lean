import AmmarServer.InputParser.Pieces

/-! The code that `AmmMessages/messageGenerator.c` writes for a message: one function that prints it
as a query and one that reads the query out of a reply. -/

namespace AmmarServer.AmmMessages
open Bytes CString TextFile InputParser

/-- The rows of `varTypesList` for whole numbers and text. -/
inductive VarType
  | int64 | int32 | int | bool | string
  deriving DecidableEq, Repr

/-- The column of the `printf` types. -/
def VarType.printfType : VarType → List UInt8
  | .int64 => ascii "%lu"
  | .int32 | .int | .bool => ascii "%u"
  | .string => ascii "%s"

/-- A variable of the emitted C type: `unsigned long`, `unsigned int`, `unsigned int`, `int` by its
bits, and `char [512]`. -/
inductive Value
  | int64 (v : UInt64)
  | int32 (v : UInt32)
  | int (v : UInt32)
  | bool (v : UInt32)
  | string (s : List UInt8)
  deriving DecidableEq, Repr

def Value.type : Value → VarType
  | .int64 _ => .int64
  | .int32 _ => .int32
  | .int _ => .int
  | .bool _ => .bool
  | .string _ => .string

def STRING_SIZE : ℕ := 512

/-- What the array of a string can hold. -/
def Value.Storable : Value → Prop
  | .string s => s.length < STRING_SIZE ∧ 0 ∉ s
  | _ => True

/-! Reading a value. -/

/-- An `int` that is assigned to an `unsigned long`. -/
def signExtend (n : UInt32) : UInt64 :=
  if n < 2147483648 then n.toUInt64 else n.toUInt64 - 4294967296

/-- What the statement of `writeConversion` assigns. -/
def convert (type : VarType) (variableValue : List UInt8) : Value :=
  match type with
  | .int64 => .int64 (signExtend (atoi variableValue))
  | .int32 => .int32 (atoi variableValue)
  | .int => .int (atoi variableValue)
  | .bool => .bool (atoi variableValue)
  | .string => .string (variableValue.take (STRING_SIZE - 1))

/-! Printing a message. -/

def Value.print : Value → List UInt8
  | .int64 v => decimal v.toNat
  | .int32 v => decimal v.toNat
  | .int v => decimal v.toNat
  | .bool v => decimal v.toNat
  | .string s => s

/-- `printf` with the conversions that the table has. -/
def printf : List UInt8 → List Value → List UInt8
  | 37 :: 108 :: 117 :: format, v :: arguments => v.print ++ printf format arguments
  | 37 :: 117 :: format, v :: arguments => v.print ++ printf format arguments
  | 37 :: 115 :: format, v :: arguments => v.print ++ printf format arguments
  | c :: format, arguments => c :: printf format arguments
  | [], _ => []

/-- A line of the message file, cut at its blank. -/
structure Field where
  type : VarType
  variableID : List UInt8
  deriving DecidableEq, Repr

/-- The format that `writeGETPrintf` emits. -/
def writeGETPrintf (functionName : List UInt8) (fields : List Field) : List UInt8 :=
  47 :: (functionName ++ ascii ".html?") ++
    fields.flatMap (fun f => f.variableID ++ 61 :: (f.type.printfType ++ [38])) ++
    ascii "serialNumber=%lu&t=%u"

/-! Reading a message. -/

def ARGUMENT_SIZE : ℕ := 255
def HTTP_MESSAGE_SIZE : ℕ := 4096

/-- The delimeters that the emitted code sets: `?`, `&` and `=`. -/
def delimeters : List UInt8 := [63, 38, 61]

def argumentParser : InputParserC := ⟨delimeters, HTTP_MESSAGE_SIZE⟩

/-- The loop of `strstrDoubleNewline`. -/
def findDoubleNewline : List UInt8 → Option (List UInt8)
  | a :: b :: rest =>
    if a = LF ∧ b = LF ∨ a = 0 then some rest else findDoubleNewline (b :: rest)
  | _ => none

def strstrDoubleNewline (request : List UInt8) : List UInt8 :=
  (findDoubleNewline request).getD request

/-- `InputParser_GetWord` into an array for an argument, where it succeeds. -/
def getArgument (word : List UInt8) : Option (List UInt8) :=
  if ARGUMENT_SIZE < word.length + 1 then none else if word = [] then none else some word

/-- The members of the message, as far as they have been assigned. -/
abbrev Members := List UInt8 → Option Value

/-- The chain of comparisons that `writeGETScanf` emits. -/
def assign (fields : List Field) (s : Members) (variableID variableValue : List UInt8) : Members :=
  match fields.find? fun f => f.variableID == variableID with
  | none => s
  | some f => Function.update s variableID (some (convert f.type variableValue))

def assignWords (fields : List Field) (s : Members) (word word' : List UInt8) : Members :=
  match getArgument word, getArgument word' with
  | some variableID, some variableValue => assign fields s variableID variableValue
  | _, _ => s

/-- The loop over the arguments. -/
def unpackWords (fields : List Field) (s : Members) : List (List UInt8) → Members
  | word :: word' :: ws => unpackWords fields (assignWords fields s word word') ws
  -- the second word of the last pass may be missing
  | _ => s

def unpackFromHTTPGETRequest (fields : List Field) (buffer : List UInt8) (s : Members) : Members :=
  unpackWords fields s
    ((inputParserSeperateWords argumentParser (strstrDoubleNewline buffer)).drop 1)

/-! A message and its values. -/

def isIdentifierByte (c : UInt8) : Bool :=
  c == 95 || (48 ≤ c && c ≤ 57) || (65 ≤ c && c ≤ 90) || (97 ≤ c && c ≤ 122)

/-- A name of C. -/
structure IsIdentifier (s : List UInt8) : Prop where
  bytes : ∀ c ∈ s, isIdentifierByte c = true
  first : ∃ c, s.head? = some c ∧ isDigit c = false

structure Entry where
  name : List UInt8
  value : Value
  identifier : IsIdentifier name
  storable : value.Storable

def Entry.field (e : Entry) : Field := ⟨e.value.type, e.name⟩

/-- A message whose structure is one of C: its names are distinct, and none is that of the serial
number that every message has. -/
structure Message where
  functionName : List UInt8
  entries : List Entry
  serialNumber : UInt64
  function : IsIdentifier functionName
  distinct : (entries.map Entry.name).Nodup
  serial : ascii "serialNumber" ∉ entries.map Entry.name

def Message.fields (m : Message) : List Field := m.entries.map Entry.field

def Message.values (m : Message) : List Value := m.entries.map Entry.value

/-- The value of `rand()%10000`. -/
def stamp (rand : ℕ) : Value := .int32 (UInt32.ofNat (rand % 10000))

def packToHTTPGETRequest (m : Message) (rand : ℕ) : List UInt8 :=
  printf (writeGETPrintf m.functionName m.fields) (m.values ++ [.int64 m.serialNumber, stamp rand])

end AmmarServer.AmmMessages
