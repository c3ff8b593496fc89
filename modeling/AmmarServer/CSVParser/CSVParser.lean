import Mathlib.Data.List.Basic
import AmmarServer.Lib.Bytes
import AmmarServer.Lib.CBuffer

/-! The parser of `CSVParser/csvparse.c`. The buffer of `getline` is the list of its bytes that were
written, and a pointer is the address of a block with an index into it. -/

namespace AmmarServer.CSV
open Bytes CString

inductive Fault
  | nullDereference
  | useAfterFree
  | outOfBounds
deriving DecidableEq, Repr

structure Pointer where
  block : ℕ
  index : ℕ
deriving DecidableEq, Repr

structure CSVParser where
  handle : Bool
  /-- What is left of the file. -/
  unread : List UInt8
  linesParsed : ℕ
  numberOfFields : ℕ
  fieldIDOflastDelimiter : ℕ
  lastDelimiterSetToNull : Bool
  lastDelimiterSetToNullPtr : Pointer
  previousDelimiterValue : UInt8
  lastFieldResult : Pointer
  haveAFieldResult : Bool
  /-- The address that `lastLine` holds, and the bytes at it. -/
  block : ℕ
  lastLine : List UInt8
  delimiters : List UInt8
  numberOfDelimitersCounted : Bool
deriving DecidableEq, Repr

/-- `csvParserCreate` and `csvParser_StartParsingFile`. -/
def startParsingFile (delimiters file : List UInt8) : CSVParser :=
  { handle := true
    unread := file
    linesParsed := 0
    numberOfFields := 0
    fieldIDOflastDelimiter := 0
    lastDelimiterSetToNull := false
    lastDelimiterSetToNullPtr := ⟨0, 0⟩
    previousDelimiterValue := 0
    lastFieldResult := ⟨0, 0⟩
    haveAFieldResult := false
    block := 0
    lastLine := []
    delimiters
    numberOfDelimitersCounted := false }

/-- A character that ends a field. -/
def isDelimiter (delimiters : List UInt8) (c : UInt8) : Bool := isNewline c || delimiters.contains c

/-- The first delimiter from an index on, if it comes before the end of the string. -/
def findAnyDelimiter (csv : CSVParser) (line : ℕ) : Except Fault (Option ℕ) :=
  match (csv.lastLine.drop line).findIdx? fun c => c == 0 || isDelimiter csv.delimiters c with
  | none => .error .outOfBounds
  | some i => .ok (if charAt csv.lastLine (line + i) = 0 then none else some (line + i))

/-- The loop of `csvParser_CountNumberOfFields`. -/
def countFields (delimiters : List UInt8) : List UInt8 → Except Fault ℕ
  | [] => .error .outOfBounds
  | c :: s =>
    if c = 0 then .ok 0
    else if isDelimiter delimiters c then (countFields delimiters s).map (· + 1)
    else countFields delimiters s

def countNumberOfFields (csv : CSVParser) : Except Fault (ℕ × CSVParser) :=
  if csv.block = 0 then
    .ok (0, { csv with numberOfFields := 0, numberOfDelimitersCounted := false })
  else
    (countFields csv.delimiters csv.lastLine).map fun n =>
      (n % 2 ^ 32, { csv with numberOfFields := n % 2 ^ 32, numberOfDelimitersCounted := true })

def getNumberOfFields (csv : CSVParser) : Except Fault (ℕ × CSVParser) :=
  if csv.numberOfDelimitersCounted then .ok (csv.numberOfFields, csv) else countNumberOfFields csv

/-- The loop to the start of a field. -/
def skipFields (csv : CSVParser) : ℕ → Option ℕ → Except Fault (Option ℕ)
  | 0, startOfVariable => .ok startOfVariable
  | n + 1, none => skipFields csv n none
  | n + 1, some startOfVariable =>
    (findAnyDelimiter csv startOfVariable).bind fun found => skipFields csv n (found.map (· + 1))

/-- `*csv->lastDelimiterSetToNullPtr = csv->previousDelimiterValue`, where a delimiter was cut. -/
def restoreDelimiter (csv : CSVParser) : Except Fault CSVParser :=
  if csv.lastDelimiterSetToNull then
    if csv.lastDelimiterSetToNullPtr.block ≠ csv.block then .error .useAfterFree
    else if csv.lastDelimiterSetToNullPtr.index < csv.lastLine.length then
      .ok { csv with
        lastLine := csv.lastLine.set csv.lastDelimiterSetToNullPtr.index csv.previousDelimiterValue
        lastDelimiterSetToNull := false }
    else .error .outOfBounds
  else .ok csv

/-- The work from scratch: the start of the field and the delimiter behind it. -/
def cutField (csv : CSVParser) (fieldNumber : ℕ) : Except Fault (Pointer × CSVParser) :=
  (restoreDelimiter csv).bind fun csv =>
    (skipFields csv fieldNumber (some 0)).bind fun startOfVariable =>
      match startOfVariable with
      | none => .error .nullDereference
      | some start =>
        (findAnyDelimiter csv start).bind fun endOfVariable =>
          match endOfVariable with
          | none => .error .nullDereference
          | some endOfVariable =>
            .ok (⟨csv.block, start⟩, { csv with
              previousDelimiterValue := charAt csv.lastLine endOfVariable
              fieldIDOflastDelimiter := fieldNumber
              haveAFieldResult := true
              lastDelimiterSetToNull := true
              lastDelimiterSetToNullPtr := ⟨csv.block, endOfVariable⟩
              lastFieldResult := ⟨csv.block, start⟩
              lastLine := csv.lastLine.set endOfVariable 0 })

def getField (csv : CSVParser) (fieldNumber : ℕ) : Except Fault (Option Pointer × CSVParser) :=
  if csv.handle ∧ csv.block ≠ 0 then
    if csv.haveAFieldResult ∧ fieldNumber = csv.fieldIDOflastDelimiter then
      .ok (some csv.lastFieldResult, csv)
    else (cutField csv fieldNumber).map fun (pointer, csv) => (some pointer, csv)
  else .ok (none, { csv with haveAFieldResult := false })

/-- The string that a field is. -/
def fieldText (csv : CSVParser) (pointer : Pointer) : Except Fault (List UInt8) :=
  if pointer.block ≠ csv.block then .error .useAfterFree
  else if 0 ∈ csv.lastLine.drop pointer.index then .ok (cstring (csv.lastLine.drop pointer.index))
  else .error .outOfBounds

/-- The next line of a file with its line feed, and what is behind it. -/
def readLine : List UInt8 → List UInt8 × List UInt8
  | [] => ([], [])
  | c :: file => if c = LF then ([LF], file) else (c :: (readLine file).1, (readLine file).2)

/-- `address` is that of the buffer behind `getline`, which may move it, and 0 where it gets no
memory. -/
def parseNextLine (csv : CSVParser) (address : ℕ) : Bool × CSVParser :=
  if csv.handle = false ∨ address = 0 then (false, csv)
  else if csv.unread = [] then
    -- the buffer is allocated before the end of the file is noticed
    (false, { csv with block := if csv.block = 0 then address else csv.block })
  else
    let line := (readLine csv.unread).1
    (true, { csv with
      block := address
      lastLine := line ++ 0 :: csv.lastLine.drop (line.length + 1)
      unread := (readLine csv.unread).2
      linesParsed := (csv.linesParsed + 1) % 2 ^ 32 })

end AmmarServer.CSV
