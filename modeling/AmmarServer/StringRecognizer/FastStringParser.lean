import AmmarServer.HeaderAnalysis.FirstLine

/-! The scanner generator `StringRecognizer/fastStringParser.c` and the C code it emits. A string is
the list of its bytes before the NUL. -/

namespace AmmarServer.StringRecognizer
open CString HeaderAnalysis

def ACTIVATED_LEVELS : ℕ := 3

def acceptedChars : List UInt8 := ascii "ABCDEFGHIJKLMNOPQRSTUVWXYZ0123456789-_"

/-- The bytes that the loops over `acceptedChars` put into a sequence: its NUL is one of them. -/
def nextChars : List UInt8 := acceptedChars ++ [0]

/-- The loop of `convertTo_ENUM_ID`, on fuel: every turn moves `target`. -/
def convertToEnumIDLoop : ℕ → List UInt8 → ℕ → ℕ → List UInt8
  | 0, sPtr, _, _ => sPtr
  | fuel + 1, sPtr, source, target =>
    if charAt sPtr source = 0 ∨ charAt sPtr target = 0 then sPtr
    else
      let sPtr := sPtr.set target (toUpper (charAt sPtr source))
      let c := charAt sPtr source
      if c = 95 then convertToEnumIDLoop fuel sPtr (source + 1) (target + 1)
      else if c = 45 ∨ c = 46 then
        convertToEnumIDLoop fuel (sPtr.set target 95) (source + 1) (target + 1)
      else if (65 ≤ c ∧ c ≤ 90) ∨ (48 ≤ c ∧ c ≤ 57) then
        convertToEnumIDLoop fuel sPtr (source + 1) (target + 1)
      else
        convertToEnumIDLoop fuel (sPtr.set source (charAt sPtr (target + 1))) source (target + 2)

/-- `convertTo_ENUM_ID`. -/
def convertToEnumID (str : List UInt8) : List UInt8 :=
  cstring (convertToEnumIDLoop (str.length + 1) str 0 0)

structure FspString where
  str : List UInt8
  strIDFriendly : List UInt8
deriving DecidableEq, Repr

structure FastStringParser where
  contents : List FspString
  shortestStringLength : ℕ
deriving DecidableEq, Repr

/-- `fastStringParser_initialize`. -/
def initialFsp : FastStringParser := { contents := [], shortestStringLength := 0 }

/-- `fastStringParser_addString`. -/
def addString (fsp : FastStringParser) (str : List UInt8) : FastStringParser :=
  { contents := fsp.contents ++ [{ str := str, strIDFriendly := convertToEnumID str }]
    shortestStringLength :=
      if fsp.contents.length = 0 ∨ str.length < fsp.shortestStringLength then str.length
      else fsp.shortestStringLength }

/-- All `seqLength` bytes are counted as correct. -/
def beginsWith (str sequence : List UInt8) (seqLength : ℕ) : Bool :=
  let correct := (List.range seqLength).countP fun count => charAt str count == charAt sequence count
  correct == seqLength

/-- `fastStringParser_hasStringsWithNConsecutiveChars`: how many there are, and the index of the
last one if there is one. -/
def hasStringsWithNConsecutiveChars (fsp : FastStringParser) (resStringResultIndex : ℕ)
    (sequence : List UInt8) (seqLength : ℕ) : ℕ × ℕ :=
  fsp.contents.zipIdx.foldl
    (fun res s => if beginsWith s.1.str sequence seqLength then (res.1 + 1, s.2) else res)
    (0, resStringResultIndex)

/-- `fastStringParser_countStringsForNextChar`. -/
def countStringsForNextChar (fsp : FastStringParser) (resStringResultIndex : ℕ)
    (sequence : List UInt8) : ℕ × ℕ :=
  nextChars.foldl
    (fun res c =>
      let found :=
        hasStringsWithNConsecutiveChars fsp res.2 (sequence ++ [c]) (sequence.length + 1)
      (res.1 + found.1, found.2))
    (0, resStringResultIndex)

/-! The code that is written to the `.c` file. -/

mutual
/-- Statements, one after the other. -/
inductive Block
  | done
  /-- `if (strLength<n) { return 0; }` -/
  | ifShorter (n : ℕ) (rest : Block)
  /-- `if ( strncasecmp(str,"w",n) == 0 ) { return id; }` -/
  | ifWord (w : List UInt8) (n : ℕ) (id : List UInt8) (rest : Block)
  /-- `if ( (strLength >= n )&& ( strncasecmp(str,"w",n) == 0 ) ) { return id; }`, and behind an
  `else` the ones that follow. -/
  | ifLongWord (n : ℕ) (w : List UInt8) (id : List UInt8) (rest : Block)
  /-- `switch (toupper(str[level]))` -/
  | switch (level : ℕ) (cases : Cases) (rest : Block)
  /-- `//Error ( w )` -/
  | error (w : List UInt8) (rest : Block)

/-- The labels of a `switch`, each with its block and a `break`. -/
inductive Cases
  | nil
  | case (label : UInt8) (body : Block) (rest : Cases)
end

mutual
/-- What a block returns, if it does. -/
def Block.exec (value : List UInt8 → ℕ) (str : List UInt8) : Block → Option ℕ
  | .done => none
  | .ifShorter n rest => if str.length < n then some 0 else rest.exec value str
  | .ifWord w n id rest =>
    if strncasecmpEq str w n then some (value id) else rest.exec value str
  | .ifLongWord n w id rest =>
    if n ≤ str.length ∧ strncasecmpEq str w n then some (value id) else rest.exec value str
  | .switch level cases rest =>
    (cases.exec value str (toUpper (charAt str level))).or (rest.exec value str)
  | .error _ rest => rest.exec value str

def Cases.exec (value : List UInt8 → ℕ) (str : List UInt8) (c : UInt8) : Cases → Option ℕ
  | .nil => none
  | .case label body rest => if c = label then body.exec value str else rest.exec value str c
end

/-- `printIfAllPossibleStrings`. -/
def printIfAllPossibleStrings (functionName sequence : List UInt8) : List FspString → Block
  | [] => .done
  | s :: contents =>
    if beginsWith s.str sequence sequence.length then
      .ifLongWord s.str.length s.str (functionName ++ [95] ++ s.strIDFriendly)
        (printIfAllPossibleStrings functionName sequence contents)
    else printIfAllPossibleStrings functionName sequence contents

/-- The loop of `recursiveTraverser` over the labels of a `switch`. -/
def printCases (fsp : FastStringParser) (cArray : List UInt8) (body : UInt8 → Option Block) :
    List UInt8 → Option Cases
  | [] => some .nil
  | c :: chars =>
    if (hasStringsWithNConsecutiveChars fsp 0 (cArray ++ [c]) (cArray.length + 1)).1 ≠ 0 then do
      let block ← body c
      let rest ← printCases fsp cArray body chars
      return .case c block rest
    else printCases fsp cArray body chars

/-- `recursiveTraverser` with the levels that are left; `cArray` holds a byte for each one before.
`none`: `contents` is read past its end. -/
def recursiveTraverser (fsp : FastStringParser) (functionName : List UInt8) :
    ℕ → List UInt8 → Option Block
  | 0, _ => some .done
  | levels + 1, cArray =>
    let next := countStringsForNextChar fsp 0 cArray
    if 1 < next.1 then do
      let cases ← printCases fsp cArray
        (fun c =>
          if 0 < levels then recursiveTraverser fsp functionName levels (cArray ++ [c])
          else some (printIfAllPossibleStrings functionName (cArray ++ [c]) fsp.contents))
        nextChars
      return .switch cArray.length cases .done
    else do
      let s ← fsp.contents[next.2]?
      if next.1 = 1 then
        return .ifShorter s.str.length
          (.ifWord s.str s.str.length (functionName ++ [95] ++ s.strIDFriendly) .done)
      else return .error s.str .done

/-- The names of the enumerator, as `printAllEnumeratorItems` writes them. -/
def printAllEnumeratorItems (fsp : FastStringParser) (functionName : List UInt8) :
    List (List UInt8) :=
  [functionName ++ ascii "_EMPTY"]
    ++ fsp.contents.map (fun s => functionName ++ [95] ++ s.strIDFriendly)
    ++ [functionName ++ ascii "_END_OF_ITEMS"]

/-- The two files that are written. -/
structure Scanner where
  includeGuard : List UInt8
  enumerators : List (List UInt8)
  shortestStringLength : ℕ
  body : Block

/-- `export_C_Scanner`. -/
def exportCScanner (fsp : FastStringParser) (functionName : List UInt8) : Option Scanner := do
  let functionName := convertToEnumID functionName
  let body ← recursiveTraverser fsp functionName ACTIVATED_LEVELS []
  return {
    includeGuard := functionName ++ ascii "_H_INCLUDED"
    enumerators := printAllEnumeratorItems fsp functionName
    shortestStringLength := fsp.shortestStringLength
    body := body }

/-- A C compiler takes the files: no enumerator is declared twice, and none is the macro that guards
the header and expands to nothing. -/
def Scanner.Compiles (scanner : Scanner) : Prop :=
  scanner.enumerators.Nodup ∧ scanner.includeGuard ∉ scanner.enumerators

instance (scanner : Scanner) : Decidable scanner.Compiles :=
  inferInstanceAs (Decidable (_ ∧ _))

/-- The value of an enumerator: the first one is 0. -/
def Scanner.value (scanner : Scanner) (id : List UInt8) : ℕ := scanner.enumerators.idxOf id

/-- `scanFor_...(str, strlen(str))`. -/
def Scanner.scanFor (scanner : Scanner) (str : List UInt8) : ℕ :=
  if str.length < scanner.shortestStringLength then 0
  else (scanner.body.exec scanner.value str).getD 0

/-- The scanner of a list of words. -/
def generate (functionName : List UInt8) (words : List (List UInt8)) : Option Scanner :=
  exportCScanner (words.foldl addString initialFsp) functionName

end AmmarServer.StringRecognizer
