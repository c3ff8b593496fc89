import AmmarServer.InputParser.TokenRuns
import AmmarServer.ServerConfiguration.ConfigKeys

/-! `LoadConfigurationFile` and `ParseConfigString` of `server_configuration.c`, on the content of a file
that could be opened. -/

namespace AmmarServer.ServerConfiguration
open Bytes CString TextFile InputParser

/-- The settings that a file can change. -/
structure Settings where
  varSocketTimeoutREAD_seconds : ℤ
  varSocketTimeoutWRITE_seconds : ℤ
  KEEPALIVE_ENABLED : ℤ
  BINDING_PORT : ℤ
  CHANGE_PRIORITY : ℤ
  USERNAME_UID_FOR_DAEMON : List UInt8
  CHANGE_TO_UID : ℤ
  CACHING_ENABLED : ℤ
  MAX_CACHE_SIZE_IN_MB : ℤ
  MAX_CACHE_SIZE_FOR_EACH_FILE_IN_MB : ℤ
  MAX_SEPERATE_CACHE_ITEMS : ℤ
  ENABLE_POST : ℤ
  MAX_POST_TRANSACTION_SIZE : ℤ
deriving DecidableEq, Repr

def MAX_CONFIGURATION_FILE_LINE_SIZE : ℕ := 512
def MAX_FILE_PATH : ℕ := 1024
def INT_MAX : ℤ := 2147483647

/-- What `strtol` finds, where it stops, and whether `errno` is set. -/
structure Strtol where
  value : ℤ
  endptr : List UInt8
  errno : Bool

/-- `strtol(word,&end,10)`. -/
def strtolEnd (word : List UInt8) : Strtol :=
  let s := word.dropWhile isSpace
  let number := if s.head? = some 45 ∨ s.head? = some 43 then s.tail else s
  if number.takeWhile isDigit = [] then ⟨0, word, false⟩
  else
    let value : ℤ := if s.head? = some 45 then -digits number else digits number
    if value < -2 ^ 63 then ⟨-2 ^ 63, number.dropWhile isDigit, true⟩
    else if 2 ^ 63 ≤ value then ⟨2 ^ 63 - 1, number.dropWhile isDigit, true⟩
    else ⟨value, number.dropWhile isDigit, false⟩

/-- A buffer of zeros. -/
def zeros (size : ℕ) : List UInt8 := List.replicate size 0

/-- The value that is stored, if there is one. -/
def configParseOnOff (ipc : Ipc) (wordIndex : ℕ) : Except Fault (Option ℤ) :=
  (ipc.wordCompareNoCaseAuto wordIndex (ascii "ON")).bind fun on =>
    if on then .ok (some 1)
    else
      (ipc.wordCompareNoCaseAuto wordIndex (ascii "OFF")).map fun off =>
        if off then some 0 else none

def configParseInt (ipc : Ipc) (wordIndex : ℕ) (minimum maximum : ℤ) : Except Fault (Option ℤ) :=
  let size := MAX_CONFIGURATION_FILE_LINE_SIZE + 1
  (ipc.getWord wordIndex (zeros size) size).map fun (length, word) =>
    if length = 0 then none
    else
      let word := cstring word
      let found := strtolEnd word
      if found.errno ∨ found.endptr = word ∨ found.endptr ≠ [] ∨ found.value < minimum ∨
          maximum < found.value then none
      else some found.value

/-- What the `switch` of `ParseConfigString` does for a key. -/
def applyKey (ipc : Ipc) (s : Settings) : ConfigKeys → Except Fault Settings
  | .TIMEOUT =>
    (configParseInt ipc 1 1 (86400 * 365)).map fun v => v.elim s fun n =>
      { s with varSocketTimeoutREAD_seconds := n, varSocketTimeoutWRITE_seconds := n }
  | .KEEPALIVE =>
    (configParseOnOff ipc 1).map fun v => v.elim s fun n => { s with KEEPALIVE_ENABLED := n }
  | .LISTEN =>
    (configParseInt ipc 1 1 65535).map fun v => v.elim s fun n => { s with BINDING_PORT := n }
  | .RUNASPRIORITY =>
    (configParseInt ipc 1 (-20) 20).map fun v => v.elim s fun n => { s with CHANGE_PRIORITY := n }
  | .RUNASUSER =>
    (ipc.getWord 1 (zeros MAX_FILE_PATH) MAX_FILE_PATH).map fun (length, user) =>
      if length = 0 then s else { s with USERNAME_UID_FOR_DAEMON := cstring user }
  | .IFUSERDOESNTEXISTRUNASUID =>
    (configParseInt ipc 1 0 INT_MAX).map fun v => v.elim s fun n => { s with CHANGE_TO_UID := n }
  | .CACHING =>
    (configParseOnOff ipc 1).map fun v => v.elim s fun n => { s with CACHING_ENABLED := n }
  | .MAXCACHESIZE =>
    (configParseInt ipc 1 1 INT_MAX).map fun v => v.elim s fun n =>
      { s with MAX_CACHE_SIZE_IN_MB := n }
  | .MAXCACHESIZEFOREACHFILE =>
    (configParseInt ipc 1 1 INT_MAX).map fun v => v.elim s fun n =>
      { s with MAX_CACHE_SIZE_FOR_EACH_FILE_IN_MB := n }
  | .MAXSEPERATECACHEITEMS =>
    (configParseInt ipc 1 1 INT_MAX).map fun v => v.elim s fun n =>
      { s with MAX_SEPERATE_CACHE_ITEMS := n }
  | .ENABLEPOST =>
    (configParseOnOff ipc 1).map fun v => v.elim s fun n => { s with ENABLE_POST := n }
  | .MAXPOSTTRANSACTIONSIZE =>
    (configParseInt ipc 1 1 INT_MAX).map fun v => v.elim s fun n =>
      { s with MAX_POST_TRANSACTION_SIZE := n }
  -- The keys that are not wired to a setting, and no key at all.
  | _ => .ok s

def parseConfigString (s : Settings) (ipc : Ipc) (inpt : List UInt8) :
    Except Fault (Settings × Ipc) :=
  let size := MAX_CONFIGURATION_FILE_LINE_SIZE + 1
  (ipc.seperateWords (some inpt) 0 true).bind fun (words_count, ipc) =>
    if words_count.toInt ≤ 0 then .ok (s, ipc)
    else
      (ipc.getWord 0 (zeros size) size).bind fun (keyLength, keyWord) =>
        if keyLength = 0 then .ok (s, ipc)
        else if size + 1 < keyLength + 2 then .error .outOfBounds
        else
          let lookup := keyWord.take keyLength ++ [58]
          (applyKey ipc s (scanForConfigKeys lookup)).map fun s => (s, ipc)

/-- `' '` and `'\t'`. -/
def blanks : List UInt8 := [32, 9]

/-- The parser of `LoadConfigurationFile`. -/
def lineParser (garbage : ℕ → Tokens) : Except Fault Ipc :=
  ((ipcCreate MAX_CONFIGURATION_FILE_LINE_SIZE 2 garbage).setDelimeter 0 32).bind fun ipc =>
    ipc.setDelimeter 1 9

/-- What is done with a line in the buffer. -/
def loadLine (s : Settings) (ipc : Ipc) (buffer : List UInt8) : Except Fault (Settings × Ipc) :=
  let start := ((cstring buffer).rdropWhile isNewline).dropWhile blanks.contains
  if start = [] ∨ start.head? = some 35 then .ok (s, ipc) else parseConfigString s ipc start

/-- The loop of `LoadConfigurationFile`, on fuel: every turn reads a byte. -/
def loadLines (s : Settings) (ipc : Ipc) : ℕ → List UInt8 → Except Fault Settings
  | 0, _ => .ok s
  | _ + 1, [] => .ok s
  | fuel + 1, c :: file =>
    let (line, rest) := fgets (MAX_CONFIGURATION_FILE_LINE_SIZE - 1) (c :: file)
    if (cstring line).length = MAX_CONFIGURATION_FILE_LINE_SIZE - 1 ∧
        (cstring line).getLast? ≠ some LF then
      loadLines s ipc fuel ((rest.dropWhile (· ≠ LF)).drop 1)
    else (loadLine s ipc line).bind fun (s, ipc) => loadLines s ipc fuel rest

/-- `garbage` is what the parser's list of tokens has in it when it is created. -/
def loadConfigurationFile (garbage : ℕ → Tokens) (s : Settings) (file : List UInt8) :
    Except Fault Settings :=
  (lineParser garbage).bind fun ipc => loadLines s ipc (file.length + 1) file

end AmmarServer.ServerConfiguration
