import AmmarServer.Tools.HttpTools
import AmmarServer.Tools.InplaceStrings

/-! The request line: `ProcessFirstHTTPLine` of `header_analysis/http_header_analysis.c` and the
recognizer of `stringscanners/firstLines.c`. A request is the memory from its first byte on. -/

namespace AmmarServer.HeaderAnalysis
open CString

def MAX_QUERY : Nat := 2048
def MAX_RESOURCE : Nat := 2048
def MAX_FILE_PATH : Nat := 1024

def toUpper (c : UInt8) : UInt8 := if 97 ≤ c ∧ c ≤ 122 then c - 32 else c

/-- One word of `scanFor_firstLines`. -/
def scanForWord (str : List UInt8) (strLength : Nat) (word : List UInt8) (type : TypesOfRequests) :
    TypesOfRequests :=
  if strLength < word.length then .NONE
  else if strncasecmpEq str word word.length then type
  else .NONE

/-- `scanFor_firstLines`. -/
def scanForFirstLines (str : List UInt8) (strLength : Nat) : TypesOfRequests :=
  if strLength < 3 then .NONE
  else
    let first := toUpper (charAt str 0)
    if first = 67 then scanForWord str strLength (ascii "CONNECT") .CONNECT
    else if first = 68 then scanForWord str strLength (ascii "DELETE") .DELETE
    else if first = 71 then scanForWord str strLength (ascii "GET") .GET
    else if first = 72 then scanForWord str strLength (ascii "HEAD") .HEAD
    else if first = 79 then scanForWord str strLength (ascii "OPTIONS") .OPTIONS
    else if first = 80 then
      let second := toUpper (charAt str 1)
      if second = 65 then scanForWord str strLength (ascii "PATCH") .PATCH
      else if second = 79 then scanForWord str strLength (ascii "POST") .POST
      else if second = 85 then scanForWord str strLength (ascii "PUT") .PUT
      else .NONE
    else if first = 84 then scanForWord str strLength (ascii "TRACE") .TRACE
    else .NONE

/-- The fields of `struct HTTPHeader` that the request line settles. `GETrequest` is what it points
at; `none` is the null pointer. -/
structure HTTPHeader where
  requestType : TypesOfRequests
  httpVersionMajor : Nat
  httpVersionMinor : Nat
  keepalive : Bool
  requestTargetWasAbsolute : Bool
  GETrequest : Option (List UInt8)
  GETrequestSize : Nat
  resource : List UInt8
  verified_local_resource : List UInt8
  deriving DecidableEq, Repr

/-- Where the loops over the bytes of a line stop that go on while `p` holds. -/
def skipWhile (request : List UInt8) (request_length : Nat) (p : UInt8 → Bool) (s : Nat) : Nat :=
  s + ((request.take request_length).drop s |>.takeWhile p).length

/-- The version digits behind the target, if there is a version token. -/
def versionOf (request : List UInt8) (request_length versionStart : Nat) : Option (Nat × Nat) :=
  let digits := request.drop (versionStart + 5)
  let isDigit := fun c : UInt8 => 48 ≤ c ∧ c ≤ 57
  if versionStart + 8 ≤ request_length ∧
      strncasecmpEq (request.drop versionStart) (ascii "HTTP/") 5 ∧ isDigit (charAt digits 0) ∧
      charAt digits 1 = 46 ∧ isDigit (charAt digits 2) then
    some ((charAt digits 0 - 48).toNat, (charAt digits 2 - 48).toNat)
  else none

/-- The target in origin form, where it stands in the array, and whether it was in absolute form. -/
def originForm (stripped : List UInt8) : Bool × List UInt8 :=
  let http := strncasecmpEq stripped (ascii "http://") 7
  let https := strncasecmpEq stripped (ascii "https://") 8
  if http ∨ https then
    let schemeLength := if https then 8 else 7
    let authority := stripped.drop schemeLength
    let split := authority.dropWhile fun c => c ≠ 0 ∧ c ≠ 47 ∧ c ≠ 63 ∧ c ≠ 35
    if charAt split 0 = 47 then (true, split)
    else if charAt split 0 = 63 ∨ charAt split 0 = 35 then
      -- the rest is moved to stand behind the slash
      let moved := split.take (strlen split + 1)
      (true, 47 :: (moved ++ stripped.drop (1 + moved.length)))
    else (true, (stripped.set 0 47).set 1 0)
  else (false, stripped)

/-- `ProcessFirstHTTPLine`; an error is the `requestType` of a request that is not accepted. -/
def processFirstHTTPLine (KEEPALIVE_ENABLED : Bool) (request : List UInt8) (request_length : Nat)
    (webserver_root : List UInt8) : Except TypesOfRequests HTTPHeader :=
  if request_length < 3 then .error .NONE
  else
    let requestType := scanForFirstLines request request_length
    if requestType = .GET ∨ requestType = .HEAD ∨ requestType = .POST then
      let s := if requestType = .GET then 3 else 4
      let s := skipWhile request request_length (· = 32) s
      if s ≥ request_length then .error requestType
      else
        let e := skipWhile request request_length (· ≠ 32) s
        if e ≥ request_length then .error requestType
        else
          let request := request.set e 0
          let versionStart := skipWhile request request_length (· = 32) (e + 1)
          let version := versionOf request request_length versionStart
          let (requestTargetWasAbsolute, stripped) := originForm (request.drop s)
          if strlen stripped ≥ MAX_RESOURCE - 2 then .error .BAD
          else
            let (hasQuery, stripped) := stripGETRequestQueryAndFragment stripped MAX_QUERY
            let queryStart := strlen stripped + 1
            let GETrequestSize := strlen (stripped.drop queryStart)
            let stripped := stripHTMLCharactersInplace stripped true
            if filenameStripperOk stripped then
              let rootLength := strlen webserver_root
              if rootLength ≥ MAX_FILE_PATH ∨ strlen stripped ≥ MAX_FILE_PATH - rootLength then
                .error .BAD
              else
                let verified := (cstring webserver_root).take MAX_FILE_PATH ++
                  (cstring stripped).take (MAX_FILE_PATH - rootLength - 1) ++ [0]
                .ok {
                  requestType := requestType
                  httpVersionMajor := (version.map Prod.fst).getD 0
                  httpVersionMinor := (version.map Prod.snd).getD 9
                  keepalive := KEEPALIVE_ENABLED && (match version with
                    | some (major, minor) => major > 1 || (major == 1 && minor ≥ 1)
                    | none => true)
                  requestTargetWasAbsolute := requestTargetWasAbsolute
                  GETrequest := if hasQuery then some (stripped.drop queryStart) else none
                  GETrequestSize := if hasQuery then GETrequestSize else 0
                  resource := (cstring stripped).take MAX_RESOURCE
                  verified_local_resource := cstring (reducePathSlashesInplace verified) }
            else .error .BAD
    else .error requestType

end AmmarServer.HeaderAnalysis
