import Mathlib.Data.List.DropRight
import AmmarServer.Lib.Bytes
import AmmarServer.Lib.CString

/-! The `Range:` line of `header_analysis/http_header_analysis.c`. A closed range that goes backwards
is ignored, so none is ever built. -/

namespace AmmarServer.HeaderAnalysis
open CString Bytes

inductive HTTPRangeKind
  | HTTP_RANGE_NONE | HTTP_RANGE_CLOSED | HTTP_RANGE_OPEN_ENDED | HTTP_RANGE_SUFFIX
deriving DecidableEq, Repr

/-- `range_start` is the length of the suffix where the range is one. -/
structure ByteRange where
  rangeKind : HTTPRangeKind
  range_start : ℕ
  range_end : ℕ
  le : rangeKind = .HTTP_RANGE_CLOSED → range_start ≤ range_end
deriving DecidableEq, Repr

def ByteRange.ignored : ByteRange :=
  { rangeKind := .HTTP_RANGE_NONE
    range_start := 0
    range_end := 0
    le := fun h => by cases h }

def isBlank (c : UInt8) : Bool := c == 32 || c == 9

def parseRangeDigits : List UInt8 → ℕ → Option ℕ
  | [], result => some result
  | c :: value, result =>
    if !isDigit c then none
    -- the check against overflow of an `unsigned long`
    else if (2 ^ 64 - 1 - digitValue c) / 10 < result then none
    else parseRangeDigits value (result * 10 + digitValue c)

def parseRangeNumber (value : List UInt8) : Option ℕ :=
  if value.isEmpty then none else parseRangeDigits value 0

/-- The range of a header line, or none where it is not one the server supports. -/
def parseRangeHTTPLine (value : List UInt8) : Option ByteRange :=
  let value := value.dropWhile isBlank
  if value.length < 6 then none
  else if !strncasecmpEq value (ascii "bytes=") 6 then none
  else
    let spec := (value.drop 6).dropWhile isBlank
    if spec.contains 44 then none
    else
      let spec := spec.rdropWhile isBlank
      if !spec.contains 45 then none
      else
        let first := spec.takeWhile (· ≠ 45)
        let last := (spec.dropWhile (· ≠ 45)).tail
        if first.isEmpty then
          (parseRangeNumber last).map fun suffix =>
            { rangeKind := .HTTP_RANGE_SUFFIX
              range_start := suffix
              range_end := 0
              le := fun h => by cases h }
        else
          match parseRangeNumber first with
          | none => none
          | some start =>
            if last.isEmpty then
              some
                { rangeKind := .HTTP_RANGE_OPEN_ENDED
                  range_start := start
                  range_end := 0
                  le := fun h => by cases h }
            else
              match parseRangeNumber last with
              | none => none
              | some stop =>
                if h : stop < start then none
                else
                  some
                    { rangeKind := .HTTP_RANGE_CLOSED
                      range_start := start
                      range_end := stop
                      le := fun _ => not_lt.mp h }

inductive RangeResult
  | ignored
  | unsatisfiable
  | partialContent (rangeStart rangeEnd : ℕ)
deriving DecidableEq, Repr

def resolveByteRange (range : ByteRange) (representationSize : ℕ) : RangeResult :=
  if range.rangeKind = .HTTP_RANGE_NONE then .ignored
  else if representationSize = 0 then .unsatisfiable
  else
    match range.rangeKind with
    | .HTTP_RANGE_NONE => .ignored
    | .HTTP_RANGE_SUFFIX =>
      if range.range_start = 0 then .unsatisfiable
      else if representationSize ≤ range.range_start then
        .partialContent 0 (representationSize - 1)
      else .partialContent (representationSize - range.range_start) (representationSize - 1)
    | .HTTP_RANGE_OPEN_ENDED =>
      if representationSize ≤ range.range_start then .unsatisfiable
      else .partialContent range.range_start (representationSize - 1)
    | .HTTP_RANGE_CLOSED =>
      if representationSize ≤ range.range_start then .unsatisfiable
      else if representationSize ≤ range.range_end then
        .partialContent range.range_start (representationSize - 1)
      else .partialContent range.range_start range.range_end

/-- A range that is resolved lies within the representation. -/
theorem resolveByteRange_within {range : ByteRange} {size s e : ℕ}
    (h : resolveByteRange range size = .partialContent s e) : s ≤ e ∧ e < size := by
  have hle := range.le
  unfold resolveByteRange at h
  split at h
  · cases h
  · split at h
    · cases h
    · split at h
      · cases h
      · split at h
        · cases h
        · split at h <;> cases h <;> omega
      · split at h
        · cases h
        · cases h
          omega
      · rename_i hkind
        have := hle hkind
        split at h
        · cases h
        · split at h <;> cases h <;> omega

end AmmarServer.HeaderAnalysis
