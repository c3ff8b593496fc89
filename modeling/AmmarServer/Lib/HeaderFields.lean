import AmmarServer.Lib.Bytes
import AmmarServer.Lib.CString
import Mathlib.Data.List.DropRight

/-! Header fields read off the lines of a block, independently of any program that reads them. -/

namespace HeaderFields
open Bytes CString

def COLON : UInt8 := 58
def COMMA : UInt8 := 44
def SEMICOLON : UInt8 := 59

/-- Space or tab. -/
def isBlank (c : UInt8) : Bool := c == 32 || c == 9

/-- What a line may end in behind its last visible byte. -/
def isTrailing (c : UInt8) : Bool := c == CR || isBlank c

def trim (s : List UInt8) : List UInt8 := (s.dropWhile isBlank).rdropWhile isTrailing

/-- The lines of a block; the CR in front of a line's LF stays with the line. -/
def lines (block : List UInt8) : List (List UInt8) := block.splitOn LF

/-- The value of a line `name: value`. -/
def fieldValue (name line : List UInt8) : Option (List UInt8) :=
  if (line)[name.length]? = some COLON ∧ EqIgnoreCase (line.take name.length) name then
    some (trim (line.drop (name.length + 1)))
  else none

/-- The values of the fields called `name`, in the order of their lines. -/
def fieldValues (block name : List UInt8) : List (List UInt8) :=
  (lines block).filterMap (fieldValue name)

/-- The number the digits of `s` denote, read behind `acc`. -/
def decimalNumber (acc : Nat) : List UInt8 → Nat
  | [] => acc
  | c :: s => decimalNumber (acc * 10 + digitValue c) s

/-- A plain decimal number has a digit and nothing else. -/
def decimalValue (s : List UInt8) : Option Nat :=
  if s ≠ [] ∧ s.all isDigit then some (decimalNumber 0 s) else none

/-- The names in a comma separated list of codings, without their parameters. -/
def codings (value : List UInt8) : List (List UInt8) :=
  ((value.splitOn COMMA).map fun c => trim (c.takeWhile (· ≠ SEMICOLON))).filter (· ≠ [])

theorem lines_of_no_LF {line : List UInt8} (h : LF ∉ line) : lines line = [line] :=
  List.splitOn_eq_singleton h

theorem lines_append_LF {line rest : List UInt8} (h : LF ∉ line) :
    lines (line ++ LF :: rest) = line :: lines rest :=
  List.splitOn_append_cons_self_of_not_mem h rest

/-- A block is its first line, and behind that nothing or an LF and the other lines. -/
theorem first_line_cases (block : List UInt8) :
    ∃ text, block.takeWhile (· ≠ LF) = text ∧ LF ∉ text ∧
      (block = text ∨ ∃ next, block = text ++ LF :: next) := by
  refine ⟨_, rfl, ?_, ?_⟩
  · intro hmem
    simpa using List.mem_takeWhile_imp hmem
  · have hsplit := List.takeWhile_append_dropWhile (p := (· ≠ LF)) (l := block)
    have hhead := List.head?_dropWhile_not (· ≠ LF) block
    cases hrest : block.dropWhile (· ≠ LF) with
    | nil =>
      rw [hrest, List.append_nil] at hsplit
      exact .inl hsplit.symm
    | cons c next =>
      rw [hrest] at hsplit hhead
      obtain rfl : c = LF := by simpa using hhead
      exact .inr ⟨next, hsplit.symm⟩

theorem fieldValue_nil (name : List UInt8) : fieldValue name [] = none := by simp [fieldValue]

theorem decimalNumber_ge (acc : Nat) (s : List UInt8) : acc ≤ decimalNumber acc s := by
  induction s generalizing acc with
  | nil => exact le_rfl
  | cons c s ih =>
    have hstep : acc ≤ acc * 10 + digitValue c := by omega
    exact hstep.trans (ih _)

theorem decimalValue_eq_some_iff {s : List UInt8} {n : Nat} :
    decimalValue s = some n ↔ s ≠ [] ∧ s.all isDigit ∧ decimalNumber 0 s = n := by
  unfold decimalValue
  split <;> simp_all

end HeaderFields
