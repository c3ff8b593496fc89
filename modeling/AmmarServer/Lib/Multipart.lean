import AmmarServer.Lib.HeaderFields
import AmmarServer.Lib.TextFiles

/-! A request that carries a form with a file, as the lines of its header and the parts of its body. -/

namespace Multipart
open Bytes CString HeaderFields

/-- The lines of a request, none of them blank, and the blank line behind them. -/
def IsHeader (block : List UInt8) : Prop :=
  ∃ fields, (∀ line ∈ fields, line ≠ [] ∧ line ≠ [CR]) ∧ lines block = fields ++ [[CR], []]

def crlf : List UInt8 := [CR, LF]

/-- What begins a line of the body that is no part of what it carries. -/
def delimiter (boundary : List UInt8) : List UInt8 := CR :: LF :: 45 :: 45 :: boundary

/-- A body of two parts. -/
structure TwoParts (boundary first second body : List UInt8) : Prop where
  body_eq : crlf ++ body = delimiter boundary ++ crlf ++ first ++ (delimiter boundary ++ crlf ++
    second ++ (delimiter boundary ++ [45, 45] ++ crlf))
  first_part : ¬delimiter boundary <:+: crlf ++ first
  second_part : ¬delimiter boundary <:+: crlf ++ second

/-- A name that can stand between quotes on a line. -/
def Quotable (name : List UInt8) : Prop := 34 ∉ name ∧ LF ∉ name

/-- A part that is a file. -/
structure IsFile (name filename contentType content part : List UInt8) : Prop where
  part_eq : part = ascii "Content-Disposition: form-data; name=\"" ++ name ++ ascii "\"; filename=\"" ++
    filename ++ ascii "\"\r\nContent-Type: " ++ contentType ++ ascii "\r\n\r\n" ++ content
  name_quotable : Quotable name
  filename_quotable : Quotable filename
  contentType_line : LF ∉ contentType

/-- A message of one header and a body of the length and with the boundary that it declares, of which the
first part is a file. -/
def Carries (name filename contentType content message : List UInt8) : Prop :=
  ∃ header body boundary first second, message = header ++ body ∧ IsHeader header ∧
    fieldValues header (ascii "Content-Length") = [TextFile.decimal body.length] ∧
    fieldValues header (ascii "Content-Type") = [ascii "multipart/form-data; boundary=" ++ boundary] ∧
    TwoParts boundary first second body ∧ IsFile name filename contentType content first

/-! Lines. -/

section Lines
variable {name line value rest block : List UInt8}

theorem lines_append (block rest : List UInt8) :
    lines (block ++ LF :: rest) = lines block ++ lines rest := List.splitOn_append_cons_self block rest

theorem fieldValues_append (block rest name : List UInt8) :
    fieldValues (block ++ LF :: rest) name = fieldValues block name ++ fieldValues rest name := by
  rw [fieldValues, lines_append, List.filterMap_append]
  rfl

/-- A line with one field, in front of others. -/
theorem fieldValues_line (h : LF ∉ line) (name rest : List UInt8) :
    fieldValues (line ++ LF :: rest) name = (fieldValue name line).toList ++ fieldValues rest name := by
  rw [fieldValues_append]
  congr 1
  rw [fieldValues, lines_of_no_LF h, List.filterMap_cons]
  cases fieldValue name line <;> rfl

theorem eqIgnoreCase_refl (s : List UInt8) : EqIgnoreCase s s := rfl

theorem fieldValue_self (name value : List UInt8) :
    fieldValue name (name ++ COLON :: value) = some (trim value) := by
  have htake : (name ++ COLON :: value).take name.length = name := List.take_left
  have hdrop : (name ++ COLON :: value).drop (name.length + 1) = value := by
    rw [List.drop_append, List.drop_eq_nil_of_le (Nat.le_succ _), Nat.add_sub_cancel_left]
    rfl
  rw [fieldValue, htake, hdrop, List.getElem?_append_right (Nat.le_refl _), Nat.sub_self,
    if_pos ⟨rfl, eqIgnoreCase_refl name⟩]

/-- A line is no field of a name if it has no colon behind so many bytes. -/
theorem fieldValue_eq_none (h : (line)[name.length]? ≠ some COLON) : fieldValue name line = none :=
  if_neg fun hfield => h hfield.1

/-- What stands between a space and the end of a line. -/
theorem trim_value (hhead : ∀ c ∈ value.head?, isBlank c = false)
    (hlast : ∀ c ∈ value.getLast?, isTrailing c = false) : trim (32 :: (value ++ [CR])) = value := by
  have hdrop : (32 :: (value ++ [CR])).dropWhile isBlank = value ++ [CR] := by
    cases value with
    | nil => rfl
    | cons c value =>
      have hc : isBlank c = false := hhead c rfl
      rw [List.dropWhile_cons_of_pos rfl, List.cons_append, List.dropWhile_cons_of_neg (by rw [hc]; decide)]
  rw [trim, hdrop, List.rdropWhile_concat_pos _ _ _ rfl]
  cases hvalue : value.getLast? with
  | none =>
    rw [List.getLast?_eq_none_iff.mp hvalue]
    rfl
  | some c =>
    rw [List.rdropWhile_eq_self_iff]
    intro hne
    rw [List.getLast?_eq_some_getLast hne] at hlast
    rw [hlast _ rfl]
    decide

end Lines

/-! Delimiters. -/

section Delimiters
variable {boundary s rest : List UInt8}

/-- A delimiter that does not begin on one line begins on the next one. -/
theorem delimiter_append (h : delimiter boundary <:+: s ++ CR :: rest) (hboundary : CR ∉ boundary) :
    delimiter boundary <:+: s ∨ delimiter boundary <:+: CR :: rest := by
  induction s with
  | nil => exact .inr h
  | cons c s ih =>
    rw [List.cons_append, List.infix_cons_iff] at h
    rcases h with hleading | hwithin
    · -- it ends before the CR that follows, as it has none behind its first byte
      have hle : (delimiter boundary).length ≤ (c :: s).length := by
        by_contra hlong
        have hplace : s.length + 1 < (delimiter boundary).length := Nat.lt_of_not_le hlong
        have hbyte := hleading.getElem hplace
        rw [List.getElem_cons_succ, List.getElem_append_right (Nat.le_refl _)] at hbyte
        simp only [Nat.sub_self, List.getElem_cons_zero] at hbyte
        have hmem : CR ∈ LF :: 45 :: 45 :: boundary := by
          rw [← hbyte]
          exact List.getElem_mem (l := LF :: 45 :: 45 :: boundary) (Nat.lt_of_succ_lt_succ hplace)
        rw [List.mem_cons, List.mem_cons, List.mem_cons] at hmem
        rcases hmem with h | h | h | h
        · cases h
        · cases h
        · cases h
        · exact hboundary h
      left
      rw [← List.cons_append] at hleading
      exact (List.prefix_of_prefix_length_le hleading (List.prefix_append _ _) hle).isInfix
    · exact (ih hwithin).imp_left List.infix_cons

/-- A line that begins otherwise has no delimiter. -/
theorem not_delimiter_line {c : UInt8} (hc : c ≠ 45) (hs : LF ∉ c :: s) :
    ¬delimiter boundary <:+: crlf ++ c :: s := by
  intro h
  rw [crlf, List.cons_append, List.cons_append, List.nil_append, List.infix_cons_iff] at h
  rcases h with hleading | hwithin
  · obtain ⟨-, hleading⟩ := List.cons_prefix_cons.mp hleading
    obtain ⟨-, hleading⟩ := List.cons_prefix_cons.mp hleading
    exact hc (List.cons_prefix_cons.mp hleading).1.symm
  · rw [List.infix_cons_iff] at hwithin
    rcases hwithin with hleading | hwithin
    · exact absurd (List.cons_prefix_cons.mp hleading).1 (by decide)
    · exact hs (hwithin.subset (List.mem_cons_of_mem _ List.mem_cons_self))

end Delimiters

end Multipart
