import AmmarServer.Lib.HeaderFields
import AmmarServer.Threads.ApiProtocol

/-! What the API framer decides about a header block, compared with all the fields in it. -/

namespace AmmarServer.ApiProtocol
open Bytes CString HeaderFields

/-! ## A lookup finds the first field of its name -/

theorem headerValue_append {text rest : List UInt8} {nameLength : Nat}
    (hname : nameLength + 1 ≤ text.length) (hrest : ∀ c ∈ rest.head?, c = LF) :
    ∃ behind, headerValue (text ++ rest) text.length nameLength =
        (trim (text.drop (nameLength + 1)) ++ behind,
          (trim (text.drop (nameLength + 1))).length) ∧
      ∀ c ∈ behind.head?, isTrailing c ∨ c = LF := by
  set b := text.drop (nameLength + 1) with hb
  set w := b.takeWhile isBlank with hw
  set v := b.dropWhile isBlank with hv
  have hwv : w ++ v = b := List.takeWhile_append_dropWhile
  have htrail : trim b ++ v.rtakeWhile isTrailing = v := List.rdropWhile_append_rtakeWhile ..
  have hdrop : (text ++ rest).drop (nameLength + 1 + w.length) = v ++ rest := by
    rw [← List.drop_drop, List.drop_append_of_le_length hname, ← hb, ← hwv, List.append_assoc,
      List.drop_left]
  have hbv : b.drop w.length = v := by rw [← hwv, List.drop_left]
  refine ⟨v.rtakeWhile isTrailing ++ rest, ?_, ?_⟩
  · unfold headerValue
    rw [List.take_left]
    refine Prod.ext ?_ ?_
    · exact hdrop.trans (by rw [← List.append_assoc, htrail])
    · exact congrArg (fun l => (l.rdropWhile isTrailing).length) hbv
  · intro c hc
    cases ht : v.rtakeWhile isTrailing with
    | nil =>
      rw [ht, List.nil_append] at hc
      exact .inr (hrest c hc)
    | cons d t =>
      rw [ht, List.cons_append] at hc
      obtain rfl : d = c := by simpa using hc
      exact .inl (List.mem_rtakeWhile_imp (ht ▸ List.mem_cons_self ..))

/-- The code's test of a line is the one that makes it a field. -/
theorem isMatch_iff (text rest : List UInt8) {headerName : List UInt8} (hnul : ∀ c ∈ headerName, c ≠ 0) :
    (text.length > headerName.length ∧ (text ++ rest)[headerName.length]? = some 58 ∧
      strncasecmpEq (text ++ rest) headerName headerName.length = true) ↔
    text[headerName.length]? = some COLON ∧
      EqIgnoreCase (text.take headerName.length) headerName := by
  rw [strncasecmpEq_iff hnul]
  by_cases hlen : headerName.length < text.length
  · rw [List.getElem?_append_left hlen, List.take_append_of_le_length hlen.le]
    simp [hlen, COLON]
  · have hnone : text[headerName.length]? = none := List.getElem?_eq_none (Nat.le_of_not_lt hlen)
    simp [hlen]

/-- What a lookup hands back, when `values` are the values of all the fields of that name. -/
def IsFirst (lookup : Option (List UInt8 × Nat)) (values : List (List UInt8)) : Prop :=
  match lookup with
  | none => values = []
  | some (value, valueLength) => ∃ v vs behind, values = v :: vs ∧ value = v ++ behind ∧
      valueLength = v.length ∧ ∀ c ∈ behind.head?, isTrailing c ∨ c = LF

theorem isFirst_headerValue {text headerName : List UInt8} (rest : List UInt8) {vs : List (List UInt8)}
    (hcolon : text[headerName.length]? = some COLON) (hrest : ∀ c ∈ rest.head?, c = LF) :
    IsFirst (some (headerValue (text ++ rest) text.length headerName.length))
      (trim (text.drop (headerName.length + 1)) :: vs) := by
  have hlen : headerName.length < text.length := (List.getElem?_eq_some_iff.mp hcolon).1
  obtain ⟨behind, hvalue, hbehind⟩ := headerValue_append hlen hrest
  rw [hvalue]
  exact ⟨_, vs, behind, rfl, rfl, rfl, hbehind⟩

theorem apiRequestHeaderLoop_isFirst {headerName : List UInt8} (hnul : ∀ c ∈ headerName, c ≠ 0)
    (fuel : Nat) (line : List UInt8) (hfuel : line.length < fuel) :
    IsFirst (apiRequestHeaderLoop headerName fuel line) (fieldValues line headerName) := by
  induction fuel generalizing line with
  | zero => exact absurd hfuel (Nat.not_lt_zero _)
  | succ fuel ih =>
    rw [apiRequestHeaderLoop]
    by_cases hnil : line = []
    · subst hnil
      simp [IsFirst, fieldValues, lines, List.splitOn_nil, fieldValue_nil]
    rw [if_neg hnil]
    obtain ⟨text, htake, htext, hline⟩ := first_line_cases line
    simp only [htake]
    rcases hline with rfl | ⟨next, rfl⟩
    · have hmatch := isMatch_iff line [] hnul
      rw [List.append_nil] at hmatch
      by_cases hm : (line)[headerName.length]? = some COLON ∧
          EqIgnoreCase (line.take headerName.length) headerName
      · rw [if_pos (hmatch.mpr hm), fieldValues, lines_of_no_LF htext, List.filterMap_cons,
          fieldValue, if_pos hm]
        simpa using isFirst_headerValue [] hm.1 (by simp)
      · rw [if_neg (mt hmatch.mp hm), fieldValues, lines_of_no_LF htext, List.filterMap_cons,
          fieldValue, if_neg hm, List.drop_length]
        rfl
    · have hmatch := isMatch_iff text (LF :: next) hnul
      by_cases hm : text[headerName.length]? = some COLON ∧
          EqIgnoreCase (text.take headerName.length) headerName
      · rw [if_pos (hmatch.mpr hm), fieldValues, lines_append_LF htext, List.filterMap_cons,
          fieldValue, if_pos hm]
        exact isFirst_headerValue _ hm.1 (by simp)
      · rw [if_neg (mt hmatch.mp hm), fieldValues, lines_append_LF htext, List.filterMap_cons,
          fieldValue, if_neg hm, List.drop_left]
        refine ih next ?_
        simp only [List.length_append, List.length_cons] at hfuel
        omega

theorem apiRequestHeader_isFirst (headers : List UInt8) {headerName : List UInt8}
    (hnul : ∀ c ∈ headerName, c ≠ 0) :
    IsFirst (apiRequestHeader headers headerName) (fieldValues headers headerName) :=
  apiRequestHeaderLoop_isFirst hnul _ headers (Nat.lt_succ_self _)

/-! ## The two framing decisions -/

def identity : List UInt8 := ascii "identity"

theorem identity_stop {behind : List UInt8} (h : ∀ c ∈ behind.head?, isTrailing c ∨ c = LF) :
    ∀ c ∈ behind.head?, toLower c ∉ identity.map toLower := by
  have hall : ∀ d ∈ [CR, 32, 9, LF], toLower d ∉ identity.map toLower := by decide +kernel
  intro c hc
  apply hall
  rcases h c hc with h | rfl
  · have h : c = CR ∨ c = 32 ∨ c = 9 := by simpa [isTrailing, isBlank] using h
    rcases h with rfl | rfl | rfl <;> decide
  · decide

theorem transferEncodingRefusal_eq_none_iff {lookup : Option (List UInt8 × Nat)}
    {values : List (List UInt8)} (h : IsFirst lookup values) :
    transferEncodingRefusal lookup = none ↔
      ∀ v ∈ values.head?, v ≠ [] → EqIgnoreCase (v.take 8) identity := by
  match lookup, h with
  | none, h =>
    obtain rfl : values = [] := h
    simp [transferEncodingRefusal]
  | some (value, valueLength), ⟨v, vs, behind, hv, hvalue, hlength, hbehind⟩ =>
    subst hv hvalue hlength
    have hcmp : strncasecmpEq (v ++ behind) (ascii "identity") 8 = true ↔
        EqIgnoreCase (v.take 8) identity :=
      strncasecmpEq_append_iff (t := identity) (by decide +kernel) (identity_stop hbehind)
    have hpos : v.length > 0 ↔ v ≠ [] := List.length_pos_iff
    simp only [transferEncodingRefusal, hcmp, hpos, List.head?_cons,
      Option.mem_some_iff, forall_eq']
    by_cases h1 : v = [] <;> by_cases h2 : EqIgnoreCase (v.take 8) identity <;> simp [h1, h2]

theorem contentLengthDigits_eq_ok_iff (s : List UInt8) (acc n : Nat) :
    contentLengthDigits s acc = .ok n ↔
      s.all isDigit ∧ decimalNumber acc s = n ∧ (s = [] ∨ n ≤ API_MAX_REQUEST_SIZE) := by
  induction s generalizing acc with
  | nil => simp [contentLengthDigits, decimalNumber]
  | cons c s ih =>
    have hge := decimalNumber_ge (acc * 10 + digitValue c) s
    rw [contentLengthDigits, decimalNumber, List.all_cons]
    by_cases hc : c < 48 ∨ c > 57
    · have hdigit : isDigit c = false := by
        simpa [isDigit, or_iff_not_imp_left] using hc
      rw [if_pos hc, hdigit]
      simp
    · have hdigit : isDigit c = true := by
        simpa [isDigit, not_or] using hc
      rw [if_neg hc, hdigit, Bool.true_and]
      by_cases hbig : acc * 10 + digitValue c > API_MAX_REQUEST_SIZE
      · rw [if_pos hbig]
        refine iff_of_false (fun h => nomatch h) ?_
        rintro ⟨_, hn, hnil | hle⟩
        · exact List.cons_ne_nil _ _ hnil
        · omega
      · rw [if_neg hbig, ih]
        refine and_congr_right fun _ => and_congr_right fun hn => ⟨?_, ?_⟩
        · rintro (rfl | h)
          · rw [decimalNumber] at hn
            exact .inr (by omega)
          · exact .inr h
        · rintro (h | h)
          · exact absurd h (List.cons_ne_nil _ _)
          · exact .inr h

theorem contentLengthOf_eq {lookup : Option (List UInt8 × Nat)} {values : List (List UInt8)}
    (h : IsFirst lookup values) :
    contentLengthOf lookup = contentLengthDigits (values.headD []) 0 := by
  match lookup, h with
  | none, h =>
    obtain rfl : values = [] := h
    rfl
  | some (value, valueLength), ⟨v, vs, behind, hv, hvalue, hlength, _⟩ =>
    subst hv hvalue hlength
    rw [contentLengthOf, List.take_left, List.headD_cons]
    by_cases hnil : v = []
    · subst hnil
      rfl
    · rw [if_pos (List.length_pos_iff.mpr hnil)]

/-! ## Ambiguous header blocks -/

def transferEncodings (block : List UInt8) : List (List UInt8) :=
  fieldValues block (ascii "Transfer-Encoding")

def contentLengths (block : List UInt8) : List (List UInt8) :=
  fieldValues block (ascii "Content-Length")

def OnlyIdentity (block : List UInt8) : Prop :=
  ∀ v ∈ transferEncodings block, ∀ coding ∈ codings v, EqIgnoreCase coding identity

/-- All fields that announce a length announce `n`, and without one `n` is 0. -/
structure Unambiguous (block : List UInt8) (n : Nat) : Prop where
  contentLength : ∀ v ∈ contentLengths block, decimalValue v = some n
  none : contentLengths block = [] → n = 0
  transferEncoding : OnlyIdentity block

/-- The header block of the request at `offset`. -/
def headerBlock (buf : List UInt8) (offset : Nat) : Option (List UInt8) :=
  (findRequestHeaderEnd (buf.drop offset)).map (buf.drop offset).take

/-- An accepted block announces the length it was framed with, and a block that announces no single
length is refused. -/
def RefusesAmbiguity (buf : List UInt8) (offset : Nat) : Prop :=
  ∀ block ∈ headerBlock buf offset,
    ((nextFrame buf offset).1 = .ready → Unambiguous block (nextFrame buf offset).2.bodyLength) ∧
    ((∀ n, ¬ Unambiguous block n) → (nextFrame buf offset).1 = .refused)

/-- The first Transfer-Encoding line has a value that does not begin with the name of the identity
coding. -/
def FirstCodingRefused (block : List UInt8) : Prop :=
  ∃ v ∈ (transferEncodings block).head?, v ≠ [] ∧ ¬ EqIgnoreCase (v.take 8) identity

/-- The first Content-Length line has a value that is no number or too large a one. -/
def FirstLengthRefused (block : List UInt8) : Prop :=
  ∃ v ∈ (contentLengths block).head?, v ≠ [] ∧
    ∀ n ∈ decimalValue v, API_MAX_REQUEST_SIZE < n

theorem transferEncodingRefusal_lookup (block : List UInt8) :
    transferEncodingRefusal (apiRequestHeader block (ascii "Transfer-Encoding")) = none ↔
      ¬ FirstCodingRefused block := by
  have hname : ∀ c ∈ ascii "Transfer-Encoding", c ≠ 0 := by decide +kernel
  rw [transferEncodingRefusal_eq_none_iff (apiRequestHeader_isFirst block hname)]
  simp [FirstCodingRefused, transferEncodings]

/-- No Content-Length line and one without a value both mean 0. -/
theorem contentLengthOf_lookup (block : List UInt8) (n : Nat) :
    contentLengthOf (apiRequestHeader block (ascii "Content-Length")) = .ok n ↔
      if (contentLengths block).headD [] = [] then n = 0
      else decimalValue ((contentLengths block).headD []) = some n ∧ n ≤ API_MAX_REQUEST_SIZE := by
  have hname : ∀ c ∈ ascii "Content-Length", c ≠ 0 := by decide +kernel
  rw [contentLengthOf_eq (apiRequestHeader_isFirst block hname), contentLengthDigits_eq_ok_iff,
    ← contentLengths]
  split
  · rename_i hnil
    rw [hnil, decimalNumber]
    simp [eq_comm]
  · rename_i hnil
    rw [decimalValue_eq_some_iff]
    simp only [hnil, false_or, ne_eq, not_false_eq_true, true_and, and_assoc]

theorem contentLengthOf_lookup_error (block : List UInt8) :
    (∀ n, contentLengthOf (apiRequestHeader block (ascii "Content-Length")) ≠ .ok n) ↔
      FirstLengthRefused block := by
  simp only [ne_eq, contentLengthOf_lookup, FirstLengthRefused]
  cases contentLengths block with
  | nil => simp
  | cons v vs =>
    rw [List.headD_cons, List.head?_cons]
    by_cases hnil : v = []
    · simp [hnil]
    · simp [hnil]

/-- What is left of `nextFrame` once there is a block. -/
theorem nextFrame_refused_iff {buf block : List UInt8} {offset : Nat}
    (hblock : block ∈ headerBlock buf offset) :
    (nextFrame buf offset).1 = .refused ↔
      FirstCodingRefused block ∨ FirstLengthRefused block := by
  rw [← contentLengthOf_lookup_error]
  obtain ⟨headerEnd, hend, rfl⟩ := Option.map_eq_some_iff.mp hblock
  have hoffset : ¬ offset ≥ buf.length := by
    intro h
    rw [List.drop_of_length_le h] at hend
    cases hend
  rw [nextFrame, if_neg hoffset]
  simp only [hend]
  cases hte : transferEncodingRefusal (apiRequestHeader ((buf.drop offset).take headerEnd)
      (ascii "Transfer-Encoding")) with
  | some status =>
    have hrefused : FirstCodingRefused ((buf.drop offset).take headerEnd) := by
      by_contra hcon
      rw [(transferEncodingRefusal_lookup _).mpr hcon] at hte
      cases hte
    simp [hrefused]
  | none =>
    have hpass := (transferEncodingRefusal_lookup _).mp hte
    cases contentLengthOf (apiRequestHeader ((buf.drop offset).take headerEnd)
        (ascii "Content-Length")) with
    | error status => simp
    | ok bodyLength =>
      simp only [hpass, false_or]
      split <;> simp

theorem nextFrame_ready {buf block : List UInt8} {offset : Nat}
    (hblock : block ∈ headerBlock buf offset) (h : (nextFrame buf offset).1 = .ready) :
    ¬ FirstCodingRefused block ∧
      contentLengthOf (apiRequestHeader block (ascii "Content-Length")) =
        .ok (nextFrame buf offset).2.bodyLength := by
  obtain ⟨headerEnd, hend, rfl⟩ := Option.map_eq_some_iff.mp hblock
  unfold nextFrame at h ⊢
  split at h
  · cases h
  rename_i hoffset
  rw [if_neg hoffset]
  simp only [hend] at h ⊢
  cases hte : transferEncodingRefusal (apiRequestHeader ((buf.drop offset).take headerEnd)
      (ascii "Transfer-Encoding")) with
  | some status =>
    rw [hte] at h
    cases h
  | none =>
    refine ⟨(transferEncodingRefusal_lookup _).mp hte, ?_⟩
    rw [hte] at h
    cases hcl : contentLengthOf (apiRequestHeader ((buf.drop offset).take headerEnd)
        (ascii "Content-Length")) with
    | error status =>
      rw [hcl] at h
      cases h
    | ok bodyLength =>
      rw [hcl] at h
      simp only at h ⊢
      split at h
      · cases h
      · rename_i hroom
        rw [if_neg hroom]

/-- What the lookups do not see agrees with what they see: every Content-Length line has the number
of the first one, and no Transfer-Encoding line, nor the rest of the first one's list, names another
coding. -/
def LaterFieldsAgree (block : List UInt8) : Prop :=
  OnlyIdentity block ∧ ∀ v ∈ contentLengths block, (decimalValue v).isSome ∧
    ∀ w ∈ (contentLengths block).head?, decimalValue v = decimalValue w

theorem exists_unambiguous_iff (block : List UInt8) :
    (∃ n, Unambiguous block n) ↔ LaterFieldsAgree block := by
  constructor
  · rintro ⟨n, hlength, _, hcoding⟩
    refine ⟨hcoding, fun v hv => ⟨by rw [hlength v hv]; rfl, fun w hw => ?_⟩⟩
    rw [hlength v hv, hlength w (List.mem_of_mem_head? hw)]
  · rintro ⟨hcoding, hlength⟩
    cases hvalues : contentLengths block with
    | nil => exact ⟨0, by simp [hvalues], fun _ => rfl, hcoding⟩
    | cons w ws =>
      have hw := hlength w (by rw [hvalues]; exact List.mem_cons_self ..)
      obtain ⟨n, hn⟩ := Option.isSome_iff_exists.mp hw.1
      refine ⟨n, fun v hv => ?_, fun hnil => ?_, hcoding⟩
      · rw [(hlength v hv).2 w (by rw [hvalues]; rfl), hn]
      · rw [hvalues] at hnil
        cases hnil

theorem unambiguous_of_ready {buf block : List UInt8} {offset : Nat}
    (hblock : block ∈ headerBlock buf offset) (hready : (nextFrame buf offset).1 = .ready)
    {n : Nat} (h : Unambiguous block n) :
    Unambiguous block (nextFrame buf offset).2.bodyLength := by
  have hlength := (contentLengthOf_lookup block _).mp (nextFrame_ready hblock hready).2
  suffices hn : n = (nextFrame buf offset).2.bodyLength by exact hn ▸ h
  cases hvalues : contentLengths block with
  | nil =>
    rw [hvalues, List.headD_nil, if_pos rfl] at hlength
    rw [h.none hvalues, hlength]
  | cons v vs =>
    have hv := h.contentLength v (by rw [hvalues]; exact List.mem_cons_self ..)
    have hne : v ≠ [] := (decimalValue_eq_some_iff.mp hv).1
    rw [hvalues, List.headD_cons, if_neg hne, hv] at hlength
    exact Option.some.inj hlength.1

/-- The framer looks at the first field of each name only, so it meets its promise exactly on the
blocks where that field alone is refused or the others agree with it. -/
theorem refusesAmbiguity_iff (buf : List UInt8) (offset : Nat) :
    RefusesAmbiguity buf offset ↔ ∀ block ∈ headerBlock buf offset,
      FirstCodingRefused block ∨ FirstLengthRefused block ∨ LaterFieldsAgree block := by
  refine forall₂_congr fun block hblock => ?_
  have hrefused := nextFrame_refused_iff hblock
  constructor
  · rintro ⟨_, hambiguous⟩
    by_cases hagree : LaterFieldsAgree block
    · exact .inr (.inr hagree)
    · have hnone : ∀ n, ¬ Unambiguous block n := fun n hn =>
        hagree ((exists_unambiguous_iff block).mp ⟨n, hn⟩)
      exact (hrefused.mp (hambiguous hnone)).imp_right .inl
  · intro h
    rw [← or_assoc, ← hrefused, ← exists_unambiguous_iff] at h
    rcases h with hres | ⟨n, hn⟩
    · exact ⟨fun hready => absurd (hready.symm.trans hres) (by decide), fun _ => hres⟩
    · exact ⟨fun hready => unambiguous_of_ready hblock hready hn, fun hnone => absurd hn (hnone n)⟩

def twoLengths : List UInt8 :=
  ascii "POST / HTTP/1.1\r\nContent-Length: 5\r\nContent-Length: 6\r\n\r\nhello"

/-- Two different lengths: the first one is taken, the second is not seen. -/
theorem twoLengths_accepted : ¬ RefusesAmbiguity twoLengths 0 := by
  intro h
  obtain ⟨hready, _⟩ := h (twoLengths.take 57) (by decide)
  have hsix := (hready (by decide)).contentLength (ascii "6") (by decide)
  exact absurd hsix (by decide)

end AmmarServer.ApiProtocol
