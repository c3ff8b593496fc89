import AmmarServer.Lib.Pipeline
import AmmarServer.Threads.ApiProtocol

/-! The requests in the bytes of a connection. Where one starts does not depend on how much has been
received behind it. -/

namespace AmmarServer.ApiProtocol
open Bytes

theorem findRequestHeaderEnd_le {s : List UInt8} {n : Nat} (h : findRequestHeaderEnd s = some n) :
    n ≤ s.length := by
  induction s generalizing n with
  | nil => cases h
  | cons a s ih =>
    cases s with
    | nil => cases h
    | cons b rest =>
      rw [findRequestHeaderEnd] at h
      split_ifs at h with hlf hcrlf
      · obtain rfl := Option.some.inj h
        simp
      · obtain rfl := Option.some.inj h
        exact hcrlf.length_le
      · obtain ⟨m, hm, rfl⟩ := Option.map_eq_some_iff.mp h
        exact Nat.succ_le_succ (ih hm)

theorem findRequestHeaderEnd_pos {s : List UInt8} {n : Nat} (h : findRequestHeaderEnd s = some n) :
    0 < n := by
  match s, h with
  | a :: b :: rest, h =>
    rw [findRequestHeaderEnd] at h
    split_ifs at h with hlf hcrlf
    · obtain rfl := Option.some.inj h
      exact Nat.zero_lt_two
    · obtain rfl := Option.some.inj h
      exact Nat.zero_lt_succ 3
    · obtain ⟨m, _, rfl⟩ := Option.map_eq_some_iff.mp h
      exact Nat.succ_pos m

theorem findRequestHeaderEnd_append {s : List UInt8} {n : Nat}
    (h : findRequestHeaderEnd s = some n) (t : List UInt8) :
    findRequestHeaderEnd (s ++ t) = some n := by
  induction s generalizing n with
  | nil => cases h
  | cons a s ih =>
    cases s with
    | nil => cases h
    | cons b rest =>
      rw [findRequestHeaderEnd] at h
      rw [List.cons_append, List.cons_append, findRequestHeaderEnd]
      split_ifs at h with hlf hcrlf
      · rw [if_pos hlf, h]
      · have hmore : [CR, LF, CR, LF] <+: a :: b :: (rest ++ t) :=
          hcrlf.trans (List.prefix_append (a :: b :: rest) t)
        rw [if_neg hlf, if_pos hmore, h]
      · obtain ⟨m, hm, rfl⟩ := Option.map_eq_some_iff.mp h
        have hnot : ¬ [CR, LF, CR, LF] <+: a :: b :: (rest ++ t) := by
          intro hmore
          -- a terminator that is cut off leaves no room for one behind it
          match rest, hm, hcrlf, hmore with
          | [], hm, _, _ => simp [findRequestHeaderEnd] at hm
          | [c], hm, _, hmore =>
            simp only [List.cons_append, List.nil_append, List.cons_prefix_cons] at hmore
            obtain ⟨_, rfl, rfl, _⟩ := hmore
            have hne : CR ≠ LF := by decide
            simp [findRequestHeaderEnd, hne] at hm
          | c :: d :: rest, _, hcrlf, hmore =>
            simp only [List.cons_append, List.cons_prefix_cons, List.nil_prefix, and_true]
              at hmore hcrlf
            exact hcrlf hmore
        have ih := ih hm
        rw [List.cons_append] at ih
        rw [if_neg hlf, if_neg hnot, ih, Option.map_some]

/-- A terminator is found in any buffer that holds it. -/
theorem findRequestHeaderEnd_cut {s t : List UInt8} {n : Nat}
    (h : findRequestHeaderEnd (s ++ t) = some n) (hn : n ≤ s.length) :
    findRequestHeaderEnd s = some n := by
  induction s generalizing n with
  | nil =>
    have hpos := findRequestHeaderEnd_pos h
    rw [List.length_nil] at hn
    omega
  | cons a s ih =>
    cases s with
    | nil =>
      cases t with
      | nil => exact h
      | cons b t =>
        rw [List.singleton_append, findRequestHeaderEnd] at h
        rw [List.length_singleton] at hn
        split_ifs at h with hlf hcrlf
        · obtain rfl := Option.some.inj h
          omega
        · obtain rfl := Option.some.inj h
          omega
        · obtain ⟨m, hm, rfl⟩ := Option.map_eq_some_iff.mp h
          have hpos := findRequestHeaderEnd_pos hm
          omega
    | cons b rest =>
      rw [List.cons_append, List.cons_append, findRequestHeaderEnd] at h
      rw [findRequestHeaderEnd]
      split_ifs at h with hlf hcrlf
      · rw [if_pos hlf, h]
      · obtain rfl := Option.some.inj h
        have hcrlf : [CR, LF, CR, LF] <+: a :: b :: rest := by
          have hroom : [CR, LF, CR, LF].length ≤ (a :: b :: rest).length := hn
          exact (List.isPrefix_append_of_length hroom).mp hcrlf
        rw [if_neg hlf, if_pos hcrlf]
      · obtain ⟨m, hm, rfl⟩ := Option.map_eq_some_iff.mp h
        have hnot : ¬ [CR, LF, CR, LF] <+: a :: b :: rest :=
          fun hcon => hcrlf (hcon.trans (List.prefix_append (a :: b :: rest) t))
        rw [if_neg hlf, if_neg hnot, ih hm (Nat.le_of_succ_le_succ hn), Option.map_some]

/-- The length of a request's body, or the status it is refused with. -/
def bodyLengthOf (block : List UInt8) : Except Nat Nat :=
  match transferEncodingRefusal (apiRequestHeader block (CString.ascii "Transfer-Encoding")) with
  | some status => .error status
  | none => contentLengthOf (apiRequestHeader block (CString.ascii "Content-Length"))

theorem nextFrame_eq (buf : List UInt8) (offset : Nat) :
    nextFrame buf offset =
      match findRequestHeaderEnd (buf.drop offset) with
      | none => (.incomplete, {})
      | some headerEnd =>
        match bodyLengthOf ((buf.drop offset).take headerEnd) with
        | .error status => (.refused, {
            request := offset
            headerEnd := headerEnd
            refuseStatus := status })
        | .ok bodyLength =>
          if (buf.drop offset).length < headerEnd + bodyLength then
            (.incomplete, { request := offset, headerEnd := headerEnd })
          else (.ready, {
            request := offset
            headerEnd := headerEnd
            bodyLength := bodyLength
            totalLength := headerEnd + bodyLength
            keepAlive := frameKeepAlive ((buf.drop offset).take headerEnd) }) := by
  unfold nextFrame bodyLengthOf
  split
  · rename_i hend
    rw [List.drop_of_length_le hend]
    rfl
  · simp only
    cases findRequestHeaderEnd (buf.drop offset) with
    | none => rfl
    | some headerEnd =>
      simp only
      cases transferEncodingRefusal (apiRequestHeader ((buf.drop offset).take headerEnd)
        (CString.ascii "Transfer-Encoding")) <;> rfl

/-- A request of which more has to arrive says nothing; of any other, more bytes say the same. -/
theorem nextFrame_append {buf : List UInt8} {offset : Nat}
    (h : (nextFrame buf offset).1 ≠ .incomplete) (t : List UInt8) :
    nextFrame (buf ++ t) offset = nextFrame buf offset := by
  rw [nextFrame_eq] at h ⊢
  rw [nextFrame_eq buf]
  cases hend : findRequestHeaderEnd (buf.drop offset) with
  | none =>
    rw [hend] at h
    exact absurd rfl h
  | some headerEnd =>
    have hpos := findRequestHeaderEnd_pos hend
    have hle := findRequestHeaderEnd_le hend
    rw [List.length_drop] at hle
    rw [hend] at h
    rw [List.drop_append_of_le_length (by omega), findRequestHeaderEnd_append hend t]
    simp only at h ⊢
    rw [List.take_append_of_le_length (by rw [List.length_drop]; exact hle)]
    cases hbody : bodyLengthOf ((buf.drop offset).take headerEnd) with
    | error status => rfl
    | ok bodyLength =>
      rw [hbody] at h
      simp only at h ⊢
      have hroom : ¬ (buf.drop offset).length < headerEnd + bodyLength := by
        intro hlt
        rw [if_pos hlt] at h
        exact absurd rfl h
      have hroom' : ¬ (buf.drop offset ++ t).length < headerEnd + bodyLength := by
        rw [List.length_append]
        omega
      rw [if_neg hroom, if_neg hroom']

theorem nextFrame_append_ready {buf : List UInt8} (h : (nextFrame buf 0).1 = .ready)
    (t : List UInt8) : nextFrame (buf ++ t) 0 = nextFrame buf 0 := by
  apply nextFrame_append
  rw [h]
  decide

/-- What is said of a request that a buffer holds whole does not take the bytes behind it. -/
theorem nextFrame_cut {buf t : List UInt8} {headerEnd : Nat}
    (hend : findRequestHeaderEnd (buf ++ t) = some headerEnd) (hle : headerEnd ≤ buf.length)
    (hbody : ∀ bodyLength, bodyLengthOf (buf.take headerEnd) = .ok bodyLength →
      headerEnd + bodyLength ≤ buf.length) :
    nextFrame buf 0 = nextFrame (buf ++ t) 0 := by
  rw [nextFrame_eq, nextFrame_eq]
  simp only [List.drop_zero]
  rw [hend, findRequestHeaderEnd_cut hend hle]
  simp only
  rw [List.take_append_of_le_length hle]
  cases hlength : bodyLengthOf (buf.take headerEnd) with
  | error status => rfl
  | ok bodyLength =>
    have hroom := hbody bodyLength hlength
    simp only
    rw [if_neg (by omega), if_neg (by rw [List.length_append]; omega)]

theorem nextFrame_drop {buf : List UInt8} {offset : Nat} :
    (nextFrame buf offset).1 = (nextFrame (buf.drop offset) 0).1 ∧
      ((nextFrame buf offset).1 ≠ .incomplete →
        (nextFrame buf offset).2 = { (nextFrame (buf.drop offset) 0).2 with request := offset }) := by
  rw [nextFrame_eq, nextFrame_eq]
  simp only [List.drop_zero]
  cases findRequestHeaderEnd (buf.drop offset) with
  | none => exact ⟨rfl, fun hcon => absurd rfl hcon⟩
  | some headerEnd =>
    simp only
    cases bodyLengthOf ((buf.drop offset).take headerEnd) with
    | error status => exact ⟨rfl, fun _ => rfl⟩
    | ok bodyLength =>
      simp only
      split
      · exact ⟨rfl, fun hcon => absurd rfl hcon⟩
      · exact ⟨rfl, fun _ => rfl⟩

theorem nextFrame_headerEnd {buf : List UInt8} (h : (nextFrame buf 0).1 ≠ .incomplete) :
    findRequestHeaderEnd buf = some (nextFrame buf 0).2.headerEnd := by
  rw [nextFrame_eq] at h ⊢
  simp only [List.drop_zero] at h ⊢
  cases hend : findRequestHeaderEnd buf with
  | none =>
    rw [hend] at h
    exact absurd rfl h
  | some headerEnd =>
    simp only
    cases bodyLengthOf (buf.take headerEnd) with
    | error status => rfl
    | ok bodyLength =>
      simp only
      split <;> rfl

theorem nextFrame_sized {buf : List UInt8} {frame : ApiFrame}
    (h : nextFrame buf 0 = (.ready, frame)) :
    bodyLengthOf (buf.take frame.headerEnd) = .ok frame.bodyLength ∧
      frame.totalLength = frame.headerEnd + frame.bodyLength ∧
      frame.totalLength ≤ buf.length := by
  rw [nextFrame_eq] at h
  simp only [List.drop_zero] at h
  cases hend : findRequestHeaderEnd buf with
  | none =>
    rw [hend] at h
    cases h
  | some headerEnd =>
    rw [hend] at h
    simp only at h
    cases hbody : bodyLengthOf (buf.take headerEnd) with
    | error status =>
      rw [hbody] at h
      cases h
    | ok bodyLength =>
      rw [hbody] at h
      simp only at h
      split at h
      · cases h
      · rename_i hroom
        obtain rfl := (Prod.mk.inj h).2
        exact ⟨hbody, rfl, Nat.le_of_not_lt hroom⟩

theorem nextFrame_refusal {buf : List UInt8} {frame : ApiFrame}
    (h : nextFrame buf 0 = (.refused, frame)) :
    bodyLengthOf (buf.take frame.headerEnd) = .error frame.refuseStatus := by
  rw [nextFrame_eq] at h
  simp only [List.drop_zero] at h
  cases hend : findRequestHeaderEnd buf with
  | none =>
    rw [hend] at h
    cases h
  | some headerEnd =>
    rw [hend] at h
    simp only at h
    cases hbody : bodyLengthOf (buf.take headerEnd) with
    | error status =>
      rw [hbody] at h
      obtain rfl := (Prod.mk.inj h).2
      exact hbody
    | ok bodyLength =>
      rw [hbody] at h
      simp only at h
      split at h <;> cases h

theorem nextFrame_totalLength {buf : List UInt8} (h : (nextFrame buf 0).1 = .ready) :
    0 < (nextFrame buf 0).2.totalLength ∧ (nextFrame buf 0).2.totalLength ≤ buf.length := by
  have hready : nextFrame buf 0 = (.ready, (nextFrame buf 0).2) := Prod.ext h rfl
  have hend : findRequestHeaderEnd buf = some (nextFrame buf 0).2.headerEnd := by
    apply nextFrame_headerEnd
    rw [h]
    decide
  have hpos := findRequestHeaderEnd_pos hend
  obtain ⟨_, htotal, hle⟩ := nextFrame_sized hready
  exact ⟨by omega, hle⟩

/-- The length of the complete request a buffer begins with. -/
def frameLength (buf : List UInt8) : Option Nat :=
  match nextFrame buf 0 with
  | (.ready, frame) => some frame.totalLength
  | _ => none

theorem frameLength_eq_some_iff {buf : List UInt8} {n : Nat} :
    frameLength buf = some n ↔
      (nextFrame buf 0).1 = .ready ∧ (nextFrame buf 0).2.totalLength = n := by
  unfold frameLength
  rcases nextFrame buf 0 with ⟨_ | _ | _, frame⟩ <;> simp

theorem framing : Pipeline.Framing frameLength where
  pos h := by
    obtain ⟨hready, rfl⟩ := frameLength_eq_some_iff.mp h
    exact (nextFrame_totalLength hready).1
  le h := by
    obtain ⟨hready, rfl⟩ := frameLength_eq_some_iff.mp h
    exact (nextFrame_totalLength hready).2
  append more h := by
    obtain ⟨hready, rfl⟩ := frameLength_eq_some_iff.mp h
    rw [frameLength_eq_some_iff, nextFrame_append_ready hready]
    exact ⟨hready, rfl⟩

/-! ## The partial buffer -/

theorem ensurePartialCapacity_data {p q : ApiPartialRequest} {needed : Nat} {realloc : Bool}
    (h : ensurePartialCapacity p needed realloc = some q) : q.data = p.data := by
  simp only [ensurePartialCapacity] at h
  split_ifs at h <;> obtain rfl := Option.some.inj h <;> rfl

theorem partialKeepTail_data {p q : ApiPartialRequest} {buf : List UInt8} {consumed : Nat}
    {realloc : Bool} (h : partialKeepTail p buf consumed realloc = some q) :
    q.data = buf.drop consumed := by
  unfold partialKeepTail at h
  split at h
  · rename_i hnone
    obtain rfl := Option.some.inj h
    exact (List.drop_of_length_le (by omega)).symm
  · obtain ⟨grown, _, rfl⟩ := Option.map_eq_some_iff.mp h
    rfl

theorem partialAppend_data {p q : ApiPartialRequest} {data : List UInt8} {realloc : Bool}
    (h : partialAppend p data realloc = some q) : q.data = p.data ++ data := by
  unfold partialAppend at h
  split at h
  · rename_i hnil
    obtain rfl := Option.some.inj h
    rw [hnil, List.append_nil]
  · obtain ⟨grown, hgrown, rfl⟩ := Option.map_eq_some_iff.mp h
    exact congrArg (· ++ data) (ensurePartialCapacity_data hgrown)

end AmmarServer.ApiProtocol
