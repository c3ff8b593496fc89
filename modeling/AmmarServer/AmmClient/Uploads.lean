import AmmarServer.AmmClient.Requests
import Mathlib.Data.Fin.VecNotation
import Mathlib.Tactic.FinCases
import AmmarServer.Lib.Multipart

/-! What an upload hands to the connection. -/

namespace AmmarServer.AmmClient
open Bytes CString TextFile HeaderFields Multipart

/-! Texts. -/

section Texts
variable {buffer text : List UInt8} {room : ℕ} {draws : Draws}

theorem printedSize_eq (h : text.length < 2 ^ 31) : printedSize text = text.length := if_pos h

theorem toUnsigned_natCast {n : ℕ} (h : n < 2 ^ 32) : toUnsigned n = n := by
  unfold toUnsigned
  omega

theorem snprintf_fits (hroom : text.length < room) (hint : room ≤ 2 ^ 31) :
    ∃ rest, snprintf buffer room text = ((text.length : ℤ), text ++ 0 :: rest) := by
  have htake : text.take (room - 1) = text := List.take_of_length_le (by omega)
  refine ⟨buffer.drop (text.length + 1), ?_⟩
  rw [snprintf, printedSize_eq (by omega), if_neg (by omega)]
  dsimp only
  rw [htake]

theorem padded_length {n : ℕ} (h : n < 9999) : (padded n).length = 4 := by
  have hle : (decimal n).length ≤ 4 := decimal_length (by decide) (Nat.lt_trans h (by decide))
  rw [padded, List.length_append, List.length_replicate]
  omega

theorem boundaryText_length (draws : Draws) : (boundaryText draws).length = 40 := by
  have hlt : ∀ n, n % 9999 < 9999 := fun n => Nat.mod_lt n (by decide)
  rw [boundaryText, List.length_append, List.length_append, List.length_append, List.length_append,
    padded_length (hlt _), padded_length (hlt _), padded_length (hlt _), padded_length (hlt _),
    List.length_replicate]

theorem mem_padded {n : ℕ} {c : UInt8} (h : c ∈ padded n) : isDigit c = true := by
  rcases List.mem_append.mp h with hzero | hdigit
  · rw [List.eq_of_mem_replicate hzero]
    decide
  · exact isDigit_decimal c hdigit

theorem mem_boundaryText {c : UInt8} (h : c ∈ boundaryText draws) : c = 45 ∨ isDigit c = true := by
  simp only [boundaryText, List.mem_append] at h
  rcases h with (((hdash | h) | h) | h) | h
  · exact .inl (List.eq_of_mem_replicate hdash)
  all_goals exact .inr (mem_padded h)

theorem notMem_boundaryText {c : UInt8} (hdash : c ≠ 45) (hdigit : isDigit c = false) :
    c ∉ boundaryText draws := by
  intro hmem
  rcases mem_boundaryText hmem with h | h
  · exact hdash h
  · rw [hdigit] at h
    cases h

theorem transmissionText_length {boundary : List UInt8} (h : boundary.length = 40)
    (first after last : Bool) : (transmissionText boundary first after last).length ≤ 48 := by
  unfold transmissionText newLine dashes
  split
  · simp [h]
  · split
    · simp [h]
    · split <;> simp [h]

end Texts

/-! Sends. -/

/-- What the first try that does not fail takes. -/
def takenBy : ℕ → List (Option ℕ) → Option ℕ
  | _ + 1, some taken :: _ => some taken
  | tries + 1, none :: results => takenBy tries results
  | _, _ => none

namespace Delivery

def taken (delivery : Delivery) : Option ℕ :=
  if delivery.connected then takenBy 5 delivery.results else none

/-- The whole of a request is taken, if any of it is. -/
def Whole (delivery : Delivery) (size : ℕ) : Prop := ∀ k ∈ delivery.taken, size ≤ k

/-- The first try does not fail. -/
def AtOnce (delivery : Delivery) : Prop := delivery.results.head? ≠ some none

end Delivery

section Sends
variable {delivery : Delivery} {request buffer wire : List UInt8} {results : List (Option ℕ)}
  {tries size : ℕ}

theorem trySend_none (h : takenBy tries results = none) : (trySend tries results request wire).1 = false := by
  induction tries generalizing results wire with
  | zero => rfl
  | succ tries ih =>
    cases results with
    | nil => rfl
    | cons result results =>
      cases result with
      | none => exact ih h
      | some k => cases h

theorem trySend_some {k : ℕ} (h : takenBy tries results = some k) :
    trySend tries results request wire =
      (true, (if results.head? = some none then [] else wire) ++ request.take k) := by
  induction tries generalizing results wire with
  | zero => cases h
  | succ tries ih =>
    cases results with
    | nil => cases h
    | cons result results =>
      cases result with
      | none =>
        refine (ih h).trans ?_
        rw [ite_self]
        rfl
      | some taken =>
        obtain rfl : taken = k := Option.some.inj h
        rfl

theorem sendInternal_ok (hsize : size ≤ buffer.length) (hrequest : buffer.take size = request) :
    ∃ answer sent, sendInternal delivery buffer size wire = .ok (answer, sent) ∧
      (answer = true → delivery.taken.isSome) ∧
      (delivery.taken.isSome → delivery.Whole request.length → (wire = [] ∨ delivery.AtOnce) →
        sent = wire ++ request) := by
  unfold sendInternal Delivery.Whole Delivery.taken Delivery.AtOnce
  rw [if_pos hsize]
  split
  · rw [hrequest]
    refine ⟨_, _, rfl, fun hanswer => ?_, fun hsome hwhole honce => ?_⟩
    · rw [Option.isSome_iff_ne_none]
      intro hnone
      rw [trySend_none hnone] at hanswer
      cases hanswer
    · obtain ⟨k, hk⟩ := Option.isSome_iff_exists.mp hsome
      rw [trySend_some hk, List.take_of_length_le (hwhole k hk)]
      rcases honce with rfl | honce
      · rw [ite_self]
      · rw [if_neg honce]
  · exact ⟨_, _, rfl, fun hanswer => (by cases hanswer), fun hsome => (by cases hsome)⟩

theorem transmitBoundary_ok {boundary : List UInt8} (hboundary : boundary.length = 40)
    (first after last : Bool) :
    ∃ answer sent, transmitBoundary delivery boundary first after last wire = .ok (answer, sent) ∧
      (answer = true → delivery.taken.isSome) ∧
      (delivery.taken.isSome →
        delivery.Whole (transmissionText boundary first after last).length →
        (wire = [] ∨ delivery.AtOnce) → sent = wire ++ transmissionText boundary first after last) := by
  have hlength := transmissionText_length hboundary first after last
  obtain ⟨rest, hprinted⟩ := @snprintf_fits transmission _ 256 (Nat.lt_of_le_of_lt hlength (by decide))
    (by decide)
  unfold transmitBoundary
  rw [hprinted]
  dsimp only
  rw [toUnsigned_natCast (Nat.lt_of_le_of_lt hlength (by decide))]
  exact sendInternal_ok (by rw [List.length_append]; exact Nat.le_add_right _ _) List.take_left

/-- The seven texts of an upload. -/
def uploadParts (boundary header before filecontent : List UInt8) : Fin 7 → List UInt8 :=
  ![header, transmissionText boundary true false false, before, filecontent,
    transmissionText boundary false true false, bufferAfterText,
    transmissionText boundary false false true]

theorem sendParts_ok {deliveries : Fin 7 → Delivery} {boundary header before filecontent : List UInt8}
    (hboundary : boundary.length = 40) (hheader : header.length < 2 ^ 32) {rest0 rest1 rest2 : List UInt8} :
    ∃ answers wire, sendParts deliveries boundary (header ++ rest0) header.length (before ++ rest1)
        before.length filecontent (bufferAfterText ++ rest2) bufferAfterText.length =
          .ok (answers, wire) ∧
      (answers.all id = true → ∀ i, (deliveries i).taken.isSome) ∧
      (answers.all id = true →
        (∀ i, (deliveries i).Whole (uploadParts boundary header before filecontent i).length ∧
          (i ≠ 0 → (deliveries i).AtOnce)) →
        wire = (List.ofFn (uploadParts boundary header before filecontent)).flatten) := by
  have hfits : ∀ s rest : List UInt8, s.length ≤ (s ++ rest).length := by
    intro s rest
    rw [List.length_append]
    exact Nat.le_add_right _ _
  obtain ⟨answer0, sent0, hrun0, hsome0, hsent0⟩ :=
    @sendInternal_ok (deliveries 0) _ _ [] _ (hfits header rest0) List.take_left
  obtain ⟨answer1, sent1, hrun1, hsome1, hsent1⟩ :=
    @transmitBoundary_ok (deliveries 1) sent0 boundary hboundary true false false
  obtain ⟨answer2, sent2, hrun2, hsome2, hsent2⟩ :=
    @sendInternal_ok (deliveries 2) _ _ sent1 _ (hfits before rest1) List.take_left
  obtain ⟨answer3, sent3, hrun3, hsome3, hsent3⟩ :=
    @sendInternal_ok (deliveries 3) _ _ sent2 _ (Nat.le_refl filecontent.length) List.take_length
  obtain ⟨answer4, sent4, hrun4, hsome4, hsent4⟩ :=
    @transmitBoundary_ok (deliveries 4) sent3 boundary hboundary false true false
  obtain ⟨answer5, sent5, hrun5, hsome5, hsent5⟩ :=
    @sendInternal_ok (deliveries 5) _ _ sent4 _ (hfits bufferAfterText rest2) List.take_left
  obtain ⟨answer6, sent6, hrun6, hsome6, hsent6⟩ :=
    @transmitBoundary_ok (deliveries 6) sent5 boundary hboundary false false true
  have hsome : [answer0, answer1, answer2, answer3, answer4, answer5, answer6].all id = true →
      ∀ i, (deliveries i).taken.isSome := by
    intro hall i
    simp only [List.all_cons, List.all_nil, Bool.and_true, Bool.and_eq_true, id] at hall
    obtain ⟨h0, h1, h2, h3, h4, h5, h6⟩ := hall
    fin_cases i
    exacts [hsome0 h0, hsome1 h1, hsome2 h2, hsome3 h3, hsome4 h4, hsome5 h5, hsome6 h6]
  refine ⟨[answer0, answer1, answer2, answer3, answer4, answer5, answer6], sent6, ?_, hsome,
    fun hall hparts => ?_⟩
  · rw [sendParts, toUnsigned_natCast hheader, hrun0]
    change (transmitBoundary (deliveries 1) boundary true false false sent0).bind _ = _
    rw [hrun1]
    change (sendInternal (deliveries 2) _ _ sent1).bind _ = _
    rw [hrun2]
    change (sendInternal (deliveries 3) _ _ sent2).bind _ = _
    rw [hrun3]
    change (transmitBoundary (deliveries 4) boundary false true false sent3).bind _ = _
    rw [hrun4]
    change (sendInternal (deliveries 5) _ _ sent4).bind _ = _
    rw [hrun5]
    change (transmitBoundary (deliveries 6) boundary false false true sent5).bind _ = _
    rw [hrun6]
    rfl
  · have htaken := hsome hall
    have honce : ∀ {i} {wire : List UInt8}, i ≠ 0 → (wire = [] ∨ (deliveries i).AtOnce) :=
      fun hi => .inr ((hparts _).2 hi)
    rw [hsent6 (htaken 6) (hparts 6).1 (honce (by decide)),
      hsent5 (htaken 5) (hparts 5).1 (honce (by decide)),
      hsent4 (htaken 4) (hparts 4).1 (honce (by decide)),
      hsent3 (htaken 3) (hparts 3).1 (honce (by decide)),
      hsent2 (htaken 2) (hparts 2).1 (honce (by decide)),
      hsent1 (htaken 1) (hparts 1).1 (honce (by decide)),
      hsent0 (htaken 0) (hparts 0).1 (.inl rfl)]
    simp [uploadParts, List.ofFn_succ]

end Sends

end AmmarServer.AmmClient
