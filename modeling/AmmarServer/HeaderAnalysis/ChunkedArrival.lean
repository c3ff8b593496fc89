import AmmarServer.HeaderAnalysis.ChunkedDecoding
import AmmarServer.HeaderAnalysis.HeaderLines
import AmmarServer.Lib.Segmentation

/-! A chunked POST request whose body is still arriving. After each piece `HTTPRequestIsComplete` scans the
body from its start again. -/

namespace AmmarServer.HeaderAnalysis
open Segmentation

/-- The answer of `HTTPRequestIsComplete`, with the status of a request that it refuses. -/
def completion (inst : Instance) (output : IncomingHeader) : Bool × Option ℕ :=
  let answer := httpRequestIsComplete inst output
  (answer.1, if answer.2.failed then some answer.2.errorResponseCode else none)

/-- So much has been received behind the head of a chunked POST request, into a buffer that has room or can
still grow. -/
structure Arrival (inst : Instance) (head received : List UInt8) (output : IncomingHeader) : Prop where
  type : output.requestType = .POST
  chunked : output.chunked = true
  failed : output.failed = false
  headSize : output.headerRAWHeadSize ≠ 0
  headLength : output.headerRAWHeadSize + 1 = head.length
  size : output.headerRAWSize = head.length + received.length
  bytes : output.headerRAW.take output.headerRAWSize = head ++ received
  room : output.headerRAWSize < output.MAXheaderRAWSize ∨
    inst.ENABLE_POST = true ∧ output.MAXheaderRAWSize < inst.MAX_POST_TRANSACTION_SIZE

section Arrival
variable {inst : Instance} {head received : List UInt8} {output : IncomingHeader}

theorem Arrival.completion_eq (h : Arrival inst head received output) (hne : received ≠ []) :
    completion inst output =
      match httpChunkedBodyScan received inst.MAX_POST_TRANSACTION_SIZE with
      | .complete => (true, none)
      | .errorBad => (true, some 400)
      | .errorTooBig => (true, some 413)
      | .incomplete => (false, none) := by
  have hpos : 0 < received.length := List.length_pos_iff.mpr hne
  have hsize : ¬ output.headerRAWSize ≤ output.headerRAWHeadSize + 1 := by
    rw [h.size, h.headLength]
    omega
  have hbody : (output.headerRAW.take output.headerRAWSize).drop (output.headerRAWHeadSize + 1) = received := by
    rw [h.bytes, h.headLength, List.drop_left]
  have hroom : ¬ (output.headerRAWSize ≥ output.MAXheaderRAWSize ∧
      ((!inst.ENABLE_POST) = true ∨ output.MAXheaderRAWSize ≥ inst.MAX_POST_TRANSACTION_SIZE)) := by
    rintro ⟨hfull, hpost | hlimit⟩
    · rcases h.room with hroom | ⟨henabled, -⟩
      · omega
      · rw [henabled] at hpost
        cases hpost
    · rcases h.room with hroom | ⟨-, hroom⟩ <;> omega
  unfold completion httpRequestIsComplete
  rw [if_pos h.type]
  simp only [if_neg h.headSize, if_pos h.chunked, if_neg hsize, hbody]
  cases httpChunkedBodyScan received inst.MAX_POST_TRANSACTION_SIZE with
  | complete => simp only [h.failed, Bool.false_eq_true, if_false]
  | errorBad => rfl
  | errorTooBig => rfl
  | incomplete => simp only [if_neg hroom, h.failed, Bool.false_eq_true, if_false]

end Arrival

/-- A chunked request is waited for to its end by every cutting of its body but those with a cut right behind
the line end of a chunk: there it is refused, as a chunk size without digits. -/
theorem chunkedBody_arrival {inst : Instance} {head : List UInt8} {output : List UInt8 → IncomingHeader}
    {pieces : List (List UInt8)} (b : ChunkedBody) (hmax : inst.MAX_POST_TRANSACTION_SIZE ≤ ulongMax)
    (hsize : b.decoded.length ≤ inst.MAX_POST_TRANSACTION_SIZE)
    (harrival : ∀ received, received <+: b.bytes → Arrival inst head received (output received))
    (hpieces : ∀ p ∈ pieces, p ≠ []) (hbody : pieces.flatten = b.bytes) :
    (answers (fun received => completion inst (output received)) pieces =
        List.replicate (pieces.length - 1) (false, none) ++ [(true, none)] ↔
      ∀ c ∈ cuts pieces, ¬ b.EndsAfterChunk c) ∧
    ∀ c ∈ cuts pieces, b.EndsAfterChunk c → completion inst (output c) = (true, some 400) := by
  classical
  have hcut : ∀ c ∈ cuts pieces, completion inst (output c) =
      if b.EndsAfterChunk c then (true, some 400) else (false, none) := by
    intro c hc
    have hprefix := isPrefix_of_mem_cuts hc
    have hlength := mem_cuts_length_lt hpieces hc
    rw [hbody] at hprefix hlength
    have hstrict : c ≠ b.bytes := fun heq => absurd hlength (by rw [heq]; exact lt_irrefl _)
    rw [(harrival c hprefix).completion_eq (mem_cuts_ne_nil hpieces hc),
      httpChunkedBodyScan_strict b hmax hsize hprefix hstrict]
    by_cases hend : b.EndsAfterChunk c
    · rw [if_pos hend, if_pos hend]
    · rw [if_neg hend, if_neg hend]
  have hlast : completion inst (output pieces.flatten) = (true, none) := by
    have hne : b.bytes ≠ [] := by
      simp [ChunkedBody.bytes, ChunkedBody.tail, b.last.bytes_ne_nil]
    rw [hbody, (harrival b.bytes (List.prefix_refl _)).completion_eq hne, httpChunkedBodyScan_bytes b hmax hsize]
  refine ⟨(answers_eq_iff _ pieces _ _ hlast).trans (forall₂_congr fun c hc => ?_), fun c hc hend => ?_⟩
  · rw [hcut c hc]
    by_cases hend : b.EndsAfterChunk c <;> simp [hend]
  · rw [hcut c hc, if_pos hend]

def arrivalInstance : Instance := ⟨false, none, true, 4096, [], fun output _ _ => output, fun _ _ => false⟩

/-- What has been received behind a head of four bytes. -/
def arrivalOutput (received : List UInt8) : IncomingHeader :=
  { receivedRequest ([80, 79, 83, 84] ++ received) with
    requestType := .POST, chunked := true, headerRAWHeadSize := 3 }

theorem arrivalOutput_arrival {received : List UInt8} (h : received <+: spelledBody.bytes) :
    Arrival arrivalInstance [80, 79, 83, 84] received (arrivalOutput received) := by
  have hlength : received.length ≤ 22 := h.length_le
  refine ⟨rfl, rfl, rfl, Nat.succ_ne_zero 2, rfl, List.length_append, List.take_left, Or.inl ?_⟩
  change ([80, 79, 83, 84] ++ received).length < MAX_HTTP_REQUEST_HEADER
  rw [List.length_append, MAX_HTTP_REQUEST_HEADER]
  exact Nat.lt_of_le_of_lt (Nat.add_le_add_left hlength _) (by decide)

/-- A cut behind the data of a chunk is waited for, one behind its line end is refused. -/
theorem chunkedBody_arrival_cuts :
    answers (fun received => completion arrivalInstance (arrivalOutput received))
        [spelledBody.bytes.take 11, spelledBody.bytes.drop 11] = [(false, none), (true, none)] ∧
      completion arrivalInstance (arrivalOutput (spelledBody.bytes.take 12)) = (true, some 400) := by
  have hunfinished : ¬ spelledBody.EndsAfterChunk (spelledBody.bytes.take 11) := by
    intro hend
    have hnil := (@ChunkedBody.endsAfterChunk_iff spelledBody [] spelledBody.chunks (spelledBody.bytes.take 11)
      rfl ⟨by decide, by decide⟩).mp hend
    cases hnil
  constructor
  · refine (chunkedBody_arrival spelledBody (by decide) (by decide) (fun _ => arrivalOutput_arrival)
      (by decide) rfl).1.mpr fun c hc => ?_
    obtain rfl := List.mem_singleton.mp hc
    exact hunfinished
  · exact (@chunkedBody_arrival _ _ _ [spelledBody.bytes.take 12, spelledBody.bytes.drop 12] spelledBody
      (by decide) (by decide) (fun _ => arrivalOutput_arrival) (by decide) rfl).2 _ (List.mem_singleton.mpr rfl)
      ⟨spelledBody.chunks, [], rfl, rfl⟩

end AmmarServer.HeaderAnalysis
