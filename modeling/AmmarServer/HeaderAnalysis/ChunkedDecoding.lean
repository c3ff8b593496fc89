import AmmarServer.HeaderAnalysis.ChunkedFraming

/-! The decoder against the scanner: decoding in place undoes every encoding, and overwriting the
buffer that is still being read never changes what is read. -/

namespace AmmarServer
open Bytes

/-- The verdict and `*decodedSize` of two walks are the same. -/
def WalkResult.Agrees (r₁ r₂ : WalkResult) : Prop :=
  r₁.result = r₂.result ∧ r₁.decodedSize = r₂.decodedSize

theorem walkChunks_agrees {maxDecodedSize fuel : Nat} {body₁ body₂ : List UInt8}
    {readPos writePos₁ writePos₂ decoded : Nat} (hlen : body₁.length = body₂.length)
    (hdrop : body₁.drop readPos = body₂.drop readPos) (hwr : writePos₂ ≤ readPos) :
    (walkChunks false maxDecodedSize fuel body₁ readPos writePos₁ decoded).Agrees
      (walkChunks true maxDecodedSize fuel body₂ readPos writePos₂ decoded) := by
  induction fuel generalizing body₁ body₂ readPos writePos₁ writePos₂ decoded with
  | zero => exact ⟨rfl, rfl⟩
  | succ fuel ih =>
    rw [walkChunks, walkChunks, ← hdrop]
    rcases parseChunkSizeLine (body₁.drop readPos) maxDecodedSize decoded with
      ⟨n, chunkSize⟩ | _ | _ | _
    · have hline : body₁.drop (readPos + n) = body₂.drop (readPos + n) := by
        rw [← List.drop_drop, ← List.drop_drop, hdrop]
      dsimp only
      rw [hline, hlen]
      by_cases hzero : chunkSize = 0
      · rw [if_pos hzero, if_pos hzero]
        rcases parseTrailerSection (body₂.drop (readPos + n)) with ⟨_, _⟩ | _ | _ | _
        all_goals exact ⟨rfl, rfl⟩
      rw [if_neg hzero, if_neg hzero]
      by_cases hroom : body₂.length - (readPos + n) < chunkSize
      · rw [if_pos hroom, if_pos hroom]
        exact ⟨rfl, rfl⟩
      rw [if_neg hroom, if_neg hroom, ← copyDown, ← copyDown]
      -- the copy ends where the next line begins
      have hn : readPos + n + chunkSize ≤ body₂.length := by omega
      have hwr' : writePos₂ ≤ readPos + n := by omega
      have hfalse : copyDown false body₁ writePos₁ (readPos + n) chunkSize = body₁ :=
        if_neg (by simp)
      have hkept := copyDown_drop true hwr' hn
      have hdata : body₁.drop (readPos + n + chunkSize) = body₂.drop (readPos + n + chunkSize) := by
        rw [← List.drop_drop, hline, List.drop_drop]
      rw [hfalse, hkept, hdata]
      rcases hrest : body₂.drop (readPos + n + chunkSize) with _ | ⟨c, rest⟩
      · exact ⟨rfl, rfl⟩
      dsimp only
      split
      · rcases endOfLine (c :: rest) with ⟨m, _⟩ | _ | _ | _
        · apply ih
          · rw [hlen, copyDown_length hwr' hn]
          · rw [← List.drop_drop, hdata, ← hkept, List.drop_drop]
          · omega
        all_goals exact ⟨rfl, rfl⟩
      · exact ⟨rfl, rfl⟩
    all_goals exact ⟨rfl, rfl⟩

theorem walkChunkedBody_agrees (body : List UInt8) (maxDecodedSize : Nat) :
    (walkChunkedBody false body maxDecodedSize).Agrees
      (httpChunkedBodyDecode body maxDecodedSize) :=
  walkChunks_agrees rfl rfl le_rfl

/-- Decoding undoes encoding in place, and on every byte string the scanner and the decoder give
the same verdict and the same size. -/
theorem chunkedDecode_undoes_encode :
    (∀ (b : ChunkedBody) (maxDecodedSize : Nat), maxDecodedSize ≤ ulongMax →
      b.bytes.length < 2 ^ 32 → b.decoded.length ≤ maxDecodedSize →
      (httpChunkedBodyScan b.bytes maxDecodedSize = .complete ∧
        (walkChunkedBody false b.bytes maxDecodedSize).decodedSize = b.decoded.length) ∧
      (httpChunkedBodyDecode b.bytes maxDecodedSize).result = .complete ∧
      (httpChunkedBodyDecode b.bytes maxDecodedSize).decodedSize = b.decoded.length ∧
      (httpChunkedBodyDecode b.bytes maxDecodedSize).body.take b.decoded.length = b.decoded) ∧
    ∀ (body : List UInt8) (maxDecodedSize : Nat),
      httpChunkedBodyScan body maxDecodedSize =
          (httpChunkedBodyDecode body maxDecodedSize).result ∧
        (walkChunkedBody false body maxDecodedSize).decodedSize =
          (httpChunkedBodyDecode body maxDecodedSize).decodedSize := by
  refine ⟨fun b maxDecodedSize hlong hint hsize => ?_, walkChunkedBody_agrees⟩
  obtain ⟨body', -, htake, hdecode⟩ := httpChunkedBodyDecode_bytes b hlong hint hsize
  have hagrees := walkChunkedBody_agrees b.bytes maxDecodedSize
  rw [hdecode] at hagrees ⊢
  exact ⟨hagrees, rfl, rfl, htake⟩

/-- `"05;x" CRLF "hello" LF "0" CRLF "T: 1" LF CRLF`. -/
def spelledBody : ChunkedBody where
  chunks := [{
    line := {
      digits := [48, 53]
      ext := [59, 120]
      eol := .crlf
      digits_hex := by decide +kernel
      digits_ne_nil := by decide
      ext_head := by decide +kernel
      ext_noNewline := by decide }
    data := [104, 101, 108, 108, 111]
    eol := .lf
    line_value := rfl
    data_ne_nil := by decide }]
  last := {
    digits := [48]
    ext := []
    eol := .crlf
    digits_hex := by decide +kernel
    digits_ne_nil := by decide
    ext_head := by decide +kernel
    ext_noNewline := by decide }
  last_value := rfl
  trailer := [{
    text := [84, 58, 32, 49]
    eol := .lf
    text_ne_nil := by decide
    text_noNewline := by decide }]
  eol := .crlf

theorem spelledBody_decoded :
    (httpChunkedBodyDecode spelledBody.bytes 5).body.take 5 = [104, 101, 108, 108, 111] :=
  (chunkedDecode_undoes_encode.1 spelledBody 5 (by decide) (by decide) (by decide)).2.2.2

end AmmarServer
