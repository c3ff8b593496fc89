import AmmarServer.BasicImaging.PzpAttach

/-! What an attachment keeps of a container. A blob that is not given is dropped, and the flag that says
that there is one is kept. -/

namespace AmmarServer.BasicImaging.Pzp
variable {file out : List UInt8} {metadata audio : Blob} {audioFormat : UInt32} {l : Layout}

/-- The flags and the checksum say what the offsets and the sizes say. -/
structure Consistent (file : List UInt8) : Prop where
  metadata : (readHeader file).containerFlags &&& PZP_CONTAINER_HAS_METADATA ≠ 0 ↔
    (readHeader file).metadataBytes ≠ 0
  metadataOffset : (readHeader file).metadataBytes = 0 ↔ (readHeader file).metadataOffset = 0
  audio : (readHeader file).containerFlags &&& PZP_CONTAINER_HAS_AUDIO ≠ 0 ↔
    (readHeader file).audioBytes ≠ 0
  audioOffset : (readHeader file).audioBytes = 0 ↔ (readHeader file).audioOffset = 0
  checksum : (readHeader file).headerChecksum = hashChecksum (file.take 40)

/-- What is claimed of an attachment that returns 1. -/
structure Kept (decompress : List UInt8 → Option Image) (file : List UInt8) (metadata audio : Blob)
    (audioFormat : UInt32) (out : List UInt8) : Prop where
  frames : ∀ i, readFrame decompress out i = readFrame decompress file i
  delays : (readEntries out (readHeader out).frameCount).map (·.delayMs) =
    (readEntries file (readHeader file).frameCount).map (·.delayMs)
  loopCount : (readHeader out).loopCount = (readHeader file).loopCount
  metadata : getMetadata out =
    if metadata.bytes ≠ [] then .ok (some metadata.bytes) else getMetadata file
  audio : getAudio out =
    if audio.bytes ≠ [] then .ok (some (audio.bytes, audioFormat)) else getAudio file
  consistent : Consistent out

/-- Each blob that the container is flagged to have is given again. -/
def Given (file : List UInt8) (metadata audio : Blob) : Prop :=
  (metadata.bytes ≠ [] ∨ (readHeader file).containerFlags &&& PZP_CONTAINER_HAS_METADATA = 0) ∧
    (audio.bytes ≠ [] ∨ (readHeader file).containerFlags &&& PZP_CONTAINER_HAS_AUDIO = 0)

/-- No offset overflows. -/
def Fits (file : List UInt8) (metadata audio : Blob) : Prop :=
  frameEnd file < 2 ^ 32 ∧
    (audio.bytes = [] ∨ frameEnd file + metadata.bytes.length < 2 ^ 32)

/-! The flags. -/

section Flags
variable (flags : UInt32) (p q : Prop) [Decidable p] [Decidable q]

theorem or_and (a b c : UInt32) : (a ||| b) &&& c = a &&& c ||| b &&& c :=
  UInt32.toBitVec_inj.mp BitVec.and_or_distrib_right

theorem flag_metadata :
    (flags ||| (if p then PZP_CONTAINER_HAS_METADATA else 0) |||
        (if q then PZP_CONTAINER_HAS_AUDIO else 0)) &&& PZP_CONTAINER_HAS_METADATA ≠ 0 ↔
      p ∨ flags &&& PZP_CONTAINER_HAS_METADATA ≠ 0 := by
  have hother : (2 : UInt32) &&& 1 = 0 := by decide
  unfold PZP_CONTAINER_HAS_METADATA PZP_CONTAINER_HAS_AUDIO
  by_cases hp : p <;> by_cases hq : q <;> simp [hp, hq, or_and, hother]

theorem flag_audio :
    (flags ||| (if p then PZP_CONTAINER_HAS_METADATA else 0) |||
        (if q then PZP_CONTAINER_HAS_AUDIO else 0)) &&& PZP_CONTAINER_HAS_AUDIO ≠ 0 ↔
      q ∨ flags &&& PZP_CONTAINER_HAS_AUDIO ≠ 0 := by
  have hother : (1 : UInt32) &&& 2 = 0 := by decide
  unfold PZP_CONTAINER_HAS_METADATA PZP_CONTAINER_HAS_AUDIO
  by_cases hp : p <;> by_cases hq : q <;> simp [hp, hq, or_and, hother]

end Flags

/-! What an attachment needs. -/

theorem Attached.given (h : Attached file metadata audio out) (hconsistent : Consistent out) :
    Given file metadata audio := by
  have hmetadata := hconsistent.metadata
  have haudio := hconsistent.audio
  rw [h.containerFlags, h.metadataBytes, flag_metadata] at hmetadata
  rw [h.containerFlags, h.audioBytes, flag_audio] at haudio
  constructor
  · by_cases hflag : (readHeader file).containerFlags &&& PZP_CONTAINER_HAS_METADATA = 0
    · exact .inr hflag
    · exact .inl fun hnil => hmetadata.mp (.inr hflag) (metadata.size_eq_zero_iff.mpr hnil)
  · by_cases hflag : (readHeader file).containerFlags &&& PZP_CONTAINER_HAS_AUDIO = 0
    · exact .inr hflag
    · exact .inl fun hnil => haudio.mp (.inr hflag) (audio.size_eq_zero_iff.mpr hnil)

theorem Layout.checksum_bytes (l : Layout) :
    (readHeader l.bytes).headerChecksum = hashChecksum (l.bytes.take 40) := by
  have hslots : (Words.encode l.header.slots).length = 40 := Words.length_encode l.header.slots
  have htake : l.bytes.take 40 = Words.encode l.header.slots := by
    rw [Layout.bytes, PZPContainerHeader.words, Words.encode_append, List.append_assoc, ← hslots,
      List.take_left]
  rw [l.readHeader_bytes, htake]
  rfl

theorem Layout.Small.consistent (h : l.Small)
    (hsmall : l.audio.bytes = [] ∨
      48 + 16 * l.frames.length + l.data.length + l.metadata.bytes.length < 2 ^ 32)
    (hmetadata : l.flags &&& PZP_CONTAINER_HAS_METADATA ≠ 0 ↔ l.metadata.bytes ≠ [])
    (haudio : l.flags &&& PZP_CONTAINER_HAS_AUDIO ≠ 0 ↔ l.audio.bytes ≠ []) : Consistent l.bytes where
  metadata := by
    rw [l.readHeader_bytes]
    exact hmetadata.trans (not_congr l.metadata.size_eq_zero_iff).symm
  metadataOffset := by
    rw [l.readHeader_bytes]
    refine l.metadata.size_eq_zero_iff.trans ⟨fun hnil => if_neg (not_not.mpr hnil), fun hzero => ?_⟩
    by_contra hne
    have hend : l.metaOffset = l.dataEnd := if_pos hne
    exact h.dataEnd_ne_zero (hend.symm.trans hzero)
  audio := by
    rw [l.readHeader_bytes]
    exact haudio.trans (not_congr l.audio.size_eq_zero_iff).symm
  audioOffset := by
    rw [l.readHeader_bytes]
    refine l.audio.size_eq_zero_iff.trans ⟨fun hnil => if_neg (not_not.mpr hnil), fun hzero => ?_⟩
    by_contra hne
    have hplace := h.audioOffset_toNat (hsmall.resolve_left hne) hne
    change l.audioOffset = 0 at hzero
    rw [hzero, show (0 : UInt32).toNat = 0 from rfl] at hplace
    omega
  checksum := l.checksum_bytes

theorem Layout.Small.kept (h : l.Small) (decompress : List UInt8 → Option Image)
    (hgiven : Given l.bytes metadata audio) (hfits : Fits l.bytes metadata audio) :
    Kept decompress l.bytes metadata audio audioFormat (l.attached metadata audio audioFormat).bytes := by
  have hsmall : (l.attached metadata audio audioFormat).Small := ⟨h.counted, h.ends⟩
  have hroom : audio.bytes = [] ∨
      48 + 16 * l.frames.length + l.data.length + metadata.bytes.length < 2 ^ 32 := by
    rw [← frameEnd_bytes h.counted]
    exact hfits.2
  rw [Given, l.readHeader_bytes] at hgiven
  obtain ⟨hgivenMetadata, hgivenAudio⟩ := hgiven
  have hmetadata : (l.attached metadata audio audioFormat).flags &&& PZP_CONTAINER_HAS_METADATA ≠ 0 ↔
      metadata.bytes ≠ [] := by
    refine (flag_metadata _ _ _).trans ⟨fun hor => ?_, .inl⟩
    exact hor.elim id fun hflag => hgivenMetadata.resolve_right hflag
  have haudio : (l.attached metadata audio audioFormat).flags &&& PZP_CONTAINER_HAS_AUDIO ≠ 0 ↔
      audio.bytes ≠ [] := by
    refine (flag_audio _ _ _).trans ⟨fun hor => ?_, .inl⟩
    exact hor.elim id fun hflag => hgivenAudio.resolve_right hflag
  refine ⟨?_, ?_, ?_, ?_, ?_, hsmall.consistent hroom hmetadata haudio⟩
  · apply readFrame_congr
    intro i
    rw [hsmall.frameData, h.frameData]
    rfl
  · rw [Layout.readHeader_bytes, Layout.readEntries_bytes hsmall.counted, Layout.readHeader_bytes,
      Layout.readEntries_bytes h.counted, Layout.entries, delays_frameEntries, Layout.entries,
      delays_frameEntries]
    rfl
  · rw [Layout.readHeader_bytes, Layout.readHeader_bytes]
    rfl
  · split
    · rename_i hblob
      exact hsmall.getMetadata (hmetadata.mpr hblob) hblob
    · rename_i hblob
      have hclear := hgivenMetadata.resolve_left hblob
      rw [Layout.getMetadata_none h.counted hclear]
      exact Layout.getMetadata_none hsmall.counted (not_not.mp fun hflag => hblob (hmetadata.mp hflag))
  · split
    · rename_i hblob
      exact hsmall.getAudio (hroom.resolve_left hblob) (haudio.mpr hblob) hblob
    · rename_i hblob
      have hclear := hgivenAudio.resolve_left hblob
      rw [Layout.getAudio_none h.counted hclear]
      exact Layout.getAudio_none hsmall.counted (not_not.mp fun hflag => hblob (haudio.mp hflag))

/-- An attachment keeps the container only if each blob that it is flagged to have is given again, and it
does so where no offset overflows. -/
theorem attach_kept (decompress : List UInt8 → Option Image) (h : Produced file)
    (hattach : containerAttach file metadata audio audioFormat = .ok (some out)) :
    (Kept decompress file metadata audio audioFormat out → Given file metadata audio) ∧
      (Given file metadata audio → Fits file metadata audio →
        Kept decompress file metadata audio audioFormat out) := by
  constructor
  · intro hkept
    exact (attached_of_containerAttach hattach).given hkept.consistent
  · intro hgiven hfits
    obtain ⟨l, hl, rfl⟩ := h.layout hfits.1
    rw [hl.attach] at hattach
    cases hattach
    exact hl.kept decompress hgiven hfits

/-! One frame, with a text or without one. -/

def noBlob : Blob := ⟨[], by decide⟩

def oneFrame : List (Blob × UInt32) := [(⟨[1, 2, 3, 4, 5], by decide⟩, 40)]

def text : Blob := ⟨[104, 105], by decide⟩

/-- The container with the text or without it. -/
def single (metadata : Blob) : List UInt8 := containerWrite oneFrame 0 metadata noBlob 0

def singleLayout (metadata : Blob) : Layout where
  flags := (if metadata.bytes ≠ [] then PZP_CONTAINER_HAS_METADATA else 0) |||
    (if noBlob.bytes ≠ [] then PZP_CONTAINER_HAS_AUDIO else 0)
  loopCount := 0
  frames := oneFrame
  metadata
  audio := noBlob
  audioFormat := 0

theorem single_bytes (metadata : Blob) : single metadata = (singleLayout metadata).bytes := rfl

theorem single_small (metadata : Blob) : (singleLayout metadata).Small where
  counted := by
    change oneFrame.length < 2 ^ 32
    decide
  ends := by
    change 48 + 16 * oneFrame.length + (oneFrame.flatMap (·.1.bytes)).length < 2 ^ 32
    decide

theorem single_produced (metadata : Blob) : Produced (single metadata) :=
  .write oneFrame 0 metadata noBlob 0 (List.cons_ne_nil _ _) (by decide)

/-- A text for the container without one. What stands in its frame is not decompressed. -/
theorem single_kept : Kept (fun _ => none) (single noBlob) text noBlob 0
    ((singleLayout noBlob).attached text noBlob 0).bytes := by
  have hgiven : Given (single noBlob) text noBlob := by
    rw [Given, single_bytes, Layout.readHeader_bytes]
    exact ⟨.inl (List.cons_ne_nil _ _), .inr (by decide)⟩
  have hfits : Fits (single noBlob) text noBlob := by
    rw [Fits, single_bytes, frameEnd_bytes (single_small noBlob).counted]
    exact ⟨by decide, .inl rfl⟩
  exact (attach_kept (fun _ => none) (single_produced noBlob) (single_small noBlob).attach).2 hgiven hfits

/-- A sound for the container with the text, which loses the text. -/
theorem single_loses : ∃ out, containerAttach (single text) noBlob text 0 = .ok (some out) ∧
    getMetadata (single text) = .ok (some text.bytes) ∧
      ∀ decompress, ¬Kept decompress (single text) noBlob text 0 out := by
  have hattach := @Layout.Small.attach (singleLayout text) noBlob text 0 (single_small text)
  refine ⟨_, hattach, ?_, ?_⟩
  · exact (single_small text).getMetadata (by decide) (List.cons_ne_nil _ _)
  · intro decompress hkept
    have hgiven := (attached_of_containerAttach hattach).given hkept.consistent
    rw [Given, Layout.readHeader_bytes] at hgiven
    rcases hgiven.1 with hne | hflag
    · exact hne rfl
    · exact absurd hflag (by decide)

end AmmarServer.BasicImaging.Pzp
