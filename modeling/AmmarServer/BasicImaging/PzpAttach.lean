import AmmarServer.BasicImaging.PzpContainer

/-! Blobs that are attached to a container. A container is written from its layout, a blob that is
attached changes the layout only, and what is read of a container is what the layout has. -/

namespace AmmarServer.BasicImaging.Pzp

/-- What a container is made of. -/
structure Layout where
  flags : UInt32
  loopCount : UInt32
  frames : List (Blob × UInt32)
  metadata : Blob
  audio : Blob
  audioFormat : UInt32

namespace Layout
variable (l : Layout)

def start : UInt32 := 48 + UInt32.ofNat l.frames.length * 16

def dataEnd : UInt32 := l.frames.foldl (fun offset frame => offset + frame.1.size) l.start

def metaOffset : UInt32 := if l.metadata.bytes ≠ [] then l.dataEnd else 0

def audioOffset : UInt32 :=
  if l.audio.bytes ≠ [] then
    (if l.metaOffset ≠ 0 then l.metaOffset + l.metadata.size else l.dataEnd)
  else 0

/-- The header without its checksum. -/
def unchecked : PZPContainerHeader where
  magic := pzpHeader
  version := PZP_CONTAINER_VERSION
  containerFlags := l.flags
  frameCount := UInt32.ofNat l.frames.length
  loopCount := l.loopCount
  metadataOffset := l.metaOffset
  metadataBytes := l.metadata.size
  audioOffset := l.audioOffset
  audioBytes := l.audio.size
  audioFormat := l.audioFormat
  headerChecksum := 0
  reserved := 0

def header : PZPContainerHeader :=
  { l.unchecked with headerChecksum := hashChecksum (Words.encode l.unchecked.slots) }

def entries : List PZPFrameEntry := frameEntries l.start l.frames

def data : List UInt8 := l.frames.flatMap (·.1.bytes)

def bytes : List UInt8 :=
  Words.encode l.header.words ++ (Words.encode (l.entries.flatMap (·.words)) ++
    (l.data ++ (l.metadata.bytes ++ l.audio.bytes)))

/-- The frames end before an offset overflows. -/
structure Small : Prop where
  counted : l.frames.length < 2 ^ 32
  ends : 48 + 16 * l.frames.length + l.data.length < 2 ^ 32

end Layout

theorem containerWrite_bytes (frames : List (Blob × UInt32)) (loopCount : UInt32) (metadata audio : Blob)
    (audioFormat : UInt32) :
    containerWrite frames loopCount metadata audio audioFormat =
      Layout.bytes
        { flags := (if metadata.bytes ≠ [] then PZP_CONTAINER_HAS_METADATA else 0) |||
            (if audio.bytes ≠ [] then PZP_CONTAINER_HAS_AUDIO else 0)
          loopCount, frames, metadata, audio, audioFormat } :=
  rfl

/-! The header and the index of a file. -/

theorem readHeader_words (h : PZPContainerHeader) (rest : List UInt8) :
    readHeader (Words.encode h.words ++ rest) = h := by
  have hwords : Words.decode 12 (Words.encode h.words ++ rest) = h.words :=
    Words.decode_encode h.words rest
  rw [readHeader, hwords]
  rfl

theorem entriesOf_words (entries : List PZPFrameEntry) :
    entriesOf (entries.flatMap (·.words)) = entries := by
  induction entries with
  | nil => rfl
  | cons e entries ih =>
    change _ :: entriesOf (entries.flatMap (·.words)) = _
    rw [ih]

theorem length_entriesOf {words : List UInt32} {n : ℕ} (h : words.length = 4 * n) :
    (entriesOf words).length = n := by
  induction n generalizing words with
  | zero =>
    obtain rfl := List.length_eq_zero_iff.mp h
    rfl
  | succ n ih =>
    match words, h with
    | _ :: _ :: _ :: _ :: words, h =>
      have hrest : words.length = 4 * n := by
        simp only [List.length_cons] at h
        omega
      exact congrArg (· + 1) (ih hrest)

theorem length_words (entries : List PZPFrameEntry) :
    (entries.flatMap (·.words)).length = 4 * entries.length := by
  induction entries with
  | nil => rfl
  | cons e entries ih =>
    rw [List.flatMap_cons, List.length_append, ih, List.length_cons]
    have hwords : e.words.length = 4 := rfl
    omega

theorem readEntries_words (h : PZPContainerHeader) {entries : List PZPFrameEntry} {frameCount : UInt32}
    (hcount : frameCount.toNat = entries.length) (rest : List UInt8) :
    readEntries (Words.encode h.words ++ (Words.encode (entries.flatMap (·.words)) ++ rest)) frameCount =
      entries := by
  have hheader : (Words.encode h.words).length = containerHeaderSize := Words.length_encode h.words
  have hwords := Words.decode_encode (entries.flatMap (·.words)) rest
  rw [length_words] at hwords
  rw [readEntries, ← hheader, List.drop_left, hcount, hwords, entriesOf_words]

/-! The frames. -/

section Frames
variable {frames : List (Blob × UInt32)}

theorem Blob.size_toNat (b : Blob) : b.size.toNat = b.bytes.length :=
  UInt32.toNat_ofNat_of_lt' b.counted

theorem Blob.size_eq_zero_iff (b : Blob) : b.size = 0 ↔ b.bytes = [] := by
  rw [← List.length_eq_zero_iff, ← b.size_toNat]
  constructor
  · intro h
    rw [h]
    rfl
  · intro h
    exact UInt32.toNat.inj h

theorem length_frameEntries (offset : UInt32) (frames : List (Blob × UInt32)) :
    (frameEntries offset frames).length = frames.length := by
  induction frames generalizing offset with
  | nil => rfl
  | cons frame frames ih => exact congrArg (· + 1) (ih _)

theorem relocate_frameEntries (offset cur : UInt32) (frames : List (Blob × UInt32)) :
    relocate cur (frameEntries offset frames) = frameEntries cur frames := by
  induction frames generalizing offset cur with
  | nil => rfl
  | cons frame frames ih => exact congrArg (_ :: ·) (ih _ _)

theorem length_relocate (cur : UInt32) (entries : List PZPFrameEntry) :
    (relocate cur entries).length = entries.length := by
  induction entries generalizing cur with
  | nil => rfl
  | cons e entries ih => exact congrArg (· + 1) (ih _)

theorem sizes_relocate (cur : UInt32) (entries : List PZPFrameEntry) :
    (relocate cur entries).map (·.compressedSize.toNat) = entries.map (·.compressedSize.toNat) := by
  induction entries generalizing cur with
  | nil => rfl
  | cons e entries ih => exact congrArg (_ :: ·) (ih _)

theorem sizes_frameEntries (offset : UInt32) (frames : List (Blob × UInt32)) :
    ((frameEntries offset frames).map (·.compressedSize.toNat)).sum =
      (frames.flatMap (·.1.bytes)).length := by
  induction frames generalizing offset with
  | nil => rfl
  | cons frame frames ih =>
    rw [frameEntries, List.map_cons, List.sum_cons, ih, List.flatMap_cons, List.length_append,
      Blob.size_toNat]

theorem delays_frameEntries (offset : UInt32) (frames : List (Blob × UInt32)) :
    (frameEntries offset frames).map (·.delayMs) = frames.map (·.2) := by
  induction frames generalizing offset with
  | nil => rfl
  | cons frame frames ih => exact congrArg (_ :: ·) (ih _)

theorem foldl_sizes (offset total : UInt32) (frames : List (Blob × UInt32)) :
    (frameEntries offset frames).foldl (fun total e => total + e.compressedSize) total =
      frames.foldl (fun offset frame => offset + frame.1.size) total := by
  induction frames generalizing offset total with
  | nil => rfl
  | cons frame frames ih => exact ih _ _

theorem foldl_sizes_add (offset total : UInt32) (frames : List (Blob × UInt32)) :
    frames.foldl (fun offset frame => offset + frame.1.size) (offset + total) =
      offset + frames.foldl (fun offset frame => offset + frame.1.size) total := by
  induction frames generalizing total with
  | nil => rfl
  | cons frame frames ih =>
    rw [List.foldl_cons, List.foldl_cons, UInt32.add_assoc, ih]

theorem foldl_sizes_toNat {offset : UInt32}
    (h : offset.toNat + (frames.flatMap (·.1.bytes)).length < 2 ^ 32) :
    (frames.foldl (fun offset frame => offset + frame.1.size) offset).toNat =
      offset.toNat + (frames.flatMap (·.1.bytes)).length := by
  induction frames generalizing offset with
  | nil => rfl
  | cons frame frames ih =>
    rw [List.flatMap_cons, List.length_append] at h
    have hsum : (offset + frame.1.size).toNat = offset.toNat + frame.1.bytes.length := by
      rw [UInt32.toNat_add, Blob.size_toNat]
      exact Nat.mod_eq_of_lt (by omega)
    rw [List.foldl_cons, ih (by rw [hsum]; omega), hsum, List.flatMap_cons, List.length_append]
    omega

theorem getElem_frameEntries {offset : UInt32} {front back : List UInt8}
    (hfront : front.length = offset.toNat)
    (h : offset.toNat + (frames.flatMap (·.1.bytes)).length < 2 ^ 32) {i : ℕ} {e : PZPFrameEntry}
    (he : (frameEntries offset frames)[i]? = some e) :
    ∃ frame, frames[i]? = some frame ∧
      ((front ++ (frames.flatMap (·.1.bytes) ++ back)).drop e.frameOffset.toNat).take
          e.compressedSize.toNat = frame.1.bytes ∧
        e.frameOffset.toNat + e.compressedSize.toNat ≤
          front.length + (frames.flatMap (·.1.bytes)).length := by
  induction frames generalizing offset front i with
  | nil => cases he
  | cons frame frames ih =>
    rw [List.flatMap_cons, List.length_append] at h ⊢
    cases i with
    | zero =>
      cases he
      refine ⟨frame, rfl, ?_, ?_⟩
      · dsimp only
        rw [← hfront, List.drop_left, Blob.size_toNat, List.append_assoc, List.take_left]
      · dsimp only
        rw [Blob.size_toNat, ← hfront]
        omega
    | succ i =>
      have hsum : (offset + frame.1.size).toNat = offset.toNat + frame.1.bytes.length := by
        rw [UInt32.toNat_add, Blob.size_toNat]
        exact Nat.mod_eq_of_lt (by omega)
      have hfront' : (front ++ frame.1.bytes).length = (offset + frame.1.size).toNat := by
        rw [List.length_append, hfront, hsum]
      obtain ⟨found, hfound, hbytes, hends⟩ := ih hfront' (by rw [hsum]; omega) he
      refine ⟨found, hfound, ?_, ?_⟩
      · rw [← hbytes]
        simp only [List.append_assoc]
      · rw [List.length_append] at hends
        omega

theorem getElem_frameEntries_none {offset : UInt32} {i : ℕ}
    (he : (frameEntries offset frames)[i]? = none) : frames[i]? = none := by
  rw [List.getElem?_eq_none_iff, length_frameEntries] at he
  exact List.getElem?_eq_none_iff.mpr he

end Frames

/-! What is read of a container. -/

section Reading
variable {l : Layout}

theorem Layout.frameCount_toNat (hcounted : l.frames.length < 2 ^ 32) :
    l.header.frameCount.toNat = l.frames.length := UInt32.toNat_ofNat_of_lt' hcounted

theorem Layout.readHeader_bytes (l : Layout) : readHeader l.bytes = l.header :=
  readHeader_words l.header _

theorem Layout.readEntries_bytes (hcounted : l.frames.length < 2 ^ 32) :
    readEntries l.bytes l.header.frameCount = l.entries := by
  apply readEntries_words
  rw [Layout.frameCount_toNat hcounted]
  exact (length_frameEntries _ _).symm

theorem Layout.length_index (l : Layout) :
    (Words.encode (l.entries.flatMap (·.words))).length = 16 * l.frames.length := by
  rw [Words.length_encode, length_words, Layout.entries, length_frameEntries]
  omega

theorem Layout.length_bytes (l : Layout) :
    l.bytes.length = 48 + 16 * l.frames.length + l.data.length + l.metadata.bytes.length +
      l.audio.bytes.length := by
  have hheader : (Words.encode l.header.words).length = 48 := Words.length_encode l.header.words
  rw [Layout.bytes, List.length_append, List.length_append, l.length_index, hheader, List.length_append,
    List.length_append]
  omega

theorem Layout.parseHeader_bytes (hcounted : l.frames.length < 2 ^ 32) :
    parseHeader l.bytes = some (l.header, l.entries) := by
  have hlength := l.length_bytes
  have hcount := Layout.frameCount_toNat hcounted
  have hlong : ¬l.bytes.length < containerHeaderSize := by
    unfold containerHeaderSize
    omega
  have hindex : ¬l.bytes.length < containerHeaderSize + l.header.frameCount.toNat * frameEntrySize := by
    rw [hcount]
    unfold containerHeaderSize frameEntrySize
    omega
  unfold parseHeader
  dsimp only
  rw [l.readHeader_bytes, if_neg hlong, if_neg (fun hne => hne rfl), if_neg (fun hne => hne rfl),
    if_neg hindex, Layout.readEntries_bytes hcounted]

theorem Layout.Small.start_toNat (h : l.Small) : l.start.toNat = 48 + 16 * l.frames.length := by
  have hends := h.ends
  have hcount : (UInt32.ofNat l.frames.length).toNat = l.frames.length :=
    UInt32.toNat_ofNat_of_lt' h.counted
  have hproduct : (UInt32.ofNat l.frames.length * 16).toNat = 16 * l.frames.length := by
    rw [UInt32.toNat_mul, hcount]
    have hsixteen : (16 : UInt32).toNat = 16 := rfl
    rw [hsixteen, Nat.mod_eq_of_lt (by omega)]
    omega
  rw [Layout.start, UInt32.toNat_add, hproduct]
  exact Nat.mod_eq_of_lt (by rw [show (48 : UInt32).toNat = 48 from rfl]; omega)

theorem Layout.Small.dataEnd_toNat (h : l.Small) :
    l.dataEnd.toNat = 48 + 16 * l.frames.length + l.data.length := by
  rw [← h.start_toNat]
  exact foldl_sizes_toNat (by rw [h.start_toNat]; exact h.ends)

theorem Layout.Small.bytes_eq (h : l.Small) : ∃ front, front.length = l.start.toNat ∧
    l.bytes = front ++ (l.data ++ (l.metadata.bytes ++ l.audio.bytes)) := by
  have hheader : (Words.encode l.header.words).length = 48 := Words.length_encode l.header.words
  refine ⟨Words.encode l.header.words ++ Words.encode (l.entries.flatMap (·.words)), ?_, ?_⟩
  · rw [List.length_append, l.length_index, hheader, h.start_toNat]
  · rw [Layout.bytes, List.append_assoc]

theorem Layout.Small.frameData (h : l.Small) (i : ℕ) :
    Pzp.frameData l.bytes i = l.frames[i]?.map (·.1.bytes) := by
  obtain ⟨front, hfront, hbytes⟩ := h.bytes_eq
  have hlength := l.length_bytes
  have hends : l.start.toNat + l.data.length < 2 ^ 32 := by
    rw [h.start_toNat]
    exact h.ends
  rw [Pzp.frameData, Layout.parseHeader_bytes h.counted, Option.bind_some]
  cases he : l.entries[i]? with
  | none =>
    dsimp only
    rw [he, getElem_frameEntries_none he]
    rfl
  | some e =>
    obtain ⟨frame, hframe, hslice, hin⟩ :=
      @getElem_frameEntries _ _ _ (l.metadata.bytes ++ l.audio.bytes) hfront hends _ _ he
    have hfits : ¬l.bytes.length < e.frameOffset.toNat + e.compressedSize.toNat := by
      rw [hbytes, List.length_append, List.length_append]
      unfold Layout.data
      omega
    dsimp only
    rw [he, Option.bind_some, if_neg hfits, hframe, Option.map_some, ← hslice, hbytes]
    rfl

theorem readFrame_congr {file file' : List UInt8} (h : ∀ i, frameData file i = frameData file' i)
    (decompress : List UInt8 → Option Image) (i : ℕ) :
    readFrame decompress file i = readFrame decompress file' i := by
  induction i with
  | zero => rw [readFrame, readFrame, h]
  | succ i ih => rw [readFrame, readFrame, h, ih]

theorem copied_append {front blob back : List UInt8} {offset bytes : UInt32}
    (hoffset : offset.toNat = front.length) (hbytes : bytes.toNat = blob.length) :
    copied (front ++ (blob ++ back)) offset bytes = .ok blob := by
  unfold copied
  rw [hoffset, hbytes, if_neg, List.drop_left, List.take_left]
  rw [List.length_append, List.length_append]
  omega

theorem Layout.getMetadata_none (hcounted : l.frames.length < 2 ^ 32)
    (hflag : l.flags &&& PZP_CONTAINER_HAS_METADATA = 0) : getMetadata l.bytes = .ok none := by
  rw [getMetadata, Layout.parseHeader_bytes hcounted]
  exact if_pos (.inl hflag)

theorem Layout.getAudio_none (hcounted : l.frames.length < 2 ^ 32)
    (hflag : l.flags &&& PZP_CONTAINER_HAS_AUDIO = 0) : getAudio l.bytes = .ok none := by
  rw [getAudio, Layout.parseHeader_bytes hcounted]
  exact if_pos (.inl hflag)

theorem Layout.Small.getMetadata (h : l.Small)
    (hflag : l.flags &&& PZP_CONTAINER_HAS_METADATA ≠ 0) (hblob : l.metadata.bytes ≠ []) :
    Pzp.getMetadata l.bytes = .ok (some l.metadata.bytes) := by
  obtain ⟨front, hfront, hbytes⟩ := h.bytes_eq
  have hoffset : l.header.metadataOffset.toNat = (front ++ l.data).length := by
    have hoff : l.header.metadataOffset = l.dataEnd := if_pos hblob
    rw [hoff, h.dataEnd_toNat, List.length_append, hfront, h.start_toNat]
  have hsize : l.header.metadataBytes.toNat = l.metadata.bytes.length := l.metadata.size_toNat
  have hnone : ¬(l.header.containerFlags &&& PZP_CONTAINER_HAS_METADATA = 0 ∨
      l.header.metadataBytes = 0) := by
    rintro (hclear | hzero)
    · exact hflag hclear
    · exact hblob (l.metadata.size_eq_zero_iff.mp hzero)
  rw [Pzp.getMetadata, Layout.parseHeader_bytes h.counted]
  dsimp only
  rw [if_neg hnone, hbytes, ← List.append_assoc, copied_append hoffset hsize]
  rfl

theorem Layout.Small.dataEnd_ne_zero (h : l.Small) : l.dataEnd ≠ 0 := by
  intro hzero
  have hnat := h.dataEnd_toNat
  rw [hzero, show (0 : UInt32).toNat = 0 from rfl] at hnat
  omega

theorem Layout.Small.audioOffset_toNat (h : l.Small)
    (hsmall : 48 + 16 * l.frames.length + l.data.length + l.metadata.bytes.length < 2 ^ 32)
    (hblob : l.audio.bytes ≠ []) : l.audioOffset.toNat =
      48 + 16 * l.frames.length + l.data.length + l.metadata.bytes.length := by
  rw [← h.dataEnd_toNat] at hsmall ⊢
  have hoffset : l.audioOffset =
      if l.metaOffset ≠ 0 then l.metaOffset + l.metadata.size else l.dataEnd := if_pos hblob
  rw [hoffset]
  by_cases hmetadata : l.metadata.bytes = []
  · have hzero : l.metaOffset = 0 := if_neg (not_not.mpr hmetadata)
    rw [if_neg (not_not.mpr hzero), hmetadata]
    rfl
  · have hend : l.metaOffset = l.dataEnd := if_pos hmetadata
    rw [hend, if_pos h.dataEnd_ne_zero, UInt32.toNat_add, Blob.size_toNat]
    exact Nat.mod_eq_of_lt hsmall

theorem Layout.Small.getAudio (h : l.Small)
    (hsmall : 48 + 16 * l.frames.length + l.data.length + l.metadata.bytes.length < 2 ^ 32)
    (hflag : l.flags &&& PZP_CONTAINER_HAS_AUDIO ≠ 0) (hblob : l.audio.bytes ≠ []) :
    Pzp.getAudio l.bytes = .ok (some (l.audio.bytes, l.audioFormat)) := by
  obtain ⟨front, hfront, hbytes⟩ := h.bytes_eq
  have hoffset : l.header.audioOffset.toNat = (front ++ (l.data ++ l.metadata.bytes)).length := by
    have hplace := h.audioOffset_toNat hsmall hblob
    rw [List.length_append, List.length_append, hfront, h.start_toNat, ← Nat.add_assoc]
    exact hplace
  have hsize : l.header.audioBytes.toNat = l.audio.bytes.length := l.audio.size_toNat
  have hnone : ¬(l.header.containerFlags &&& PZP_CONTAINER_HAS_AUDIO = 0 ∨
      l.header.audioBytes = 0) := by
    rintro (hclear | hzero)
    · exact hflag hclear
    · exact hblob (l.audio.size_eq_zero_iff.mp hzero)
  have hsplit : l.bytes = front ++ (l.data ++ l.metadata.bytes) ++ (l.audio.bytes ++ []) := by
    rw [hbytes, List.append_nil]
    simp only [List.append_assoc]
  rw [Pzp.getAudio, Layout.parseHeader_bytes h.counted]
  dsimp only
  rw [if_neg hnone, hsplit, copied_append hoffset hsize]
  rfl

end Reading

/-! Attaching. -/

section Attaching
variable {l : Layout} {file out : List UInt8} {metadata audio : Blob} {audioFormat : UInt32}

/-- The layout with the blobs that are given. -/
def Layout.attached (l : Layout) (metadata audio : Blob) (audioFormat : UInt32) : Layout :=
  { l with
    flags := l.flags ||| (if metadata.bytes ≠ [] then PZP_CONTAINER_HAS_METADATA else 0) |||
      (if audio.bytes ≠ [] then PZP_CONTAINER_HAS_AUDIO else 0)
    metadata, audio, audioFormat }

theorem Layout.Small.total (h : l.Small) :
    l.start + totalFrameBytes l.entries = l.dataEnd ∧
      (totalFrameBytes l.entries).toNat = l.data.length := by
  have hends := h.ends
  have hzero : (0 : UInt32).toNat = 0 := rfl
  rw [totalFrameBytes, Layout.entries, foldl_sizes]
  constructor
  · rw [← foldl_sizes_add, UInt32.add_zero]
    rfl
  · rw [foldl_sizes_toNat]
    · rw [hzero, Nat.zero_add]
      rfl
    · rw [hzero, Nat.zero_add]
      exact Nat.lt_of_le_of_lt (Nat.le_add_left _ _) hends

theorem Layout.Small.attach (h : l.Small) :
    containerAttach l.bytes metadata audio audioFormat =
      .ok (some (l.attached metadata audio audioFormat).bytes) := by
  obtain ⟨front, hfront, hbytes⟩ := h.bytes_eq
  obtain ⟨hdataEnd, htotal⟩ := h.total
  have hlength := l.length_bytes
  have hcount := Layout.frameCount_toNat h.counted
  have hlong : ¬l.bytes.length < containerHeaderSize := by
    unfold containerHeaderSize
    omega
  have hindex : ¬l.bytes.length < containerHeaderSize + l.header.frameCount.toNat * frameEntrySize := by
    rw [hcount]
    unfold containerHeaderSize frameEntrySize
    omega
  have hfits : ¬l.bytes.length < l.start.toNat +
      (totalFrameBytes l.entries).toNat := by
    rw [htotal, h.start_toNat]
    omega
  have hwords : (l.entries.flatMap (·.words)).take (4 * l.header.frameCount).toNat =
      l.entries.flatMap (·.words) := by
    apply List.take_of_length_le
    have hends := h.ends
    have hfour : (4 : UInt32).toNat = 4 := rfl
    apply Nat.le_of_eq
    rw [length_words, Layout.entries, length_frameEntries, UInt32.toNat_mul, hcount, hfour,
      Nat.mod_eq_of_lt (by omega)]
  have hdata : (l.bytes.drop l.start.toNat).take
      (totalFrameBytes l.entries).toNat = l.data := by
    rw [htotal, hbytes, ← hfront, List.drop_left, List.take_left]
  have hrelocate : relocate l.start l.entries = l.entries := relocate_frameEntries _ _ _
  have hstart : 48 + l.header.frameCount * 16 = l.start := rfl
  unfold containerAttach
  dsimp only
  rw [l.readHeader_bytes, if_neg hlong, if_neg (fun hne => hne rfl), if_neg hindex,
    Layout.readEntries_bytes h.counted]
  simp only [hstart, hdataEnd, hrelocate, hwords, hdata, if_neg hfits]
  rfl

/-! Any file that is attached to. -/

theorem length_readEntries {frameCount : UInt32}
    (h : containerHeaderSize + frameCount.toNat * frameEntrySize ≤ file.length) :
    (readEntries file frameCount).length = frameCount.toNat := by
  apply length_entriesOf
  apply Words.length_decode
  rw [List.length_drop]
  unfold frameEntrySize at h
  omega

/-- What an attachment says about the words of its output. -/
structure Attached (file : List UInt8) (metadata audio : Blob) (out : List UInt8) : Prop where
  containerFlags : (readHeader out).containerFlags = (readHeader file).containerFlags |||
    (if metadata.bytes ≠ [] then PZP_CONTAINER_HAS_METADATA else 0) |||
      (if audio.bytes ≠ [] then PZP_CONTAINER_HAS_AUDIO else 0)
  metadataBytes : (readHeader out).metadataBytes = metadata.size
  audioBytes : (readHeader out).audioBytes = audio.size
  frameCount : (readHeader out).frameCount = (readHeader file).frameCount
  sizes : 16 * (readHeader file).frameCount.toNat < 2 ^ 32 →
    (readEntries out (readHeader file).frameCount).map (·.compressedSize.toNat) =
      (readEntries file (readHeader file).frameCount).map (·.compressedSize.toNat)

theorem attached_of_containerAttach
    (h : containerAttach file metadata audio audioFormat = .ok (some out)) :
    Attached file metadata audio out := by
  unfold containerAttach at h
  dsimp only at h
  split at h
  · cases h
  split at h
  · cases h
  split at h
  · cases h
  rename_i hindex
  split at h
  · cases h
  obtain rfl := Option.some.inj (Except.ok.inj h)
  have hlength := length_readEntries (Nat.not_lt.mp hindex)
  refine ⟨?_, ?_, ?_, ?_, fun hsmall => ?_⟩
  · rw [readHeader_words]
  · rw [readHeader_words]
  · rw [readHeader_words]
  · rw [readHeader_words]
  · have hfour : (4 : UInt32).toNat = 4 := rfl
    have hwords : (4 * (readHeader file).frameCount).toNat = 4 * (readHeader file).frameCount.toNat := by
      rw [UInt32.toNat_mul, hfour, Nat.mod_eq_of_lt (by omega)]
    rw [hwords, List.take_of_length_le, readEntries_words, sizes_relocate]
    · rw [length_relocate, hlength]
    · apply Nat.le_of_eq
      rw [length_words, length_relocate, hlength]

/-- The containers that are written, and those that something was attached to. -/
inductive Produced : List UInt8 → Prop
  | write (frames : List (Blob × UInt32)) (loopCount : UInt32) (metadata audio : Blob)
      (audioFormat : UInt32) (hne : frames ≠ []) (hcounted : frames.length < 2 ^ 32) :
      Produced (containerWrite frames loopCount metadata audio audioFormat)
  | attach {file out : List UInt8} (metadata audio : Blob) (audioFormat : UInt32)
      (before : Produced file)
      (h : containerAttach file metadata audio audioFormat = .ok (some out)) : Produced out

/-- Where the frames end, from the words of the file. -/
def frameEnd (file : List UInt8) : ℕ :=
  48 + 16 * (readHeader file).frameCount.toNat +
    ((readEntries file (readHeader file).frameCount).map (·.compressedSize.toNat)).sum

theorem frameEnd_bytes (hcounted : l.frames.length < 2 ^ 32) :
    frameEnd l.bytes = 48 + 16 * l.frames.length + l.data.length := by
  rw [frameEnd, l.readHeader_bytes, Layout.readEntries_bytes hcounted, Layout.frameCount_toNat hcounted,
    Layout.entries, sizes_frameEntries]
  rfl

theorem Attached.frameEnd_eq (h : Attached file metadata audio out) (hsmall : frameEnd out < 2 ^ 32) :
    frameEnd file = frameEnd out := by
  have hcount : 16 * (readHeader file).frameCount.toNat < 2 ^ 32 := by
    rw [frameEnd, h.frameCount] at hsmall
    omega
  rw [frameEnd, frameEnd, h.frameCount, h.sizes hcount]

theorem Produced.layout (h : Produced file) (hsmall : frameEnd file < 2 ^ 32) :
    ∃ l : Layout, l.Small ∧ file = l.bytes := by
  induction h with
  | write frames loopCount metadata audio audioFormat hne hcounted =>
    rw [containerWrite_bytes] at hsmall ⊢
    refine ⟨_, ⟨hcounted, ?_⟩, rfl⟩
    rwa [frameEnd_bytes hcounted] at hsmall
  | attach metadata audio audioFormat before hattach ih =>
    have hattached := attached_of_containerAttach hattach
    obtain ⟨l, hl, rfl⟩ := ih (by rw [hattached.frameEnd_eq hsmall]; exact hsmall)
    rw [hl.attach] at hattach
    cases hattach
    exact ⟨l.attached metadata audio audioFormat, ⟨hl.counted, hl.ends⟩, rfl⟩

end Attaching

end AmmarServer.BasicImaging.Pzp
