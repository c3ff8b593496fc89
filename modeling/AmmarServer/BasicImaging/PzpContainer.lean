import Mathlib.Algebra.GroupWithZero.Nat
import AmmarServer.Lib.Words

/-! The containers of `BasicImaging/codecs/pzp.h`: frames that are compressed each for itself, with a
text and a sound behind them. A blob that is not given is empty. -/

namespace AmmarServer.BasicImaging.Pzp

inductive Fault
  | outOfBounds
deriving DecidableEq, Repr

structure PZPContainerHeader where
  magic : UInt32
  version : UInt32
  containerFlags : UInt32
  frameCount : UInt32
  loopCount : UInt32
  metadataOffset : UInt32
  metadataBytes : UInt32
  audioOffset : UInt32
  audioBytes : UInt32
  audioFormat : UInt32
  headerChecksum : UInt32
  reserved : UInt32
deriving DecidableEq, Repr

structure PZPFrameEntry where
  frameOffset : UInt32
  compressedSize : UInt32
  delayMs : UInt32
  reserved : UInt32
deriving DecidableEq, Repr

/-- What is counted in an `unsigned int`. -/
structure Blob where
  bytes : List UInt8
  counted : bytes.length < 2 ^ 32

def Blob.size (b : Blob) : UInt32 := UInt32.ofNat b.bytes.length

/-- `convert_header("PZP0")` -/
def pzpHeader : UInt32 := 0x505a5030

def PZP_CONTAINER_VERSION : UInt32 := 1
def PZP_CONTAINER_HAS_METADATA : UInt32 := 1
def PZP_CONTAINER_HAS_AUDIO : UInt32 := 2
def USE_INTER_DELTA : UInt32 := 8
def containerHeaderSize : ℕ := 48
def frameEntrySize : ℕ := 16

/-! The bytes of a header and of a frame index. -/

/-- The words that the checksum is of. -/
def PZPContainerHeader.slots (h : PZPContainerHeader) : List UInt32 :=
  [h.magic, h.version, h.containerFlags, h.frameCount, h.loopCount, h.metadataOffset, h.metadataBytes,
    h.audioOffset, h.audioBytes, h.audioFormat]

def PZPContainerHeader.words (h : PZPContainerHeader) : List UInt32 :=
  h.slots ++ [h.headerChecksum, h.reserved]

def PZPFrameEntry.words (e : PZPFrameEntry) : List UInt32 :=
  [e.frameOffset, e.compressedSize, e.delayMs, e.reserved]

/-- `memcpy` to a header from the begin of a file that is long enough. -/
def readHeader (file : List UInt8) : PZPContainerHeader :=
  let slot := fun i => (Words.decode 12 file).getD i 0
  { magic := slot 0, version := slot 1, containerFlags := slot 2, frameCount := slot 3
    loopCount := slot 4, metadataOffset := slot 5, metadataBytes := slot 6, audioOffset := slot 7
    audioBytes := slot 8, audioFormat := slot 9, headerChecksum := slot 10, reserved := slot 11 }

def entriesOf : List UInt32 → List PZPFrameEntry
  | frameOffset :: compressedSize :: delayMs :: reserved :: words =>
    { frameOffset, compressedSize, delayMs, reserved } :: entriesOf words
  | _ => []

def readEntries (file : List UInt8) (frameCount : UInt32) : List PZPFrameEntry :=
  entriesOf (Words.decode (4 * frameCount.toNat) (file.drop containerHeaderSize))

def hashLoop : List UInt8 → UInt32 → UInt32 → UInt32 → UInt32 → UInt32
  | b0 :: b1 :: b2 :: b3 :: rest, h1, h2, h3, h4 =>
    hashLoop rest ((h1 ^^^ b0.toUInt32) * 31) ((h2 ^^^ b1.toUInt32) * 37) ((h3 ^^^ b2.toUInt32) * 41)
      ((h4 ^^^ b3.toUInt32) * 43)
  | rest, h1, h2, h3, h4 =>
    let h1 : UInt32 := match rest[0]? with | some b => (h1 ^^^ b.toUInt32) * 31 | none => h1
    let h2 : UInt32 := match rest[1]? with | some b => (h2 ^^^ b.toUInt32) * 37 | none => h2
    let h3 : UInt32 := match rest[2]? with | some b => (h3 ^^^ b.toUInt32) * 41 | none => h3
    (h1 ^^^ (h2 >>> 3)) + (h3 ^^^ (h4 <<< 5))

def hashChecksum (data : List UInt8) : UInt32 :=
  hashLoop data 0x12345678 0x9ABCDEF0 0xFEDCBA98 0x87654321

/-! A container is written. -/

/-- The offsets of the frames one behind the other. -/
def frameEntries (offset : UInt32) : List (Blob × UInt32) → List PZPFrameEntry
  | [] => []
  | (frame, delayMs) :: frames =>
    { frameOffset := offset, compressedSize := frame.size, delayMs, reserved := 0 } ::
      frameEntries (offset + frame.size) frames

/-- `frames` are what the frames were compressed to, with their delays. -/
def containerWrite (frames : List (Blob × UInt32)) (loopCount : UInt32) (metadata audio : Blob)
    (audioFormat : UInt32) : List UInt8 :=
  let frameCount := UInt32.ofNat frames.length
  let start := 48 + frameCount * 16
  let dataEnd := frames.foldl (fun offset frame => offset + frame.1.size) start
  let metaOffset := if metadata.bytes ≠ [] then dataEnd else 0
  let audioOffset :=
    if audio.bytes ≠ [] then (if metaOffset ≠ 0 then metaOffset + metadata.size else dataEnd) else 0
  let flags := (if metadata.bytes ≠ [] then PZP_CONTAINER_HAS_METADATA else 0) |||
    (if audio.bytes ≠ [] then PZP_CONTAINER_HAS_AUDIO else 0)
  let hdr : PZPContainerHeader :=
    { magic := pzpHeader
      version := PZP_CONTAINER_VERSION
      containerFlags := flags
      frameCount
      loopCount
      metadataOffset := metaOffset
      metadataBytes := metadata.size
      audioOffset
      audioBytes := audio.size
      audioFormat
      headerChecksum := 0
      reserved := 0 }
  let hdr := { hdr with headerChecksum := hashChecksum (Words.encode hdr.slots) }
  Words.encode hdr.words ++ (Words.encode ((frameEntries start frames).flatMap (·.words)) ++
    (frames.flatMap (·.1.bytes) ++ (metadata.bytes ++ audio.bytes)))

/-! Blobs are attached to a container. -/

/-- The loop that recomputes the offsets. -/
def relocate (cur : UInt32) : List PZPFrameEntry → List PZPFrameEntry
  | [] => []
  | e :: entries => { e with frameOffset := cur } :: relocate (cur + e.compressedSize) entries

def totalFrameBytes (entries : List PZPFrameEntry) : UInt32 :=
  entries.foldl (fun total e => total + e.compressedSize) 0

/-- `none` where the call returns 0. -/
def containerAttach (file : List UInt8) (metadata audio : Blob) (audioFormat : UInt32) :
    Except Fault (Option (List UInt8)) :=
  let hdr := readHeader file
  if file.length < containerHeaderSize then .ok none
  else if hdr.magic ≠ pzpHeader then .ok none
  else if file.length < containerHeaderSize + hdr.frameCount.toNat * frameEntrySize then .ok none
  else
    let entries := readEntries file hdr.frameCount
    let total := totalFrameBytes entries
    let frameAreaStart := 48 + hdr.frameCount * 16
    let dataEnd := frameAreaStart + total
    let newMetaOffset := if metadata.bytes ≠ [] then dataEnd else 0
    let newAudioOffset :=
      if audio.bytes ≠ [] then
        (if newMetaOffset ≠ 0 then newMetaOffset + metadata.size else dataEnd)
      else 0
    let flags := hdr.containerFlags |||
      (if metadata.bytes ≠ [] then PZP_CONTAINER_HAS_METADATA else 0) |||
      (if audio.bytes ≠ [] then PZP_CONTAINER_HAS_AUDIO else 0)
    let hdr :=
      { hdr with
        containerFlags := flags
        metadataOffset := newMetaOffset
        metadataBytes := metadata.size
        audioOffset := newAudioOffset
        audioBytes := audio.size
        audioFormat }
    let hdr := { hdr with headerChecksum := hashChecksum (Words.encode hdr.slots) }
    let entries := relocate frameAreaStart entries
    if file.length < frameAreaStart.toNat + total.toNat then .error .outOfBounds
    else
      .ok (some (Words.encode hdr.words ++
        (Words.encode ((entries.flatMap (·.words)).take (4 * hdr.frameCount).toNat) ++
          ((file.drop frameAreaStart.toNat).take total.toNat ++
            (metadata.bytes ++ audio.bytes)))))

/-! A container is read. -/

def parseHeader (file : List UInt8) : Option (PZPContainerHeader × List PZPFrameEntry) :=
  let hdr := readHeader file
  if file.length < containerHeaderSize then none
  else if hdr.magic ≠ pzpHeader then none
  else if hdr.version ≠ PZP_CONTAINER_VERSION then none
  else if file.length < containerHeaderSize + hdr.frameCount.toNat * frameEntrySize then none
  else some (hdr, readEntries file hdr.frameCount)

/-- `memcpy` from a file. -/
def copied (file : List UInt8) (offset bytes : UInt32) : Except Fault (List UInt8) :=
  if file.length < offset.toNat + bytes.toNat then .error .outOfBounds
  else .ok ((file.drop offset.toNat).take bytes.toNat)

def getMetadata (file : List UInt8) : Except Fault (Option (List UInt8)) :=
  match parseHeader file with
  | none => .ok none
  | some (hdr, _) =>
    if hdr.containerFlags &&& PZP_CONTAINER_HAS_METADATA = 0 ∨ hdr.metadataBytes = 0 then .ok none
    else (copied file hdr.metadataOffset hdr.metadataBytes).map some

/-- With the format. -/
def getAudio (file : List UInt8) : Except Fault (Option (List UInt8 × UInt32)) :=
  match parseHeader file with
  | none => .ok none
  | some (hdr, _) =>
    if hdr.containerFlags &&& PZP_CONTAINER_HAS_AUDIO = 0 ∨ hdr.audioBytes = 0 then .ok none
    else (copied file hdr.audioOffset hdr.audioBytes).map fun blob => some (blob, hdr.audioFormat)

/-- What a frame is decompressed to. -/
structure Image where
  width : UInt32
  height : UInt32
  bppExt : UInt32
  chExt : UInt32
  bppInt : UInt32
  chInt : UInt32
  configuration : UInt32
  out : List UInt8
deriving DecidableEq, Repr

/-- The pixels of the frame before are added. -/
def Image.add (image prev : Image) : Image :=
  if prev.width = image.width ∧ prev.height = image.height ∧ prev.chInt = image.chInt then
    let n := image.width.toNat * image.height.toNat * image.chInt.toNat
    { image with
      out := List.zipWith (· + ·) (image.out.take n) (prev.out.take n) ++ image.out.drop n }
  else image

/-- The bytes of a frame, where the index leads to bytes of the file. -/
def frameData (file : List UInt8) (frameIndex : ℕ) : Option (List UInt8) :=
  (parseHeader file).bind fun (_, entries) => entries[frameIndex]?.bind fun e =>
    if file.length < e.frameOffset.toNat + e.compressedSize.toNat then none
    else some ((file.drop e.frameOffset.toNat).take e.compressedSize.toNat)

/-- `decompress` is `pzp_decompress_combined_from_memory`. -/
def readFrame (decompress : List UInt8 → Option Image) (file : List UInt8) : ℕ → Option Image
  | 0 => (frameData file 0).bind decompress
  | previous + 1 =>
    ((frameData file (previous + 1)).bind decompress).map fun image =>
      if image.configuration &&& USE_INTER_DELTA ≠ 0 then
        match readFrame decompress file previous with
        | some prev => image.add prev
        | none => image
      else image

end AmmarServer.BasicImaging.Pzp
