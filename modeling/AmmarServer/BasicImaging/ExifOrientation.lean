import Mathlib.Algebra.Group.Nat.Defs
import Mathlib.Data.List.Basic

/-! The walk of `readEXIFOrientation` over the markers of a JPEG file and the walk of
`parseEXIFTIFFOrientation` over the directory of its TIFF block. Every read is checked against the
block that it is made in. -/

namespace AmmarServer.Exif

inductive Fault
  | outOfBounds
  | endless
deriving DecidableEq, Repr

/-- What is read from disk. Its size is a `long`. -/
structure File where
  data : List UInt8
  size_lt : data.length < 2 ^ 63

def byteAt (block : List UInt8) (p : ℕ) : Except Fault UInt8 :=
  match block[p]? with
  | some byte => .ok byte
  | none => .error .outOfBounds

def exifGet16 (block : List UInt8) (p : ℕ) (littleEndian : Bool) : Except Fault ℕ := do
  let p0 ← byteAt block p
  let p1 ← byteAt block (p + 1)
  if littleEndian then pure (p0.toNat ||| p1.toNat <<< 8)
  else pure (p0.toNat <<< 8 ||| p1.toNat)

def exifGet32 (block : List UInt8) (p : ℕ) (littleEndian : Bool) : Except Fault ℕ := do
  let p0 ← byteAt block p
  let p1 ← byteAt block (p + 1)
  let p2 ← byteAt block (p + 2)
  let p3 ← byteAt block (p + 3)
  if littleEndian then
    pure (p0.toNat ||| p1.toNat <<< 8 ||| p2.toNat <<< 16 ||| p3.toNat <<< 24)
  else pure (p0.toNat <<< 24 ||| p1.toNat <<< 16 ||| p2.toNat <<< 8 ||| p3.toNat)

/-- The difference of two `unsigned long`. -/
def minus (size n : ℕ) : ℕ := (size + 2 ^ 64 - n) % 2 ^ 64

/-! The TIFF block. -/

/-- The loop with the entries that are left. -/
def ifd0Entries (tiff : List UInt8) (littleEndian : Bool) : ℕ → ℕ → Except Fault ℕ
  | 0, _ => pure 0
  | entries + 1, pos =>
    if minus tiff.length 12 < pos then pure 0
    else do
      let tag ← exifGet16 tiff pos littleEndian
      let type ← exifGet16 tiff (pos + 2) littleEndian
      let count ← exifGet32 tiff (pos + 4) littleEndian
      let value ← exifGet32 tiff (pos + 8) littleEndian
      if tag = 0x0112 ∧ type = 3 ∧ count = 1 then
        if 1 ≤ value ∧ value ≤ 8 then pure value else pure 0
      else ifd0Entries tiff littleEndian entries (pos + 12)

/-- Whether the block is little-endian, from its first two bytes. -/
def byteOrder (tiff0 tiff1 : UInt8) : Option Bool :=
  if tiff0 = 73 ∧ tiff1 = 73 then some true
  else if tiff0 = 77 ∧ tiff1 = 77 then some false
  else none

def parseEXIFTIFFOrientation (tiff : List UInt8) : Except Fault ℕ :=
  if tiff.length < 8 then pure 0
  else do
    let tiff0 ← byteAt tiff 0
    let tiff1 ← byteAt tiff 1
    match byteOrder tiff0 tiff1 with
    | none => pure 0
    | some littleEndian =>
      let magic ← exifGet16 tiff 2 littleEndian
      if magic ≠ 42 then pure 0
      else
        let ifd0Offset ← exifGet32 tiff 4 littleEndian
        if minus tiff.length 2 < ifd0Offset then pure 0
        else
          let entryCount ← exifGet16 tiff ifd0Offset littleEndian
          ifd0Entries tiff littleEndian entryCount (ifd0Offset + 2)

/-! The markers. -/

/-- `"Exif\0\0"` -/
def exifHeader : List UInt8 := [69, 120, 105, 102, 0, 0]

/-- The comparison of bytes one after the other, up to the first that differs. -/
def matchesAt (data : List UInt8) : ℕ → List UInt8 → Except Fault Bool
  | _, [] => pure true
  | p, c :: text => do
    let byte ← byteAt data p
    if byte = c then matchesAt data (p + 1) text else pure false

/-- How one pass through the loop ends. -/
inductive Pass
  | stop
  | next (offset : ℕ)
  | exif (tiff : List UInt8)
deriving DecidableEq, Repr

/-- The place behind the fill bytes. -/
def afterFill (data : List UInt8) (offset : ℕ) : ℕ :=
  offset + ((data.drop offset).takeWhile (· == 0xFF)).length

/-- What the pass does with the marker that stands right before a place. -/
def afterMarker (data : List UInt8) (marker : UInt8) (offset : ℕ) : Except Fault Pass :=
  if marker = 0xD9 ∨ marker = 0xDA then pure .stop
  else if marker = 0x01 ∨ 0xD0 ≤ marker ∧ marker ≤ 0xD7 then pure (.next offset)
  else if minus data.length 2 < offset then pure .stop
  else do
    let segmentLen ← exifGet16 data offset false
    if segmentLen < 2 ∨ minus data.length offset < segmentLen then pure .stop
    else if marker = 0xE1 ∧ 8 ≤ segmentLen - 2 then
      if ← matchesAt data (offset + 2) exifHeader then
        pure (.exif ((data.drop (offset + 2 + 6)).take (segmentLen - 2 - 6)))
      else pure (.next (offset + segmentLen))
    else pure (.next (offset + segmentLen))

def pass (data : List UInt8) (offset : ℕ) : Except Fault Pass := do
  let byte ← byteAt data offset
  if byte ≠ 0xFF then pure .stop
  else if data.length ≤ afterFill data offset then pure .stop
  else
    let marker ← byteAt data (afterFill data offset)
    afterMarker data marker (afterFill data offset + 1)

/-- The loop for at most a number of passes. -/
def findExif (data : List UInt8) : ℕ → ℕ → Except Fault (Option (List UInt8))
  | 0, _ => .error .endless
  | passes + 1, offset =>
    if data.length ≤ offset then pure none
    else do
      match ← pass data offset with
      | .stop => pure none
      | .next offset => findExif data passes offset
      | .exif tiff => pure (some tiff)

def readEXIFOrientation (file : File) : Except Fault ℕ :=
  if file.data.length < 4 then pure 0
  else do
    let data0 ← byteAt file.data 0
    let data1 ← byteAt file.data 1
    if data0 = 0xFF ∧ data1 = 0xD8 then
      match ← findExif file.data file.data.length 2 with
      | none => pure 0
      | some tiff => parseEXIFTIFFOrientation tiff
    else pure 0

end AmmarServer.Exif
