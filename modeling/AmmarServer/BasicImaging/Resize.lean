import AmmarServer.BasicImaging.Rotation
import AmmarServer.Lib.Buffers
import AmmarServer.Lib.Simd

/-! The scalar way and the vector ways of `BasicImaging/resize.c`. An `unsigned int` is a number below 2^32,
and what stands in memory that was just allocated is arbitrary. -/

namespace AmmarServer.Resize
open BasicImaging (Image basicImagingNew)
open Buffers Loops Simd

def u32 (n : ℕ) : ℕ := n % 2 ^ 32

def u64 (n : ℕ) : ℕ := n % 2 ^ 64

/-- `FIXED_ONE` -/
def fixedOne : ℕ := 128

/-- `FIXED_SHIFT` -/
def fixedShift : ℕ := 14

/-- `FIXED_ROUND` -/
def fixedRound : ℕ := 8192

structure AxisTaps where
  low : List ℕ
  high : List ℕ
  weight : List UInt16
  rel0 : Option (List UInt8)
  rel1 : Option (List UInt8)
deriving DecidableEq, Repr

/-- The byte offset of a tap in the window of its batch. -/
def relByte (low tap : ℕ → ℕ) (channels d c : ℕ) : UInt8 :=
  UInt8.ofNat (u32 (u32 (tap d + 2 ^ 32 - low (d / 4 * 4)) * channels + c))

/-! The arithmetic of a pixel. -/

/-- `FIXED_ONE - w` -/
def complement (w : UInt16) : ℕ := u32 (fixedOne + 2 ^ 32 - w.toNat)

/-- `p0*w0 + p1*w1` -/
def blend (p0 p1 : UInt8) (w : UInt16) : ℕ := u32 (p0.toNat * complement w + p1.toNat * w.toNat)

/-- `(unsigned char) ( (top*wY0 + bot*wY1 + FIXED_ROUND) >> FIXED_SHIFT )` -/
def narrow (top bot wY0 wY1 : ℕ) : UInt8 :=
  UInt8.ofNat (u32 (top * wY0 + bot * wY1 + fixedRound) / 2 ^ fixedShift)

/-! The scalar way. -/

def scalarPixel (rowTop rowBot : List UInt8) (xTaps : AxisTaps) (channels wY0 wY1 dx c : ℕ) :
    Except Fault UInt8 := do
  let low ← readAt xTaps.low dx
  let high ← readAt xTaps.high dx
  let wX1 ← readAt xTaps.weight dx
  let p00 ← readAt rowTop (u32 (u32 (low * channels) + c))
  let p10 ← readAt rowTop (u32 (u32 (high * channels) + c))
  let p01 ← readAt rowBot (u32 (u32 (low * channels) + c))
  let p11 ← readAt rowBot (u32 (u32 (high * channels) + c))
  .ok (narrow (blend p00 p10 wX1) (blend p01 p11 wX1) wY0 wY1)

def scalarRow (img : Image) (xTaps yTaps : AxisTaps) (channels newWidth dy : ℕ) (dstPixels : List UInt8) :
    Except Fault (List UInt8) := do
  let low ← readAt yTaps.low dy
  let high ← readAt yTaps.high dy
  let wY1 ← readAt yTaps.weight dy
  let rowTop ← rowAt img.pixels (u32 (img.width * channels)) low
  let rowBot ← rowAt img.pixels (u32 (img.width * channels)) high
  (forLoop 1 newWidth (fun dx dstPixels =>
    (forLoop 1 channels (fun c dstPixels => do
      let b ← scalarPixel rowTop rowBot xTaps channels (complement wY1) wY1.toNat dx c
      writeAt dstPixels (dy * u32 (newWidth * channels) + dx * channels + c) b) 0 dstPixels).map (·.2))
    0 dstPixels).map (·.2)

/-- A resized image, as far as there is memory for it. -/
def filled (out : Option Image) (rows : List UInt8 → Except Fault (List UInt8)) :
    Except Fault (Option Image) :=
  match out with
  | none => .ok none
  | some out => (rows out.pixels).map fun pixels => some { out with pixels }

def resizeScalar (memory : Bool) (img : Image) (newWidth newHeight : ℕ) (xTaps yTaps : AxisTaps) :
    Except Fault (Option Image) :=
  let channels := if 0 < img.channels then img.channels else 1
  filled (basicImagingNew newWidth newHeight channels memory) fun dstPixels =>
    (forLoop 1 newHeight (scalarRow img xTaps yTaps channels newWidth) 0 dstPixels).map (·.2)

/-- A source row, the taps, both widths and the row that is written. -/
abbrev XBlendRowFn := List UInt8 → AxisTaps → ℕ → ℕ → List UInt16 → Except Fault (List UInt16)

/-- Two rows, their weights, the place of the new row in the pixels and its length, and the pixels. -/
abbrev YBlendRowFn :=
  List UInt16 → List UInt16 → ℕ → ℕ → ℕ → ℕ → List UInt8 → Except Fault (List UInt8)

/-! The horizontal blend of a row. -/

/-- A pointer that is read through. -/
def deref {α : Type*} : Option α → Except Fault α
  | some a => .ok a
  | none => .error .nullDereference

/-- `_mm_loadl_epi64` of four weights. -/
def loadWeights (weight : List UInt16) (d : ℕ) : Except Fault Vec := do
  let w ← loadAt 4 weight d
  .ok (ofWords fun i => if i.val < 4 then w (Fin.ofNat 4 i) else 0)

/-- `p0*(FIXED_ONE-w) + p1*w` in each lane. -/
def blendWords (p0 p1 w : Vec) : Vec :=
  addEpi16 (mulloEpi16 p0 (subEpi16 (set1Epi16 (UInt16.ofNat fixedOne)) w)) (mulloEpi16 p1 w)

/-- One batch of four pixels. The upper half is stored with 8 of its lanes, or with 4. -/
def xBlendBatch (channels : ℕ) (wIdxA wIdxB : Vec) (lanes : ℕ) (srcRow : List UInt8) (xTaps : AxisTaps)
    (d : ℕ) (tmpRow : List UInt16) : Except Fault (List UInt16) := do
  let low ← readAt xTaps.low d
  let w0 ← loadAt 16 srcRow (low * channels)
  let w1 ← loadAt 16 srcRow (low * channels + 16)
  let rel0 ← deref xTaps.rel0
  let rel1 ← deref xTaps.rel1
  let idx0 ← loadAt 16 rel0 (d * channels)
  let idx1 ← loadAt 16 rel1 (d * channels)
  let p00 := gather w0 w1 idx0
  let p10 := gather w0 w1 idx1
  let w ← loadWeights xTaps.weight d
  let topLo := blendWords (unpackloEpi8 p00 zero) (unpackloEpi8 p10 zero) (shuffleEpi8 w wIdxA)
  let topHi := blendWords (unpackhiEpi8 p00 zero) (unpackhiEpi8 p10 zero) (shuffleEpi8 w wIdxB)
  let tmpRow ← storeAt tmpRow (d * channels) (word topLo)
  storeAt tmpRow (d * channels + 8) fun i : Fin lanes => word topHi (Fin.ofNat 8 i)

/-- `(size_t)(rowEnd - (srcRow + (size_t)xTaps->low[d]*channels)) >= 32` -/
def windowInside (channels : ℕ) (xTaps : AxisTaps) (srcWidth d : ℕ) : Except Fault Bool := do
  let low ← readAt xTaps.low d
  .ok (decide (32 ≤ u64 (srcWidth * channels + 2 ^ 64 - low * channels)))

/-- One of the last pixels of a row. -/
def xBlendPixel (channels : ℕ) (srcRow : List UInt8) (xTaps : AxisTaps) (d : ℕ) (tmpRow : List UInt16) :
    Except Fault (List UInt16) := do
  let low ← readAt xTaps.low d
  let high ← readAt xTaps.high d
  let w1 ← readAt xTaps.weight d
  (forLoop 1 channels (fun c tmpRow => do
    let p0 ← readAt srcRow (low * channels + c)
    let p1 ← readAt srcRow (high * channels + c)
    writeAt tmpRow (d * channels + c) (UInt16.ofNat (blend p0 p1 w1))) 0 tmpRow).map (·.2)

/-- The batches, and then the pixels that are left. -/
def xBlendRow (channels : ℕ) (wIdxA wIdxB : Vec) (lanes : ℕ) (srcRow : List UInt8) (xTaps : AxisTaps)
    (srcWidth newWidth : ℕ) (tmpRow : List UInt16) : Except Fault (List UInt16) := do
  let out ← forLoopWhile 4 newWidth (windowInside channels xTaps srcWidth)
    (xBlendBatch channels wIdxA wIdxB lanes srcRow xTaps) 0 tmpRow
  (forLoop 1 newWidth (xBlendPixel channels srcRow xTaps) out.1 out.2).map (·.2)

/-- Four pixels of three channels: the stores put 12 lanes, and the weights of the last four are zeros. -/
def xBlendRow3SSSE3 : XBlendRowFn :=
  xBlendRow 3 (setrEpi8 [0, 1, 0, 1, 0, 1, 2, 3, 2, 3, 2, 3, 4, 5, 4, 5])
    (setrEpi8 [4, 5, 6, 7, 6, 7, 6, 7, 8, 9, 10, 11, 12, 13, 14, 15]) 4

def xBlendRow4SSSE3 : XBlendRowFn :=
  xBlendRow 4 (setrEpi8 [0, 1, 0, 1, 0, 1, 0, 1, 2, 3, 2, 3, 2, 3, 2, 3])
    (setrEpi8 [4, 5, 4, 5, 4, 5, 4, 5, 6, 7, 6, 7, 6, 7, 6, 7]) 8

/-! The vertical blend of two rows. -/

/-- `( (int)wY1<<16 ) | (int)wY0` -/
def packedWeights (wY0 wY1 : ℕ) : UInt32 := UInt32.ofNat (wY1 * 2 ^ 16 ||| wY0)

def yBlendPack8SSE2 (top bot : Vec) (wY0 wY1 : ℕ) : Vec :=
  let wYv := set1Epi32 (packedWeights wY0 wY1)
  let round := set1Epi32 (UInt32.ofNat fixedRound)
  let blLo := srliEpi32 (addEpi32 (maddEpi16 (unpackloEpi16 top bot) wYv) round) fixedShift
  let blHi := srliEpi32 (addEpi32 (maddEpi16 (unpackhiEpi16 top bot) wYv) round) fixedShift
  let packed16 := packsEpi32 blLo blHi
  packusEpi16 packed16 packed16

def yBlendPack16AVX2 (top bot : Wide) (wY0 wY1 : ℕ) : Vec :=
  let wYv := Wide.set1Epi32 (packedWeights wY0 wY1)
  let round := Wide.set1Epi32 (UInt32.ofNat fixedRound)
  let blLo := Wide.srliEpi32 (Wide.map2 addEpi32
    (Wide.map2 maddEpi16 (Wide.map2 unpackloEpi16 top bot) wYv) round) fixedShift
  let blHi := Wide.srliEpi32 (Wide.map2 addEpi32
    (Wide.map2 maddEpi16 (Wide.map2 unpackhiEpi16 top bot) wYv) round) fixedShift
  let packed16 := Wide.map2 packsEpi32 blLo blHi
  let swapped := Wide.permute4x64 1 0 3 2 packed16
  (Wide.map2 packusEpi16 packed16 swapped).lane0

/-- One of the last values of a row, `dstRow` the place of the row in the pixels. -/
def yBlendValue (rowA rowB : List UInt16) (wY0 wY1 dstRow i : ℕ) (dstPixels : List UInt8) :
    Except Fault (List UInt8) := do
  let a ← readAt rowA i
  let b ← readAt rowB i
  writeAt dstPixels (dstRow + i) (narrow a.toNat b.toNat wY0 wY1)

/-- The batches of a width, and then the values that are left. Where the counter wraps in
`i + width <= count`, the batch that follows reads outside of the rows. -/
def yBlendRow (width : ℕ) (batch value : ℕ → List UInt8 → Except Fault (List UInt8)) (count : ℕ)
    (dstPixels : List UInt8) : Except Fault (List UInt8) := do
  let out ← forLoop width count batch 0 dstPixels
  if u32 (out.1 + width) ≤ count then .error .outOfBounds
  else (forLoop 1 count value out.1 out.2).map (·.2)

def yBlendRowSSE2 : YBlendRowFn := fun rowA rowB wY0 wY1 dstRow count =>
  yBlendRow 8 (fun i dstPixels => do
      let top ← loadAt 8 rowA i
      let bot ← loadAt 8 rowB i
      storeAt dstPixels (dstRow + i) fun k : Fin 8 =>
        yBlendPack8SSE2 (ofWords top) (ofWords bot) wY0 wY1 (Fin.ofNat 16 k))
    (yBlendValue rowA rowB wY0 wY1 dstRow) count

/-- The halves of 16 values. -/
def wideOfWords (f : Fin 16 → UInt16) : Wide :=
  ⟨ofWords fun i => f (Fin.ofNat 16 i), ofWords fun i => f (Fin.ofNat 16 (8 + i))⟩

def yBlendRowAVX2 : YBlendRowFn := fun rowA rowB wY0 wY1 dstRow count =>
  yBlendRow 16 (fun i dstPixels => do
      let top ← loadAt 16 rowA i
      let bot ← loadAt 16 rowB i
      storeAt dstPixels (dstRow + i) (yBlendPack16AVX2 (wideOfWords top) (wideOfWords bot) wY0 wY1))
    (yBlendValue rowA rowB wY0 wY1 dstRow) count

/-! The rolling cache. -/

/-- Whether each batch from `d` on has its taps in a window. -/
def xWindowOKFrom (low : List ℕ) (dstCount channels d : ℕ) : Except Fault Bool :=
  if d + 4 ≤ dstCount then do
    let last ← readAt low (d + 3)
    let first ← readAt low d
    let span := u32 (last + 2 ^ 32 - first + 1)
    if 32 ≤ u32 (span * channels + (channels - 1)) then .ok false
    else xWindowOKFrom low dstCount channels (d + 4)
  else .ok true
termination_by dstCount - d

def xWindowOK (xTaps : AxisTaps) (dstCount channels : ℕ) : Except Fault Bool :=
  if xTaps.rel0.isNone ∨ xTaps.rel1.isNone then .ok false
  else xWindowOKFrom xTaps.low dstCount channels 0

structure Rolling where
  dstPixels : List UInt8
  tmpA : List UInt16
  tmpB : List UInt16

section Rolling
variable (blendOf : ℕ → List UInt16 → Except Fault (List UInt16))

/-- The rows of the taps of `dy`, given those of the row before. -/
def refresh (yTaps : AxisTaps) (dy : ℕ) (s : Rolling) : Except Fault Rolling :=
  if 0 < dy then do
    let lo ← readAt yTaps.low dy
    let hi ← readAt yTaps.high dy
    let plo ← readAt yTaps.low (dy - 1)
    let phi ← readAt yTaps.high (dy - 1)
    if lo = plo ∧ hi = phi then .ok s
    else if lo = phi then do
      let tmpB ← blendOf hi s.tmpA
      .ok { s with tmpA := s.tmpB, tmpB }
    else if lo = plo then do
      let tmpB ← blendOf hi s.tmpB
      .ok { s with tmpB }
    else if hi = phi then do
      let tmpA ← blendOf lo s.tmpA
      .ok { s with tmpA }
    else do
      let tmpA ← blendOf lo s.tmpA
      let tmpB ← blendOf hi s.tmpB
      .ok { s with tmpA, tmpB }
  else .ok s

def rollingRow (yBlend : YBlendRowFn)
    (yTaps : AxisTaps) (rowPixels dy : ℕ) (s : Rolling) : Except Fault Rolling := do
  let s ← refresh blendOf yTaps dy s
  let wY1 ← readAt yTaps.weight dy
  let dstPixels ← yBlend s.tmpA s.tmpB (complement wY1) wY1.toNat (dy * rowPixels) rowPixels s.dstPixels
  .ok { s with dstPixels }

def rollingRows (yBlend : YBlendRowFn)
    (yTaps : AxisTaps) (rowPixels newHeight : ℕ) (tmpA tmpB : List UInt16) (dstPixels : List UInt8) :
    Except Fault (List UInt8) := do
  let low ← readAt yTaps.low 0
  let tmpA ← blendOf low tmpA
  let high ← readAt yTaps.high 0
  let tmpB ← blendOf high tmpB
  let out ← forLoop 1 newHeight (rollingRow blendOf yBlend yTaps rowPixels) 0 ⟨dstPixels, tmpA, tmpB⟩
  .ok out.2.dstPixels

end Rolling

/-- What the allocations give: for the new image, for the two rows, and for the new image once more where
the rows could not be had. -/
structure Memory where
  out : Bool
  tmpA : Option (ℕ → UInt16)
  tmpB : Option (ℕ → UInt16)
  again : Bool

def resizeRolling (memory : Memory) (img : Image) (newWidth newHeight : ℕ) (xTaps yTaps : AxisTaps)
    (xBlend : XBlendRowFn)
    (yBlend : YBlendRowFn) :
    Except Fault (Option Image) :=
  match basicImagingNew newWidth newHeight img.channels memory.out with
  | none => .ok none
  | some out =>
    let rowPixels := u32 (newWidth * img.channels)
    match memory.tmpA, memory.tmpB with
    | some old0, some old1 =>
      filled (some out) fun dstPixels =>
        rollingRows (fun y tmp => do
            let srcRow ← rowAt img.pixels (u32 (img.width * img.channels)) y
            xBlend srcRow xTaps img.width newWidth tmp)
          yBlend yTaps rowPixels newHeight ((List.range rowPixels).map old0)
          ((List.range rowPixels).map old1) dstPixels
    | _, _ => resizeScalar memory.again img newWidth newHeight xTaps yTaps

/-- The way of both the vector paths, `yBlend` being what they differ in. -/
def resizeVectors (yBlend : YBlendRowFn)
    (memory : Memory) (img : Image) (newWidth newHeight : ℕ) (xTaps yTaps : AxisTaps) :
    Except Fault (Option Image) :=
  if img.channels ≠ 3 ∧ img.channels ≠ 4 then
    resizeScalar memory.out img newWidth newHeight xTaps yTaps
  else do
    let window ← xWindowOK xTaps newWidth img.channels
    if window then
      resizeRolling memory img newWidth newHeight xTaps yTaps
        (if img.channels = 3 then xBlendRow3SSSE3 else xBlendRow4SSSE3) yBlend
    else resizeScalar memory.out img newWidth newHeight xTaps yTaps

def resizeSSE3 := resizeVectors yBlendRowSSE2

def resizeAVX2 := resizeVectors yBlendRowAVX2

end AmmarServer.Resize
