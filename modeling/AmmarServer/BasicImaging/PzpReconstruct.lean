import AmmarServer.BasicImaging.PzpContainer
import AmmarServer.Lib.CBuffer
import AmmarServer.Lib.Loops

/-! How `BasicImaging/codecs/pzp.h` restores the pixels of a frame, in three ways. A vector is its bytes,
and the wide loops of the source end before their counter could overflow, since it is a multiple of its
step. -/

namespace AmmarServer.BasicImaging.Pzp
open CString Loops

/-! The bytes of a buffer. -/

def byteAt (buf : List UInt8) (p : ℕ) : Except Fault UInt8 :=
  if p < buf.length then .ok (charAt buf p) else .error .outOfBounds

def setByte (buf : List UInt8) (p : ℕ) (b : UInt8) : Except Fault (List UInt8) :=
  if p < buf.length then .ok (buf.set p b) else .error .outOfBounds

/-- `memcpy` to the begin of a buffer. -/
def memcpy (dst src : List UInt8) (n : ℕ) : Except Fault (List UInt8) :=
  if n ≤ src.length ∧ n ≤ dst.length then .ok (src.take n ++ dst.drop n) else .error .outOfBounds

/-! Vectors of 16 bytes, and of two lanes of 16. -/

abbrev M128i := Fin 16 → UInt8

structure M256i where
  lane0 : M128i
  lane1 : M128i

def loadSi128 (buf : List UInt8) (p : ℕ) : Except Fault M128i :=
  if p + 16 ≤ buf.length then .ok fun k => charAt buf (p + k) else .error .outOfBounds

def storeSi128 (buf : List UInt8) (p : ℕ) (v : M128i) : Except Fault (List UInt8) :=
  if p + 16 ≤ buf.length then .ok (buf.take p ++ (List.ofFn v ++ buf.drop (p + 16)))
  else .error .outOfBounds

def loadSi256 (buf : List UInt8) (p : ℕ) : Except Fault M256i := do
  let lane0 ← loadSi128 buf p
  let lane1 ← loadSi128 buf (p + 16)
  .ok { lane0, lane1 }

def storeSi256 (buf : List UInt8) (p : ℕ) (v : M256i) : Except Fault (List UInt8) :=
  if p + 32 ≤ buf.length then do
    let buf ← storeSi128 buf p v.lane0
    storeSi128 buf (p + 16) v.lane1
  else .error .outOfBounds

def setzero : M128i := fun _ => 0

def addEpi8 (a b : M128i) : M128i := fun k => a k + b k

def orSi128 (a b : M128i) : M128i := fun k => a k ||| b k

def slliSi128 (v : M128i) (n : ℕ) : M128i := fun k =>
  if n ≤ k.val then v ⟨k.val - n, Nat.lt_of_le_of_lt (Nat.sub_le _ _) k.isLt⟩ else 0

def srliSi128 (v : M128i) (n : ℕ) : M128i := fun k =>
  if h : k.val + n < 16 then v ⟨k.val + n, h⟩ else 0

def set1Epi8 (b : UInt8) : M128i := fun _ => b

/-- The two bytes of a word, eight times. -/
def set1Epi16 (lo hi : UInt8) : M128i := fun k => if k.val % 2 = 0 then lo else hi

/-- A negative byte of the mask makes a zero. -/
def shuffleEpi8 (v : M128i) (mask : List ℤ) : M128i := fun k =>
  let m := mask.getD k.val 0
  if m < 0 then 0 else v (Fin.ofNat 16 m.toNat)

/-- `_mm_set1_epi8` of the last byte, `_mm_cvtsi128_si32(_mm_srli_si128(v, 15))`. -/
def lastByte (v : M128i) : M128i := set1Epi8 (srliSi128 v 15 0)

/-- `_mm_set1_epi16` of the last two bytes. -/
def lastPair (v : M128i) : M128i := set1Epi16 (srliSi128 v 14 0) (srliSi128 v 14 1)

/-- `v = v + (v << 1)`, and by 2, 4 and 8. -/
def scanBytes (v : M128i) : M128i :=
  let v := addEpi8 v (slliSi128 v 1)
  let v := addEpi8 v (slliSi128 v 2)
  let v := addEpi8 v (slliSi128 v 4)
  addEpi8 v (slliSi128 v 8)

/-- The same for pairs, by 2, 4 and 8. -/
def scanPairs (v : M128i) : M128i :=
  let v := addEpi8 v (slliSi128 v 2)
  let v := addEpi8 v (slliSi128 v 4)
  addEpi8 v (slliSi128 v 8)

/-! The scalar loops. An index is an `unsigned int` where it is computed, and a pointer that moves is
not. -/

def u32 (n : ℕ) : ℕ := n % 2 ^ 32

/-- Where a function works in place, its source is the buffer that it writes. -/
def sourceOf (src : Option (List UInt8)) (dst : List UInt8) : List UInt8 := src.getD dst

/-- The channel of the pixel before, `(i > 0 ? dst[i - 1] : 0)`. -/
def previous (index : ℕ → ℕ) (channels : ℕ) (dst : List UInt8) (i ch : ℕ) : Except Fault UInt8 :=
  if 0 < i then byteAt dst (index ((i - 1) * channels + ch)) else .ok 0

/-- `dst[i] = src[i] + (i > 0 ? dst[i - 1] : 0)` for each channel of a pixel. -/
def addPixel (index : ℕ → ℕ) (channels : ℕ) (src : Option (List UInt8)) (i : ℕ) (dst : List UInt8) :
    Except Fault (List UInt8) :=
  (forLoop 1 channels (fun ch dst => do
    let b ← byteAt (sourceOf src dst) (index (i * channels + ch))
    let before ← previous index channels dst i ch
    setByte dst (index (i * channels + ch)) (b + before)) 0 dst).map (·.2)

/-- `for (; i < size; i++)` -/
def addPixels (index : ℕ → ℕ) (channels : ℕ) (src : Option (List UInt8)) (size i : ℕ)
    (dst : List UInt8) : Except Fault (List UInt8) :=
  (forLoop 1 size (addPixel index channels src) i dst).map (·.2)

def copyPixel (index : ℕ → ℕ) (channels : ℕ) (src : List UInt8) (i : ℕ) (r : List UInt8) :
    Except Fault (List UInt8) :=
  (forLoop 1 channels (fun ch r => do
    let b ← byteAt src (index (i * channels + ch))
    setByte r (index (i * channels + ch)) b) 0 r).map (·.2)

/-- The first pixel is copied and the others are added up, in the source with a case of its own for each of
the small numbers of channels. -/
def scalarSums (index : ℕ → ℕ) (channels : ℕ) (src r : List UInt8) (totalSize : ℕ) :
    Except Fault (List UInt8) := do
  let r ← copyPixel index channels src 0 r
  addPixels index channels (some src) totalSize 1 r

/-! The wide loops. -/

/-- One pass of a loop over vectors, whose `carry` is made of the last sums. -/
def sumBlock128 (scan last : M128i → M128i) (src : List UInt8) (place : ℕ) (s : List UInt8 × M128i) :
    Except Fault (List UInt8 × M128i) := do
  let v ← loadSi128 src place
  let v := addEpi8 (scan v) s.2
  let dst ← storeSi128 s.1 place v
  .ok (dst, last v)

/-- The same with two lanes, where the last sums of the first are added to the second. -/
def sumBlock256 (scan last : M128i → M128i) (src : Option (List UInt8)) (place : ℕ)
    (s : List UInt8 × M128i) : Except Fault (List UInt8 × M128i) := do
  let v ← loadSi256 (sourceOf src s.1) place
  let lane0 := scan v.lane0
  let lane1 := addEpi8 (scan v.lane1) (last lane0)
  let v : M256i := { lane0 := addEpi8 lane0 s.2, lane1 := addEpi8 lane1 s.2 }
  let dst ← storeSi256 s.1 place v
  .ok (dst, last v.lane1)

def prefixSumSse2 (src dst : List UInt8) (size : ℕ) : Except Fault (List UInt8) := do
  let (i, dst, _) ← forLoop 16 size (fun i => sumBlock128 scanBytes lastByte src i) 0 (dst, setzero)
  addPixels id 1 (some src) size i dst

/-- The case of two channels. -/
def pairSumSse2 (src r : List UInt8) (totalSize : ℕ) : Except Fault (List UInt8) := do
  let (i, r, _) ←
    forLoop 8 totalSize (fun i => sumBlock128 scanPairs lastPair src (u32 (i * 2))) 0 (r, setzero)
  addPixels u32 2 (some src) totalSize i r

def prefixSumAvx2 (src : Option (List UInt8)) (dst : List UInt8) (size : ℕ) :
    Except Fault (List UInt8) := do
  let (i, dst, _) ← forLoop 32 size (fun i => sumBlock256 scanBytes lastByte src i) 0 (dst, setzero)
  addPixels id 1 src size i dst

/-- `pzp_prefix_sum_avx2_2ch` -/
def pairSumAvx2 (src dst : List UInt8) (size : ℕ) : Except Fault (List UInt8) := do
  let (i, dst, _) ← forLoop 16 size
    (fun i => sumBlock256 scanPairs lastPair (some src) (u32 (i * 2))) 0 (dst, setzero)
  addPixels u32 2 (some src) size i dst

/-! Three channels. -/

def shufRA : List ℤ := [0, 3, 6, 9, 12, 15, -1, -1, -1, -1, -1, -1, -1, -1, -1, -1]
def shufRB : List ℤ := [-1, -1, -1, -1, -1, -1, 2, 5, 8, 11, 14, -1, -1, -1, -1, -1]
def shufRC : List ℤ := [-1, -1, -1, -1, -1, -1, -1, -1, -1, -1, -1, 1, 4, 7, 10, 13]
def shufGA : List ℤ := [1, 4, 7, 10, 13, -1, -1, -1, -1, -1, -1, -1, -1, -1, -1, -1]
def shufGB : List ℤ := [-1, -1, -1, -1, -1, 0, 3, 6, 9, 12, 15, -1, -1, -1, -1, -1]
def shufGC : List ℤ := [-1, -1, -1, -1, -1, -1, -1, -1, -1, -1, -1, 2, 5, 8, 11, 14]
def shufBA : List ℤ := [2, 5, 8, 11, 14, -1, -1, -1, -1, -1, -1, -1, -1, -1, -1, -1]
def shufBB : List ℤ := [-1, -1, -1, -1, -1, 1, 4, 7, 10, 13, -1, -1, -1, -1, -1, -1]
def shufBC : List ℤ := [-1, -1, -1, -1, -1, -1, -1, -1, -1, -1, 0, 3, 6, 9, 12, 15]

/-- Three shuffles, one for each of three vectors. -/
def merge (a b c : M128i) (ma mb mc : List ℤ) : M128i :=
  orSi128 (shuffleEpi8 a ma) (orSi128 (shuffleEpi8 b mb) (shuffleEpi8 c mc))

/-- The three planes. -/
structure Planes where
  ch0 : List UInt8
  ch1 : List UInt8
  ch2 : List UInt8

/-- Sixteen pixels. -/
def deinterleaveBlock (src : List UInt8) (i : ℕ) (planes : Planes) : Except Fault Planes := do
  let a ← loadSi128 src (3 * i)
  let b ← loadSi128 src (3 * i + 16)
  let c ← loadSi128 src (3 * i + 32)
  let ch0 ← storeSi128 planes.ch0 i (merge a b c shufRA shufRB shufRC)
  let ch1 ← storeSi128 planes.ch1 i (merge a b c shufGA shufGB shufGC)
  let ch2 ← storeSi128 planes.ch2 i (merge a b c shufBA shufBB shufBC)
  .ok { ch0, ch1, ch2 }

def deinterleavePixel (src : List UInt8) (i : ℕ) (planes : Planes) : Except Fault Planes := do
  let ch0 ← (byteAt src (3 * i)).bind (setByte planes.ch0 i)
  let ch1 ← (byteAt src (3 * i + 1)).bind (setByte planes.ch1 i)
  let ch2 ← (byteAt src (3 * i + 2)).bind (setByte planes.ch2 i)
  .ok { ch0, ch1, ch2 }

def deinterleave3ch (src : List UInt8) (planes : Planes) (nPixels : ℕ) : Except Fault Planes := do
  let (i, planes) ← forLoop 16 nPixels (deinterleaveBlock src) 0 planes
  (forLoop 1 nPixels (deinterleavePixel src) i planes).map (·.2)

def shufAR : List ℤ := [0, -1, -1, 1, -1, -1, 2, -1, -1, 3, -1, -1, 4, -1, -1, 5]
def shufAG : List ℤ := [-1, 0, -1, -1, 1, -1, -1, 2, -1, -1, 3, -1, -1, 4, -1, -1]
def shufAB : List ℤ := [-1, -1, 0, -1, -1, 1, -1, -1, 2, -1, -1, 3, -1, -1, 4, -1]
def shufBG : List ℤ := [5, -1, -1, 6, -1, -1, 7, -1, -1, 8, -1, -1, 9, -1, -1, 10]
def shufBB' : List ℤ := [-1, 5, -1, -1, 6, -1, -1, 7, -1, -1, 8, -1, -1, 9, -1, -1]
def shufBR : List ℤ := [-1, -1, 6, -1, -1, 7, -1, -1, 8, -1, -1, 9, -1, -1, 10, -1]
def shufCB : List ℤ := [10, -1, -1, 11, -1, -1, 12, -1, -1, 13, -1, -1, 14, -1, -1, 15]
def shufCR : List ℤ := [-1, 11, -1, -1, 12, -1, -1, 13, -1, -1, 14, -1, -1, 15, -1, -1]
def shufCG : List ℤ := [-1, -1, 11, -1, -1, 12, -1, -1, 13, -1, -1, 14, -1, -1, 15, -1]

def interleaveBlock (planes : Planes) (i : ℕ) (dst : List UInt8) : Except Fault (List UInt8) := do
  let r ← loadSi128 planes.ch0 i
  let g ← loadSi128 planes.ch1 i
  let b ← loadSi128 planes.ch2 i
  let dst ← storeSi128 dst (3 * i) (merge r g b shufAR shufAG shufAB)
  let dst ← storeSi128 dst (3 * i + 16) (merge g b r shufBG shufBB' shufBR)
  storeSi128 dst (3 * i + 32) (merge b r g shufCB shufCR shufCG)

def interleavePixel (planes : Planes) (i : ℕ) (dst : List UInt8) : Except Fault (List UInt8) := do
  let dst ← (byteAt planes.ch0 i).bind (setByte dst (3 * i))
  let dst ← (byteAt planes.ch1 i).bind (setByte dst (3 * i + 1))
  (byteAt planes.ch2 i).bind (setByte dst (3 * i + 2))

def interleave3ch (planes : Planes) (dst : List UInt8) (nPixels : ℕ) :
    Except Fault (List UInt8) := do
  let (i, dst) ← forLoop 16 nPixels (interleaveBlock planes) 0 dst
  (forLoop 1 nPixels (interleavePixel planes) i dst).map (·.2)

/-- 32 bytes are copied, of which the next pass may write some again. -/
def copyBlock (channels : ℕ) (src : List UInt8) (i : ℕ) (r : List UInt8) :
    Except Fault (List UInt8) := do
  let data ← loadSi256 src (u32 (channels * i))
  storeSi256 r (u32 (channels * i)) data

def copyWide (width channels : ℕ) (src r : List UInt8) (totalSize : ℕ) : Except Fault (List UInt8) := do
  let (i, r) ← forLoop width totalSize (copyBlock channels src) 0 r
  (forLoop 1 totalSize (copyPixel u32 channels src) i r).map (·.2)

/-! The three ways. -/

def extractAndReconstructNaive (src r : List UInt8) (width height : UInt32) (channels : ℕ)
    (restoreRLEChannels : Bool) : Except Fault (List UInt8) :=
  let totalSize := (width * height).toNat
  if restoreRLEChannels then
    if channels ≤ 3 then scalarSums id channels src r totalSize
    else scalarSums u32 channels src r totalSize
  else memcpy r src (u32 (totalSize * channels))

def extractAndReconstructSse2 (src r : List UInt8) (width height : UInt32) (channels : ℕ)
    (restoreRLEChannels : Bool) : Except Fault (List UInt8) :=
  let totalSize := (width * height).toNat
  if restoreRLEChannels then
    match channels with
    | 1 => prefixSumSse2 src r totalSize
    | 2 => pairSumSse2 src r totalSize
    | _ => scalarSums u32 channels src r totalSize
  else memcpy r src (u32 (totalSize * channels))

/-- `memory` is what `malloc` gives for the three planes, or nothing. -/
def extractAndReconstructAvx2 (memory : Option Planes) (src r : List UInt8) (width height : UInt32)
    (channels : ℕ) (restoreRLEChannels : Bool) : Except Fault (List UInt8) :=
  let totalSize := (width * height).toNat
  if restoreRLEChannels then
    match channels with
    | 1 => prefixSumAvx2 (some src) r totalSize
    | 2 => pairSumAvx2 src r totalSize
    | 3 =>
      match memory with
      | some planes => do
        let planes ← deinterleave3ch src planes totalSize
        let ch0 ← prefixSumAvx2 none planes.ch0 totalSize
        let ch1 ← prefixSumAvx2 none planes.ch1 totalSize
        let ch2 ← prefixSumAvx2 none planes.ch2 totalSize
        interleave3ch { ch0, ch1, ch2 } r totalSize
      | none => scalarSums u32 3 src r totalSize
    | _ => scalarSums u32 channels src r totalSize
  else
    match channels with
    | 1 => memcpy r src totalSize
    | 2 => copyWide 16 2 src r totalSize
    | 3 => copyWide 8 3 src r totalSize
    | _ => (forLoop 1 totalSize (copyPixel u32 channels src) 0 r).map (·.2)

end AmmarServer.BasicImaging.Pzp
