import Mathlib.Logic.Function.Iterate
import AmmarServer.Lib.Scanf

/-! The PNM files of `BasicImaging/codecs/ppmInput.c`, as `WritePPM` writes them and as `ReadPPM` reads
them into an image without pixels. What a byte of fresh memory holds is taken from a heap. -/

namespace AmmarServer.Pnm
open Bytes TextFile

inductive Fault
  | outOfBounds
deriving DecidableEq, Repr

@[ext]
structure Image where
  width : ℕ
  height : ℕ
  channels : ℕ
  bitsperpixel : ℕ
  pixels : List UInt8
deriving DecidableEq, Repr

def simplePowPPM (base : ℕ) : ℕ → ℕ
  | 0 => 1
  | exp + 1 => Nat.iterate (fun retres => retres * base % 2 ^ 32) exp base

/-- `"P6\n"` and `"P5\n"` -/
def magic (channels : ℕ) : Option (List UInt8) :=
  if channels = 3 then some [80, 54, LF] else if channels = 1 then some [80, 53, LF] else none

def bitsPerChannel (pic : Image) : ℕ := pic.bitsperpixel / pic.channels

/-- The text between the magic and the pixels. -/
def dimensions (width height maximum : ℕ) : List UInt8 :=
  decimal width ++ 32 :: decimal height ++ [LF] ++ decimal maximum ++ [LF]

/-- `WritePPM` is `WritePPM16bitMultiChannel`. What it returns is the file that it writes. -/
def writePPM (pic : Image) : Except Fault (Option (List UInt8)) :=
  if pic.width = 0 ∨ pic.height = 0 ∨ pic.channels = 0 ∨ pic.bitsperpixel = 0 then .ok none
  else if 16 < bitsPerChannel pic then .ok none
  else
    match magic pic.channels with
    | none => .ok (some [])
    | some magic =>
      let maximum := (simplePowPPM 2 (bitsPerChannel pic) + 2 ^ 32 - 1) % 2 ^ 32
      let n := pic.width * pic.height * pic.channels * (bitsPerChannel pic / 8) % 2 ^ 32
      if pic.pixels.length < n then .error .outOfBounds
      else .ok (some (magic ++ dimensions pic.width pic.height maximum ++ pic.pixels.take n))

/-- The channels that the first line names. -/
def channelsOf (buf : List UInt8) : Option ℕ :=
  if [80, 54, LF].isPrefixOf buf then some 3
  else if [80, 53, LF].isPrefixOf buf then some 1
  else none

/-- The next line that is no comment and what stands behind it, among a number of lines. -/
def dimensionLine : ℕ → List UInt8 → Option (List UInt8 × List UInt8)
  | 0, _ => none
  | _ + 1, [] => none
  | lines + 1, c :: file =>
    if (fgets 255 (c :: file)).1.head? = some 35 then dimensionLine lines (fgets 255 (c :: file)).2
    else some (fgets 255 (c :: file))

def depthBytes (d : ℕ) : Option ℕ := if d = 255 then some 1 else if d = 65535 then some 2 else none

/-- The part behind the header. `behind` is what stands in the file behind the number that `fscanf` reads
and the white space that it eats. -/
def readPixels (file behind : List UInt8) (heap : ℕ → UInt8) (w h bytesPerPixel channels : ℕ) :
    Except Fault Image :=
  let start := file.length - behind.length
  let start := if behind.length < bytesPerPixel * channels * w * h % 2 ^ 32 then start - 1 else start
  let size := w * h * bytesPerPixel * channels % 2 ^ 32
  let bytes := (file.drop start).take (bytesPerPixel * channels * (w * h % 2 ^ 32))
  if size < bytes.length then .error .outOfBounds
  else .ok { width := w
             height := h
             channels
             bitsperpixel := bytesPerPixel * 8
             pixels := bytes ++ (List.range' bytes.length (size - bytes.length)).map heap }

/-- The numbers of the header, with the bytes of a channel in the third place, and what stands behind the
white space that follows them. -/
def readHeader (file : List UInt8) : Option (ℕ × ℕ × ℕ × ℕ × List UInt8) :=
  if file = [] then none
  else do
    let channels ← channelsOf (fgets 255 file).1
    let (buf, file) ← dimensionLine file.length (fgets 255 file).2
    let (w, buf) ← scanUnsigned buf
    let (h, _) ← scanUnsigned buf
    let (d, file) ← scanUnsigned file
    let bytesPerPixel ← depthBytes d
    pure (w, h, bytesPerPixel, channels, file.dropWhile isSpace)

/-- `ReadPPM`, with `ReadPNM` in it. -/
def readPPM (file : List UInt8) (heap : ℕ → UInt8) : Except Fault (Option Image) :=
  match readHeader file with
  | none => .ok none
  | some (w, h, bytesPerPixel, channels, behind) =>
    (readPixels file behind heap w h bytesPerPixel channels).map some

end AmmarServer.Pnm
