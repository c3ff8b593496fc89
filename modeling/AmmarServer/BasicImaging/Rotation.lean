import Mathlib.Algebra.Group.Nat.Defs
import Mathlib.Data.List.Basic

/-! The images of `BasicImaging/basicImaging.c` with 8 bits for each channel, and their rotation for an
orientation. A pixel is the list of its channels. -/

namespace AmmarServer.BasicImaging

inductive Fault
  | outOfBounds
deriving DecidableEq, Repr

@[ext]
structure Image where
  width : ℕ
  height : ℕ
  channels : ℕ
  pixels : List UInt8
deriving DecidableEq, Repr

/-- `BasicImaging_New`: the number of bytes is an `unsigned int`, and `memory` says whether there are
as many. -/
def basicImagingNew (width height channels : ℕ) (memory : Bool) : Option Image :=
  if width = 0 ∨ height = 0 ∨ channels = 0 ∨ memory = false then none
  else some { width, height, channels
              pixels := List.replicate (width * height * channels % 2 ^ 32) 0 }

/-- Where the pixel at a place of the new image comes from. -/
def source (img : Image) (orientation x y : ℕ) : ℕ × ℕ :=
  match orientation with
  | 2 => (img.width - 1 - x, y)
  | 3 => (img.width - 1 - x, img.height - 1 - y)
  | 4 => (x, img.height - 1 - y)
  | 5 => (y, x)
  | 6 => (y, img.height - 1 - x)
  | 7 => (img.width - 1 - y, img.height - 1 - x)
  | 8 => (img.width - 1 - y, x)
  | _ => (0, 0)

def newWidth (img : Image) (orientation : ℕ) : ℕ := if 5 ≤ orientation then img.height else img.width

def newHeight (img : Image) (orientation : ℕ) : ℕ := if 5 ≤ orientation then img.width else img.height

/-- The numbers of the pixels that are copied, first where to and then where from. -/
def copies (img : Image) (orientation : ℕ) : List (ℕ × ℕ) :=
  (List.range (newHeight img orientation)).flatMap fun y =>
    (List.range (newWidth img orientation)).map fun x =>
      (y * newWidth img orientation + x,
        (source img orientation x y).2 * img.width + (source img orientation x y).1)

/-- The pixel with a number. -/
def block (pixels : List UInt8) (bytesPerPixel n : ℕ) : List UInt8 :=
  (pixels.drop (n * bytesPerPixel)).take bytesPerPixel

/-- One `memcpy`. -/
def copyPixel (pixels : List UInt8) (bytesPerPixel : ℕ) (out : List UInt8) (copy : ℕ × ℕ) :
    Except Fault (List UInt8) :=
  if copy.1 * bytesPerPixel + bytesPerPixel ≤ out.length ∧
      copy.2 * bytesPerPixel + bytesPerPixel ≤ pixels.length then
    .ok (out.take (copy.1 * bytesPerPixel) ++ (block pixels bytesPerPixel copy.2 ++
      out.drop (copy.1 * bytesPerPixel + bytesPerPixel)))
  else .error .outOfBounds

def copyPixels (pixels : List UInt8) (bytesPerPixel : ℕ) :
    List (ℕ × ℕ) → List UInt8 → Except Fault (List UInt8)
  | [], out => .ok out
  | copy :: copies, out =>
    (copyPixel pixels bytesPerPixel out copy).bind fun out =>
      copyPixels pixels bytesPerPixel copies out

def rotateImageForOrientation (img : Image) (orientation : ℕ) (memory : Bool) :
    Except Fault (Option Image) :=
  if orientation < 2 ∨ 8 < orientation then .ok none
  else if img.width = 0 ∨ img.height = 0 ∨ img.channels = 0 then .ok none
  else
    match basicImagingNew (newWidth img orientation) (newHeight img orientation) img.channels
        memory with
    | none => .ok none
    | some out =>
      (copyPixels img.pixels img.channels (copies img orientation) out.pixels).map fun pixels =>
        some { out with pixels }

/-- What `BasicImaging_Load` does with the orientation that it reads: the image is kept where it is not
rotated. -/
def orient (img : Image) (orientation : ℕ) (memory : Bool) : Except Fault Image :=
  if 2 ≤ orientation then
    (rotateImageForOrientation img orientation memory).map fun rotated => rotated.getD img
  else .ok img

end AmmarServer.BasicImaging
