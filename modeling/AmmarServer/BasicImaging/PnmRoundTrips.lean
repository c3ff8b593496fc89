import Mathlib.Tactic.Ring
import AmmarServer.BasicImaging.PpmInput

/-! PNM files written and read back. The pixels of a grey image come back unless two white space characters
or more stand before them, and a colour image comes back with another depth or not at all. -/

namespace AmmarServer.Pnm
open Bytes TextFile

/-- What is written is read back as it was, whatever fresh memory holds. -/
def RoundTrips (pic : Image) : Prop :=
  ∀ heap, ∃ file, writePPM pic = .ok (some file) ∧ readPPM file heap = .ok (some pic)

/-- An image of one or three channels with 8 bits each, which the depth gives for a channel or for a
pixel. -/
structure EightBits (pic : Image) : Prop where
  width : 1 ≤ pic.width ∧ pic.width < 2 ^ 32
  height : 1 ≤ pic.height ∧ pic.height < 2 ^ 32
  channels : pic.channels = 1 ∨ pic.channels = 3
  depth : pic.bitsperpixel = 8 ∨ pic.bitsperpixel = 8 * pic.channels

/-- An image with all its pixels, or one that was read from a file. -/
def Given (pic : Image) : Prop :=
  pic.pixels.length = pic.width * pic.height * pic.channels ∨
    ∃ file heap, readPPM file heap = .ok (some pic)

/-- The white space characters that pixels begin with. -/
def leading (pixels : List UInt8) : ℕ := (pixels.takeWhile isSpace).length

/-! The header. -/

section Header

theorem decimal_noLF (n : ℕ) : LF ∉ decimal n := fun hmem =>
  (plain_of_isDigit (isDigit_decimal LF hmem)).2.2.2.1 rfl

theorem decimal_short {n : ℕ} (hn : n < 2 ^ 32) : (decimal n).length ≤ 10 :=
  decimal_length (by decide) (by omega)

theorem scanUnsigned_decimal {n : ℕ} (hn : n < 2 ^ 32) {rest : List UInt8}
    (hstop : ∀ c ∈ rest.head?, isDigit c = false) :
    scanUnsigned (decimal n ++ rest) = some (n, rest) := by
  have hscan := @scanUnsigned_digits (decimal n) rest (decimal_ne_nil n) isDigit_decimal
    (by rwa [digits_decimal]) hstop
  rwa [digits_decimal] at hscan

theorem fgets_magic {channels : ℕ} {text : List UInt8} (h : magic channels = some text)
    (rest : List UInt8) :
    fgets 255 (text ++ rest) = (text, rest) ∧ channelsOf text = some channels := by
  unfold magic at h
  split at h
  · cases h
    subst channels
    exact ⟨rfl, rfl⟩
  · split at h
    · cases h
      subst channels
      exact ⟨rfl, rfl⟩
    · cases h

variable {w h maximum : ℕ} (hw : w < 2 ^ 32) (hh : h < 2 ^ 32) (hmaximum : maximum < 2 ^ 32)

include hw hh in
theorem dimensionLine_dimensions (lines : ℕ) (rest : List UInt8) :
    dimensionLine (lines + 1) (decimal w ++ 32 :: decimal h ++ [LF] ++ rest) =
      some (decimal w ++ 32 :: decimal h ++ [LF], rest) := by
  have hline : fgets 255 (decimal w ++ 32 :: decimal h ++ LF :: rest) =
      (decimal w ++ 32 :: decimal h ++ [LF], rest) := by
    refine fgets_line ?_ ?_ rest
    · rw [List.mem_append, List.mem_cons]
      rintro (hmem | hmem | hmem)
      · exact decimal_noLF w hmem
      · exact absurd hmem (by decide)
      · exact decimal_noLF h hmem
    · have hwidth := decimal_short hw
      have hheight := decimal_short hh
      rw [List.length_append, List.length_cons]
      omega
  obtain ⟨c, s, hs⟩ := List.exists_cons_of_ne_nil (decimal_ne_nil w)
  have hcomment : (decimal w ++ 32 :: decimal h ++ [LF]).head? ≠ some 35 := by
    have hdigit : isDigit c = true := isDigit_decimal c (hs ▸ List.mem_cons_self ..)
    rw [hs]
    intro hc
    cases hc
    exact absurd hdigit (by decide)
  have hcons : decimal w ++ 32 :: decimal h ++ [LF] ++ rest =
      c :: (s ++ 32 :: decimal h ++ [LF] ++ rest) := by
    rw [hs]
    rfl
  have hfgets : fgets 255 (c :: (s ++ 32 :: decimal h ++ [LF] ++ rest)) =
      (decimal w ++ 32 :: decimal h ++ [LF], rest) := by
    rw [← hcons, ← hline, List.append_assoc]
    rfl
  rw [hcons, dimensionLine, hfgets, if_neg hcomment]

include hw hh hmaximum in
theorem readHeader_dimensions {channels : ℕ} {text : List UInt8} (hmagic : magic channels = some text)
    (body : List UInt8) :
    readHeader (text ++ dimensions w h maximum ++ body) =
      (depthBytes maximum).map fun bytes => (w, h, bytes, channels, body.dropWhile isSpace) := by
  obtain ⟨hfirst, hchannels⟩ :=
    fgets_magic hmagic (dimensions w h maximum ++ body)
  have hfile : text ++ dimensions w h maximum ++ body =
      text ++ (dimensions w h maximum ++ body) := List.append_assoc _ _ _
  have hne : text ++ (dimensions w h maximum ++ body) ≠ [] := by
    refine List.append_ne_nil_of_right_ne_nil _ (List.append_ne_nil_of_left_ne_nil ?_ _)
    exact List.append_ne_nil_of_right_ne_nil _ (List.cons_ne_nil _ _)
  have hrest : dimensions w h maximum ++ body =
      decimal w ++ 32 :: decimal h ++ [LF] ++ (decimal maximum ++ LF :: body) := by
    simp [dimensions]
  obtain ⟨lines, hlines⟩ := Nat.exists_eq_succ_of_ne_zero (Nat.ne_zero_of_lt
    (List.length_pos_iff.mpr hne))
  have hline : dimensionLine (text ++ (dimensions w h maximum ++ body)).length
      (dimensions w h maximum ++ body) =
      some (decimal w ++ 32 :: decimal h ++ [LF], decimal maximum ++ LF :: body) := by
    rw [hlines, hrest]
    exact dimensionLine_dimensions hw hh lines _
  have hwidth : scanUnsigned (decimal w ++ 32 :: decimal h ++ [LF]) =
      some (w, 32 :: decimal h ++ [LF]) := by
    rw [List.append_assoc]
    exact scanUnsigned_decimal hw (by rintro c ⟨⟩; rfl)
  have hheight : scanUnsigned (32 :: decimal h ++ [LF]) = some (h, [LF]) := by
    rw [List.cons_append, scanUnsigned_space rfl]
    exact scanUnsigned_decimal hh (by rintro c ⟨⟩; rfl)
  have hdepth : scanUnsigned (decimal maximum ++ LF :: body) = some (maximum, LF :: body) :=
    scanUnsigned_decimal hmaximum (by rintro c ⟨⟩; rfl)
  have hspace : (LF :: body).dropWhile isSpace = body.dropWhile isSpace :=
    List.dropWhile_cons_of_pos rfl
  unfold readHeader
  rw [hfile, if_neg hne, hfirst]
  simp only [hchannels, hline, hwidth, hheight, hdepth, hspace, Option.bind_eq_bind,
    Option.bind_some, Option.pure_def]
  cases depthBytes maximum with
  | none => rfl
  | some bytes => rfl

theorem readHeader_depth {file behind : List UInt8} {w h bytesPerPixel channels : ℕ}
    (hread : readHeader file = some (w, h, bytesPerPixel, channels, behind)) :
    bytesPerPixel = 1 ∨ bytesPerPixel = 2 := by
  unfold readHeader at hread
  split at hread
  · cases hread
  simp only [Option.bind_eq_bind, Option.bind_eq_some_iff, Option.pure_def, Option.some.injEq,
    Prod.mk.injEq, Prod.exists] at hread
  obtain ⟨-, -, -, -, -, -, -, -, -, -, -, d, -, -, bytes, hdepth, -, -, rfl, -, -⟩ := hread
  unfold depthBytes at hdepth
  split at hdepth
  · cases hdepth
    exact .inl rfl
  · split at hdepth
    · cases hdepth
      exact .inr rfl
    · cases hdepth

end Header

/-! The pixels. -/

section Pixels
variable {file : List UInt8} {heap : ℕ → UInt8} {pic : Image}

theorem readPPM_image (h : readPPM file heap = .ok (some pic)) :
    ∃ bytesPerPixel, (bytesPerPixel = 1 ∨ bytesPerPixel = 2) ∧
      pic.bitsperpixel = bytesPerPixel * 8 ∧
      pic.pixels.length = pic.width * pic.height * bytesPerPixel * pic.channels % 2 ^ 32 := by
  unfold readPPM at h
  cases hheader : readHeader file with
  | none =>
    rw [hheader] at h
    cases h
  | some header =>
    obtain ⟨w, height, bytesPerPixel, channels, behind⟩ := header
    rw [hheader] at h
    refine ⟨bytesPerPixel, readHeader_depth hheader, ?_⟩
    dsimp only at h
    cases hpixels : readPixels file behind heap w height bytesPerPixel channels with
    | error fault =>
      rw [hpixels] at h
      cases h
    | ok read =>
      rw [hpixels] at h
      cases h
      unfold readPixels at hpixels
      dsimp only at hpixels
      generalize ((file.drop _).take _) = bytes at hpixels
      split at hpixels
      · cases hpixels
      · rename_i hfits
        cases hpixels
        refine ⟨rfl, ?_⟩
        dsimp only
        rw [List.length_append, List.length_map, List.length_range']
        exact Nat.add_sub_cancel' (Nat.not_lt.mp hfits)

theorem readPixels_grey {front body : List UInt8} {w h : ℕ} (hfront : front ≠ [])
    (hbody : body.length = w * h % 2 ^ 32) :
    readPixels (front ++ body) (body.dropWhile isSpace) heap w h 1 1 =
      .ok { width := w
            height := h
            channels := 1
            bitsperpixel := 8
            pixels := body.drop (leading body - 1) ++
              (List.range' (body.length - (leading body - 1)) (leading body - 1)).map heap } := by
  have hsplit : leading body + (body.dropWhile isSpace).length = body.length := by
    rw [leading, ← List.length_append, List.takeWhile_append_dropWhile]
  have hpos := List.length_pos_iff.mpr hfront
  have hstart : (if (body.dropWhile isSpace).length < 1 * 1 * w * h % 2 ^ 32 then
      (front ++ body).length - (body.dropWhile isSpace).length - 1
      else (front ++ body).length - (body.dropWhile isSpace).length) =
      front.length + (leading body - 1) := by
    rw [Nat.one_mul 1, Nat.one_mul w, ← hbody, List.length_append]
    split
    · omega
    · omega
  have hsize : w * h * 1 * 1 % 2 ^ 32 = body.length := by rw [Nat.mul_one, Nat.mul_one, hbody]
  have hdrop : (front ++ body).drop (front.length + (leading body - 1)) =
      body.drop (leading body - 1) := List.drop_length_add_append ..
  have htake : (body.drop (leading body - 1)).take (1 * 1 * (w * h % 2 ^ 32)) =
      body.drop (leading body - 1) := by
    refine List.take_of_length_le ?_
    rw [Nat.one_mul, ← hbody, List.length_drop]
    exact Nat.sub_le _ _
  have hfill : body.length - (body.length - (leading body - 1)) = leading body - 1 := by omega
  unfold readPixels
  dsimp only
  rw [hstart, hdrop, htake, hsize, if_neg (by rw [List.length_drop]; omega), List.length_drop,
    hfill]

/-- A grey image is read with its bytes from the last white space character in front of them on. -/
theorem readPPM_grey {w h : ℕ} (hw : w < 2 ^ 32) (hh : h < 2 ^ 32) {text body : List UInt8}
    (hmagic : magic 1 = some text) (hbody : body.length = w * h % 2 ^ 32) :
    readPPM (text ++ dimensions w h 255 ++ body) heap =
      .ok (some { width := w
                  height := h
                  channels := 1
                  bitsperpixel := 8
                  pixels := body.drop (leading body - 1) ++
                    (List.range' (body.length - (leading body - 1)) (leading body - 1)).map heap }) := by
  have hfront : text ++ dimensions w h 255 ≠ [] := by
    refine List.append_ne_nil_of_right_ne_nil _ ?_
    exact List.append_ne_nil_of_right_ne_nil _ (List.cons_ne_nil _ _)
  unfold readPPM
  rw [readHeader_dimensions hw hh (by decide) hmagic]
  change (readPixels (text ++ dimensions w h 255 ++ body) _ heap w h 1 1).map some = _
  rw [readPixels_grey hfront hbody]
  rfl

end Pixels

section Image
variable {pic : Image}

theorem writePPM_eq (h : EightBits pic) {text : List UInt8} (hmagic : magic pic.channels = some text)
    (n maximum : ℕ)
    (hmaximum : (simplePowPPM 2 (bitsPerChannel pic) + 2 ^ 32 - 1) % 2 ^ 32 = maximum)
    (hn : pic.width * pic.height * pic.channels * (bitsPerChannel pic / 8) % 2 ^ 32 = n)
    (hdepth : bitsPerChannel pic ≤ 16) (hroom : n ≤ pic.pixels.length) :
    writePPM pic =
      .ok (some (text ++ dimensions pic.width pic.height maximum ++ pic.pixels.take n)) := by
  have hzero : ¬ (pic.width = 0 ∨ pic.height = 0 ∨ pic.channels = 0 ∨ pic.bitsperpixel = 0) := by
    have hwidth := h.width.1
    have hheight := h.height.1
    have hchannels := h.channels
    have hbits := h.depth
    omega
  unfold writePPM
  rw [if_neg hzero, if_neg (Nat.not_lt.mpr hdepth), hmagic]
  dsimp only
  rw [hn, if_neg (Nat.not_lt.mpr hroom), hmaximum]

theorem Given.room (hgiven : Given pic) (hdepth : pic.bitsperpixel = 8) :
    pic.width * pic.height * pic.channels % 2 ^ 32 ≤ pic.pixels.length ∧
      (pic.pixels.length < 2 ^ 32 →
        pic.pixels.length = pic.width * pic.height * pic.channels % 2 ^ 32) := by
  rcases hgiven with hall | ⟨file, heap, hread⟩
  · rw [hall]
    exact ⟨Nat.mod_le _ _, fun hlt => (Nat.mod_eq_of_lt hlt).symm⟩
  · obtain ⟨bytesPerPixel, -, hbits, hlength⟩ := readPPM_image hread
    obtain rfl : bytesPerPixel = 1 := by omega
    rw [Nat.mul_one] at hlength
    exact ⟨hlength.ge, fun _ => hlength⟩

/-- A colour image does not come back. -/
theorem colour_lost (h : EightBits pic) (hchannels : pic.channels = 3) : ¬ RoundTrips pic := by
  intro hround
  obtain ⟨file, hwrite, hread⟩ := hround fun _ => 0
  obtain ⟨bytesPerPixel, hbytes, hbits, -⟩ := readPPM_image hread
  have hdepth : pic.bitsperpixel = 8 := by
    have hdepth := h.depth
    omega
  have hchannel : bitsPerChannel pic = 2 := by rw [bitsPerChannel, hdepth, hchannels]
  have hmagic : magic pic.channels = some [80, 54, LF] := by rw [hchannels]; rfl
  rw [writePPM_eq h hmagic 0 3 (by rw [hchannel]; rfl)
    (by rw [hchannel]; exact congrArg (· % 2 ^ 32) (Nat.mul_zero _)) (by omega) (Nat.zero_le _)]
    at hwrite
  cases hwrite
  have hnone := @readHeader_dimensions _ _ 3 h.width.2 h.height.2 (by decide) _ _ hmagic
    (pic.pixels.take 0)
  unfold readPPM at hread
  rw [hnone] at hread
  cases hread

/-- An image comes back where it is grey and at most one white space character stands before its bytes,
which an `unsigned int` has to count. -/
theorem picture_roundTrips_iff (h : EightBits pic) (hgiven : Given pic) :
    RoundTrips pic ↔
      pic.channels = 1 ∧ leading pic.pixels ≤ 1 ∧ pic.pixels.length < 2 ^ 32 := by
  rcases h.channels with hgrey | hcolour
  swap
  · exact iff_of_false (colour_lost h hcolour) fun hall => by
      rw [hcolour] at hall
      exact absurd hall.1 (by decide)
  have hdepth : pic.bitsperpixel = 8 := by
    have hdepth := h.depth
    omega
  obtain ⟨hroom, hexact⟩ := hgiven.room hdepth
  have hchannel : bitsPerChannel pic = 8 := by rw [bitsPerChannel, hdepth, hgrey]
  have hmagic : magic pic.channels = some [80, 53, LF] := by rw [hgrey]; rfl
  have hbytes : pic.width * pic.height * pic.channels * (bitsPerChannel pic / 8) % 2 ^ 32 =
      pic.width * pic.height % 2 ^ 32 := by
    rw [hchannel, hgrey, Nat.mul_one]
    exact congrArg (· % 2 ^ 32) (Nat.mul_one _)
  rw [hgrey, Nat.mul_one] at hroom hexact
  have hwrite := writePPM_eq h hmagic _ 255 (by rw [hchannel]; rfl) hbytes (by omega) hroom
  have hlength : (pic.pixels.take (pic.width * pic.height % 2 ^ 32)).length =
      pic.width * pic.height % 2 ^ 32 := by
    rw [List.length_take]
    exact Nat.min_eq_left hroom
  have hread := fun heap => @readPPM_grey heap _ _ h.width.2 h.height.2 _ _ rfl hlength
  constructor
  · intro hround
    obtain ⟨file, hfile, hsame⟩ := hround fun i => pic.pixels.getD i 0 + 1
    rw [hwrite] at hfile
    cases hfile
    rw [hread] at hsame
    have hpixels := congrArg Image.pixels (Option.some.inj (Except.ok.inj hsame))
    dsimp only at hpixels
    have hlead : leading (pic.pixels.take (pic.width * pic.height % 2 ^ 32)) ≤
        (pic.pixels.take (pic.width * pic.height % 2 ^ 32)).length :=
      (List.takeWhile_prefix _).length_le
    have hcount := congrArg List.length hpixels
    rw [List.length_append, List.length_drop, List.length_map, List.length_range'] at hcount
    have hall : pic.pixels.length = pic.width * pic.height % 2 ^ 32 := by omega
    have hwhole : pic.pixels.take (pic.width * pic.height % 2 ^ 32) = pic.pixels := by
      rw [← hall, List.take_length]
    rw [hwhole] at hpixels hlead
    refine ⟨hgrey, ?_, by omega⟩
    by_contra hmany
    -- the last byte is one of fresh memory
    have hlast := congrArg (fun pixels => pixels[pic.pixels.length - 1]?) hpixels
    rw [List.getElem?_append_right (by rw [List.length_drop]; omega), List.length_drop,
      List.getElem?_map, List.getElem?_range' (by omega), Option.map_some,
      List.getElem?_eq_getElem (by omega), Option.some.injEq] at hlast
    have hplace : pic.pixels.length - (leading pic.pixels - 1) + 1 *
        (pic.pixels.length - 1 - (pic.pixels.length - (leading pic.pixels - 1))) =
        pic.pixels.length - 1 := by omega
    rw [hplace, List.getD_eq_getElem?_getD, List.getElem?_eq_getElem (by omega)] at hlast
    exact absurd hlast (by simp)
  · rintro ⟨-, hlead, hlt⟩ heap
    have hwhole : pic.pixels.take (pic.width * pic.height % 2 ^ 32) = pic.pixels := by
      rw [← hexact hlt, List.take_length]
    refine ⟨_, hwrite, ?_⟩
    rw [hread, hwhole, Nat.sub_eq_zero_of_le hlead]
    simp only [List.drop_zero, List.range'_zero, List.map_nil, List.append_nil]
    congr 2
    exact Image.ext rfl rfl hgrey.symm hdepth.symm rfl

end Image

def twoPixels : Image := { width := 2, height := 1, channels := 1, bitsperpixel := 8, pixels := [9, 7] }

theorem twoPixels_roundTrips_iff :
    EightBits twoPixels ∧ Given twoPixels ∧ (RoundTrips twoPixels ↔
      twoPixels.channels = 1 ∧ leading twoPixels.pixels ≤ 1 ∧ twoPixels.pixels.length < 2 ^ 32) := by
  have height : EightBits twoPixels :=
    ⟨⟨by decide, by decide⟩, ⟨by decide, by decide⟩, .inl rfl, .inl rfl⟩
  exact ⟨height, .inl rfl, picture_roundTrips_iff height (.inl rfl)⟩

/-- A colour image with 24 bits for its pixel. -/
def onePixel : Image :=
  { width := 1, height := 1, channels := 3, bitsperpixel := 24, pixels := [1, 2, 3] }

theorem onePixel_lost : ¬ ∀ pic, EightBits pic → Given pic → RoundTrips pic := by
  intro h
  have height : EightBits onePixel :=
    ⟨⟨by decide, by decide⟩, ⟨by decide, by decide⟩, .inr rfl, .inr rfl⟩
  exact colour_lost height rfl (h onePixel height (.inl rfl))

end AmmarServer.Pnm
