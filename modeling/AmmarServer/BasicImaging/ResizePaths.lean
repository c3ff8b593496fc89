import AmmarServer.BasicImaging.Resize
import AmmarServer.BasicImaging.Orientations

/-! The scalar way and the vector ways of a resize write the same pixels. -/

namespace AmmarServer.Resize
open BasicImaging (Image basicImagingNew)
open Buffers Loops Simd

/-! The taps along an axis. -/

/-- What the tables of an axis are, wherever they come from. -/
structure Axis (srcCount : ℕ) where
  low : ℕ → ℕ
  high : ℕ → ℕ
  weight : ℕ → UInt16
  low_mono : Monotone low
  low_le : ∀ d, low d ≤ high d
  high_le : ∀ d, high d ≤ low d + 1
  high_lt : ∀ d, high d < srcCount
  weight_le : ∀ d, (weight d).toNat ≤ 128

theorem Axis.low_lt {srcCount : ℕ} (axis : Axis srcCount) (d : ℕ) : axis.low d < srcCount :=
  Nat.lt_of_le_of_lt (axis.low_le d) (axis.high_lt d)

/-! The places of the pixels. -/

section Places
variable {count channels d c : ℕ}

theorem place_lt (hd : d < count) (hc : c < channels) : d * channels + c < count * channels := by
  have hrow : (d + 1) * channels ≤ count * channels := Nat.mul_le_mul_right channels hd
  have hsum : (d + 1) * channels = d * channels + channels := Nat.succ_mul d channels
  omega

theorem place_div (hc : c < channels) : (d * channels + c) / channels = d := by
  rw [Nat.add_comm, Nat.add_mul_div_right _ _ (by omega), Nat.div_eq_of_lt hc, Nat.zero_add]

theorem place_mod (hc : c < channels) : (d * channels + c) % channels = c := by
  rw [Nat.add_comm, Nat.add_mul_mod_self_right, Nat.mod_eq_of_lt hc]

theorem u32_eq {n : ℕ} (h : n < 2 ^ 32) : u32 n = n := Nat.mod_eq_of_lt h

end Places

/-! The tables in memory. -/

section Tables
variable {srcCount count channels : ℕ}

/-- The bytes of a table of offsets. -/
def relOf (low tap : ℕ → ℕ) (channels k : ℕ) : UInt8 := relByte low tap channels (k / channels) (k % channels)

structure Tables (axis : Axis srcCount) (count channels : ℕ) (taps : AxisTaps) : Prop where
  low : Written axis.low count count taps.low
  high : Written axis.high count count taps.high
  weight : Written axis.weight count count taps.weight
  rel0 : ∀ rel, taps.rel0 = some rel →
    Written (relOf axis.low axis.low channels) (count * channels + 16) (count * channels) rel
  rel1 : ∀ rel, taps.rel1 = some rel →
    Written (relOf axis.low axis.high channels) (count * channels + 16) (count * channels) rel

end Tables

/-! The values of a blended row, and of the pixels. -/

section Values
variable {w : UInt16} {p0 p1 : UInt8}

theorem complement_eq (h : w.toNat ≤ 128) : complement w = 128 - w.toNat := by
  unfold complement u32 fixedOne
  omega

theorem blend_le (h : w.toNat ≤ 128) :
    p0.toNat * complement w + p1.toNat * w.toNat ≤ 32640 := by
  have hp0 := p0.toNat_lt
  have hp1 := p1.toNat_lt
  have hfirst : p0.toNat * (128 - w.toNat) ≤ 255 * (128 - w.toNat) := Nat.mul_le_mul_right _ (by omega)
  have hsecond : p1.toNat * w.toNat ≤ 255 * w.toNat := Nat.mul_le_mul_right _ (by omega)
  rw [complement_eq h]
  omega

theorem blend_eq (h : w.toNat ≤ 128) : blend p0 p1 w = p0.toNat * complement w + p1.toNat * w.toNat := by
  have hle := @blend_le w p0 p1 h
  exact u32_eq (by omega)

variable {srcWidth srcHeight : ℕ}

/-- The blend of the two pixels of a row for a value of the new row. -/
def rowBlend (x : Axis srcWidth) (channels : ℕ) (g : ℕ → UInt8) (k : ℕ) : ℕ :=
  blend (g (x.low (k / channels) * channels + k % channels))
    (g (x.high (k / channels) * channels + k % channels)) (x.weight (k / channels))

theorem rowBlend_le (x : Axis srcWidth) (channels : ℕ) (g : ℕ → UInt8) (k : ℕ) :
    rowBlend x channels g k ≤ 32640 := by
  unfold rowBlend
  rw [blend_eq (x.weight_le _)]
  exact blend_le (x.weight_le _)

/-- A row of the pixels. -/
def rowOf (g : ℕ → UInt8) (stride y k : ℕ) : UInt8 := g (y * stride + k)

/-- A value of the new image, the rows of the new image being `rowPixels` long. -/
def pixelBlend (x : Axis srcWidth) (y : Axis srcHeight) (channels rowPixels : ℕ) (g : ℕ → UInt8) (k : ℕ) :
    UInt8 :=
  narrow (rowBlend x channels (rowOf g (srcWidth * channels) (y.low (k / rowPixels))) (k % rowPixels))
    (rowBlend x channels (rowOf g (srcWidth * channels) (y.high (k / rowPixels))) (k % rowPixels))
    (complement (y.weight (k / rowPixels))) (y.weight (k / rowPixels)).toNat

end Values

/-! The scalar way. -/

section Scalar
variable {srcWidth srcHeight newWidth newHeight channels : ℕ} {x : Axis srcWidth} {y : Axis srcHeight}
  {xTaps yTaps : AxisTaps} {g : ℕ → UInt8}

theorem scalarPixel_ok {top bot : ℕ → UInt8} {rowTop rowBot : List UInt8} {wY0 wY1 dx c : ℕ}
    (hx : Tables x newWidth channels xTaps) (hstride : srcWidth * channels < 2 ^ 32)
    (htop : Written top (srcWidth * channels) (srcWidth * channels) rowTop)
    (hbot : Written bot (srcWidth * channels) (srcWidth * channels) rowBot)
    (hdx : dx < newWidth) (hc : c < channels) :
    scalarPixel rowTop rowBot xTaps channels wY0 wY1 dx c =
      .ok (narrow (rowBlend x channels top (dx * channels + c))
        (rowBlend x channels bot (dx * channels + c)) wY0 wY1) := by
  have hlow := place_lt (x.low_lt dx) hc
  have hhigh := place_lt (x.high_lt dx) hc
  unfold scalarPixel rowBlend
  simp only [hx.low.read hdx, hx.high.read hdx, hx.weight.read hdx, bind, Except.bind]
  rw [u32_eq (n := x.low dx * channels) (by omega), u32_eq (n := x.high dx * channels) (by omega),
    u32_eq (by omega), u32_eq (by omega)]
  simp only [htop.read hlow, htop.read hhigh, hbot.read hlow, hbot.read hhigh]
  rw [place_div hc, place_mod hc]

theorem scalarRow_ok {img : Image} {dy : ℕ} {dstPixels : List UInt8}
    (hpixels : Written g (srcHeight * (srcWidth * channels)) (srcHeight * (srcWidth * channels)) img.pixels)
    (hwidth : img.width = srcWidth) (hstride : srcWidth * channels < 2 ^ 32)
    (hrow : newWidth * channels < 2 ^ 32) (hx : Tables x newWidth channels xTaps)
    (hy : Tables y newHeight channels yTaps) (hdy : dy < newHeight)
    (h : Written (pixelBlend x y channels (newWidth * channels) g) (newHeight * (newWidth * channels))
      (dy * (newWidth * channels)) dstPixels) :
    ∃ r, scalarRow img xTaps yTaps channels newWidth dy dstPixels = .ok r ∧
      Written (pixelBlend x y channels (newWidth * channels) g) (newHeight * (newWidth * channels))
        ((dy + 1) * (newWidth * channels)) r := by
  obtain ⟨rowTop, htop, hrowTop⟩ := hpixels.row (y := y.low dy)
    (Nat.mul_le_mul_right (srcWidth * channels) (y.low_lt dy))
  obtain ⟨rowBot, hbot, hrowBot⟩ := hpixels.row (y := y.high dy)
    (Nat.mul_le_mul_right (srcWidth * channels) (y.high_lt dy))
  unfold scalarRow
  rw [hwidth, u32_eq hstride, u32_eq hrow]
  simp only [hy.low.read hdy, hy.high.read hdy, hy.weight.read hdy, htop, hbot, bind, Except.bind]
  rw [Nat.succ_mul]
  apply singles_ok (P := fun dx dstPixels => Written (pixelBlend x y channels (newWidth * channels) g)
    (newHeight * (newWidth * channels)) (dy * (newWidth * channels) + dx * channels) dstPixels)
    (Nat.zero_le newWidth)
  · rwa [Nat.zero_mul]
  · intro dx dstPixels hdx h
    rw [Nat.succ_mul, ← Nat.add_assoc]
    apply singles_ok (P := fun c dstPixels => Written (pixelBlend x y channels (newWidth * channels) g)
      (newHeight * (newWidth * channels)) (dy * (newWidth * channels) + dx * channels + c) dstPixels)
      (Nat.zero_le channels) h
    intro c dstPixels hc h
    have hplace := place_lt hdx hc
    have hinside := place_lt hdy hplace
    have hvalue : pixelBlend x y channels (newWidth * channels) g
          (dy * (newWidth * channels) + dx * channels + c) =
        narrow (rowBlend x channels (rowOf g (srcWidth * channels) (y.low dy)) (dx * channels + c))
          (rowBlend x channels (rowOf g (srcWidth * channels) (y.high dy)) (dx * channels + c))
          (complement (y.weight dy)) (y.weight dy).toNat := by
      unfold pixelBlend
      rw [Nat.add_assoc, place_div hplace, place_mod hplace]
    have hpixel := @scalarPixel_ok _ _ _ _ _ _ _ _ _ (complement (y.weight dy)) (y.weight dy).toNat _ _ hx
      hstride hrowTop hrowBot hdx hc
    have hwrite := h.write (by omega)
    rw [hvalue] at hwrite
    simp only [hpixel]
    exact hwrite

end Scalar

/-! The horizontal blend. -/

section Horizontal
variable {srcWidth newWidth channels lanes d : ℕ} {x : Axis srcWidth} {xTaps : AxisTaps} {g : ℕ → UInt8}
  {wIdxA wIdxB : Vec}

/-- The masks put the weight of each of four pixels at the lanes of its channels. -/
structure Spread (channels : ℕ) (wIdxA wIdxB : Vec) (lanes : ℕ) : Prop where
  lanes_le : lanes ≤ 8
  values : 8 + lanes = 4 * channels
  low : ∀ i : Fin 8, wIdxA (Fin.ofNat 16 (2 * i)) = UInt8.ofNat (2 * (i / channels)) ∧
    wIdxA (Fin.ofNat 16 (2 * i + 1)) = UInt8.ofNat (2 * (i / channels) + 1)
  high : ∀ i : Fin 8, i.val < lanes → wIdxB (Fin.ofNat 16 (2 * i)) = UInt8.ofNat (2 * ((8 + i) / channels)) ∧
    wIdxB (Fin.ofNat 16 (2 * i + 1)) = UInt8.ofNat (2 * ((8 + i) / channels) + 1)

/-- The taps of each whole batch lie in 32 bytes. -/
def WindowOK (x : Axis srcWidth) (count channels : ℕ) : Prop :=
  ∀ d, 4 ∣ d → d + 4 ≤ count → (x.low (d + 3) - x.low d + 1) * channels + (channels - 1) < 32

/-- The values of the blended row in memory. -/
def rowValue (x : Axis srcWidth) (channels : ℕ) (g : ℕ → UInt8) (k : ℕ) : UInt16 :=
  UInt16.ofNat (rowBlend x channels g k)

theorem lane_eq {p0 p1 : UInt8} {w : UInt16} (h : w.toNat ≤ 128) :
    UInt16.ofNat p0.toNat * (UInt16.ofNat fixedOne - w) + UInt16.ofNat p1.toNat * w =
      UInt16.ofNat (blend p0 p1 w) := by
  have hone : UInt16.ofNat fixedOne - w = UInt16.ofNat (complement w) := by
    apply UInt16.toNat_inj.mp
    rw [complement_eq h, UInt16.toNat_sub, UInt16.toNat_ofNat', UInt16.toNat_ofNat']
    unfold fixedOne
    omega
  have hw : w = UInt16.ofNat w.toNat := (UInt16.ofNat_toNat).symm
  rw [blend_eq h, hone, UInt16.ofNat_add, UInt16.ofNat_mul, UInt16.ofNat_mul, ← hw]

theorem batch_div (hd : 4 ∣ d) {j : ℕ} (hj : j < 4) : (d + j) / 4 * 4 = d := by
  omega

theorem gather_rel {tap : ℕ → ℕ} {w0 w1 idx : Vec} {k : Fin 16} (hstride : srcWidth * channels < 2 ^ 32)
    (hw0 : ∀ k : Fin 16, w0 k = g (x.low d * channels + k))
    (hw1 : ∀ k : Fin 16, w1 k = g (x.low d * channels + 16 + k))
    (hidx : idx k = relOf x.low tap channels (d * channels + k)) (hd : 4 ∣ d) (hk : k.val < 4 * channels)
    (htap : x.low d ≤ tap (d + k / channels)) (hlt : tap (d + k / channels) < srcWidth)
    (hwindow : (tap (d + k / channels) - x.low d) * channels + (channels - 1) < 32) :
    gather w0 w1 idx k = g (tap (d + k / channels) * channels + k % channels) := by
  have hchannels : 0 < channels := by omega
  have hdiv : (d * channels + k.val) / channels = d + k.val / channels := by
    rw [Nat.mul_comm, Nat.mul_add_div hchannels]
  have hmod : (d * channels + k.val) % channels = k.val % channels := by
    rw [Nat.mul_comm, Nat.mul_add_mod]
  have hpixel : k.val / channels < 4 := Nat.div_lt_of_lt_mul (by rwa [Nat.mul_comm])
  have hbase : (d + k.val / channels) / 4 * 4 = d := batch_div hd hpixel
  have hchannel := Nat.mod_lt k.val hchannels
  have hwide : srcWidth ≤ srcWidth * channels := Nat.le_mul_of_pos_right srcWidth hchannels
  have hoffset : u32 (tap (d + k / channels) + 2 ^ 32 - x.low d) = tap (d + k / channels) - x.low d := by
    unfold u32
    omega
  have hplace : (idx k).toNat =
      (tap (d + k / channels) - x.low d) * channels + k % channels := by
    rw [hidx, relOf, hdiv, hmod, relByte, hbase, hoffset, u32_eq (by omega), UInt8.toNat_ofNat',
      Nat.mod_eq_of_lt (by omega)]
  have hgather := @gather_eq w0 w1 idx k (fun n => g (x.low d * channels + n)) hw0
    (fun k => by rw [hw1, Nat.add_assoc]) (by omega)
  rw [hgather, hplace, Nat.sub_mul]
  congr 1
  have hle : x.low d * channels ≤ tap (d + k / channels) * channels := Nat.mul_le_mul_right _ htap
  omega

theorem WindowOK.taps (h : WindowOK x newWidth channels) (hd : 4 ∣ d) (hd4 : d + 4 ≤ newWidth) {j : ℕ}
    (hj : j < 4) :
    (x.low (d + j) - x.low d) * channels + (channels - 1) < 32 ∧
      (x.high (d + j) - x.low d) * channels + (channels - 1) < 32 := by
  have hlast := x.low_mono (show d + j ≤ d + 3 by omega)
  have hhigh := x.high_le (d + j)
  have hspan := h d hd hd4
  have hlow : (x.low (d + j) - x.low d) * channels ≤ (x.low (d + 3) - x.low d + 1) * channels :=
    Nat.mul_le_mul_right _ (by omega)
  have hhigh : (x.high (d + j) - x.low d) * channels ≤ (x.low (d + 3) - x.low d + 1) * channels :=
    Nat.mul_le_mul_right _ (by omega)
  omega

theorem loadWeights_ok (hx : Tables x newWidth channels xTaps) (hd4 : d + 4 ≤ newWidth) :
    ∃ w, loadWeights xTaps.weight d = .ok w ∧ ∀ j : Fin 8, j.val < 4 → word w j = x.weight (d + j) := by
  unfold loadWeights
  rw [hx.weight.load hd4 (le_refl newWidth)]
  refine ⟨_, rfl, fun j hj => ?_⟩
  have hplace : (Fin.ofNat 4 j.val).val = j.val := Nat.mod_eq_of_lt hj
  rw [word_ofWords, if_pos hj]
  exact congrArg (fun k => x.weight (d + k)) hplace

theorem word_spread {w mask : Vec} {i : Fin 8} {n : ℕ}
    (hw : ∀ j : Fin 8, j.val < 4 → word w j = x.weight (d + j)) (hn : n / channels < 4)
    (hmask : mask (Fin.ofNat 16 (2 * i)) = UInt8.ofNat (2 * (n / channels)) ∧
      mask (Fin.ofNat 16 (2 * i + 1)) = UInt8.ofNat (2 * (n / channels) + 1)) :
    word (shuffleEpi8 w mask) i = x.weight (d + n / channels) := by
  have hval : (Fin.ofNat 8 (n / channels)).val = n / channels :=
    Nat.mod_eq_of_lt (Nat.lt_of_lt_of_le hn (by decide))
  rw [word_shuffleEpi8 (j := Fin.ofNat 8 (n / channels)) (by rw [hval, hmask.1]) (by rw [hval, hmask.2]),
    hw _ (by rwa [hval]), hval]

theorem rowValue_eq {n : ℕ} (hchannels : 0 < channels) (x : Axis srcWidth) (g : ℕ → UInt8) :
    rowValue x channels g (d * channels + n) =
      UInt16.ofNat (g (x.low (d + n / channels) * channels + n % channels)).toNat *
          (UInt16.ofNat fixedOne - x.weight (d + n / channels)) +
        UInt16.ofNat (g (x.high (d + n / channels) * channels + n % channels)).toNat *
          x.weight (d + n / channels) := by
  have hdiv : (d * channels + n) / channels = d + n / channels := by
    rw [Nat.mul_comm, Nat.mul_add_div hchannels]
  have hmod : (d * channels + n) % channels = n % channels := by
    rw [Nat.mul_comm, Nat.mul_add_mod]
  rw [lane_eq (x.weight_le _), rowValue, rowBlend, hdiv, hmod]

theorem word_blendWords (p0 p1 w : Vec) (i : Fin 8) : word (blendWords p0 p1 w) i =
    word p0 i * (UInt16.ofNat fixedOne - word w i) + word p1 i * word w i := by
  rw [blendWords, word_addEpi16, word_mulloEpi16, word_mulloEpi16, word_subEpi16, word_set1Epi16]

theorem xBlendBatch_ok {srcRow : List UInt8} {tmpRow : List UInt16} (hspread : Spread channels wIdxA wIdxB lanes)
    (hx : Tables x newWidth channels xTaps) (hrel0 : xTaps.rel0.isSome) (hrel1 : xTaps.rel1.isSome)
    (hwindow : WindowOK x newWidth channels) (hstride : srcWidth * channels < 2 ^ 32)
    (hrow : Written g (srcWidth * channels) (srcWidth * channels) srcRow) (hd : 4 ∣ d)
    (hd4 : d + 4 ≤ newWidth) (hinside : x.low d * channels + 32 ≤ srcWidth * channels)
    (h : Written (rowValue x channels g) (newWidth * channels) (d * channels) tmpRow) :
    ∃ r, xBlendBatch channels wIdxA wIdxB lanes srcRow xTaps d tmpRow = .ok r ∧
      Written (rowValue x channels g) (newWidth * channels) ((d + 4) * channels) r := by
  obtain ⟨rel0, hrel0⟩ := Option.isSome_iff_exists.mp hrel0
  obtain ⟨rel1, hrel1⟩ := Option.isSome_iff_exists.mp hrel1
  have hlanes := hspread.lanes_le
  have hvalues := hspread.values
  have hchannels : 0 < channels := by omega
  have hbatch : (d + 4) * channels = d * channels + 4 * channels := Nat.add_mul d 4 channels
  have hend : (d + 4) * channels ≤ newWidth * channels := Nat.mul_le_mul_right channels hd4
  obtain ⟨idx0, hidx0, hplaces0⟩ := (hx.rel0 rel0 hrel0).loadPart (p := d * channels) (m := 16) (by omega)
  obtain ⟨idx1, hidx1, hplaces1⟩ := (hx.rel1 rel1 hrel1).loadPart (p := d * channels) (m := 16) (by omega)
  obtain ⟨w, hw, hweights⟩ := loadWeights_ok hx hd4
  have hpixel : ∀ k : ℕ, k < 4 * channels → k / channels < 4 := by
    intro k hk
    exact Nat.div_lt_of_lt_mul (by rwa [Nat.mul_comm])
  have hlow : ∀ k : Fin 16, k.val < 4 * channels → gather (fun k => g (x.low d * channels + k))
      (fun k => g (x.low d * channels + 16 + k)) idx0 k =
        g (x.low (d + k / channels) * channels + k % channels) := by
    intro k hk
    exact gather_rel hstride (fun k => rfl) (fun k => rfl) (hplaces0 k (by omega)) hd hk
      (x.low_mono (Nat.le_add_right d _)) (x.low_lt _) (hwindow.taps hd hd4 (hpixel k hk)).1
  have hhigh : ∀ k : Fin 16, k.val < 4 * channels → gather (fun k => g (x.low d * channels + k))
      (fun k => g (x.low d * channels + 16 + k)) idx1 k =
        g (x.high (d + k / channels) * channels + k % channels) := by
    intro k hk
    exact gather_rel hstride (fun k => rfl) (fun k => rfl) (hplaces1 k (by omega)) hd hk
      ((x.low_mono (Nat.le_add_right d _)).trans (x.low_le _)) (x.high_lt _)
      (hwindow.taps hd hd4 (hpixel k hk)).2
  unfold xBlendBatch
  simp only [hx.low.read (show d < newWidth by omega), hrow.load (show x.low d * channels + 16 ≤ _ by omega)
    (le_refl _), hrow.load (show x.low d * channels + 16 + 16 ≤ _ by omega) (le_refl _), hrel0, hrel1, deref,
    hidx0, hidx1, hw, bind, Except.bind]
  obtain ⟨r, hr, hwritten⟩ := h.store (m := 8) (by omega) (v := word (blendWords
    (unpackloEpi8 (gather (fun k => g (x.low d * channels + k)) (fun k => g (x.low d * channels + 16 + k))
      idx0) zero)
    (unpackloEpi8 (gather (fun k => g (x.low d * channels + k)) (fun k => g (x.low d * channels + 16 + k))
      idx1) zero) (shuffleEpi8 w wIdxA))) (by
    intro i
    have hplace : (Fin.ofNat 16 i.val).val = i.val := Nat.mod_eq_of_lt (by omega)
    rw [word_blendWords, word_unpackloEpi8, word_unpackloEpi8, hlow _ (by rw [hplace]; omega),
      hhigh _ (by rw [hplace]; omega), hplace, word_spread hweights (hpixel i.val (by omega)) (hspread.low i),
      rowValue_eq hchannels])
  rw [hr, hbatch, ← hvalues, ← Nat.add_assoc]
  apply hwritten.store (by omega)
  intro i
  have hlane : (Fin.ofNat 8 i.val).val = i.val := Nat.mod_eq_of_lt (by omega)
  have hplace : (Fin.ofNat 16 (8 + i.val)).val = 8 + i.val := Nat.mod_eq_of_lt (by omega)
  have hmask := hspread.high (Fin.ofNat 8 i.val) (by rw [hlane]; exact i.isLt)
  rw [hlane] at hmask
  rw [word_blendWords, word_unpackhiEpi8, word_unpackhiEpi8, hlane, hlow _ (by rw [hplace]; omega),
    hhigh _ (by rw [hplace]; omega), hplace,
    word_spread hweights (hpixel (8 + i.val) (by omega)) (by rw [hlane]; exact hmask), Nat.add_assoc,
    rowValue_eq hchannels]

theorem xBlendPixel_ok {srcRow : List UInt8} {tmpRow : List UInt16} (hx : Tables x newWidth channels xTaps)
    (hrow : Written g (srcWidth * channels) (srcWidth * channels) srcRow) (hd : d < newWidth)
    (h : Written (rowValue x channels g) (newWidth * channels) (d * channels) tmpRow) :
    ∃ r, xBlendPixel channels srcRow xTaps d tmpRow = .ok r ∧
      Written (rowValue x channels g) (newWidth * channels) ((d + 1) * channels) r := by
  unfold xBlendPixel
  simp only [hx.low.read hd, hx.high.read hd, hx.weight.read hd, bind, Except.bind]
  rw [Nat.succ_mul]
  apply singles_ok (P := fun c tmpRow =>
    Written (rowValue x channels g) (newWidth * channels) (d * channels + c) tmpRow) (Nat.zero_le channels) h
  intro c tmpRow hc h
  have hvalue : rowValue x channels g (d * channels + c) =
      UInt16.ofNat (blend (g (x.low d * channels + c)) (g (x.high d * channels + c)) (x.weight d)) := by
    rw [rowValue, rowBlend, place_div hc, place_mod hc]
  have hwrite := h.write (place_lt hd hc)
  rw [hvalue] at hwrite
  simp only [hrow.read (place_lt (x.low_lt d) hc), hrow.read (place_lt (x.high_lt d) hc)]
  exact hwrite

theorem windowInside_ok (hx : Tables x newWidth channels xTaps) (hd : d < newWidth)
    (hstride : srcWidth * channels < 2 ^ 32) :
    windowInside channels xTaps srcWidth d =
      .ok (decide (x.low d * channels + 32 ≤ srcWidth * channels)) := by
  have hlow : x.low d * channels ≤ srcWidth * channels := Nat.mul_le_mul_right _ (x.low_lt d).le
  have hleft : u64 (srcWidth * channels + 2 ^ 64 - x.low d * channels) =
      srcWidth * channels - x.low d * channels := by
    unfold u64
    omega
  unfold windowInside
  simp only [hx.low.read hd, bind, Except.bind, hleft]
  congr 2
  apply propext
  omega

theorem xBlendRow_ok {srcRow : List UInt8} {tmpRow : List UInt16} (hspread : Spread channels wIdxA wIdxB lanes)
    (hx : Tables x newWidth channels xTaps) (hrel0 : xTaps.rel0.isSome) (hrel1 : xTaps.rel1.isSome)
    (hwindow : WindowOK x newWidth channels) (hstride : srcWidth * channels < 2 ^ 32)
    (hrow : Written g (srcWidth * channels) (srcWidth * channels) srcRow)
    (htmp : tmpRow.length = newWidth * channels) :
    ∃ r, xBlendRow channels wIdxA wIdxB lanes srcRow xTaps srcWidth newWidth tmpRow = .ok r ∧
      Written (rowValue x channels g) (newWidth * channels) (newWidth * channels) r := by
  have hbatches := @forLoopWhile_ok _ _ 4 newWidth 0 (xBlendBatch channels wIdxA wIdxB lanes srcRow xTaps)
    tmpRow (windowInside channels xTaps srcWidth)
    (fun d tmpRow => 4 ∣ d ∧ d ≤ newWidth ∧
      Written (rowValue x channels g) (newWidth * channels) (d * channels) tmpRow)
    ⟨⟨0, rfl⟩, Nat.zero_le _, by rw [Nat.zero_mul]; exact Written.start _ htmp⟩
    (fun d tmpRow hd _ => ⟨_, windowInside_ok hx (by omega) hstride⟩) ?_
  · obtain ⟨d, middle, hrun, -, hd, hmiddle⟩ := hbatches
    unfold xBlendRow
    simp only [hrun, bind, Except.bind]
    exact @singles_ok _ _ newWidth d (xBlendPixel channels srcRow xTaps) middle
      (fun d tmpRow => Written (rowValue x channels g) (newWidth * channels) (d * channels) tmpRow) hd hmiddle
      (fun d tmpRow hd h => xBlendPixel_ok hx hrow hd h)
  · rintro d tmpRow hd4 ⟨hd, -, h⟩ hmore
    rw [windowInside_ok hx (by omega) hstride, Except.ok.injEq, decide_eq_true_eq] at hmore
    obtain ⟨r, hr, hwritten⟩ := xBlendBatch_ok hspread hx hrel0 hrel1 hwindow hstride hrow hd hd4 hmore h
    exact ⟨r, hr, Nat.dvd_add hd (Nat.dvd_refl 4), hd4, hwritten⟩

theorem spread3 : Spread 3 (setrEpi8 [0, 1, 0, 1, 0, 1, 2, 3, 2, 3, 2, 3, 4, 5, 4, 5])
    (setrEpi8 [4, 5, 6, 7, 6, 7, 6, 7, 8, 9, 10, 11, 12, 13, 14, 15]) 4 := by
  constructor <;> decide

theorem spread4 : Spread 4 (setrEpi8 [0, 1, 0, 1, 0, 1, 0, 1, 2, 3, 2, 3, 2, 3, 2, 3])
    (setrEpi8 [4, 5, 4, 5, 4, 5, 4, 5, 6, 7, 6, 7, 6, 7, 6, 7]) 8 := by
  constructor <;> decide

end Horizontal

/-! The vertical blend. -/

section Vertical
variable {top bot : Vec} {w : UInt16}

theorem packedWeights_toNat (h : w.toNat ≤ 128) :
    (packedWeights (complement w) w.toNat).toNat = (UInt16.ofNat (complement w)).toNat + 65536 * w.toNat := by
  have hcomplement := complement_eq h
  have hor : w.toNat * 2 ^ 16 ||| complement w = w.toNat * 2 ^ 16 + complement w := by
    rw [← Nat.shiftLeft_eq, Nat.shiftLeft_add_eq_or_of_lt (by omega)]
  unfold packedWeights
  rw [hor, UInt32.toNat_ofNat', UInt16.toNat_ofNat', Nat.mod_eq_of_lt (by omega), Nat.mod_eq_of_lt (by omega)]
  omega

theorem blended_le {t b : ℕ} (h : w.toNat ≤ 128) (ht : t ≤ 32640) (hb : b ≤ 32640) :
    t * complement w + b * w.toNat ≤ 4177920 := by
  have hfirst : t * (128 - w.toNat) ≤ 32640 * (128 - w.toNat) := Nat.mul_le_mul_right _ ht
  have hsecond : b * w.toNat ≤ 32640 * w.toNat := Nat.mul_le_mul_right _ hb
  rw [complement_eq h]
  omega

theorem dword_blend {ab : Vec} {i : Fin 4} {t b : UInt16} (h : w.toNat ≤ 128)
    (ht : word ab (Fin.ofNat 8 (2 * i)) = t) (hb : word ab (Fin.ofNat 8 (2 * i + 1)) = b)
    (htop : t.toNat ≤ 32640) (hbot : b.toNat ≤ 32640) :
    (dword (srliEpi32 (addEpi32 (maddEpi16 ab (set1Epi32 (packedWeights (complement w) w.toNat)))
      (set1Epi32 (UInt32.ofNat fixedRound))) fixedShift) i).toNat =
      (t.toNat * complement w + b.toNat * w.toNat + fixedRound) / 2 ^ fixedShift := by
  have hcomplement := complement_eq h
  have hsum := blended_le h htop hbot
  have hlow : (UInt16.ofNat (complement w)).toNat = complement w := by
    rw [UInt16.toNat_ofNat']
    omega
  obtain ⟨hw0, hw1⟩ := word_set1Epi32 (packedWeights_toNat h) i
  unfold srliEpi32 addEpi32
  rw [dword_ofDwords, dword_ofDwords, dword_set1Epi32,
    dword_maddEpi16 ht hb hw0 hw1 ⟨by omega, by omega, by omega, by omega⟩, hlow]
  unfold fixedRound fixedShift
  rw [UInt32.toNat_ofNat', UInt32.toNat_add, UInt32.toNat_ofNat', UInt32.toNat_ofNat']
  omega

/-- The eight sums of a half. -/
def packedHalf (top bot : Vec) (wY0 wY1 : ℕ) : Vec :=
  packsEpi32
    (srliEpi32 (addEpi32 (maddEpi16 (unpackloEpi16 top bot) (set1Epi32 (packedWeights wY0 wY1)))
      (set1Epi32 (UInt32.ofNat fixedRound))) fixedShift)
    (srliEpi32 (addEpi32 (maddEpi16 (unpackhiEpi16 top bot) (set1Epi32 (packedWeights wY0 wY1)))
      (set1Epi32 (UInt32.ofNat fixedRound))) fixedShift)

theorem rounded_lt {t b : ℕ} (h : w.toNat ≤ 128) (ht : t ≤ 32640) (hb : b ≤ 32640) :
    (t * complement w + b * w.toNat + fixedRound) / 2 ^ fixedShift < 256 := by
  have hsum := blended_le h ht hb
  unfold fixedRound fixedShift
  omega

theorem word_packedHalf {i : Fin 8} (h : w.toNat ≤ 128) (ht : (word top i).toNat ≤ 32640)
    (hb : (word bot i).toNat ≤ 32640) :
    (word (packedHalf top bot (complement w) w.toNat) i).toNat =
      ((word top i).toNat * complement w + (word bot i).toNat * w.toNat + fixedRound) / 2 ^ fixedShift := by
  have hlt := @rounded_lt w _ _ h ht hb
  apply word_packsEpi32 _ (by omega)
  by_cases hi : i.val < 4
  · have hlane := ofNat_low hi
    rw [if_pos hi]
    exact dword_blend h (by rw [word_unpackloEpi16_even, hlane]) (by rw [word_unpackloEpi16_odd, hlane]) ht hb
  · have hlane := ofNat_high (Nat.le_of_not_lt hi) i.isLt
    rw [if_neg hi]
    exact dword_blend h (by rw [word_unpackhiEpi16_even, hlane]) (by rw [word_unpackhiEpi16_odd, hlane]) ht hb

theorem narrow_eq {t b : ℕ} (h : w.toNat ≤ 128) (ht : t ≤ 32640) (hb : b ≤ 32640) :
    narrow t b (complement w) w.toNat =
      UInt8.ofNat ((t * complement w + b * w.toNat + fixedRound) / 2 ^ fixedShift) := by
  have hsum := blended_le h ht hb
  unfold narrow
  rw [u32_eq (by unfold fixedRound; omega)]

theorem yBlendPack8SSE2_eq {k : Fin 8} (h : w.toNat ≤ 128) (ht : (word top k).toNat ≤ 32640)
    (hb : (word bot k).toNat ≤ 32640) :
    yBlendPack8SSE2 top bot (complement w) w.toNat (Fin.ofNat 16 k) =
      narrow (word top k).toNat (word bot k).toNat (complement w) w.toNat := by
  rw [narrow_eq h ht hb]
  apply packusEpi16_eq _ (rounded_lt h ht hb)
  rw [ite_self, ofNat_low (show k.val < 16 by omega)]
  exact word_packedHalf h ht hb

theorem yBlendPack16AVX2_eq {f g : Fin 16 → UInt16} {k : Fin 16} (h : w.toNat ≤ 128)
    (ht : (f k).toNat ≤ 32640) (hb : (g k).toNat ≤ 32640) :
    yBlendPack16AVX2 (wideOfWords f) (wideOfWords g) (complement w) w.toNat k =
      narrow (f k).toNat (g k).toNat (complement w) w.toNat := by
  have hpack : yBlendPack16AVX2 (wideOfWords f) (wideOfWords g) (complement w) w.toNat =
      packusEpi16
        (packedHalf (wideOfWords f).lane0 (wideOfWords g).lane0 (complement w) w.toNat)
        (packedHalf (wideOfWords f).lane1 (wideOfWords g).lane1 (complement w) w.toNat) := by
    unfold yBlendPack16AVX2
    simp only [Wide.permute4x64_swap]
    rfl
  rw [narrow_eq h ht hb, hpack]
  apply packusEpi16_eq _ (rounded_lt h ht hb)
  by_cases hk : k.val < 8
  · have hf : word (wideOfWords f).lane0 (Fin.ofNat 8 k.val) = f k := by
      rw [wideOfWords, word_ofWords, ofNat_low hk]
    have hg : word (wideOfWords g).lane0 (Fin.ofNat 8 k.val) = g k := by
      rw [wideOfWords, word_ofWords, ofNat_low hk]
    rw [if_pos hk, word_packedHalf h (by rwa [hf]) (by rwa [hg]), hf, hg]
  · have hlane := ofNat_high (Nat.le_of_not_lt hk) k.isLt
    have hf : word (wideOfWords f).lane1 (Fin.ofNat 8 k.val) = f k := by
      rw [wideOfWords, word_ofWords, hlane]
    have hg : word (wideOfWords g).lane1 (Fin.ofNat 8 k.val) = g k := by
      rw [wideOfWords, word_ofWords, hlane]
    rw [if_neg hk, word_packedHalf h (by rwa [hf]) (by rwa [hg]), hf, hg]

variable {rowA rowB : List UInt16} {fa fb : ℕ → UInt16} {count size dstRow : ℕ} {f : ℕ → UInt8}

/-- What a vertical blend of a row does. -/
def Blends (yBlend : YBlendRowFn) : Prop :=
  ∀ {rowA rowB : List UInt16} {fa fb : ℕ → UInt16} {w : UInt16} {count size dstRow : ℕ} {f : ℕ → UInt8}
    {dstPixels : List UInt8}, Written fa count count rowA → Written fb count count rowB →
    (∀ k, (fa k).toNat ≤ 32640) → (∀ k, (fb k).toNat ≤ 32640) → w.toNat ≤ 128 → count + 16 < 2 ^ 32 →
    dstRow + count ≤ size →
    (∀ k < count, f (dstRow + k) = narrow (fa k).toNat (fb k).toNat (complement w) w.toNat) →
    Written f size dstRow dstPixels →
    ∃ r, yBlend rowA rowB (complement w) w.toNat dstRow count dstPixels = .ok r ∧
      Written f size (dstRow + count) r

theorem yBlendRow_ok {width : ℕ} {batch : ℕ → List UInt8 → Except Fault (List UInt8)} {dstPixels : List UInt8}
    (hwidth : 0 < width) (hA : Written fa count count rowA) (hB : Written fb count count rowB)
    (hcount : count + width < 2 ^ 32) (hsize : dstRow + count ≤ size)
    (hf : ∀ k < count, f (dstRow + k) = narrow (fa k).toNat (fb k).toNat (complement w) w.toNat)
    (h : Written f size dstRow dstPixels)
    (hbatch : ∀ i dstPixels, i + width ≤ count → Written f size (dstRow + i) dstPixels →
      ∃ r, batch i dstPixels = .ok r ∧ Written f size (dstRow + (i + width)) r) :
    ∃ r, yBlendRow width batch (yBlendValue rowA rowB (complement w) w.toNat dstRow) count dstPixels = .ok r ∧
      Written f size (dstRow + count) r := by
  have hbatches := @forLoop_ok _ _ width count 0 batch dstPixels
    (fun i dstPixels => i ≤ count ∧ Written f size (dstRow + i) dstPixels) hwidth ⟨Nat.zero_le _, h⟩ ?_
  · obtain ⟨i, middle, hrun, ⟨hi, hmiddle⟩, hend⟩ := hbatches
    have hcounter : ¬ u32 (i + width) ≤ count := by
      rw [u32_eq (by omega)]
      omega
    unfold yBlendRow
    simp only [hrun, bind, Except.bind]
    rw [if_neg hcounter]
    refine @singles_ok _ _ count i (yBlendValue rowA rowB (complement w) w.toNat dstRow) middle
      (fun i dstPixels => Written f size (dstRow + i) dstPixels) hi hmiddle ?_
    intro i dstPixels hi h
    unfold yBlendValue
    simp only [hA.read hi, hB.read hi, bind, Except.bind]
    have hwrite := h.write (by omega)
    rw [hf i hi] at hwrite
    exact hwrite
  · rintro i dstPixels hmore ⟨-, h⟩
    obtain ⟨r, hr, hwritten⟩ := hbatch i dstPixels hmore h
    exact ⟨r, hr, hmore, hwritten⟩

theorem yBlendRowSSE2_ok : Blends yBlendRowSSE2 := by
  intro rowA rowB fa fb w count size dstRow f dstPixels hA hB ha hb hw hcount hsize hf h
  apply yBlendRow_ok (by decide) hA hB (by omega) hsize hf h
  intro i dstPixels hi h
  have hloadA := hA.load hi (le_refl count)
  have hloadB := hB.load hi (le_refl count)
  simp only [hloadA, hloadB, bind, Except.bind]
  rw [← Nat.add_assoc]
  apply h.store (by omega)
  intro k
  have hk := k.isLt
  have htop : word (ofWords fun k : Fin 8 => fa (i + k)) k = fa (i + k) := word_ofWords _ k
  have hbot : word (ofWords fun k : Fin 8 => fb (i + k)) k = fb (i + k) := word_ofWords _ k
  rw [yBlendPack8SSE2_eq hw (by rw [htop]; exact ha _) (by rw [hbot]; exact hb _), htop, hbot,
    Nat.add_assoc, hf _ (by omega)]

theorem yBlendRowAVX2_ok : Blends yBlendRowAVX2 := by
  intro rowA rowB fa fb w count size dstRow f dstPixels hA hB ha hb hw hcount hsize hf h
  apply yBlendRow_ok (by decide) hA hB hcount hsize hf h
  intro i dstPixels hi h
  have hloadA := hA.load hi (le_refl count)
  have hloadB := hB.load hi (le_refl count)
  simp only [hloadA, hloadB, bind, Except.bind]
  rw [← Nat.add_assoc]
  apply h.store (by omega)
  intro k
  have hk := k.isLt
  rw [yBlendPack16AVX2_eq hw (ha _) (hb _), Nat.add_assoc, hf _ (by omega)]

end Vertical

/-! The rolling cache. -/

section Rolling
variable {srcWidth srcHeight newWidth newHeight channels d : ℕ} {x : Axis srcWidth} {y : Axis srcHeight}
  {xTaps yTaps : AxisTaps} {g : ℕ → UInt8}

theorem xWindowOKFrom_ok (hx : Tables x newWidth channels xTaps) (hstride : srcWidth * channels + 16 < 2 ^ 32)
    (hchannels : channels ≤ 4) (hd : 4 ∣ d) :
    ∃ b, xWindowOKFrom xTaps.low newWidth channels d = .ok b ∧
      (b = true → ∀ e, 4 ∣ e → d ≤ e → e + 4 ≤ newWidth →
        (x.low (e + 3) - x.low e + 1) * channels + (channels - 1) < 32) := by
  induction hleft : newWidth - d using Nat.strongRecOn generalizing d with
  | ind left ih =>
    subst hleft
    unfold xWindowOKFrom
    by_cases hd4 : d + 4 ≤ newWidth
    · have hlast := x.low_mono (show d ≤ d + 3 by omega)
      have hlt := x.low_lt (d + 3)
      have hspan : x.low (d + 3) - x.low d + 1 ≤ srcWidth := by omega
      have hbytes : (x.low (d + 3) - x.low d + 1) * channels ≤ srcWidth * channels :=
        Nat.mul_le_mul_right channels hspan
      have hoffset : u32 (x.low (d + 3) + 2 ^ 32 - x.low d + 1) = x.low (d + 3) - x.low d + 1 ∨
          channels = 0 := by
        rcases Nat.eq_zero_or_pos channels with hzero | hpos
        · exact Or.inr hzero
        · have hwide : srcWidth ≤ srcWidth * channels := Nat.le_mul_of_pos_right srcWidth hpos
          left
          unfold u32
          omega
      have hbound : u32 (u32 (x.low (d + 3) + 2 ^ 32 - x.low d + 1) * channels + (channels - 1)) =
          (x.low (d + 3) - x.low d + 1) * channels + (channels - 1) := by
        rcases hoffset with hoffset | rfl
        · rw [hoffset, u32_eq (by omega)]
        · rw [Nat.mul_zero, Nat.mul_zero, u32_eq (by decide)]
      rw [if_pos hd4]
      simp only [hx.low.read (show d + 3 < newWidth by omega), hx.low.read (show d < newWidth by omega),
        bind, Except.bind, hbound]
      by_cases hwide : 32 ≤ (x.low (d + 3) - x.low d + 1) * channels + (channels - 1)
      · rw [if_pos hwide]
        exact ⟨false, rfl, fun h => (by cases h)⟩
      · rw [if_neg hwide]
        obtain ⟨b, hb, hwindow⟩ := ih (newWidth - (d + 4)) (by omega) (Nat.dvd_add hd (Nat.dvd_refl 4)) rfl
        refine ⟨b, hb, fun htrue e he hde he4 => ?_⟩
        rcases Nat.lt_or_ge e (d + 4) with hlt | hge
        · obtain rfl : e = d := by omega
          exact not_le.mp hwide
        · exact hwindow htrue e he hge he4
    · rw [if_neg hd4]
      exact ⟨true, rfl, fun _ e _ hde he4 => absurd he4 (by omega)⟩

theorem xWindowOK_ok (hx : Tables x newWidth channels xTaps) (hstride : srcWidth * channels + 16 < 2 ^ 32)
    (hchannels : channels ≤ 4) :
    ∃ b, xWindowOK xTaps newWidth channels = .ok b ∧
      (b = true → xTaps.rel0.isSome ∧ xTaps.rel1.isSome ∧ WindowOK x newWidth channels) := by
  unfold xWindowOK
  by_cases hnone : xTaps.rel0.isNone ∨ xTaps.rel1.isNone
  · rw [if_pos hnone]
    exact ⟨false, rfl, fun h => (by cases h)⟩
  · rw [if_neg hnone]
    obtain ⟨b, hb, hwindow⟩ := xWindowOKFrom_ok hx hstride hchannels (Nat.dvd_zero 4)
    refine ⟨b, hb, fun htrue => ⟨?_, ?_, fun e he he4 => hwindow htrue e he (Nat.zero_le e) he4⟩⟩
    · exact Option.isSome_iff_ne_none.mpr fun h => hnone (Or.inl (Option.isNone_iff_eq_none.mpr h))
    · exact Option.isSome_iff_ne_none.mpr fun h => hnone (Or.inr (Option.isNone_iff_eq_none.mpr h))

/-- The blended row of a row of the pixels. -/
def rowOfValues (x : Axis srcWidth) (channels : ℕ) (g : ℕ → UInt8) (row : ℕ) : ℕ → UInt16 :=
  rowValue x channels (rowOf g (srcWidth * channels) row)

theorem rowOfValues_toNat (x : Axis srcWidth) (channels : ℕ) (g : ℕ → UInt8) (row k : ℕ) :
    (rowOfValues x channels g row k).toNat = rowBlend x channels (rowOf g (srcWidth * channels) row) k := by
  have hle := rowBlend_le x channels (rowOf g (srcWidth * channels) row) k
  unfold rowOfValues rowValue
  rw [UInt16.toNat_ofNat']
  omega

/-- The two rows of the cache are those of the taps of the last row that was written. -/
structure Cached (x : Axis srcWidth) (y : Axis srcHeight) (channels rowPixels size dy last : ℕ) (g : ℕ → UInt8)
    (s : Rolling) : Prop where
  dstPixels : Written (pixelBlend x y channels rowPixels g) size (dy * rowPixels) s.dstPixels
  tmpA : Written (rowOfValues x channels g (y.low last)) rowPixels rowPixels s.tmpA
  tmpB : Written (rowOfValues x channels g (y.high last)) rowPixels rowPixels s.tmpB

variable {blendOf : ℕ → List UInt16 → Except Fault (List UInt16)} {rowPixels size dy : ℕ} {s : Rolling}

/-- What `blendOf` does to a temporary row. -/
def BlendsRows (x : Axis srcWidth) (srcHeight channels rowPixels : ℕ) (g : ℕ → UInt8)
    (blendOf : ℕ → List UInt16 → Except Fault (List UInt16)) : Prop :=
  ∀ {row : ℕ} {tmp : List UInt16}, row < srcHeight → tmp.length = rowPixels →
    ∃ r, blendOf row tmp = .ok r ∧ Written (rowOfValues x channels g row) rowPixels rowPixels r

/-- Each of the five cases of `resizeRolling` ends with the rows of the taps of `dy`. -/
theorem refresh_ok (hblend : BlendsRows x srcHeight channels rowPixels g blendOf)
    (hy : Tables y newHeight channels yTaps) (hdy : dy < newHeight)
    (h : Cached x y channels rowPixels size dy (dy - 1) g s) :
    ∃ s', refresh blendOf yTaps dy s = .ok s' ∧ Cached x y channels rowPixels size dy dy g s' := by
  unfold refresh
  by_cases hpos : 0 < dy
  · rw [if_pos hpos]
    simp only [hy.low.read hdy, hy.high.read hdy, hy.low.read (show dy - 1 < newHeight by omega),
      hy.high.read (show dy - 1 < newHeight by omega), bind, Except.bind]
    by_cases hsame : y.low dy = y.low (dy - 1) ∧ y.high dy = y.high (dy - 1)
    · rw [if_pos hsame]
      refine ⟨s, rfl, h.dstPixels, ?_, ?_⟩
      · rw [hsame.1]
        exact h.tmpA
      · rw [hsame.2]
        exact h.tmpB
    · rw [if_neg hsame]
      by_cases hcross : y.low dy = y.high (dy - 1)
      · obtain ⟨r, hr, hwritten⟩ := hblend (y.high_lt dy) h.tmpA.length
        rw [if_pos hcross]
        simp only [hr]
        refine ⟨_, rfl, h.dstPixels, ?_, hwritten⟩
        rw [hcross]
        exact h.tmpB
      · rw [if_neg hcross]
        by_cases hlow : y.low dy = y.low (dy - 1)
        · obtain ⟨r, hr, hwritten⟩ := hblend (y.high_lt dy) h.tmpB.length
          rw [if_pos hlow]
          simp only [hr]
          refine ⟨_, rfl, h.dstPixels, ?_, hwritten⟩
          rw [hlow]
          exact h.tmpA
        · rw [if_neg hlow]
          by_cases hhigh : y.high dy = y.high (dy - 1)
          · obtain ⟨r, hr, hwritten⟩ := hblend (y.low_lt dy) h.tmpA.length
            rw [if_pos hhigh]
            simp only [hr]
            refine ⟨_, rfl, h.dstPixels, hwritten, ?_⟩
            rw [hhigh]
            exact h.tmpB
          · obtain ⟨r, hr, hwritten⟩ := hblend (y.low_lt dy) h.tmpA.length
            obtain ⟨r', hr', hwritten'⟩ := hblend (y.high_lt dy) h.tmpB.length
            rw [if_neg hhigh]
            simp only [hr, hr']
            exact ⟨_, rfl, h.dstPixels, hwritten, hwritten'⟩
  · obtain rfl : dy = 0 := by omega
    rw [if_neg hpos]
    exact ⟨s, rfl, h⟩

variable {yBlend : YBlendRowFn}

theorem rollingRow_ok (hvertical : Blends yBlend) (hblend : BlendsRows x srcHeight channels rowPixels g blendOf)
    (hy : Tables y newHeight channels yTaps) (hrow : rowPixels + 16 < 2 ^ 32) (hdy : dy < newHeight)
    (h : Cached x y channels rowPixels (newHeight * rowPixels) dy (dy - 1) g s) :
    ∃ s', rollingRow blendOf yBlend yTaps rowPixels dy s = .ok s' ∧
      Cached x y channels rowPixels (newHeight * rowPixels) (dy + 1) (dy + 1 - 1) g s' := by
  obtain ⟨s', hrefresh, hcached⟩ := refresh_ok hblend hy hdy h
  have hend : (dy + 1) * rowPixels ≤ newHeight * rowPixels := Nat.mul_le_mul_right rowPixels hdy
  have hsum : (dy + 1) * rowPixels = dy * rowPixels + rowPixels := Nat.succ_mul dy rowPixels
  obtain ⟨r, hr, hwritten⟩ := hvertical hcached.tmpA hcached.tmpB
    (fun k => by rw [rowOfValues_toNat]; exact rowBlend_le _ _ _ _)
    (fun k => by rw [rowOfValues_toNat]; exact rowBlend_le _ _ _ _) (y.weight_le dy) hrow
    (by omega) (fun k hk => by
      rw [rowOfValues_toNat, rowOfValues_toNat, pixelBlend, place_div hk, place_mod hk]) hcached.dstPixels
  unfold rollingRow
  simp only [hrefresh, hy.weight.read hdy, hr, bind, Except.bind]
  exact ⟨_, rfl, by rwa [hsum], hcached.tmpA, hcached.tmpB⟩

theorem rollingRows_ok (hvertical : Blends yBlend) (hblend : BlendsRows x srcHeight channels rowPixels g blendOf)
    (hy : Tables y newHeight channels yTaps) (hrow : rowPixels + 16 < 2 ^ 32) (hheight : 0 < newHeight)
    {tmpA tmpB : List UInt16} {dstPixels : List UInt8} (htmpA : tmpA.length = rowPixels)
    (htmpB : tmpB.length = rowPixels) (hdst : dstPixels.length = newHeight * rowPixels) :
    ∃ r, rollingRows blendOf yBlend yTaps rowPixels newHeight tmpA tmpB dstPixels = .ok r ∧
      Written (pixelBlend x y channels rowPixels g) (newHeight * rowPixels) (newHeight * rowPixels) r := by
  obtain ⟨tmpA', hA, hwrittenA⟩ := hblend (y.low_lt 0) htmpA
  obtain ⟨tmpB', hB, hwrittenB⟩ := hblend (y.high_lt 0) htmpB
  have hstart : Cached x y channels rowPixels (newHeight * rowPixels) 0 (0 - 1) g ⟨dstPixels, tmpA', tmpB'⟩ := by
    refine ⟨?_, hwrittenA, hwrittenB⟩
    rw [Nat.zero_mul]
    exact Written.start _ hdst
  obtain ⟨s, hs, hcached⟩ := @singles_ok _ _ newHeight 0 (rollingRow blendOf yBlend yTaps rowPixels)
    ⟨dstPixels, tmpA', tmpB'⟩
    (fun dy s => Cached x y channels rowPixels (newHeight * rowPixels) dy (dy - 1) g s) (Nat.zero_le _) hstart
    (fun dy s hdy h => rollingRow_ok hvertical hblend hy hrow hdy h)
  unfold rollingRows
  simp only [hy.low.read hheight, hy.high.read hheight, hA, hB, bind, Except.bind]
  cases hout : forLoop 1 newHeight (rollingRow blendOf yBlend yTaps rowPixels) 0 ⟨dstPixels, tmpA', tmpB'⟩ with
  | error e =>
    rw [hout] at hs
    cases hs
  | ok out =>
    rw [hout] at hs
    cases hs
    exact ⟨_, rfl, hcached.dstPixels⟩

end Rolling

/-! A whole resize. -/

section Whole
variable {srcWidth srcHeight newWidth newHeight : ℕ} {x : Axis srcWidth} {y : Axis srcHeight}
  {xTaps yTaps : AxisTaps} {img : Image} {g : ℕ → UInt8}

/-- The new image, where there is one, holds the blended pixels. -/
def Holds (x : Axis srcWidth) (y : Axis srcHeight) (newWidth newHeight channels : ℕ) (g : ℕ → UInt8)
    (r : Option Image) : Prop :=
  ∀ out, r = some out → out.width = newWidth ∧ out.height = newHeight ∧ out.channels = channels ∧
    Written (pixelBlend x y channels (newWidth * channels) g) (newHeight * (newWidth * channels))
      (newHeight * (newWidth * channels)) out.pixels

/-- What a resize is given. -/
structure Given (x : Axis srcWidth) (y : Axis srcHeight) (newWidth newHeight : ℕ) (xTaps yTaps : AxisTaps)
    (img : Image) (g : ℕ → UInt8) : Prop where
  width : img.width = srcWidth
  channels : 0 < img.channels
  pixels : Written g (srcHeight * (srcWidth * img.channels)) (srcHeight * (srcWidth * img.channels)) img.pixels
  xTables : Tables x newWidth img.channels xTaps
  yTables : Tables y newHeight img.channels yTaps
  widthPos : 0 < newWidth
  heightPos : 0 < newHeight
  source : srcWidth * img.channels + 16 < 2 ^ 32
  target : newWidth * img.channels + 16 < 2 ^ 32
  bytes : newWidth * newHeight * img.channels < 2 ^ 32

theorem Given.new (h : Given x y newWidth newHeight xTaps yTaps img g) :
    basicImagingNew newWidth newHeight img.channels true =
      some ⟨newWidth, newHeight, img.channels, List.replicate (newHeight * (newWidth * img.channels)) 0⟩ := by
  have hwidth := h.widthPos
  have hheight := h.heightPos
  have hchannels := h.channels
  have hbytes : newWidth * newHeight * img.channels % 2 ^ 32 = newHeight * (newWidth * img.channels) := by
    rw [Nat.mod_eq_of_lt h.bytes, Nat.mul_comm newWidth, Nat.mul_assoc]
  unfold basicImagingNew
  rw [if_neg (by simp; omega), hbytes]

theorem new_false (width height channels : ℕ) : basicImagingNew width height channels false = none :=
  if_pos (Or.inr (Or.inr (Or.inr rfl)))

theorem resizeScalar_ok (h : Given x y newWidth newHeight xTaps yTaps img g) (memory : Bool) :
    ∃ r, resizeScalar memory img newWidth newHeight xTaps yTaps = .ok r ∧
      Holds x y newWidth newHeight img.channels g r ∧ (memory = true → r.isSome) := by
  unfold resizeScalar
  simp only [if_pos h.channels]
  cases memory with
  | false =>
    rw [new_false]
    exact ⟨none, rfl, fun out hout => (by cases hout), fun hmemory => (by cases hmemory)⟩
  | true =>
    have hsource := h.source
    have htarget := h.target
    obtain ⟨r, hr, hwritten⟩ := @singles_ok _ _ newHeight 0 (scalarRow img xTaps yTaps img.channels newWidth)
      (List.replicate (newHeight * (newWidth * img.channels)) 0)
      (fun dy dstPixels => Written (pixelBlend x y img.channels (newWidth * img.channels) g)
        (newHeight * (newWidth * img.channels)) (dy * (newWidth * img.channels)) dstPixels)
      (Nat.zero_le _) (by rw [Nat.zero_mul]; exact Written.start _ List.length_replicate)
      (fun dy dstPixels hdy hwritten => scalarRow_ok h.pixels h.width (by omega) (by omega) h.xTables h.yTables
        hdy hwritten)
    rw [h.new]
    simp only [filled, hr]
    refine ⟨_, rfl, ?_, fun _ => rfl⟩
    rintro out hout
    cases hout
    exact ⟨rfl, rfl, rfl, hwritten⟩

theorem resizeRolling_ok (h : Given x y newWidth newHeight xTaps yTaps img g)
    {xBlend : XBlendRowFn} {yBlend : YBlendRowFn} (hvertical : Blends yBlend)
    (hhorizontal : ∀ {row : ℕ → UInt8} {srcRow : List UInt8} {tmpRow : List UInt16},
      Written row (srcWidth * img.channels) (srcWidth * img.channels) srcRow →
      tmpRow.length = newWidth * img.channels →
      ∃ r, xBlend srcRow xTaps srcWidth newWidth tmpRow = .ok r ∧
        Written (rowValue x img.channels row) (newWidth * img.channels) (newWidth * img.channels) r)
    (memory : Memory) :
    ∃ r, resizeRolling memory img newWidth newHeight xTaps yTaps xBlend yBlend = .ok r ∧
      Holds x y newWidth newHeight img.channels g r ∧
      (memory.out = true → memory.again = true → r.isSome) := by
  have hsource := h.source
  have htarget := h.target
  have hblend : BlendsRows x srcHeight img.channels (newWidth * img.channels) g (fun y tmp => do
      let srcRow ← rowAt img.pixels (u32 (img.width * img.channels)) y
      xBlend srcRow xTaps img.width newWidth tmp) := by
    intro row tmp hrow htmp
    obtain ⟨srcRow, hsrc, hwritten⟩ := h.pixels.row (y := row)
      (Nat.mul_le_mul_right (srcWidth * img.channels) hrow)
    simp only [h.width, u32_eq (show srcWidth * img.channels < 2 ^ 32 by omega), hsrc, bind, Except.bind]
    exact hhorizontal hwritten htmp
  unfold resizeRolling
  cases hout : memory.out with
  | false =>
    rw [new_false]
    exact ⟨none, rfl, fun out hnone => (by cases hnone), fun hmemory => (by cases hmemory)⟩
  | true =>
    rw [h.new, u32_eq (show newWidth * img.channels < 2 ^ 32 by omega)]
    simp only
    cases hA : memory.tmpA with
    | none =>
      obtain ⟨r, hr, hholds, hsome⟩ := resizeScalar_ok h memory.again
      exact ⟨r, hr, hholds, fun _ => hsome⟩
    | some old0 =>
      cases hB : memory.tmpB with
      | none =>
        obtain ⟨r, hr, hholds, hsome⟩ := resizeScalar_ok h memory.again
        exact ⟨r, hr, hholds, fun _ => hsome⟩
      | some old1 =>
        have hlength : ∀ old : ℕ → UInt16, ((List.range (newWidth * img.channels)).map old).length =
            newWidth * img.channels := by
          intro old
          rw [List.length_map, List.length_range]
        obtain ⟨r, hr, hwritten⟩ := rollingRows_ok hvertical hblend h.yTables htarget h.heightPos
          (hlength old0) (hlength old1)
          (List.length_replicate (n := newHeight * (newWidth * img.channels)) (a := (0 : UInt8)))
        simp only [filled, hr]
        refine ⟨_, rfl, ?_, fun _ _ => rfl⟩
        rintro out hout
        cases hout
        exact ⟨rfl, rfl, rfl, hwritten⟩

theorem resizeVectors_ok (h : Given x y newWidth newHeight xTaps yTaps img g)
    {yBlend : YBlendRowFn} (hvertical : Blends yBlend) (memory : Memory) :
    ∃ r, resizeVectors yBlend memory img newWidth newHeight xTaps yTaps = .ok r ∧
      Holds x y newWidth newHeight img.channels g r ∧
      (memory.out = true → memory.again = true → r.isSome) := by
  have hscalar : ∃ r, resizeScalar memory.out img newWidth newHeight xTaps yTaps = .ok r ∧
      Holds x y newWidth newHeight img.channels g r ∧
      (memory.out = true → memory.again = true → r.isSome) := by
    obtain ⟨r, hr, hholds, hsome⟩ := resizeScalar_ok h memory.out
    exact ⟨r, hr, hholds, fun hout _ => hsome hout⟩
  have hsource := h.source
  unfold resizeVectors
  by_cases hchannels : img.channels ≠ 3 ∧ img.channels ≠ 4
  · rw [if_pos hchannels]
    exact hscalar
  · rw [if_neg hchannels]
    obtain ⟨window, hwindow, hok⟩ := xWindowOK_ok h.xTables h.source (by omega)
    simp only [hwindow, bind, Except.bind]
    cases window with
    | false => exact hscalar
    | true =>
      obtain ⟨hrel0, hrel1, htaps⟩ := hok rfl
      rw [if_pos rfl]
      apply resizeRolling_ok h hvertical _ memory
      intro row srcRow tmpRow hrow htmp
      have hstride : srcWidth * img.channels < 2 ^ 32 := by omega
      have htables := h.xTables
      by_cases hthree : img.channels = 3
      · rw [if_pos hthree]
        rw [hthree] at hrow htmp htaps hstride htables ⊢
        exact xBlendRow_ok spread3 htables hrel0 hrel1 htaps hstride hrow htmp
      · have hfour : img.channels = 4 := by omega
        rw [if_neg hthree]
        rw [hfour] at hrow htmp htaps hstride htables ⊢
        exact xBlendRow_ok spread4 htables hrel0 hrel1 htaps hstride hrow htmp

theorem Holds.unique {channels : ℕ} {a b : Image} (ha : Holds x y newWidth newHeight channels g (some a))
    (hb : Holds x y newWidth newHeight channels g (some b)) : a = b := by
  obtain ⟨hwidthA, hheightA, hchannelsA, hpixelsA⟩ := ha a rfl
  obtain ⟨hwidthB, hheightB, hchannelsB, hpixelsB⟩ := hb b rfl
  cases a
  cases b
  simp_all only [Image.mk.injEq, true_and]
  exact hpixelsA.unique hpixelsB

end Whole

def onePixelAxis : Axis 1 where
  low _ := 0
  high _ := 0
  weight _ := 0
  low_mono := monotone_const
  low_le _ := le_refl 0
  high_le _ := Nat.zero_le 1
  high_lt _ := Nat.zero_lt_one
  weight_le _ := Nat.zero_le 128

/-- The offsets of one pixel with three channels. -/
def onePixelRel : List UInt8 := (List.range 19).map (relOf (fun _ => 0) (fun _ => 0) 3)

theorem onePixel_tables :
    Tables onePixelAxis 1 3 ⟨[0], [0], [0], some onePixelRel, some onePixelRel⟩ := by
  have hall := Written.of_map (relOf (fun _ => 0) (fun _ => 0) 3) 19
  have hrel : Written (relOf (fun _ => 0) (fun _ => 0) 3) 19 3 onePixelRel :=
    ⟨hall.length, fun k hk => hall.done k (Nat.lt_trans hk (by decide))⟩
  refine ⟨Written.of_map _ 1, Written.of_map _ 1, Written.of_map _ 1, ?_, ?_⟩ <;> rintro rel ⟨⟩ <;> exact hrel

end AmmarServer.Resize
