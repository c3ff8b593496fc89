import AmmarServer.BasicImaging.PzpPlanes

/-! When the three ways to restore a frame give the same pixels. -/

namespace AmmarServer.BasicImaging.Pzp
open CString Loops PrefixSums

/-- The pixels of a frame: the sums over each channel, or a copy. -/
def reconstruction (channels : ℕ) (restoreRLEChannels : Bool) (src : List UInt8) : List UInt8 :=
  if restoreRLEChannels then (List.range src.length).map (running channels (charAt src)) else src

/-- A way restores whatever stands in buffers of the size of the frame. -/
def Reconstructs (size channels : ℕ) (restoreRLEChannels : Bool)
    (way : List UInt8 → List UInt8 → Except Fault (List UInt8)) : Prop :=
  ∀ src r : List UInt8, src.length = size → r.length = size →
    way src r = .ok (reconstruction channels restoreRLEChannels src)

/-! The sums. -/

section Sums
variable {channels pixels : ℕ} {src r : List UInt8} {width height : UInt32} {memory : Option Planes}

theorem u32_of_lt {size : ℕ} (h : size ≤ 2 ^ 32) : ∀ k < size, u32 k = k :=
  fun _ hk => Nat.mod_eq_of_lt (Nat.lt_of_lt_of_le hk h)

theorem totalSize_eq (h : width.toNat * height.toNat < 2 ^ 32) :
    (width * height).toNat = width.toNat * height.toNat := by
  rw [UInt32.toNat_mul, Nat.mod_eq_of_lt h]

theorem reconstruction_sums (h : Pzp.Sums channels (charAt src) (some src) src.length src.length r) :
    r = reconstruction channels true src := h.written.eq_map

theorem scalarSums_eq {index : ℕ → ℕ} (hsrc : src.length = pixels * channels)
    (hr : r.length = src.length) (hchannels : 0 < channels) (hpixels : 0 < pixels)
    (hindex : ∀ k < src.length, index k = k) :
    scalarSums index channels src r pixels = .ok (reconstruction channels true src) := by
  obtain ⟨r', hrun, hsums⟩ := scalarSums_ok hr hsrc hchannels hpixels hindex
  rw [hrun, reconstruction_sums hsums]

theorem naive_sums (hsrc : src.length = pixels * channels) (hr : r.length = src.length)
    (hchannels : 0 < channels) (hpixels : 0 < pixels)
    (htotal : (width * height).toNat = pixels) (hfits : src.length ≤ 2 ^ 32) :
    extractAndReconstructNaive src r width height channels true =
      .ok (reconstruction channels true src) := by
  unfold extractAndReconstructNaive
  rw [if_pos rfl, htotal]
  split
  · exact scalarSums_eq hsrc hr hchannels hpixels fun _ _ => rfl
  · exact scalarSums_eq hsrc hr hchannels hpixels (u32_of_lt hfits)

theorem sse2_sums (hsrc : src.length = pixels * channels) (hr : r.length = src.length)
    (hchannels : 0 < channels) (hpixels : 0 < pixels)
    (htotal : (width * height).toNat = pixels) (hfits : src.length ≤ 2 ^ 32) :
    extractAndReconstructSse2 src r width height channels true =
      .ok (reconstruction channels true src) := by
  unfold extractAndReconstructSse2
  rw [if_pos rfl, htotal]
  split
  · have hone : src.length = pixels := hsrc.trans (Nat.mul_one pixels)
    obtain ⟨r', hrun, hsums⟩ := prefixSumSse2_ok (Sums.start 1 hr)
    rw [← hone, hrun, reconstruction_sums hsums]
  · obtain ⟨r', hrun, hsums⟩ := pairSumSse2_ok (Sums.start 2 hr) hsrc (u32_of_lt hfits)
    rw [hrun, reconstruction_sums hsums]
  · exact scalarSums_eq hsrc hr hchannels hpixels (u32_of_lt hfits)

theorem plane_sums {plane : List UInt8} {j : ℕ} (hj : j < 3) (hsrc : src.length = pixels * 3)
    (h : Written (fun k => charAt src (3 * k + j)) pixels pixels plane) :
    ∃ sums, prefixSumAvx2 none plane pixels = .ok sums ∧ sums.length = pixels ∧
      ∀ k < pixels, charAt sums k = running 3 (charAt src) (3 * k + j) := by
  have hplane : charAt plane = fun k => charAt src (3 * k + j) := by
    funext k
    rcases Nat.lt_or_ge k pixels with hlt | hge
    · exact h.done k hlt
    · rw [charAt_of_length_le (by rwa [h.length]), charAt_of_length_le (by omega)]
  have hstart := Sums.startInPlace 1 plane
  rw [h.length] at hstart
  obtain ⟨sums, hrun, hsums⟩ := prefixSumAvx2_ok hstart
  refine ⟨sums, hrun, hsums.length, fun k hk => ?_⟩
  rw [hsums.written.done k hk, hplane, running_taken hj]

theorem planes_sums {planes : Planes} (hplanes : planes.Sized pixels)
    (hsrc : src.length = pixels * 3) (hr : r.length = src.length) :
    (do
      let planes ← deinterleave3ch src planes pixels
      let ch0 ← prefixSumAvx2 none planes.ch0 pixels
      let ch1 ← prefixSumAvx2 none planes.ch1 pixels
      let ch2 ← prefixSumAvx2 none planes.ch2 pixels
      interleave3ch { ch0, ch1, ch2 } r pixels) = .ok (reconstruction 3 true src) := by
  obtain ⟨split, hsplit, hall⟩ := deinterleave3ch_ok hplanes hsrc
  obtain ⟨ch0, hch0, hlength0, hsums0⟩ := plane_sums (j := 0) (by decide) hsrc hall.ch0
  obtain ⟨ch1, hch1, hlength1, hsums1⟩ := plane_sums (by decide) hsrc hall.ch1
  obtain ⟨ch2, hch2, hlength2, hsums2⟩ := plane_sums (by decide) hsrc hall.ch2
  obtain ⟨r', hrun, hwritten⟩ :=
    @interleave3ch_ok r ⟨ch0, ch1, ch2⟩ pixels ⟨hlength0, hlength1, hlength2⟩ (hr.trans hsrc)
  have hsums : Written (running 3 (charAt src)) src.length src.length r' := by
    rw [hsrc]
    refine ⟨hwritten.length, fun p hp => ?_⟩
    have hk : p / 3 < pixels := Nat.div_lt_of_lt_mul (by rwa [Nat.mul_comm])
    have hplace := Nat.div_add_mod p 3
    rw [hwritten.done p hp]
    obtain hq | hq | hq : p % 3 = 0 ∨ p % 3 = 1 ∨ p % 3 = 2 := by omega
    all_goals rw [hq] at hplace
    · exact (joined_eq hq rfl).trans ((hsums0 _ hk).trans (congrArg _ hplace))
    · exact (joined_eq hq rfl).trans ((hsums1 _ hk).trans (congrArg _ hplace))
    · exact (joined_eq hq rfl).trans ((hsums2 _ hk).trans (congrArg _ hplace))
  rw [hsplit]
  change (prefixSumAvx2 none split.ch0 pixels).bind _ = _
  rw [hch0]
  change (prefixSumAvx2 none split.ch1 pixels).bind _ = _
  rw [hch1]
  change (prefixSumAvx2 none split.ch2 pixels).bind _ = _
  rw [hch2]
  exact hrun.trans (congrArg Except.ok hsums.eq_map)

theorem avx2_sums (hmemory : ∀ planes ∈ memory, planes.Sized pixels)
    (hsrc : src.length = pixels * channels) (hr : r.length = src.length)
    (hchannels : 0 < channels) (hpixels : 0 < pixels)
    (htotal : (width * height).toNat = pixels) (hfits : src.length ≤ 2 ^ 32) :
    extractAndReconstructAvx2 memory src r width height channels true =
      .ok (reconstruction channels true src) := by
  unfold extractAndReconstructAvx2
  rw [if_pos rfl, htotal]
  split
  · have hone : src.length = pixels := hsrc.trans (Nat.mul_one pixels)
    obtain ⟨r', hrun, hsums⟩ := prefixSumAvx2_ok (Sums.start 1 hr)
    rw [← hone, hrun, reconstruction_sums hsums]
  · obtain ⟨r', hrun, hsums⟩ := pairSumAvx2_ok (Sums.start 2 hr) hsrc (u32_of_lt hfits)
    rw [hrun, reconstruction_sums hsums]
  · split
    · exact planes_sums (hmemory _ rfl) hsrc hr
    · exact scalarSums_eq hsrc hr (by decide) hpixels (u32_of_lt hfits)
  · exact scalarSums_eq hsrc hr hchannels hpixels (u32_of_lt hfits)

end Sums

/-! The copies. -/

section Copies
variable {channels pixels width : ℕ} {src r : List UInt8} {memory : Option Planes}

theorem memcpy_eq (hr : r.length = src.length) {n : ℕ} (hn : n = src.length) :
    memcpy r src n = .ok src := by
  rw [memcpy, if_pos ⟨Nat.le_of_eq hn, Nat.le_of_eq (hn.trans hr.symm)⟩, hn, ← hr, List.drop_length,
    hr, List.take_length, List.append_nil]

theorem copied_eq (h : Written (charAt src) src.length src.length r) : r = src :=
  ext_charAt h.length fun k hk => h.done k (by rwa [h.length] at hk)

theorem copyBlock_ok {i : ℕ} (h : Written (charAt src) src.length (i * channels) r)
    (hfits : i * channels + 32 ≤ src.length) (hindex : ∀ k < src.length, u32 k = k)
    (hwidth : width * channels ≤ 32) :
    ∃ r', copyBlock channels src i r = .ok r' ∧
      Written (charAt src) src.length ((i + width) * channels) r' := by
  have hlast : i * channels + 16 + 16 ≤ src.length := hfits
  have hload0 := @loadSi128_ok src (i * channels) (by omega)
  have hload1 := @loadSi128_ok src (i * channels + 16) hlast
  obtain ⟨middle, hmiddle, hstored0⟩ := @storeSi128_ok r (i * channels) (by rw [h.length]; omega)
    fun k => charAt src (i * channels + k)
  have hfirst := h.stored hstored0 fun _ => rfl
  obtain ⟨r', hr', hstored1⟩ := @storeSi128_ok middle (i * channels + 16)
    (by rw [hfirst.length]; exact hlast) fun k => charAt src (i * channels + 16 + k)
  have hsecond := hfirst.stored hstored1 fun _ => rfl
  refine ⟨r', ?_, hsecond.mono (by rw [Nat.add_mul]; omega)⟩
  rw [copyBlock, Nat.mul_comm, hindex (i * channels) (by omega), loadSi256, hload0, hload1]
  change storeSi256 r (i * channels) _ = _
  rw [storeSi256, if_pos (by rw [h.length]; exact hfits)]
  change (storeSi128 r (i * channels) _).bind _ = _
  rw [hmiddle]
  exact hr'

/-- The wide copy stays inside the buffers if its last block does. -/
theorem copyWide_eq (hsrc : src.length = pixels * channels) (hr : r.length = src.length)
    (hpositive : 0 < width) (hwidth : width * channels ≤ 32)
    (hblocks : ∀ i, width ∣ i → i + width ≤ pixels → i * channels + 32 ≤ src.length)
    (hindex : ∀ k < src.length, u32 k = k) : copyWide width channels src r pixels = .ok src := by
  have hnone : Written (charAt src) src.length (0 * channels) r := by
    rw [Nat.zero_mul]
    exact .start _ hr
  obtain ⟨r', hrun, hall⟩ := @forLoops_ok Fault (List UInt8) width pixels (copyBlock channels src) r
    (copyPixel u32 channels src) (fun i r => Written (charAt src) src.length (i * channels) r)
    hpositive hnone
    (fun i _ hdvd hmore hwritten => copyBlock_ok hwritten (hblocks i hdvd hmore) hindex hwidth)
    (fun i _ hmore hwritten => copyPixel_ok hwritten
      (by rw [hsrc]; exact Nat.mul_le_mul_right channels hmore) hindex)
  rw [← hsrc] at hall
  exact hrun.trans (congrArg Except.ok (copied_eq hall))

theorem copyPixels_eq (hsrc : src.length = pixels * channels) (hr : r.length = src.length)
    (hindex : ∀ k < src.length, u32 k = k) :
    (forLoop 1 pixels (copyPixel u32 channels src) 0 r).map (·.2) = .ok src := by
  have hnone : 0 ≤ pixels ∧ Written (charAt src) src.length (0 * channels) r := by
    rw [Nat.zero_mul]
    exact ⟨Nat.zero_le pixels, .start _ hr⟩
  have hloop := @forLoop_ok Fault (List UInt8) 1 pixels 0 (copyPixel u32 channels src) r
    (fun i r => i ≤ pixels ∧ Written (charAt src) src.length (i * channels) r) Nat.one_pos hnone ?_
  · obtain ⟨j, r', hrun, ⟨hj, hall⟩, hend⟩ := hloop
    obtain rfl : j = pixels := Nat.le_antisymm hj (Nat.le_of_lt_succ hend)
    rw [← hsrc] at hall
    rw [hrun]
    exact congrArg Except.ok (copied_eq hall)
  · rintro i r hmore ⟨-, hwritten⟩
    obtain ⟨r', hrun, hwritten'⟩ := copyPixel_ok hwritten
      (by rw [hsrc]; exact Nat.mul_le_mul_right channels hmore) hindex
    exact ⟨r', hrun, hmore, hwritten'⟩

variable {w h : UInt32}

theorem avx2_copies (hsrc : src.length = pixels * channels) (hr : r.length = src.length)
    (htotal : (w * h).toNat = pixels) (hfits : src.length ≤ 2 ^ 32)
    (hblocks : ¬(channels = 3 ∧ 8 ≤ pixels ∧ pixels % 8 ≤ 2)) :
    extractAndReconstructAvx2 memory src r w h channels false = .ok src := by
  have hindex := u32_of_lt hfits
  unfold extractAndReconstructAvx2
  rw [if_neg Bool.false_ne_true, htotal]
  split
  · exact memcpy_eq hr (by rw [hsrc, Nat.mul_one])
  · exact copyWide_eq hsrc hr (by decide) (by decide) (fun i _ hmore => by omega) hindex
  · -- the last of the blocks is the one that could pass the end
    exact copyWide_eq hsrc hr (by decide) (by decide) (fun i hdvd hmore => by omega) hindex
  · exact copyPixels_eq hsrc hr hindex

end Copies

/-- What a frame must be like for the three ways: places are counted in 32 bits, and eight pixels of three
channels are copied with the eight bytes behind them. -/
def FrameFits (pixels channels : ℕ) (restoreRLEChannels : Bool) : Prop :=
  if restoreRLEChannels then pixels < 2 ^ 32 ∧ pixels * channels ≤ 2 ^ 32
  else pixels * channels < 2 ^ 32 ∧ ¬(channels = 3 ∧ 8 ≤ pixels ∧ pixels % 8 ≤ 2)

section FrameFits
variable {channels : ℕ} {restoreRLEChannels : Bool} {w h : UInt32}

theorem FrameFits.totalSize (hfits : FrameFits (w.toNat * h.toNat) channels restoreRLEChannels)
    (hchannels : 0 < channels) : (w * h).toNat = w.toNat * h.toNat := by
  apply totalSize_eq
  cases restoreRLEChannels with
  | true => exact hfits.1
  | false => exact Nat.lt_of_le_of_lt (Nat.le_mul_of_pos_right _ hchannels) hfits.1

theorem naive_reconstructs (hfits : FrameFits (w.toNat * h.toNat) channels restoreRLEChannels)
    (hchannels : 0 < channels) (hpixels : 0 < w.toNat * h.toNat) :
    Reconstructs (w.toNat * h.toNat * channels) channels restoreRLEChannels
      fun src r => extractAndReconstructNaive src r w h channels restoreRLEChannels := by
  intro src r hsrc hr
  have htotal := hfits.totalSize hchannels
  cases restoreRLEChannels with
  | true =>
    exact naive_sums hsrc (hr.trans hsrc.symm) hchannels hpixels htotal (by rw [hsrc]; exact hfits.2)
  | false =>
    apply memcpy_eq (hr.trans hsrc.symm)
    rw [htotal, hsrc]
    exact Nat.mod_eq_of_lt hfits.1

theorem sse2_reconstructs (hfits : FrameFits (w.toNat * h.toNat) channels restoreRLEChannels)
    (hchannels : 0 < channels) (hpixels : 0 < w.toNat * h.toNat) :
    Reconstructs (w.toNat * h.toNat * channels) channels restoreRLEChannels
      fun src r => extractAndReconstructSse2 src r w h channels restoreRLEChannels := by
  intro src r hsrc hr
  have htotal := hfits.totalSize hchannels
  cases restoreRLEChannels with
  | true =>
    exact sse2_sums hsrc (hr.trans hsrc.symm) hchannels hpixels htotal (by rw [hsrc]; exact hfits.2)
  | false =>
    apply memcpy_eq (hr.trans hsrc.symm)
    rw [htotal, hsrc]
    exact Nat.mod_eq_of_lt hfits.1

theorem avx2_reconstructs (hfits : FrameFits (w.toNat * h.toNat) channels restoreRLEChannels)
    (hchannels : 0 < channels) (hpixels : 0 < w.toNat * h.toNat) {memory : Option Planes}
    (hmemory : ∀ planes ∈ memory, planes.Sized (w.toNat * h.toNat)) :
    Reconstructs (w.toNat * h.toNat * channels) channels restoreRLEChannels
      fun src r => extractAndReconstructAvx2 memory src r w h channels restoreRLEChannels := by
  intro src r hsrc hr
  have htotal := hfits.totalSize hchannels
  cases restoreRLEChannels with
  | true =>
    exact avx2_sums hmemory hsrc (hr.trans hsrc.symm) hchannels hpixels htotal
      (by rw [hsrc]; exact hfits.2)
  | false =>
    exact avx2_copies hsrc (hr.trans hsrc.symm) htotal (by rw [hsrc]; exact Nat.le_of_lt hfits.1)
      hfits.2

end FrameFits

end AmmarServer.BasicImaging.Pzp
