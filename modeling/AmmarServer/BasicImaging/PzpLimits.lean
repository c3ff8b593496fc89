import AmmarServer.BasicImaging.PzpWays

/-! Which bytes the restoring of a frame leaves as they were, and so how large a frame may be. -/

namespace AmmarServer.BasicImaging.Pzp
open CString Loops PrefixSums

/-! Bytes that are not written. -/

section Kept
variable {k p total i channels : ℕ} {index : ℕ → ℕ} {buf buf' src r : List UInt8}

theorem setByte_keeps {b : UInt8} (h : setByte buf p b = .ok buf') (hp : p ≠ k) :
    charAt buf' k = charAt buf k := by
  unfold setByte at h
  split at h
  · cases h
    exact charAt_set_of_ne hp b
  · cases h

theorem storeSi128_keeps {v : M128i} (h : storeSi128 buf p v = .ok buf')
    (hp : k < p ∨ p + 16 ≤ k) : charAt buf' k = charAt buf k := by
  obtain ⟨stored, hrun, hstored⟩ := storeSi128_ok (storeSi128_length h) v
  obtain rfl : buf' = stored := Except.ok.inj (h.symm.trans hrun)
  exact hp.elim (hstored.before k) (hstored.behind k)

theorem map_keeps {size : ℕ} {body : ℕ → List UInt8 → Except Fault (List UInt8)}
    (h : (forLoop 1 size body i buf).map (·.2) = .ok buf')
    (hbody : ∀ i s s', i < size → body i s = .ok s' → charAt s' k = charAt s k) :
    charAt buf' k = charAt buf k := by
  cases hloop : forLoop 1 size body i buf with
  | error e =>
    rw [hloop] at h
    cases h
  | ok out =>
    rw [hloop] at h
    cases h
    exact @forLoop_keeps Fault (List UInt8) 1 size i body buf (fun _ s => charAt s k = charAt buf k)
      out.1 out.2 hloop rfl fun i s s' hmore hkept hs => (hbody i s s' hmore hs).trans hkept

theorem bind_ok {α β : Type} {x : Except Fault α} {f : α → Except Fault β} {b : β}
    (h : x.bind f = .ok b) : ∃ a, x = .ok a ∧ f a = .ok b := by
  cases x with
  | error e => cases h
  | ok a => exact ⟨a, rfl, h⟩

theorem addPixel_keeps {source : Option (List UInt8)}
    (h : addPixel index channels source i buf = .ok buf')
    (hindex : ∀ ch < channels, index (i * channels + ch) ≠ k) : charAt buf' k = charAt buf k := by
  apply map_keeps h
  intro ch s s' hch hs
  obtain ⟨b, -, hs⟩ := bind_ok hs
  obtain ⟨before, -, hs⟩ := bind_ok hs
  exact setByte_keeps hs (hindex ch hch)

theorem addPixels_keeps {source : Option (List UInt8)}
    (h : addPixels index channels source total i buf = .ok buf')
    (hindex : ∀ i < total, ∀ ch < channels, index (i * channels + ch) ≠ k) :
    charAt buf' k = charAt buf k := by
  apply map_keeps h
  intro i s s' hi hs
  exact addPixel_keeps hs (hindex i hi)

theorem scalarSums_keeps (h : scalarSums index channels src r total = .ok buf')
    (hindex : ∀ n, index n ≠ k) : charAt buf' k = charAt r k := by
  obtain ⟨first, hfirst, h⟩ := bind_ok h
  have hcopied : charAt first k = charAt r k := by
    apply map_keeps hfirst
    intro ch s s' _ hs
    obtain ⟨b, -, hs⟩ := bind_ok hs
    exact setByte_keeps hs (hindex _)
  rw [← hcopied]
  exact addPixels_keeps h fun _ _ _ _ => hindex _

theorem blocks_keep {width : ℕ} {place : ℕ → ℕ} {scan last : M128i → M128i}
    (h : ((forLoop width total (fun i => sumBlock128 scan last src (place i)) 0 (r, setzero)).bind
      fun out => addPixels index channels (some src) total out.1 out.2.1) = .ok buf')
    (hplace : ∀ i, width ∣ i → i + width ≤ total → k < place i ∨ place i + 16 ≤ k)
    (hindex : ∀ i < total, ∀ ch < channels, index (i * channels + ch) ≠ k) :
    charAt buf' k = charAt r k := by
  obtain ⟨⟨j, middle, carry⟩, hloop, h⟩ := bind_ok h
  have hkept := @forLoop_keeps Fault (List UInt8 × M128i) width total 0 _ (r, setzero)
    (fun i s => width ∣ i ∧ charAt s.1 k = charAt r k) j (middle, carry) hloop
    ⟨Nat.dvd_zero width, rfl⟩ ?_
  · rw [← hkept.2]
    exact addPixels_keeps h hindex
  · rintro i s s' hmore ⟨hdvd, hs⟩ hrun
    obtain ⟨v, -, hrun⟩ := bind_ok hrun
    obtain ⟨dst, hstore, hrun⟩ := bind_ok hrun
    cases hrun
    exact ⟨Nat.dvd_add hdvd (Nat.dvd_refl width),
      (storeSi128_keeps hstore (hplace i hdvd hmore)).trans hs⟩

theorem u32_ne (n : ℕ) : u32 n ≠ 2 ^ 32 := Nat.ne_of_lt (Nat.mod_lt n (by decide))

theorem sse2_keeps {w h : UInt32} {out : List UInt8}
    (hrun : extractAndReconstructSse2 src r w h channels true = .ok out)
    (hk : if channels = 1 then k = (w * h).toNat else k = 2 ^ 32) : charAt out k = charAt r k := by
  unfold extractAndReconstructSse2 at hrun
  rw [if_pos rfl] at hrun
  split at hrun
  · obtain rfl : k = (w * h).toNat := hk
    apply blocks_keep hrun
    · exact fun i _ hmore => Or.inr hmore
    · intro i hi ch hch
      rw [id, Nat.mul_one]
      omega
  · obtain rfl : k = 2 ^ 32 := hk
    apply blocks_keep hrun
    · -- a place is a multiple of 16, and so its vector ends before 2 ^ 32
      intro i hdvd _
      unfold u32
      omega
    · exact fun _ _ _ _ => u32_ne _
  · rename_i hone _
    rw [if_neg hone] at hk
    subst hk
    exact scalarSums_keeps hrun u32_ne

theorem memcpy_keeps (h : memcpy buf src k = .ok buf') : charAt buf' k = charAt buf k := by
  unfold memcpy at h
  split at h
  · rename_i hfits
    cases h
    have hlength : (src.take k).length = k := List.length_take_of_le hfits.1
    have hplace : charAt (src.take k ++ buf.drop k) ((src.take k).length + 0) =
        charAt (buf.drop k) 0 := by
      rw [← charAt_drop, List.drop_left]
    rw [hlength] at hplace
    rw [Nat.add_zero, charAt_drop] at hplace
    exact hplace
  · cases h

end Kept

/-! Frames that are too large. -/

section Limits
variable {channels size : ℕ} {restoreRLEChannels : Bool} {w h : UInt32}

theorem not_reconstructs {k : ℕ} {way : List UInt8 → List UInt8 → Except Fault (List UInt8)}
    (hk : k < size) (hkeeps : ∀ src r out, way src r = .ok out → charAt out k = charAt r k) :
    ¬Reconstructs size channels restoreRLEChannels way := by
  intro hway
  have hsource : (List.replicate size (0 : UInt8)).length = size := List.length_replicate
  have hones : (List.replicate size (1 : UInt8)).length = size := List.length_replicate
  have hzero := hkeeps _ _ _ (hway _ _ hsource hsource)
  have hone := hkeeps _ _ _ (hway _ _ hsource hones)
  rw [hzero, charAt_eq (by rwa [hsource]), charAt_eq (by rwa [hones]), List.getElem_replicate,
    List.getElem_replicate] at hone
  cases hone

theorem sums_fit (hchannels : 0 < channels)
    (hway : Reconstructs (w.toNat * h.toNat * channels) channels true
      fun src r => extractAndReconstructSse2 src r w h channels true) :
    FrameFits (w.toNat * h.toNat) channels true := by
  by_contra hfits
  have htotal : (w * h).toNat < 2 ^ 32 := (w * h).toNat_lt
  by_cases hone : channels = 1
  · subst hone
    refine not_reconstructs (k := (w * h).toNat) ?_ ?_ hway
    · have hlarge : ¬(w.toNat * h.toNat < 2 ^ 32 ∧ w.toNat * h.toNat * 1 ≤ 2 ^ 32) := hfits
      omega
    · exact fun src r out hrun => sse2_keeps hrun rfl
  · refine not_reconstructs (k := 2 ^ 32) ?_ ?_ hway
    · by_contra hsmall
      have htwice : w.toNat * h.toNat * 2 ≤ w.toNat * h.toNat * channels :=
        Nat.mul_le_mul_left _ (by omega)
      exact hfits ⟨by omega, Nat.le_of_not_lt hsmall⟩
    · exact fun src r out hrun => sse2_keeps hrun (if_neg hone ▸ rfl)

theorem copies_fit
    (hway : Reconstructs (w.toNat * h.toNat * channels) channels false
      fun src r => extractAndReconstructNaive src r w h channels false) :
    w.toNat * h.toNat * channels < 2 ^ 32 := by
  by_contra hlarge
  refine not_reconstructs (k := u32 ((w * h).toNat * channels)) ?_ ?_ hway
  · have hu32 : u32 ((w * h).toNat * channels) < 2 ^ 32 := Nat.mod_lt _ (by decide)
    exact Nat.lt_of_lt_of_le hu32 (Nat.le_of_not_lt hlarge)
  · exact fun src r out hrun => memcpy_keeps hrun

theorem copyBlock_fits {src r r' : List UInt8} {i : ℕ} (h : copyBlock channels src i r = .ok r') :
    u32 (channels * i) + 32 ≤ src.length := by
  obtain ⟨data, hload, -⟩ := bind_ok h
  obtain ⟨lane0, -, hload⟩ := bind_ok hload
  obtain ⟨lane1, hload, -⟩ := bind_ok hload
  unfold loadSi128 at hload
  split at hload
  · assumption
  · cases hload

theorem copyWide_fits {src r out : List UInt8} {pixels : ℕ} (hsrc : src.length = pixels * 3)
    (hsize : pixels * 3 < 2 ^ 32) (hrun : copyWide 8 3 src r pixels = .ok out) :
    ¬(8 ≤ pixels ∧ pixels % 8 ≤ 2) := by
  rintro ⟨hpixels, hrest⟩
  obtain ⟨last, hloop, -⟩ := bind_ok hrun
  obtain ⟨s, s', -, hs⟩ := @forLoop_visits Fault (List UInt8) 8 pixels 0 (copyBlock 3 src) r
    (fun _ _ => True) last hloop (by decide) trivial (fun _ _ _ _ _ _ => trivial) (pixels / 8 - 1)
    (by omega)
  have hfits := copyBlock_fits hs
  rw [u32, Nat.mod_eq_of_lt (by omega)] at hfits
  omega

/-- The three ways restore a frame, and stay inside its buffers, just if it fits. -/
theorem reconstructs_iff (hchannels : 0 < channels) (hpixels : 0 < w.toNat * h.toNat) :
    (Reconstructs (w.toNat * h.toNat * channels) channels restoreRLEChannels
        (fun src r => extractAndReconstructNaive src r w h channels restoreRLEChannels) ∧
      Reconstructs (w.toNat * h.toNat * channels) channels restoreRLEChannels
        (fun src r => extractAndReconstructSse2 src r w h channels restoreRLEChannels) ∧
      ∀ memory : Option Planes, (∀ planes ∈ memory, planes.Sized (w * h).toNat) →
        Reconstructs (w.toNat * h.toNat * channels) channels restoreRLEChannels
          fun src r => extractAndReconstructAvx2 memory src r w h channels restoreRLEChannels) ↔
      FrameFits (w.toNat * h.toNat) channels restoreRLEChannels := by
  constructor
  · rintro ⟨hnaive, hsse2, havx2⟩
    cases restoreRLEChannels with
    | true => exact sums_fit hchannels hsse2
    | false =>
      have hsize := copies_fit hnaive
      refine ⟨hsize, ?_⟩
      rintro ⟨rfl, hblocks⟩
      have hsource : (List.replicate (w.toNat * h.toNat * 3) (0 : UInt8)).length =
          w.toNat * h.toNat * 3 := List.length_replicate
      have hrun := havx2 none (fun _ hplanes => by cases hplanes) _ _ hsource hsource
      change copyWide 8 3 _ _ (w * h).toNat = _ at hrun
      rw [totalSize_eq (by omega)] at hrun
      exact copyWide_fits hsource hsize hrun hblocks
  · intro hfits
    refine ⟨naive_reconstructs hfits hchannels hpixels, sse2_reconstructs hfits hchannels hpixels,
      fun memory hmemory => avx2_reconstructs hfits hchannels hpixels ?_⟩
    rwa [hfits.totalSize hchannels] at hmemory

theorem fifteenPixels_reconstruct :
    Reconstructs 45 3 false (fun src r => extractAndReconstructNaive src r 5 3 3 false) ∧
      Reconstructs 45 3 false (fun src r => extractAndReconstructSse2 src r 5 3 3 false) ∧
      ∀ memory : Option Planes, (∀ planes ∈ memory, planes.Sized 15) →
        Reconstructs 45 3 false fun src r => extractAndReconstructAvx2 memory src r 5 3 3 false :=
  (@reconstructs_iff 3 false 5 3 (by decide) (by decide)).mpr ⟨by decide, by decide⟩

/-- Eight pixels have 24 bytes, of which the first copy reads 32. -/
theorem eightPixels_overrun :
    extractAndReconstructNaive (List.replicate 24 7) (List.replicate 24 0) 8 1 3 false =
        .ok (List.replicate 24 7) ∧
      extractAndReconstructAvx2 none (List.replicate 24 7) (List.replicate 24 0) 8 1 3 false =
        .error .outOfBounds := by
  refine ⟨rfl, ?_⟩
  change copyWide 8 3 _ _ 8 = _
  rw [copyWide, forLoop, if_pos (by decide)]
  rfl

end Limits

end AmmarServer.BasicImaging.Pzp
