import AmmarServer.BasicImaging.PzpSums

/-! The pixels of three channels, taken apart into planes and put together again. -/

namespace AmmarServer.BasicImaging.Pzp
open CString Loops PrefixSums

/-! Shuffles. -/

section Shuffles
variable {a b c : M128i} {ma mb mc : List ℤ} {k : Fin 16} {q idx : ℕ}

/-- Of three masks, the one numbered `q` takes the byte `idx` to the place `k`. -/
def Picks (ma mb mc : List ℤ) (k : Fin 16) (q idx : ℕ) : Prop :=
  idx < 16 ∧ ma.getD k 0 = (if q = 0 then (idx : ℤ) else -1) ∧
    mb.getD k 0 = (if q = 1 then (idx : ℤ) else -1) ∧ mc.getD k 0 = if q = 2 then (idx : ℤ) else -1

instance : Decidable (Picks ma mb mc k q idx) :=
  inferInstanceAs (Decidable (_ ∧ _ ∧ _ ∧ _))

theorem shuffle_masked {p : Prop} [Decidable p] {mask : List ℤ} {v : M128i} {g : ℕ → UInt8}
    (hidx : idx < 16) (hmask : mask.getD k 0 = if p then (idx : ℤ) else -1)
    (hv : ∀ k : Fin 16, v k = g k) : shuffleEpi8 v mask k = if p then g idx else 0 := by
  rw [shuffleEpi8, hmask]
  split
  · rw [if_neg (Int.not_lt.mpr (Int.natCast_nonneg idx)), Int.toNat_natCast, hv, Fin.val_ofNat,
      Nat.mod_eq_of_lt hidx]
  · rfl

theorem merge_picks {g : ℕ → ℕ → UInt8} (ha : ∀ k : Fin 16, a k = g 0 k)
    (hb : ∀ k : Fin 16, b k = g 1 k) (hc : ∀ k : Fin 16, c k = g 2 k)
    (h : Picks ma mb mc k q idx) (hq : q < 3) : merge a b c ma mb mc k = g q idx := by
  obtain ⟨hidx, hma, hmb, hmc⟩ := h
  rw [merge, orSi128, orSi128, shuffle_masked hidx hma ha, shuffle_masked hidx hmb hb,
    shuffle_masked hidx hmc hc]
  obtain rfl | rfl | rfl : q = 0 ∨ q = 1 ∨ q = 2 := by omega
  · rw [if_pos rfl, if_neg (by decide), if_neg (by decide), UInt8.or_zero, UInt8.or_zero]
  · rw [if_neg (by decide), if_pos rfl, if_neg (by decide), UInt8.or_zero, UInt8.zero_or]
  · rw [if_neg (by decide), if_neg (by decide), if_pos rfl, UInt8.zero_or, UInt8.zero_or]

theorem picks_red (k : Fin 16) : Picks shufRA shufRB shufRC k (3 * k / 16) (3 * k % 16) := by
  decide +revert

theorem picks_green (k : Fin 16) :
    Picks shufGA shufGB shufGC k ((3 * k + 1) / 16) ((3 * k + 1) % 16) := by
  decide +revert

theorem picks_blue (k : Fin 16) :
    Picks shufBA shufBB shufBC k ((3 * k + 2) / 16) ((3 * k + 2) % 16) := by
  decide +revert

theorem picks_first (k : Fin 16) : Picks shufAR shufAG shufAB k (k % 3) (k / 3) := by
  decide +revert

theorem picks_second (k : Fin 16) : Picks shufBG shufBB' shufBR k (k % 3) ((16 + k) / 3) := by
  decide +revert

theorem picks_third (k : Fin 16) : Picks shufCB shufCR shufCG k (k % 3) ((32 + k) / 3) := by
  decide +revert

end Shuffles

/-! Planes. -/

section Planes
variable {src dst : List UInt8} {planes : Planes} {i total size : ℕ}

/-- The first `n` pixels of the source stand in the planes. -/
structure Split (src : List UInt8) (total n : ℕ) (planes : Planes) : Prop where
  ch0 : Written (fun k => charAt src (3 * k)) total n planes.ch0
  ch1 : Written (fun k => charAt src (3 * k + 1)) total n planes.ch1
  ch2 : Written (fun k => charAt src (3 * k + 2)) total n planes.ch2

theorem deinterleaveBlock_ok (h : Split src total i planes) (hsrc : src.length = total * 3)
    (hi : i + 16 ≤ total) :
    ∃ planes', deinterleaveBlock src i planes = .ok planes' ∧ Split src total (i + 16) planes' := by
  -- the three vectors hold the bytes from `3 * i` on
  have hvectors : ∀ j < 3, ∀ {ma mb mc : List ℤ},
      (∀ k : Fin 16, Picks ma mb mc k ((3 * k + j) / 16) ((3 * k + j) % 16)) → ∀ k : Fin 16,
      merge (fun k => charAt src (3 * i + k)) (fun k => charAt src (3 * i + 16 + k))
        (fun k => charAt src (3 * i + 32 + k)) ma mb mc k = charAt src (3 * (i + k) + j) := by
    intro j hj ma mb mc hpicks k
    have hk := k.isLt
    have hplace : 3 * i + 16 * ((3 * k.val + j) / 16) + (3 * k.val + j) % 16 = 3 * (i + k) + j := by
      omega
    rw [← hplace]
    exact merge_picks (g := fun q idx => charAt src (3 * i + 16 * q + idx)) (fun _ => rfl)
      (fun _ => rfl) (fun _ => rfl) (hpicks k) (by omega)
  obtain ⟨ch0, hch0, hstored0⟩ := storeSi128_ok (by rw [h.ch0.length]; exact hi)
    (merge (fun k => charAt src (3 * i + k)) (fun k => charAt src (3 * i + 16 + k))
      (fun k => charAt src (3 * i + 32 + k)) shufRA shufRB shufRC)
  obtain ⟨ch1, hch1, hstored1⟩ := storeSi128_ok (by rw [h.ch1.length]; exact hi)
    (merge (fun k => charAt src (3 * i + k)) (fun k => charAt src (3 * i + 16 + k))
      (fun k => charAt src (3 * i + 32 + k)) shufGA shufGB shufGC)
  obtain ⟨ch2, hch2, hstored2⟩ := storeSi128_ok (by rw [h.ch2.length]; exact hi)
    (merge (fun k => charAt src (3 * i + k)) (fun k => charAt src (3 * i + 16 + k))
      (fun k => charAt src (3 * i + 32 + k)) shufBA shufBB shufBC)
  refine ⟨⟨ch0, ch1, ch2⟩, ?_, h.ch0.stored hstored0 (hvectors 0 (by decide) picks_red),
    h.ch1.stored hstored1 (hvectors 1 (by decide) picks_green),
    h.ch2.stored hstored2 (hvectors 2 (by decide) picks_blue)⟩
  rw [deinterleaveBlock, loadSi128_ok (by omega), loadSi128_ok (by omega), loadSi128_ok (by omega)]
  change (storeSi128 planes.ch0 i _).bind _ = _
  rw [hch0]
  change (storeSi128 planes.ch1 i _).bind _ = _
  rw [hch1]
  change (storeSi128 planes.ch2 i _).bind _ = _
  rw [hch2]
  rfl

theorem deinterleavePixel_ok (h : Split src total i planes) (hsrc : src.length = total * 3)
    (hi : i < total) :
    ∃ planes', deinterleavePixel src i planes = .ok planes' ∧ Split src total (i + 1) planes' := by
  refine ⟨⟨planes.ch0.set i (charAt src (3 * i)), planes.ch1.set i (charAt src (3 * i + 1)),
    planes.ch2.set i (charAt src (3 * i + 2))⟩, ?_, h.ch0.set hi, h.ch1.set hi, h.ch2.set hi⟩
  rw [deinterleavePixel, byteAt_ok (by omega), byteAt_ok (by omega), byteAt_ok (by omega)]
  change (setByte planes.ch0 i _).bind _ = _
  rw [setByte_ok (by rw [h.ch0.length]; exact hi)]
  change (setByte planes.ch1 i _).bind _ = _
  rw [setByte_ok (by rw [h.ch1.length]; exact hi)]
  change (setByte planes.ch2 i _).bind _ = _
  rw [setByte_ok (by rw [h.ch2.length]; exact hi)]
  rfl

/-- What `malloc` gives for the planes. -/
structure Planes.Sized (planes : Planes) (total : ℕ) : Prop where
  ch0 : planes.ch0.length = total
  ch1 : planes.ch1.length = total
  ch2 : planes.ch2.length = total

theorem deinterleave3ch_ok (h : planes.Sized total) (hsrc : src.length = total * 3) :
    ∃ planes', deinterleave3ch src planes total = .ok planes' ∧ Split src total total planes' := by
  have hnone : Split src total 0 planes := ⟨.start _ h.ch0, .start _ h.ch1, .start _ h.ch2⟩
  exact forLoops_ok (by decide) hnone
    (fun _ _ _ hmore hsplit => deinterleaveBlock_ok hsplit hsrc hmore)
    (fun _ _ hmore hsplit => deinterleavePixel_ok hsplit hsrc hmore)

def Planes.plane (planes : Planes) : ℕ → List UInt8
  | 0 => planes.ch0
  | 1 => planes.ch1
  | _ => planes.ch2

/-- The bytes of the planes in the order of the pixels. -/
def Planes.joined (planes : Planes) (p : ℕ) : UInt8 := charAt (planes.plane (p % 3)) (p / 3)

theorem joined_eq {p q k : ℕ} (hq : p % 3 = q) (hk : p / 3 = k) :
    planes.joined p = charAt (planes.plane q) k := by
  rw [Planes.joined, hq, hk]

theorem interleaveBlock_ok (h : Written planes.joined (total * 3) (3 * i) dst)
    (hplanes : planes.Sized total) (hi : i + 16 ≤ total) :
    ∃ dst', interleaveBlock planes i dst = .ok dst' ∧
      Written planes.joined (total * 3) (3 * (i + 16)) dst' := by
  -- the planes are taken from the one numbered `m` on
  have hvectors : ∀ m p : ℕ, p = 16 * m → ∀ {a b c : M128i} {ma mb mc : List ℤ},
      (∀ k : Fin 16, a k = charAt (planes.plane (m % 3)) (i + k)) →
      (∀ k : Fin 16, b k = charAt (planes.plane ((m + 1) % 3)) (i + k)) →
      (∀ k : Fin 16, c k = charAt (planes.plane ((m + 2) % 3)) (i + k)) →
      (∀ k : Fin 16, Picks ma mb mc k (k % 3) ((p + k) / 3)) → ∀ k : Fin 16,
      merge a b c ma mb mc k = planes.joined (3 * i + p + k) := by
    intro m p hp a b c ma mb mc ha hb hc hpicks k
    rw [merge_picks (g := fun q idx => charAt (planes.plane ((m + q) % 3)) (i + idx)) ha hb hc
      (hpicks k) (Nat.mod_lt _ (by decide))]
    exact (joined_eq (by omega) (by omega)).symm
  obtain ⟨dst0, hdst0, hstored0⟩ := @storeSi128_ok dst (3 * i) (by rw [h.length]; omega)
    (merge (fun k => charAt planes.ch0 (i + k)) (fun k => charAt planes.ch1 (i + k))
      (fun k => charAt planes.ch2 (i + k)) shufAR shufAG shufAB)
  have hfirst := h.stored hstored0
    (hvectors 0 0 rfl (fun _ => rfl) (fun _ => rfl) (fun _ => rfl) fun k => by
      rw [Nat.zero_add]
      exact picks_first k)
  obtain ⟨dst1, hdst1, hstored1⟩ := @storeSi128_ok dst0 (3 * i + 16) (by rw [hfirst.length]; omega)
    (merge (fun k => charAt planes.ch1 (i + k)) (fun k => charAt planes.ch2 (i + k))
      (fun k => charAt planes.ch0 (i + k)) shufBG shufBB' shufBR)
  have hsecond := hfirst.stored hstored1
    (hvectors 1 16 rfl (fun _ => rfl) (fun _ => rfl) (fun _ => rfl) picks_second)
  obtain ⟨dst2, hdst2, hstored2⟩ := @storeSi128_ok dst1 (3 * i + 32) (by rw [hsecond.length]; omega)
    (merge (fun k => charAt planes.ch2 (i + k)) (fun k => charAt planes.ch0 (i + k))
      (fun k => charAt planes.ch1 (i + k)) shufCB shufCR shufCG)
  have hthird := hsecond.stored hstored2
    (hvectors 2 32 rfl (fun _ => rfl) (fun _ => rfl) (fun _ => rfl) picks_third)
  refine ⟨dst2, ?_, hthird⟩
  rw [interleaveBlock, loadSi128_ok (by rw [hplanes.ch0]; exact hi),
    loadSi128_ok (by rw [hplanes.ch1]; exact hi), loadSi128_ok (by rw [hplanes.ch2]; exact hi)]
  change (storeSi128 dst (3 * i) _).bind _ = _
  rw [hdst0]
  change (storeSi128 dst0 (3 * i + 16) _).bind _ = _
  rw [hdst1]
  exact hdst2

theorem interleavePixel_ok (h : Written planes.joined (total * 3) (3 * i) dst)
    (hplanes : planes.Sized total) (hi : i < total) :
    ∃ dst', interleavePixel planes i dst = .ok dst' ∧
      Written planes.joined (total * 3) (3 * (i + 1)) dst' := by
  have hred : planes.joined (3 * i) = charAt planes.ch0 i := joined_eq (q := 0) (by omega) (by omega)
  have hgreen : planes.joined (3 * i + 1) = charAt planes.ch1 i :=
    joined_eq (q := 1) (by omega) (by omega)
  have hblue : planes.joined (3 * i + 2) = charAt planes.ch2 i :=
    joined_eq (q := 2) (by omega) (by omega)
  have hfirst := h.set (by omega)
  have hsecond := hfirst.set (by omega)
  have hthird := hsecond.set (by omega)
  refine ⟨_, ?_, hthird⟩
  rw [interleavePixel, byteAt_ok (by rw [hplanes.ch0]; exact hi),
    byteAt_ok (by rw [hplanes.ch1]; exact hi), byteAt_ok (by rw [hplanes.ch2]; exact hi)]
  rw [hred] at hfirst hsecond ⊢
  rw [hgreen] at hsecond ⊢
  change (setByte dst (3 * i) _).bind _ = _
  rw [setByte_ok (by rw [h.length]; omega)]
  change (setByte _ (3 * i + 1) _).bind _ = _
  rw [setByte_ok (by rw [hfirst.length]; omega), hblue]
  exact setByte_ok (by rw [hsecond.length]; omega) _

theorem interleave3ch_ok (hplanes : planes.Sized total) (hdst : dst.length = total * 3) :
    ∃ dst', interleave3ch planes dst total = .ok dst' ∧
      Written planes.joined (total * 3) (total * 3) dst' := by
  have hnone : Written planes.joined (total * 3) (3 * 0) dst := .start _ hdst
  have hrun := @forLoops_ok Fault (List UInt8) 16 total (interleaveBlock planes) dst
    (interleavePixel planes) (fun i dst => Written planes.joined (total * 3) (3 * i) dst)
    (by decide) hnone
    (fun _ _ _ hmore hwritten => interleaveBlock_ok hwritten hplanes hmore)
    (fun _ _ hmore hwritten => interleavePixel_ok hwritten hplanes hmore)
  rwa [Nat.mul_comm 3 total] at hrun

end Planes

end AmmarServer.BasicImaging.Pzp
