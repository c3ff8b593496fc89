import AmmarServer.BasicImaging.PzpReconstruct
import AmmarServer.Lib.PrefixSums

/-! The sums over the channels of the pixels that are restored, byte by byte and vector by vector. -/

namespace AmmarServer.BasicImaging.Pzp
open CString Loops PrefixSums

/-! Vectors. -/

section Vectors
variable {c m : ℕ} {f : ℕ → UInt8} {v : M128i}

theorem addEpi8_slliSi128 (h : ∀ k : Fin 16, v k = window c f m k) (k : Fin 16) :
    addEpi8 v (slliSi128 v (c * m)) k = window c f (m + m) k := by
  rw [window_add, addEpi8, slliSi128, h]
  congr 1
  split
  · rename_i hle
    rw [h]
  · rfl

theorem scanBytes_eq (h : ∀ k : Fin 16, v k = f k) (k : Fin 16) : scanBytes v k = running 1 f k := by
  have hone : ∀ k : Fin 16, v k = window 1 f 1 k := by
    intro k
    rw [h, window, window, ite_self, add_zero]
  have htwo := addEpi8_slliSi128 hone
  have hfour := addEpi8_slliSi128 htwo
  have height := addEpi8_slliSi128 hfour
  have hsixteen := addEpi8_slliSi128 height
  rw [← window_eq_running Nat.one_pos (by omega : k.val < 1 * 16)]
  exact hsixteen k

theorem scanPairs_eq (h : ∀ k : Fin 16, v k = f k) (k : Fin 16) : scanPairs v k = running 2 f k := by
  have hone : ∀ k : Fin 16, v k = window 2 f 1 k := by
    intro k
    rw [h, window, window, ite_self, add_zero]
  have htwo := addEpi8_slliSi128 hone
  have hfour := addEpi8_slliSi128 htwo
  have height := addEpi8_slliSi128 hfour
  rw [← window_eq_running Nat.two_pos (by omega : k.val < 2 * 8)]
  exact height k

end Vectors

/-! Buffers. -/

section Buffers
variable {buf buf' : List UInt8} {p k : ℕ} {v : M128i}

theorem setByte_ok (h : p < buf.length) (b : UInt8) : setByte buf p b = .ok (buf.set p b) := if_pos h

theorem byteAt_ok (h : p < buf.length) : byteAt buf p = .ok (charAt buf p) := if_pos h

theorem loadSi128_ok (h : p + 16 ≤ buf.length) :
    loadSi128 buf p = .ok fun k => charAt buf (p + k) := if_pos h

/-- What stands where in a buffer that a vector was stored in. -/
structure Stored (buf : List UInt8) (p : ℕ) (v : M128i) (buf' : List UInt8) : Prop where
  length : buf'.length = buf.length
  inside : ∀ k : Fin 16, charAt buf' (p + k) = v k
  before : ∀ k < p, charAt buf' k = charAt buf k
  behind : ∀ k, p + 16 ≤ k → charAt buf' k = charAt buf k

theorem storeSi128_ok (h : p + 16 ≤ buf.length) (v : M128i) :
    ∃ buf', storeSi128 buf p v = .ok buf' ∧ Stored buf p v buf' := by
  have htake : (buf.take p).length = p := List.length_take_of_le (Nat.le_trans (Nat.le_add_right p 16) h)
  have hvector : (List.ofFn v).length = 16 := List.length_ofFn
  refine ⟨_, if_pos h, ?_, fun k => ?_, fun k hk => ?_, fun k hk => ?_⟩
  · rw [List.length_append, List.length_append, htake, hvector, List.length_drop]
    omega
  · have hplace : p + k.val = (buf.take p).length + k.val := by rw [htake]
    rw [hplace, ← charAt_drop, List.drop_left, charAt_append_left (by rw [hvector]; exact k.isLt),
      charAt_eq (by rw [hvector]; exact k.isLt), List.getElem_ofFn]
  · rw [charAt_append_left (by rwa [htake]), charAt_take hk]
  · have hplace : k = (buf.take p).length + ((List.ofFn v).length + (k - (p + 16))) := by
      rw [htake, hvector]
      omega
    have hdrop : charAt (buf.drop (p + 16)) (k - (p + 16)) = charAt buf k := by
      rw [charAt_drop]
      congr 1
      omega
    rw [← hdrop]
    conv_lhs => rw [hplace]
    rw [← charAt_drop, List.drop_left, ← charAt_drop, List.drop_left]

theorem storeSi128_length (h : storeSi128 buf p v = .ok buf') : p + 16 ≤ buf.length := by
  unfold storeSi128 at h
  split at h
  · assumption
  · cases h

theorem ext_charAt {s t : List UInt8} (hlength : s.length = t.length)
    (h : ∀ k < s.length, charAt s k = charAt t k) : s = t := by
  have htake := take_eq_of_charAt hlength h
  rwa [List.take_length, hlength, List.take_length] at htake

end Buffers

/-! How far a buffer has been written. -/

structure Written (f : ℕ → UInt8) (size n : ℕ) (r : List UInt8) : Prop where
  length : r.length = size
  done : ∀ k < n, charAt r k = f k

namespace Written
variable {f : ℕ → UInt8} {size n : ℕ} {r r' : List UInt8}

theorem start (f : ℕ → UInt8) (h : r.length = size) : Written f size 0 r :=
  ⟨h, fun _ hk => absurd hk (Nat.not_lt_zero _)⟩

theorem mono {m : ℕ} (h : Written f size n r) (hm : m ≤ n) : Written f size m r :=
  ⟨h.length, fun k hk => h.done k (Nat.lt_of_lt_of_le hk hm)⟩

theorem set (h : Written f size n r) (hn : n < size) : Written f size (n + 1) (r.set n (f n)) := by
  refine ⟨(List.length_set ..).trans h.length, fun k hk => ?_⟩
  rcases Nat.lt_succ_iff_lt_or_eq.mp hk with hlt | rfl
  · rw [charAt_set_of_ne (Nat.ne_of_gt hlt)]
    exact h.done k hlt
  · exact charAt_set_self (by rwa [h.length]) _

theorem stored (h : Written f size n r) {v : M128i} (hstored : Stored r n v r')
    (hv : ∀ k : Fin 16, v k = f (n + k)) : Written f size (n + 16) r' := by
  refine ⟨hstored.length.trans h.length, fun k hk => ?_⟩
  rcases Nat.lt_or_ge k n with hlt | hge
  · rw [hstored.before k hlt]
    exact h.done k hlt
  · have hplace : k = n + (⟨k - n, by omega⟩ : Fin 16).val := (Nat.add_sub_of_le hge).symm
    rw [hplace, hstored.inside, hv]

theorem eq_map (h : Written f size size r) : r = (List.range size).map f := by
  apply ext_charAt
  · rw [h.length, List.length_map, List.length_range]
  · intro k hk
    rw [h.length] at hk
    rw [h.done k hk, charAt_eq (by rwa [List.length_map, List.length_range]), List.getElem_map,
      List.getElem_range]

end Written

/-- The bytes below `n` are sums, and those of the source from there on are what they were. -/
structure Sums (c : ℕ) (f : ℕ → UInt8) (src : Option (List UInt8)) (size n : ℕ) (dst : List UInt8) :
    Prop where
  written : Written (running c f) size n dst
  source : (sourceOf src dst).length = size
  left : ∀ k, n ≤ k → k < size → charAt (sourceOf src dst) k = f k

namespace Sums
variable {c n size : ℕ} {f : ℕ → UInt8} {src : Option (List UInt8)} {dst dst' : List UInt8}

theorem start (c : ℕ) {s r : List UInt8} (h : r.length = s.length) :
    Sums c (charAt s) (some s) s.length 0 r :=
  ⟨.start _ h, rfl, fun _ _ _ => rfl⟩

theorem startInPlace (c : ℕ) (r : List UInt8) : Sums c (charAt r) none r.length 0 r :=
  ⟨.start _ rfl, rfl, fun _ _ _ => rfl⟩

theorem length (h : Sums c f src size n dst) : dst.length = size := h.written.length

theorem source_keeps (h : Sums c f src size n dst) (hlength : dst'.length = dst.length) {m : ℕ}
    (hnm : n ≤ m) (hbehind : ∀ k, m ≤ k → charAt dst' k = charAt dst k) :
    (sourceOf src dst').length = size ∧
      ∀ k, m ≤ k → k < size → charAt (sourceOf src dst') k = f k := by
  have hleft := h.left
  have hsource := h.source
  cases src with
  | none =>
    refine ⟨hlength.trans h.length, fun k hk hsize => ?_⟩
    exact (hbehind k hk).trans (hleft k (Nat.le_trans hnm hk) hsize)
  | some s => exact ⟨hsource, fun k hk hsize => hleft k (Nat.le_trans hnm hk) hsize⟩

theorem set (h : Sums c f src size n dst) (hc : 0 < c) (hn : n < size) :
    Sums c f src size (n + 1)
      (dst.set n (charAt (sourceOf src dst) n + if c ≤ n then charAt dst (n - c) else 0)) := by
  have hvalue : charAt (sourceOf src dst) n + (if c ≤ n then charAt dst (n - c) else 0) =
      running c f n := by
    rw [h.left n (Nat.le_refl n) hn, running_step hc]
    congr 1
    split
    · exact h.written.done _ (by omega)
    · rfl
  rw [hvalue]
  obtain ⟨hsource, hleft⟩ := h.source_keeps (List.length_set ..) (Nat.le_succ n) fun k hk =>
    charAt_set_of_ne (Nat.ne_of_lt hk) (running c f n)
  exact ⟨h.written.set hn, hsource, hleft⟩

theorem stored (h : Sums c f src size n dst) {v : M128i} (hstored : Stored dst n v dst')
    (hv : ∀ k : Fin 16, v k = running c f (n + k)) : Sums c f src size (n + 16) dst' := by
  obtain ⟨hsource, hleft⟩ := h.source_keeps hstored.length (Nat.le_add_right n 16) hstored.behind
  exact ⟨h.written.stored hstored hv, hsource, hleft⟩

end Sums

/-! The scalar loops. -/

section Scalar
variable {index : ℕ → ℕ} {c size i total : ℕ} {f : ℕ → UInt8} {src : Option (List UInt8)}
  {dst : List UInt8}

theorem addPixel_ok (h : Sums c f src size (i * c) dst) (hc : 0 < c) (hsize : (i + 1) * c ≤ size)
    (hindex : ∀ k < size, index k = k) :
    ∃ dst', addPixel index c src i dst = .ok dst' ∧ Sums c f src size ((i + 1) * c) dst' := by
  rw [Nat.succ_mul] at hsize ⊢
  have hloop := @forLoop_ok Fault (List UInt8) 1 c 0
    (fun ch dst => do
      let b ← byteAt (sourceOf src dst) (index (i * c + ch))
      let before ← previous index c dst i ch
      setByte dst (index (i * c + ch)) (b + before)) dst
    (fun ch dst => ch ≤ c ∧ Sums c f src size (i * c + ch) dst) Nat.one_pos ⟨Nat.zero_le c, h⟩ ?_
  · obtain ⟨ch, dst', hrun, ⟨hle, hsums⟩, hend⟩ := hloop
    obtain rfl : ch = c := by omega
    refine ⟨dst', ?_, hsums⟩
    rw [addPixel, hrun]
    rfl
  · rintro ch dst hch ⟨-, hsums⟩
    have hplace : i * c + ch < size := by omega
    have hbefore : previous index c dst i ch =
        .ok (if c ≤ i * c + ch then charAt dst (i * c + ch - c) else 0) := by
      unfold previous
      by_cases hi : 0 < i
      · have hprevious : (i - 1) * c + ch = i * c + ch - c := by
          obtain ⟨j, rfl⟩ := Nat.exists_eq_succ_of_ne_zero hi.ne'
          rw [Nat.succ_sub_one, Nat.succ_mul]
          omega
        have hle : c ≤ i * c + ch :=
          Nat.le_trans (Nat.le_mul_of_pos_left c hi) (Nat.le_add_right (i * c) ch)
        rw [if_pos hi, if_pos hle, hprevious, hindex _ (by omega)]
        exact byteAt_ok (by rw [hsums.length]; omega)
      · obtain rfl := Nat.eq_zero_of_not_pos hi
        rw [Nat.zero_mul, Nat.zero_add, if_neg hi, if_neg (Nat.not_le_of_lt hch)]
    refine ⟨_, ?_, hch, hsums.set hc hplace⟩
    rw [hindex _ hplace, hbefore, byteAt_ok (by rw [hsums.source]; exact hplace)]
    exact setByte_ok (by rw [hsums.length]; exact hplace) _

theorem addPixels_ok (h : Sums c f src size (i * c) dst) (hc : 0 < c) (hsize : size = total * c)
    (hi : i ≤ total) (hindex : ∀ k < size, index k = k) :
    ∃ dst', addPixels index c src total i dst = .ok dst' ∧ Sums c f src size size dst' := by
  have hloop := @forLoop_ok Fault (List UInt8) 1 total i (addPixel index c src) dst
    (fun i dst => i ≤ total ∧ Sums c f src size (i * c) dst) Nat.one_pos ⟨hi, h⟩ ?_
  · obtain ⟨j, dst', hrun, ⟨hle, hsums⟩, hend⟩ := hloop
    obtain rfl : j = total := by omega
    rw [← hsize] at hsums
    refine ⟨dst', ?_, hsums⟩
    rw [addPixels, hrun]
    rfl
  · rintro i dst hmore ⟨-, hsums⟩
    have hfits : (i + 1) * c ≤ size := by
      rw [hsize]
      exact Nat.mul_le_mul_right c hmore
    obtain ⟨dst', hrun, hsums'⟩ := addPixel_ok hsums hc hfits hindex
    exact ⟨dst', hrun, hmore, hsums'⟩

theorem copyPixel_ok {s r : List UInt8} (h : Written (charAt s) s.length (i * c) r) (hsize : (i + 1) * c ≤ s.length)
    (hindex : ∀ k < s.length, index k = k) :
    ∃ r', copyPixel index c s i r = .ok r' ∧ Written (charAt s) s.length ((i + 1) * c) r' := by
  rw [Nat.succ_mul] at hsize ⊢
  have hloop := @forLoop_ok Fault (List UInt8) 1 c 0
    (fun ch r => do
      let b ← byteAt s (index (i * c + ch))
      setByte r (index (i * c + ch)) b) r
    (fun ch r => ch ≤ c ∧ Written (charAt s) s.length (i * c + ch) r) Nat.one_pos ⟨Nat.zero_le c, h⟩ ?_
  · obtain ⟨ch, r', hrun, ⟨hle, hcopied⟩, hend⟩ := hloop
    obtain rfl : ch = c := by omega
    refine ⟨r', ?_, hcopied⟩
    rw [copyPixel, hrun]
    rfl
  · rintro ch r hch ⟨-, hcopied⟩
    have hplace : i * c + ch < s.length := by omega
    refine ⟨_, ?_, hch, hcopied.set hplace⟩
    rw [hindex _ hplace, byteAt_ok hplace]
    exact setByte_ok (by rw [hcopied.length]; exact hplace) _

theorem Written.sums {s r : List UInt8} (h : Written (charAt s) s.length c r) (hc : 0 < c) :
    Sums c (charAt s) (some s) s.length c r := by
  refine ⟨⟨h.length, fun k hk => ?_⟩, rfl, fun _ _ _ => rfl⟩
  rw [h.done k hk, running_step hc, if_neg (Nat.not_le_of_lt hk), add_zero]

theorem scalarSums_ok {s r : List UInt8} (hr : r.length = s.length) (hs : s.length = total * c)
    (hc : 0 < c) (htotal : 0 < total) (hindex : ∀ k < s.length, index k = k) :
    ∃ r', scalarSums index c s r total = .ok r' ∧
      Sums c (charAt s) (some s) s.length s.length r' := by
  have hone : 1 * c ≤ s.length := by
    rw [hs]
    exact Nat.mul_le_mul_right c htotal
  have hnone : Written (charAt s) s.length (0 * c) r := by
    rw [Nat.zero_mul]
    exact .start _ hr
  obtain ⟨first, hfirst, hcopied⟩ := copyPixel_ok hnone hone hindex
  rw [Nat.zero_add, Nat.one_mul] at hcopied
  have hsums : Sums c (charAt s) (some s) s.length (1 * c) first := by
    rw [Nat.one_mul]
    exact hcopied.sums hc
  obtain ⟨r', hrun, hall⟩ := addPixels_ok hsums hc hs htotal hindex
  refine ⟨r', ?_, hall⟩
  rw [scalarSums, hfirst]
  exact hrun

end Scalar

/-! The wide loops. -/

section Wide
variable {c p size : ℕ} {f : ℕ → UInt8} {src : Option (List UInt8)} {dst : List UInt8}
  {scan last : M128i → M128i} {v carry : M128i}

/-- A carry holds the last sums in front of a place. -/
def Carries (c : ℕ) (f : ℕ → UInt8) (p : ℕ) (carry : M128i) : Prop :=
  ∀ k : Fin 16, carry k = if c ≤ p then running c f (p - c + k % c) else 0

/-- A scan of one vector, and the carry that it leaves. -/
structure Scans (c : ℕ) (scan last : M128i → M128i) : Prop where
  positive : 0 < c
  divides : c ∣ 16
  scan_eq : ∀ {v : M128i} {f : ℕ → UInt8}, (∀ k : Fin 16, v k = f k) →
    ∀ k : Fin 16, scan v k = running c f k
  last_eq : ∀ {v : M128i} {f : ℕ → UInt8} {p : ℕ}, (∀ k : Fin 16, v k = running c f (p + k)) →
    Carries c f (p + 16) (last v)

theorem scans_bytes : Scans 1 scanBytes lastByte where
  positive := Nat.one_pos
  divides := one_dvd 16
  scan_eq := scanBytes_eq
  last_eq := by
    intro v f p h k
    rw [if_pos (Nat.le_add_left 1 (p + 15)), Nat.mod_one]
    exact h 15

theorem scans_pairs : Scans 2 scanPairs lastPair where
  positive := Nat.two_pos
  divides := by decide
  scan_eq := scanPairs_eq
  last_eq := by
    intro v f p h k
    rw [if_pos (Nat.le_add_left 2 (p + 14))]
    unfold lastPair set1Epi16
    rcases Nat.mod_two_eq_zero_or_one k.val with heven | hodd
    · rw [if_pos heven, heven]
      exact h 14
    · rw [if_neg (by rw [hodd]; decide), hodd]
      exact h 15

theorem carries_zero (hc : 0 < c) : Carries c f 0 setzero :=
  fun _ => (if_neg (Nat.not_le_of_lt hc)).symm

theorem addEpi8_carries (hc : 0 < c) (hp : c ∣ p)
    (hv : ∀ k : Fin 16, v k = running c (fun j => f (p + j)) k) (hcarry : Carries c f p carry)
    (k : Fin 16) : addEpi8 v carry k = running c f (p + k) := by
  rw [addEpi8, hv, hcarry, running_block hc hp]

theorem sums_load (h : Sums c f src size p dst) (hp : p + 16 ≤ size) :
    ∃ v, loadSi128 (sourceOf src dst) p = .ok v ∧ ∀ k : Fin 16, v k = f (p + k) := by
  refine ⟨_, loadSi128_ok (by rw [h.source]; exact hp), fun k => ?_⟩
  have hk := k.isLt
  exact h.left (p + k) (Nat.le_add_right p k) (by omega)

theorem sumBlock128_ok {s : List UInt8} (hscans : Scans c scan last)
    (h : Sums c f (some s) size p dst) (hcarry : Carries c f p carry) (hdvd : c ∣ p)
    (hp : p + 16 ≤ size) : ∃ next, sumBlock128 scan last s p (dst, carry) = .ok next ∧
      Sums c f (some s) size (p + 16) next.1 ∧ Carries c f (p + 16) next.2 := by
  obtain ⟨v, hload, hv⟩ := sums_load h hp
  obtain ⟨dst', hstore, hstored⟩ :=
    storeSi128_ok (by rw [h.length]; exact hp) (addEpi8 (scan v) carry)
  have hsums := addEpi8_carries hscans.positive hdvd (hscans.scan_eq hv) hcarry
  refine ⟨(dst', last (addEpi8 (scan v) carry)), ?_, h.stored hstored hsums, hscans.last_eq hsums⟩
  change loadSi128 s p = _ at hload
  rw [sumBlock128, hload]
  dsimp only
  change (storeSi128 dst p (addEpi8 (scan v) carry)).bind _ = _
  rw [hstore]
  rfl

theorem sumBlock256_ok (hscans : Scans c scan last) (h : Sums c f src size p dst)
    (hcarry : Carries c f p carry) (hdvd : c ∣ p) (hp : p + 32 ≤ size) :
    ∃ next, sumBlock256 scan last src p (dst, carry) = .ok next ∧
      Sums c f src size (p + 32) next.1 ∧ Carries c f (p + 32) next.2 := by
  have hc := hscans.positive
  have hp0 : p + 16 ≤ size := by omega
  have hp1 : p + 16 + 16 ≤ size := hp
  have hsource : (sourceOf src dst).length = size := h.source
  have hload0 := @loadSi128_ok (sourceOf src dst) p (by rw [hsource]; exact hp0)
  have hload1 := @loadSi128_ok (sourceOf src dst) (p + 16) (by rw [hsource]; exact hp1)
  -- the two lanes without what stands in front of the block
  have hlane0 : ∀ k : Fin 16, scan (fun k => charAt (sourceOf src dst) (p + k)) k =
      running c (fun j => f (p + j)) k := by
    apply hscans.scan_eq
    intro k
    have hk := k.isLt
    exact h.left (p + k) (Nat.le_add_right p k) (by omega)
  have hlast : Carries c (fun j => f (p + j)) 16
      (last (scan fun k => charAt (sourceOf src dst) (p + k))) := by
    apply @Scans.last_eq c scan last hscans _ _ 0
    intro k
    rw [Nat.zero_add]
    exact hlane0 k
  have hlane1 : ∀ k : Fin 16, addEpi8 (scan fun k => charAt (sourceOf src dst) (p + 16 + k))
      (last (scan fun k => charAt (sourceOf src dst) (p + k))) k =
        running c (fun j => f (p + j)) (16 + k) := by
    apply addEpi8_carries hc hscans.divides _ hlast
    apply hscans.scan_eq
    intro k
    have hk := k.isLt
    rw [← Nat.add_assoc]
    exact h.left (p + 16 + k) (by omega) (by omega)
  -- and with it
  have hsums0 := addEpi8_carries hc hdvd hlane0 hcarry
  have hsums1 : ∀ k : Fin 16, addEpi8 (addEpi8 (scan fun k => charAt (sourceOf src dst) (p + 16 + k))
      (last (scan fun k => charAt (sourceOf src dst) (p + k)))) carry k =
        running c f (p + 16 + k) := by
    intro k
    have hmod : (16 + k.val) % c = k.val % c := by
      rw [Nat.add_mod, Nat.mod_eq_zero_of_dvd hscans.divides, Nat.zero_add, Nat.mod_mod]
    rw [addEpi8, hlane1, hcarry, Nat.add_assoc, running_block hc hdvd, hmod]
  obtain ⟨dst0, hstore0, hstored0⟩ := storeSi128_ok (by rw [h.length]; exact hp0)
    (addEpi8 (scan fun k => charAt (sourceOf src dst) (p + k)) carry)
  have hmiddle := h.stored hstored0 hsums0
  obtain ⟨dst1, hstore1, hstored1⟩ := storeSi128_ok (by rw [hmiddle.length]; exact hp1)
    (addEpi8 (addEpi8 (scan fun k => charAt (sourceOf src dst) (p + 16 + k))
      (last (scan fun k => charAt (sourceOf src dst) (p + k)))) carry)
  have hload : loadSi256 (sourceOf src dst) p =
      .ok ⟨fun k => charAt (sourceOf src dst) (p + k), fun k => charAt (sourceOf src dst) (p + 16 + k)⟩ := by
    rw [loadSi256, hload0, hload1]
    rfl
  refine ⟨(dst1, _), ?_, hmiddle.stored hstored1 hsums1, hscans.last_eq hsums1⟩
  have hstore : storeSi256 dst p
      ⟨addEpi8 (scan fun k => charAt (sourceOf src dst) (p + k)) carry,
        addEpi8 (addEpi8 (scan fun k => charAt (sourceOf src dst) (p + 16 + k))
          (last (scan fun k => charAt (sourceOf src dst) (p + k)))) carry⟩ = .ok dst1 := by
    rw [storeSi256, if_pos (by rw [h.length]; exact hp), hstore0]
    exact hstore1
  rw [sumBlock256, hload]
  change (storeSi256 dst p _).bind _ = _
  rw [hstore]
  rfl

theorem wideLoop_ok {index : ℕ → ℕ} {width total : ℕ} (hwidth : 0 < width) (hc : 0 < c)
    (hsize : size = total * c) (hindex : ∀ k < size, index k = k)
    {body : ℕ → List UInt8 × M128i → Except Fault (List UInt8 × M128i)}
    (hbody : ∀ i s, i + width ≤ total → Sums c f src size (i * c) s.1 → Carries c f (i * c) s.2 →
      ∃ s', body i s = .ok s' ∧ Sums c f src size ((i + width) * c) s'.1 ∧
        Carries c f ((i + width) * c) s'.2)
    (h : Sums c f src size 0 dst) :
    ∃ dst', ((forLoop width total body 0 (dst, setzero)).bind fun out =>
      addPixels index c src total out.1 out.2.1) = .ok dst' ∧ Sums c f src size size dst' := by
  have hinit : 0 ≤ total ∧ Sums c f src size (0 * c) dst ∧ Carries c f (0 * c) setzero := by
    rw [Nat.zero_mul]
    exact ⟨Nat.zero_le total, h, carries_zero hc⟩
  have hloop := @forLoop_ok Fault (List UInt8 × M128i) width total 0 body (dst, setzero)
    (fun i s => i ≤ total ∧ Sums c f src size (i * c) s.1 ∧ Carries c f (i * c) s.2) hwidth hinit ?_
  · obtain ⟨i, s, hrun, ⟨hi, hsums, -⟩, -⟩ := hloop
    rw [hrun]
    exact addPixels_ok hsums hc hsize hi hindex
  · rintro i s hmore ⟨-, hsums, hcarry⟩
    obtain ⟨s', hs', hsums', hcarry'⟩ := hbody i s hmore hsums hcarry
    exact ⟨s', hs', hmore, hsums', hcarry'⟩

variable {s : List UInt8} {total : ℕ}

theorem prefixSumSse2_ok (h : Sums 1 f (some s) size 0 dst) :
    ∃ dst', prefixSumSse2 s dst size = .ok dst' ∧ Sums 1 f (some s) size size dst' := by
  apply wideLoop_ok (by decide) Nat.one_pos (Nat.mul_one size).symm (fun _ _ => rfl) _ h
  intro i s' hmore hsums hcarry
  rw [Nat.mul_one] at hsums hcarry ⊢
  exact sumBlock128_ok scans_bytes hsums hcarry (one_dvd i) hmore

theorem prefixSumAvx2_ok (h : Sums 1 f src size 0 dst) :
    ∃ dst', prefixSumAvx2 src dst size = .ok dst' ∧ Sums 1 f src size size dst' := by
  apply wideLoop_ok (by decide) Nat.one_pos (Nat.mul_one size).symm (fun _ _ => rfl) _ h
  intro i s' hmore hsums hcarry
  rw [Nat.mul_one] at hsums hcarry ⊢
  exact sumBlock256_ok scans_bytes hsums hcarry (one_dvd i) hmore

theorem pairSumSse2_ok (h : Sums 2 f (some s) size 0 dst) (hsize : size = total * 2)
    (hindex : ∀ k < size, u32 k = k) :
    ∃ dst', pairSumSse2 s dst total = .ok dst' ∧ Sums 2 f (some s) size size dst' := by
  apply wideLoop_ok (by decide) Nat.two_pos hsize hindex _ h
  intro i s' hmore hsums hcarry
  have hplace : (i + 8) * 2 = i * 2 + 16 := by omega
  rw [hindex (i * 2) (by omega), hplace]
  exact sumBlock128_ok scans_pairs hsums hcarry (Nat.dvd_mul_left 2 i) (by omega)

theorem pairSumAvx2_ok (h : Sums 2 f (some s) size 0 dst) (hsize : size = total * 2)
    (hindex : ∀ k < size, u32 k = k) :
    ∃ dst', pairSumAvx2 s dst total = .ok dst' ∧ Sums 2 f (some s) size size dst' := by
  apply wideLoop_ok (by decide) Nat.two_pos hsize hindex _ h
  intro i s' hmore hsums hcarry
  have hplace : (i + 16) * 2 = i * 2 + 32 := by omega
  rw [hindex (i * 2) (by omega), hplace]
  exact sumBlock256_ok scans_pairs hsums hcarry (Nat.dvd_mul_left 2 i) (by omega)

end Wide

end AmmarServer.BasicImaging.Pzp
