import Mathlib.Data.List.TakeDrop
import Mathlib.Data.List.TakeWhile
import Mathlib.Data.Nat.Bitwise
import Mathlib.Tactic.Ring
import AmmarServer.BasicImaging.ExifOrientation

/-! The walk over the markers finds the first Exif segment of every file and ends on every file. -/

namespace AmmarServer.Exif

/-! Reads. -/

def short (littleEndian : Bool) (p0 p1 : UInt8) : ℕ :=
  if littleEndian then p0.toNat + 256 * p1.toNat else 256 * p0.toNat + p1.toNat

def long (littleEndian : Bool) (p0 p1 p2 p3 : UInt8) : ℕ :=
  if littleEndian then short littleEndian p0 p1 + 65536 * short littleEndian p2 p3
  else 65536 * short littleEndian p0 p1 + short littleEndian p2 p3

theorem short_lt (littleEndian : Bool) (p0 p1 : UInt8) : short littleEndian p0 p1 < 65536 := by
  have h0 := p0.toNat_lt
  have h1 := p1.toNat_lt
  unfold short
  split <;> omega

theorem ok_bind {α β : Type} (a : α) (f : α → Except Fault β) : (Except.ok a >>= f) = f a := rfl

theorem pure_ok {α : Type} (a : α) : (pure a : Except Fault α) = .ok a := rfl

section Reads
variable {block : List UInt8} {p : ℕ}

theorem byteAt_drop {byte : UInt8} {behind : List UInt8} (h : block.drop p = byte :: behind) :
    byteAt block p = .ok byte := by
  have hread : block[p]? = some byte := by
    rw [← Nat.add_zero p, ← List.getElem?_drop, h, List.getElem?_cons_zero]
  unfold byteAt
  rw [hread]

theorem drop_behind {front behind : List UInt8} (h : block.drop p = front ++ behind) :
    block.drop (p + front.length) = behind := by
  rw [← List.drop_drop, h, List.drop_left]

theorem or_shift {a b i : ℕ} (h : a < 2 ^ i) : a ||| b <<< i = a + 2 ^ i * b := by
  rw [Nat.or_comm, ← Nat.shiftLeft_add_eq_or_of_lt h, Nat.shiftLeft_eq, Nat.mul_comm, Nat.add_comm]

theorem shift_or {a b i : ℕ} (h : a < 2 ^ i) : b <<< i ||| a = 2 ^ i * b + a := by
  rw [← Nat.shiftLeft_add_eq_or_of_lt h, Nat.shiftLeft_eq, Nat.mul_comm]

theorem exifGet16_drop {p0 p1 : UInt8} {behind : List UInt8}
    (h : block.drop p = p0 :: p1 :: behind) (littleEndian : Bool) :
    exifGet16 block p littleEndian = .ok (short littleEndian p0 p1) := by
  have h1 : block.drop (p + 1) = p1 :: behind := @drop_behind _ _ [p0] _ h
  unfold exifGet16 short
  rw [byteAt_drop h, byteAt_drop h1, ok_bind, ok_bind]
  cases littleEndian with
  | true => simp only [if_true, or_shift p0.toNat_lt, pure_ok]; rfl
  | false => simp only [Bool.false_eq_true, if_false, shift_or p1.toNat_lt, pure_ok]; rfl

theorem exifGet32_drop {p0 p1 p2 p3 : UInt8} {behind : List UInt8}
    (h : block.drop p = p0 :: p1 :: p2 :: p3 :: behind) (littleEndian : Bool) :
    exifGet32 block p littleEndian = .ok (long littleEndian p0 p1 p2 p3) := by
  have h1 : block.drop (p + 1) = p1 :: p2 :: p3 :: behind := @drop_behind _ _ [p0] _ h
  have h2 : block.drop (p + 2) = p2 :: p3 :: behind := @drop_behind _ _ [p0, p1] _ h
  have h3 : block.drop (p + 3) = p3 :: behind := @drop_behind _ _ [p0, p1, p2] _ h
  have hp0 := p0.toNat_lt
  have hp1 := p1.toNat_lt
  have hp2 := p2.toNat_lt
  have hp3 := p3.toNat_lt
  unfold exifGet32
  rw [byteAt_drop h, byteAt_drop h1, byteAt_drop h2, byteAt_drop h3, ok_bind, ok_bind, ok_bind,
    ok_bind]
  cases littleEndian with
  | true =>
    simp only [if_true, pure_ok, long, short]
    rw [or_shift hp0, or_shift (i := 16) (by omega), or_shift (i := 24) (by omega)]
    congr 1
    ring
  | false =>
    simp only [Bool.false_eq_true, if_false, pure_ok, long, short]
    rw [Nat.or_assoc, Nat.or_assoc, shift_or hp3, shift_or (i := 16) (by omega),
      shift_or (i := 24) (by omega)]
    congr 1
    ring

theorem exists_drop {n : ℕ} (h : p + n ≤ block.length) :
    ∃ front behind, block.drop p = front ++ behind ∧ front.length = n := by
  refine ⟨(block.drop p).take n, (block.drop p).drop n, (List.take_append_drop n _).symm, ?_⟩
  rw [List.length_take, List.length_drop]
  omega

theorem exists_byte (h : p < block.length) :
    ∃ byte behind, block.drop p = byte :: behind :=
  ⟨block[p], block.drop (p + 1), List.drop_eq_getElem_cons h⟩

end Reads

theorem minus_eq {size n : ℕ} (hle : n ≤ size) (hlt : size < 2 ^ 64) : minus size n = size - n := by
  unfold minus
  omega

/-! Segments. -/

def markerBytes (fill : ℕ) (marker : UInt8) : List UInt8 := List.replicate (fill + 1) 0xFF ++ [marker]

theorem length_markerBytes (fill : ℕ) (marker : UInt8) :
    (markerBytes fill marker).length = fill + 2 := by
  rw [markerBytes, List.length_append, List.length_replicate, List.length_singleton]

/-- A marker behind which no length stands. -/
def Standalone (marker : UInt8) : Prop := marker = 0x01 ∨ 0xD0 ≤ marker ∧ marker ≤ 0xD7

/-- The end of the image and the start of its data. -/
def Last (marker : UInt8) : Prop := marker = 0xD9 ∨ marker = 0xDA

/-- The payload of an Exif segment, with at least the two bytes of a byte order. -/
def IsExif (payload : List UInt8) : Prop := exifHeader <+: payload ∧ 8 ≤ payload.length

instance decidableIsExif (payload : List UInt8) : Decidable (IsExif payload) :=
  inferInstanceAs (Decidable (_ ∧ _))

/-- The bytes of a length that counts itself. -/
def IsLength (high low : UInt8) (payload : List UInt8) : Prop :=
  256 * high.toNat + low.toNat = payload.length + 2

/-- The segments up to the first Exif segment, and the block in it. -/
inductive FirstExif : List UInt8 → List UInt8 → Prop
  | exif {fill : ℕ} {high low : UInt8} {tiff rest : List UInt8} (htiff : 2 ≤ tiff.length)
      (hlength : IsLength high low (exifHeader ++ tiff)) :
      FirstExif (markerBytes fill 0xE1 ++ high :: low :: (exifHeader ++ tiff) ++ rest) tiff
  | standalone {fill : ℕ} {marker : UInt8} {rest tiff : List UInt8} (hmarker : Standalone marker)
      (h : FirstExif rest tiff) : FirstExif (markerBytes fill marker ++ rest) tiff
  | segment {fill : ℕ} {marker high low : UInt8} {payload rest tiff : List UInt8}
      (hfill : marker ≠ 0xFF) (hlast : ¬ Last marker) (hmarker : ¬ Standalone marker)
      (hlength : IsLength high low payload) (hexif : ¬ (marker = 0xE1 ∧ IsExif payload))
      (h : FirstExif rest tiff) :
      FirstExif (markerBytes fill marker ++ high :: low :: payload ++ rest) tiff

/-! One pass. -/

section Pass
variable {data : List UInt8} {offset : ℕ}

theorem matchesAt_eq (text : List UInt8) (p : ℕ) (h : p + text.length ≤ data.length) :
    matchesAt data p text = .ok (text.isPrefixOf (data.drop p)) := by
  induction text generalizing p with
  | nil => rw [matchesAt, List.isPrefixOf_nil_left, pure_ok]
  | cons c text ih =>
    rw [List.length_cons] at h
    obtain ⟨byte, behind, hdrop⟩ := exists_byte (show p < data.length by omega)
    have hbehind : data.drop (p + 1) = behind := @drop_behind _ _ [byte] _ hdrop
    rw [matchesAt, byteAt_drop hdrop, ok_bind, ih (p + 1) (by omega), hdrop, hbehind,
      List.isPrefixOf]
    by_cases hbyte : byte = c
    · rw [if_pos hbyte, hbyte, beq_self_eq_true, Bool.true_and]
    · rw [if_neg hbyte, beq_eq_false_iff_ne.mpr (Ne.symm hbyte), Bool.false_and, pure_ok]

theorem afterFill_marker {fill : ℕ} {marker : UInt8} {tail : List UInt8} (hmarker : marker ≠ 0xFF)
    (h : data.drop offset = markerBytes fill marker ++ tail) :
    afterFill data offset = offset + (fill + 1) ∧
      data.drop (offset + (fill + 1)) = marker :: tail := by
  rw [markerBytes, List.append_assoc, List.singleton_append] at h
  constructor
  · unfold afterFill
    rw [h, List.takeWhile_append_of_pos fun c hc => beq_iff_eq.mpr (List.eq_of_mem_replicate hc),
      List.takeWhile_cons_of_neg (by simpa using hmarker), List.append_nil, List.length_replicate]
  · have hbehind := drop_behind h
    rwa [List.length_replicate] at hbehind

theorem pass_marker {fill : ℕ} {marker : UInt8} {tail : List UInt8} (hmarker : marker ≠ 0xFF)
    (h : data.drop offset = markerBytes fill marker ++ tail) :
    pass data offset = afterMarker data marker (offset + (fill + 2)) := by
  obtain ⟨hfill, hdrop⟩ := afterFill_marker hmarker h
  have hfirst : data.drop offset = 0xFF :: (List.replicate fill 0xFF ++ [marker] ++ tail) := by
    rw [h, markerBytes, List.replicate_succ]
    rfl
  have hlt : ¬ data.length ≤ offset + (fill + 1) := fun hle => by
    rw [List.drop_eq_nil_of_le hle] at hdrop
    cases hdrop
  unfold pass
  rw [byteAt_drop hfirst, ok_bind, if_neg (fun hne => hne rfl), hfill, if_neg hlt,
    byteAt_drop hdrop, ok_bind, Nat.add_assoc]

theorem pass_cases (hlt : offset < data.length) :
    pass data offset = .ok .stop ∨
      ∃ fill marker tail, marker ≠ 0xFF ∧ data.drop offset = markerBytes fill marker ++ tail := by
  obtain ⟨byte, behind, hdrop⟩ := exists_byte hlt
  by_cases hbyte : byte = 0xFF
  · have hfill : data.drop offset = (data.drop offset).takeWhile (· == 0xFF) ++
        (data.drop offset).dropWhile (· == 0xFF) := List.takeWhile_append_dropWhile.symm
    have hall : (data.drop offset).takeWhile (· == 0xFF) =
        List.replicate ((data.drop offset).takeWhile (· == 0xFF)).length 0xFF :=
      List.eq_replicate_of_mem fun c hc => by simpa using List.mem_takeWhile_imp hc
    have hone : 0 < ((data.drop offset).takeWhile (· == 0xFF)).length := by
      rw [hdrop, hbyte, List.takeWhile_cons_of_pos (by decide), List.length_cons]
      exact Nat.succ_pos _
    cases hrest : (data.drop offset).dropWhile (· == 0xFF) with
    | nil =>
      have hend : data.length ≤ afterFill data offset := by
        have hlength := congrArg List.length hfill
        rw [hrest, List.append_nil, List.length_drop] at hlength
        unfold afterFill
        omega
      left
      unfold pass
      rw [byteAt_drop hdrop, ok_bind, if_neg (fun hne => hne hbyte), if_pos hend, pure_ok]
    | cons marker tail =>
      refine .inr ⟨((data.drop offset).takeWhile (· == 0xFF)).length - 1, marker, tail, ?_, ?_⟩
      · have hnot := List.head_dropWhile_not (· == 0xFF) (l := data.drop offset)
          (by rw [hrest]; exact List.cons_ne_nil _ _)
        simpa [hrest] using hnot
      · rw [markerBytes, Nat.sub_add_cancel hone, ← hall, List.append_assoc,
          List.singleton_append, ← hrest]
        exact hfill
  · left
    unfold pass
    rw [byteAt_drop hdrop, ok_bind, if_pos hbyte, pure_ok]

theorem afterMarker_last {marker : UInt8} (hlast : Last marker) :
    afterMarker data marker offset = .ok .stop := by
  unfold afterMarker
  exact if_pos hlast

theorem afterMarker_standalone {marker : UInt8} (hmarker : Standalone marker) :
    afterMarker data marker offset = .ok (.next offset) := by
  have hlast : ¬ Last marker := by
    unfold Standalone at hmarker
    unfold Last
    rintro (rfl | rfl)
    · revert hmarker; decide
    · revert hmarker; decide
  unfold afterMarker
  exact (if_neg hlast).trans (if_pos hmarker)

variable (hsize : 2 ≤ data.length) (hlong : data.length < 2 ^ 63)
include hsize hlong

theorem afterMarker_segment {marker high low : UInt8} {payload rest : List UInt8}
    (hlast : ¬ Last marker) (hmarker : ¬ Standalone marker) (hlength : IsLength high low payload)
    (h : data.drop offset = high :: low :: (payload ++ rest)) :
    afterMarker data marker offset =
      .ok (if marker = 0xE1 ∧ IsExif payload then .exif (payload.drop 6)
        else .next (offset + (payload.length + 2))) := by
  have hcount := congrArg List.length h
  simp only [List.length_drop, List.length_cons, List.length_append] at hcount
  have hheader : ¬ minus data.length 2 < offset := by
    rw [minus_eq hsize (by omega)]
    omega
  have hbody : ¬ (payload.length + 2 < 2 ∨ minus data.length offset < payload.length + 2) := by
    rw [minus_eq (by omega) (by omega)]
    omega
  have hpayload : data.drop (offset + 2) = payload ++ rest := @drop_behind _ _ [high, low] _ h
  have hget : exifGet16 data offset false = .ok (payload.length + 2) :=
    (exifGet16_drop h false).trans (congrArg Except.ok hlength)
  unfold afterMarker
  rw [if_neg (show ¬ (_ ∨ _) from hlast), if_neg (show ¬ (_ ∨ _) from hmarker), if_neg hheader, hget, ok_bind, if_neg hbody,
    Nat.add_sub_cancel]
  by_cases hlong : marker = 0xE1 ∧ 8 ≤ payload.length
  · have hinside : offset + 2 + exifHeader.length ≤ data.length := by
      simp only [exifHeader, List.length_cons, List.length_nil]
      omega
    have hmatch : matchesAt data (offset + 2) exifHeader = .ok (exifHeader.isPrefixOf payload) := by
      rw [matchesAt_eq exifHeader (offset + 2) hinside, hpayload]
      congr 1
      rw [Bool.eq_iff_iff, List.isPrefixOf_iff_prefix, List.isPrefixOf_iff_prefix]
      refine ⟨fun hleading => List.prefix_of_prefix_length_le hleading (List.prefix_append _ _) ?_,
        fun hleading => hleading.trans (List.prefix_append _ _)⟩
      simp only [exifHeader, List.length_cons, List.length_nil]
      omega
    rw [if_pos hlong, hmatch, ok_bind]
    by_cases hexif : exifHeader <+: payload
    · rw [if_pos (List.isPrefixOf_iff_prefix.mpr hexif), if_pos ⟨hlong.1, hexif, hlong.2⟩, pure_ok,
        ← List.drop_drop, hpayload, List.drop_append_of_le_length (by omega),
        List.take_append_of_le_length (by rw [List.length_drop]), ← List.length_drop,
        List.take_length]
    · rw [if_neg (fun hleading => hexif (List.isPrefixOf_iff_prefix.mp hleading)),
        if_neg (fun hall => hexif hall.2.1), pure_ok]
  · rw [if_neg hlong, if_neg (fun hall => hlong ⟨hall.1, hall.2.2⟩), pure_ok]

/-- Behind a marker that carries a length the pass ends the walk, or there is the whole segment. -/
theorem afterMarker_cases {marker : UInt8} (hoffset : offset ≤ data.length)
    (hlast : ¬ Last marker) (hmarker : ¬ Standalone marker) :
    afterMarker data marker offset = .ok .stop ∨
      ∃ high low payload rest, IsLength high low payload ∧
        data.drop offset = high :: low :: (payload ++ rest) := by
  by_cases hheader : minus data.length 2 < offset
  · left
    unfold afterMarker
    rw [if_neg (show ¬ (_ ∨ _) from hlast), if_neg (show ¬ (_ ∨ _) from hmarker), if_pos hheader, pure_ok]
  · have hle := hheader
    rw [minus_eq hsize (by omega)] at hle
    obtain ⟨high, behind, hhigh⟩ := exists_byte (show offset < data.length by omega)
    obtain ⟨low, behind', hlow⟩ := exists_byte (show offset + 1 < data.length by omega)
    have hbehind : behind = low :: behind' :=
      (@drop_behind _ _ [high] _ hhigh).symm.trans hlow
    subst hbehind
    have hcount := congrArg List.length hhigh
    simp only [List.length_drop, List.length_cons] at hcount
    have hget := exifGet16_drop hhigh false
    by_cases hbody : short false high low < 2 ∨ minus data.length offset < short false high low
    · left
      unfold afterMarker
      rw [if_neg (show ¬ (_ ∨ _) from hlast), if_neg (show ¬ (_ ∨ _) from hmarker), if_neg hheader, hget, ok_bind, if_pos hbody, pure_ok]
    · have hfits := hbody
      rw [minus_eq hoffset (by omega)] at hfits
      refine .inr ⟨high, low, behind'.take (short false high low - 2),
        behind'.drop (short false high low - 2), ?_, ?_⟩
      · change short false high low = _
        rw [List.length_take]
        omega
      · rw [List.take_append_drop, hhigh]

theorem pass_sound (hlt : offset < data.length) :
    pass data offset = .ok .stop ∨
      (∃ next, pass data offset = .ok (.next next) ∧ offset < next ∧
        ∀ tiff, FirstExif (data.drop next) tiff → FirstExif (data.drop offset) tiff) ∨
      ∃ tiff, pass data offset = .ok (.exif tiff) ∧ FirstExif (data.drop offset) tiff := by
  rcases pass_cases hlt with hstop | ⟨fill, marker, tail, hfill, hdrop⟩
  · exact .inl hstop
  have hpass := pass_marker hfill hdrop
  have htail : data.drop (offset + (fill + 2)) = tail := by
    rw [← length_markerBytes fill marker]
    exact drop_behind hdrop
  by_cases hlast : Last marker
  · exact .inl (hpass.trans (afterMarker_last hlast))
  by_cases hmarker : Standalone marker
  · refine .inr (.inl ⟨_, hpass.trans (afterMarker_standalone hmarker), by omega, ?_⟩)
    intro tiff h
    rw [htail] at h
    rw [hdrop]
    exact .standalone hmarker h
  have hoffset : offset + (fill + 2) ≤ data.length := by
    have hcount := congrArg List.length hdrop
    rw [List.length_drop, List.length_append, length_markerBytes] at hcount
    omega
  rcases afterMarker_cases hsize hlong hoffset hlast hmarker with
    hstop | ⟨high, low, payload, rest, hlength, hsegment⟩
  · exact .inl (hpass.trans hstop)
  have hafter := afterMarker_segment hsize hlong hlast hmarker hlength hsegment
  have hwhole : data.drop offset = markerBytes fill marker ++ high :: low :: payload ++ rest := by
    rw [hdrop, ← htail, hsegment, List.append_assoc, List.cons_append, List.cons_append]
  by_cases hexif : marker = 0xE1 ∧ IsExif payload
  · obtain ⟨rfl, ⟨tiff, rfl⟩, height⟩ := hexif
    refine .inr (.inr ⟨tiff, ?_, ?_⟩)
    · rw [hpass, hafter, if_pos ⟨rfl, List.prefix_append _ _, height⟩]
      rfl
    · rw [List.length_append] at height
      rw [hwhole]
      exact .exif (by simp only [exifHeader, List.length_cons, List.length_nil] at height; omega)
        hlength
  · refine .inr (.inl ⟨offset + (fill + 2) + (payload.length + 2), ?_, by omega, fun tiff h => ?_⟩)
    · rw [hpass, hafter, if_neg hexif]
    · have hrest : data.drop (offset + (fill + 2) + (payload.length + 2)) = rest := by
        have hbehind := @drop_behind _ _ (high :: low :: payload) _ hsegment
        rwa [List.length_cons, List.length_cons] at hbehind
      rw [hrest] at h
      rw [hwhole]
      exact .segment hfill hlast hmarker hlength hexif h

end Pass

/-! The walk. -/

section Walk
variable {data : List UInt8}

theorem findExif_next {passes offset next : ℕ} (hlt : offset < data.length)
    (h : pass data offset = .ok (.next next)) :
    findExif data (passes + 1) offset = findExif data passes next := by
  rw [findExif, if_neg (Nat.not_le.mpr hlt), h, ok_bind]

theorem findExif_exif {passes offset : ℕ} {tiff : List UInt8} (hlt : offset < data.length)
    (h : pass data offset = .ok (.exif tiff)) :
    findExif data (passes + 1) offset = .ok (some tiff) := by
  rw [findExif, if_neg (Nat.not_le.mpr hlt), h, ok_bind]
  rfl

theorem lt_of_drop {offset : ℕ} {front tail : List UInt8} (hne : front ≠ [])
    (h : data.drop offset = front ++ tail) : offset < data.length := by
  by_contra hle
  rw [List.drop_eq_nil_of_le (Nat.not_lt.mp hle)] at h
  exact hne (List.append_eq_nil_iff.mp h.symm).1

theorem markerBytes_ne_nil (fill : ℕ) (marker : UInt8) : markerBytes fill marker ≠ [] :=
  List.append_ne_nil_of_right_ne_nil _ (List.cons_ne_nil _ _)

theorem standalone_ne {marker : UInt8} (h : Standalone marker) : marker ≠ 0xFF := by
  rintro rfl
  revert h
  unfold Standalone
  decide

variable (hsize : 2 ≤ data.length) (hlong : data.length < 2 ^ 63)
include hsize hlong

theorem findExif_complete {rest tiff : List UInt8} (h : FirstExif rest tiff) (passes offset : ℕ)
    (hdrop : data.drop offset = rest) (hpasses : data.length - offset < passes) :
    findExif data passes offset = .ok (some tiff) := by
  induction h generalizing passes offset with
  | @exif fill high low tiff rest htiff hlength =>
    rw [List.append_assoc] at hdrop
    have hlt := lt_of_drop (markerBytes_ne_nil _ _) hdrop
    have hsegment : data.drop (offset + (fill + 2)) = high :: low :: ((exifHeader ++ tiff) ++ rest) := by
      rw [← length_markerBytes fill 0xE1]
      exact drop_behind hdrop
    obtain ⟨passes, rfl⟩ := Nat.exists_eq_succ_of_ne_zero (Nat.ne_zero_of_lt hpasses)
    refine findExif_exif hlt ?_
    have hafter := @afterMarker_segment _ _ hsize hlong 0xE1 _ _ _ _ (by unfold Last; decide)
      (by unfold Standalone; decide) hlength hsegment
    have hexif : IsExif (exifHeader ++ tiff) := by
      refine ⟨List.prefix_append _ _, ?_⟩
      simp only [exifHeader, List.length_append, List.length_cons, List.length_nil]
      omega
    rw [pass_marker (by decide) hdrop, hafter, if_pos ⟨rfl, hexif⟩]
    rfl
  | @standalone fill marker rest tiff hmarker _ ih =>
    have hlt := lt_of_drop (markerBytes_ne_nil _ _) hdrop
    obtain ⟨passes, rfl⟩ := Nat.exists_eq_succ_of_ne_zero (Nat.ne_zero_of_lt hpasses)
    rw [findExif_next hlt ((pass_marker (standalone_ne hmarker) hdrop).trans
      (afterMarker_standalone hmarker))]
    refine ih passes _ ?_ (by omega)
    rw [← length_markerBytes fill marker]
    exact drop_behind hdrop
  | @segment fill marker high low payload rest tiff hfill hlast hmarker hlength hexif _ ih =>
    rw [List.append_assoc] at hdrop
    have hlt := lt_of_drop (markerBytes_ne_nil _ _) hdrop
    have hsegment : data.drop (offset + (fill + 2)) = high :: low :: (payload ++ rest) := by
      rw [← length_markerBytes fill marker]
      exact drop_behind hdrop
    obtain ⟨passes, rfl⟩ := Nat.exists_eq_succ_of_ne_zero (Nat.ne_zero_of_lt hpasses)
    have hafter := afterMarker_segment hsize hlong hlast hmarker hlength hsegment
    rw [if_neg hexif] at hafter
    rw [findExif_next hlt ((pass_marker hfill hdrop).trans hafter)]
    refine ih passes _ ?_ (by omega)
    have hbehind := @drop_behind _ _ (high :: low :: payload) _ hsegment
    rwa [List.length_cons, List.length_cons] at hbehind

/-- The walk ends on every file, within it. -/
theorem findExif_sound (passes offset : ℕ) (hpasses : data.length - offset < passes) :
    ∃ found, findExif data passes offset = .ok found ∧
      ∀ tiff, found = some tiff → FirstExif (data.drop offset) tiff := by
  induction passes generalizing offset with
  | zero => exact absurd hpasses (Nat.not_lt_zero _)
  | succ passes ih =>
    by_cases hlt : offset < data.length
    · rcases pass_sound hsize hlong hlt with hstop | ⟨next, hnext, hbehind, himp⟩ | ⟨tiff, hexif, h⟩
      · refine ⟨none, ?_, fun tiff h => (by cases h)⟩
        rw [findExif, if_neg (Nat.not_le.mpr hlt), hstop, ok_bind, pure_ok]
      · obtain ⟨found, hfound, hsound⟩ := ih next (by omega)
        exact ⟨found, (findExif_next hlt hnext).trans hfound,
          fun tiff h => himp tiff (hsound tiff h)⟩
      · refine ⟨some tiff, findExif_exif hlt hexif, ?_⟩
        rintro _ ⟨⟩
        exact h
    · refine ⟨none, ?_, fun tiff h => (by cases h)⟩
      rw [findExif, if_pos (Nat.not_lt.mp hlt), pure_ok]

end Walk

end AmmarServer.Exif
