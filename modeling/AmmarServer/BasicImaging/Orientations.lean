import Mathlib.Data.List.Perm.Subperm
import AmmarServer.Lib.GridSymmetries
import AmmarServer.BasicImaging.Rotation

/-! Orientations as symmetries of the image: nothing of it is lost, and two of them are one. -/

namespace AmmarServer.BasicImaging
open GridSymmetry

/-- An image of its size. -/
structure Image.Sound (img : Image) : Prop where
  width : 1 ≤ img.width
  height : 1 ≤ img.height
  channels : 1 ≤ img.channels
  length : img.pixels.length = img.width * img.height * img.channels

/-! The orientations. -/

/-- How the image is turned for an orientation. -/
def symmetry : ℕ → Symmetry
  | 2 => ⟨false, true, false⟩
  | 3 => ⟨false, true, true⟩
  | 4 => ⟨false, false, true⟩
  | 5 => ⟨true, false, false⟩
  | 6 => ⟨true, false, true⟩
  | 7 => ⟨true, true, true⟩
  | 8 => ⟨true, true, false⟩
  | _ => ⟨false, false, false⟩

/-- The orientation of an element of the dihedral group of the square. -/
def orientationOf : DihedralGroup 4 → ℕ
  | .r i => if i = 0 then 1 else if i = 1 then 6 else if i = 1 + 1 then 3 else 8
  | .sr i => if i = 0 then 2 else if i = 1 then 7 else if i = 1 + 1 then 4 else 5

/-- The element of an orientation: 6 is the quarter turn clockwise, 2 mirrors each row. -/
def element (orientation : ℕ) : DihedralGroup 4 := (symmetry orientation).toDihedral

theorem symmetry_orientationOf (g : Symmetry) : symmetry (orientationOf g.toDihedral) = g := by
  revert g
  decide

theorem orientationOf_le (a : DihedralGroup 4) : 1 ≤ orientationOf a ∧ orientationOf a ≤ 8 := by
  revert a
  decide

/-- The first orientation, and then the second. -/
def compose (o o' : ℕ) : ℕ := orientationOf (element o * element o')

theorem symmetry_compose (o o' : ℕ) :
    symmetry (compose o o') = (symmetry o).comp (symmetry o') := by
  unfold compose element
  rw [← Symmetry.toDihedral_comp, symmetry_orientationOf]

section Source
variable {img : Image} {o : ℕ}

theorem newWidth_eq (h : 2 ≤ o) (h' : o ≤ 8) :
    newWidth img o = (symmetry o).width img.width img.height := by
  obtain rfl | rfl | rfl | rfl | rfl | rfl | rfl :
    o = 2 ∨ o = 3 ∨ o = 4 ∨ o = 5 ∨ o = 6 ∨ o = 7 ∨ o = 8 := by omega
  all_goals rfl

theorem newHeight_eq (h : 2 ≤ o) (h' : o ≤ 8) :
    newHeight img o = (symmetry o).height img.width img.height := by
  obtain rfl | rfl | rfl | rfl | rfl | rfl | rfl :
    o = 2 ∨ o = 3 ∨ o = 4 ∨ o = 5 ∨ o = 6 ∨ o = 7 ∨ o = 8 := by omega
  all_goals rfl

theorem source_eq (h : 2 ≤ o) (h' : o ≤ 8) (x y : ℕ) :
    source img o x y =
      ((symmetry o).sourceX img.width x y, (symmetry o).sourceY img.height x y) := by
  obtain rfl | rfl | rfl | rfl | rfl | rfl | rfl :
    o = 2 ∨ o = 3 ∨ o = 4 ∨ o = 5 ∨ o = 6 ∨ o = 7 ∨ o = 8 := by omega
  all_goals rfl

end Source

/-! The numbers of the pixels. -/

/-- The number of the pixel that a pixel behind a symmetry comes from. -/
def sourceIndex (g : Symmetry) (w h p : ℕ) : ℕ :=
  g.sourceY h (p % g.width w h) (p / g.width w h) * w +
    g.sourceX w (p % g.width w h) (p / g.width w h)

theorem index_bounds {w h p : ℕ} (hp : p < w * h) : p % w < w ∧ p / w < h := by
  have hw : 0 < w := Nat.pos_of_mul_pos_right (Nat.zero_lt_of_lt hp)
  exact ⟨Nat.mod_lt p hw, Nat.div_lt_of_lt_mul hp⟩

theorem index_lt {w h x y : ℕ} (hx : x < w) (hy : y < h) : y * w + x < w * h := by
  calc y * w + x < y * w + w := Nat.add_lt_add_left hx _
    _ = (y + 1) * w := by rw [Nat.add_mul, Nat.one_mul]
    _ ≤ h * w := Nat.mul_le_mul_right w hy
    _ = w * h := Nat.mul_comm h w

theorem index_div {w x : ℕ} (hx : x < w) (y : ℕ) : (y * w + x) / w = y := by
  rw [Nat.mul_comm, Nat.mul_add_div (Nat.zero_lt_of_lt hx), Nat.div_eq_of_lt hx, Nat.add_zero]

theorem size_eq (g : Symmetry) (w h : ℕ) : g.width w h * g.height w h = w * h := by
  unfold Symmetry.width Symmetry.height
  split
  · exact Nat.mul_comm h w
  · rfl

theorem sourceIndex_lt (g : Symmetry) {w h p : ℕ} (hp : p < w * h) : sourceIndex g w h p < w * h := by
  obtain ⟨hx, hy⟩ := index_bounds ((size_eq g w h).symm ▸ hp)
  exact index_lt (g.sourceX_lt hx hy) (g.sourceY_lt hx hy)

theorem sourceIndex_comp (g g' : Symmetry) {w h p : ℕ} (hp : p < w * h) :
    sourceIndex (g.comp g') w h p =
      sourceIndex g w h (sourceIndex g' (g.width w h) (g.height w h) p) := by
  have hsize : p < g'.width (g.width w h) (g.height w h) * g'.height (g.width w h) (g.height w h) := by
    rw [size_eq, size_eq]
    exact hp
  obtain ⟨hx, hy⟩ := index_bounds hsize
  have hx' := g'.sourceX_lt hx hy
  unfold sourceIndex
  rw [Symmetry.width_comp, Symmetry.sourceX_comp g g' hx hy, Symmetry.sourceY_comp g g' hx hy,
    Nat.mul_add_mod_of_lt hx', index_div hx']

theorem sourceIndex_one {w h p : ℕ} : sourceIndex .one w h p = p := Nat.div_add_mod' p w

/-- Each pixel comes from one pixel, and each pixel is taken. -/
theorem sourceIndex_perm (g : Symmetry) (w h : ℕ) :
    ((List.range (w * h)).map (sourceIndex g w h)).Perm (List.range (w * h)) := by
  have hundone : ∀ p < w * h,
      sourceIndex g.inv (g.width w h) (g.height w h) (sourceIndex g w h p) = p := by
    intro p hp
    have hwidth : g.inv.width (g.width w h) (g.height w h) = w := by
      rw [← Symmetry.width_comp, Symmetry.comp_inv]
      rfl
    have hheight : g.inv.height (g.width w h) (g.height w h) = h := by
      rw [← Symmetry.height_comp, Symmetry.comp_inv]
      rfl
    have hcomp := sourceIndex_comp g.inv g (w := g.width w h) (h := g.height w h) (p := p)
      ((size_eq g w h).symm ▸ hp)
    rw [hwidth, hheight] at hcomp
    rw [← hcomp, Symmetry.inv_comp]
    exact sourceIndex_one
  have hnodup : ((List.range (w * h)).map (sourceIndex g w h)).Nodup := by
    refine List.Nodup.map_on (fun p hp q hq hsame => ?_) List.nodup_range
    rw [← hundone p (List.mem_range.mp hp), hsame, hundone q (List.mem_range.mp hq)]
  have hsubset : (List.range (w * h)).map (sourceIndex g w h) ⊆ List.range (w * h) := by
    intro q hq
    obtain ⟨p, hp, rfl⟩ := List.mem_map.mp hq
    exact List.mem_range.mpr (sourceIndex_lt g (List.mem_range.mp hp))
  refine (List.subperm_of_subset hnodup hsubset).perm_of_length_le ?_
  rw [List.length_map]

theorem rows_eq {α : Type*} (f : ℕ → α) (w h : ℕ) :
    ((List.range h).flatMap fun y => (List.range w).map fun x => f (y * w + x)) =
      (List.range (w * h)).map f := by
  induction h with
  | zero => rfl
  | succ h ih =>
    rw [List.range_succ, List.flatMap_append, ih, Nat.mul_succ, List.range_add, List.map_append,
      List.flatMap_singleton, List.map_map, Nat.mul_comm w h]
    rfl

theorem copies_eq (img : Image) {o : ℕ} (h : 2 ≤ o) (h' : o ≤ 8) :
    copies img o = (List.range (img.width * img.height)).map fun p =>
      (p, sourceIndex (symmetry o) img.width img.height p) := by
  have hrows := rows_eq (fun p => (p, sourceIndex (symmetry o) img.width img.height p))
    ((symmetry o).width img.width img.height) ((symmetry o).height img.width img.height)
  rw [size_eq] at hrows
  unfold copies
  rw [newWidth_eq h h', newHeight_eq h h', ← hrows]
  refine List.flatMap_congr fun y _ => List.map_congr_left fun x hx => ?_
  rw [source_eq h h']
  unfold sourceIndex
  rw [Nat.mul_add_mod_of_lt (List.mem_range.mp hx), index_div (List.mem_range.mp hx)]

/-! Copying. -/

section Copy
variable {pixels : List UInt8} {n : ℕ}

theorem block_length {p : ℕ} (h : p * n + n ≤ pixels.length) : (block pixels n p).length = n := by
  unfold block
  rw [List.length_take, List.length_drop]
  omega

theorem copyPixels_range {f : ℕ → ℕ} {count start : ℕ} {done rest : List UInt8}
    (hsource : ∀ p, start ≤ p → p < start + count → f p * n + n ≤ pixels.length)
    (hdone : done.length = start * n) (hrest : count * n ≤ rest.length) :
    copyPixels pixels n ((List.range' start count).map fun p => (p, f p)) (done ++ rest) =
      .ok (done ++ ((List.range' start count).flatMap (fun p => block pixels n (f p)) ++
        rest.drop (count * n))) := by
  induction count generalizing start done rest with
  | zero =>
    rw [Nat.zero_mul]
    rfl
  | succ count ih =>
    rw [Nat.succ_mul] at hrest
    have hbound := hsource start le_rfl (by omega)
    have hcopy : copyPixel pixels n (done ++ rest) (start, f start) =
        .ok ((done ++ block pixels n (f start)) ++ rest.drop n) := by
      have hinside : start * n + n ≤ (done ++ rest).length := by
        rw [List.length_append, hdone]
        omega
      unfold copyPixel
      rw [if_pos ⟨hinside, hbound⟩]
      simp only
      rw [← hdone, List.take_left, ← List.drop_drop, List.drop_left, List.append_assoc]
    rw [List.range'_succ, List.map_cons, copyPixels, hcopy]
    show copyPixels pixels n _ (_ ++ _) = _
    rw [ih]
    · rw [List.flatMap_cons, List.drop_drop, Nat.succ_mul, Nat.add_comm n (count * n)]
      simp only [List.append_assoc]
    · intro p hp hlt
      exact hsource p (by omega) (by omega)
    · rw [List.length_append, hdone, block_length hbound, Nat.succ_mul]
    · rw [List.length_drop]
      omega

theorem copyPixels_inside {copies : List (ℕ × ℕ)} {out out' : List UInt8}
    (h : copyPixels pixels n copies out = .ok out') :
    ∀ copy ∈ copies, copy.1 * n + n ≤ out.length := by
  induction copies generalizing out with
  | nil => exact fun _ hmem => (by cases hmem)
  | cons copy copies ih =>
    rw [copyPixels] at h
    unfold copyPixel at h
    split at h
    · rename_i hinside
      have hlength : (out.take (copy.1 * n) ++ (block pixels n copy.2 ++
          out.drop (copy.1 * n + n))).length = out.length := by
        rw [List.length_append, List.length_append, block_length hinside.2, List.length_take,
          List.length_drop]
        omega
      refine List.forall_mem_cons.mpr ⟨hinside.1, fun copy' hmem => ?_⟩
      exact hlength ▸ ih h copy' hmem
    · cases h

end Copy

/-! The image behind a symmetry. -/

/-- The pixels of the image in the order of the symmetry. -/
def rotated (g : Symmetry) (img : Image) : Image :=
  { width := g.width img.width img.height
    height := g.height img.width img.height
    channels := img.channels
    pixels := (List.range (img.width * img.height)).flatMap fun p =>
      block img.pixels img.channels (sourceIndex g img.width img.height p) }

theorem length_flatMap_range {f : ℕ → List UInt8} {n count : ℕ} (hf : ∀ p < count, (f p).length = n) :
    ((List.range count).flatMap f).length = count * n := by
  induction count with
  | zero => rw [Nat.zero_mul]; rfl
  | succ count ih =>
    rw [List.range_succ, List.flatMap_append, List.length_append, List.flatMap_singleton,
      ih fun p hp => hf p (Nat.lt_succ_of_lt hp), hf count (Nat.lt_succ_self count), Nat.succ_mul]

theorem block_flatMap_range {f : ℕ → List UInt8} {n count : ℕ} (hf : ∀ p < count, (f p).length = n)
    {p : ℕ} (hp : p < count) : block ((List.range count).flatMap f) n p = f p := by
  obtain ⟨more, rfl⟩ := Nat.exists_eq_add_of_lt hp
  have hfront : ((List.range p).flatMap f).length = p * n :=
    length_flatMap_range fun q hq => hf q (hq.trans hp)
  have hlength := hf p hp
  unfold block
  rw [show p + more + 1 = p + (1 + more) by omega, List.range_add, List.flatMap_append, ← hfront,
    List.drop_left, List.range_add, List.map_append, List.flatMap_append]
  show List.take n (([p].flatMap f) ++ _) = f p
  rw [List.flatMap_singleton, ← hlength, List.take_left]

section Rotated
variable {img : Image} {o : ℕ}

theorem Image.Sound.inside (h : img.Sound) {p : ℕ} (hp : p < img.width * img.height) :
    p * img.channels + img.channels ≤ img.pixels.length := by
  rw [h.length, ← Nat.succ_mul]
  exact Nat.mul_le_mul_right _ hp

theorem rotated_sound (h : img.Sound) (g : Symmetry) : (rotated g img).Sound := by
  have hlength : (rotated g img).pixels.length = img.width * img.height * img.channels :=
    length_flatMap_range fun p hp => block_length (h.inside (sourceIndex_lt g hp))
  have hw := h.width
  have hh := h.height
  refine ⟨?_, ?_, h.channels, ?_⟩
  · show 1 ≤ g.width img.width img.height
    unfold Symmetry.width
    split <;> assumption
  · show 1 ≤ g.height img.width img.height
    unfold Symmetry.height
    split <;> assumption
  · rw [hlength]
    show _ = g.width img.width img.height * g.height img.width img.height * img.channels
    rw [size_eq]

theorem rotated_size (g : Symmetry) (img : Image) :
    (rotated g img).width * (rotated g img).height = img.width * img.height := size_eq ..

theorem block_rotated (h : img.Sound) (g : Symmetry) {p : ℕ} (hp : p < img.width * img.height) :
    block (rotated g img).pixels img.channels p =
      block img.pixels img.channels (sourceIndex g img.width img.height p) :=
  block_flatMap_range (fun _ hq => block_length (h.inside (sourceIndex_lt g hq))) hp

/-- Two symmetries one after the other are one. -/
theorem rotated_rotated (h : img.Sound) (g g' : Symmetry) :
    rotated g' (rotated g img) = rotated (g.comp g') img := by
  have hpixels : (rotated g' (rotated g img)).pixels = (rotated (g.comp g') img).pixels := by
    show (List.range ((rotated g img).width * (rotated g img).height)).flatMap _ = _
    rw [rotated_size]
    refine List.flatMap_congr fun p hp => ?_
    have hlt := List.mem_range.mp hp
    rw [sourceIndex_comp g g' hlt]
    exact block_rotated h g (rotated_size g img ▸ sourceIndex_lt g' ((rotated_size g img).symm ▸ hlt))
  have hwidth : (rotated g' (rotated g img)).width = (rotated (g.comp g') img).width :=
    (Symmetry.width_comp g g' _ _).symm
  have hheight : (rotated g' (rotated g img)).height = (rotated (g.comp g') img).height :=
    (Symmetry.height_comp g g' _ _).symm
  exact Image.ext hwidth hheight rfl hpixels

theorem flatMap_blocks {pixels : List UInt8} {n count : ℕ} (hlength : pixels.length = count * n) :
    (List.range count).flatMap (block pixels n) = pixels := by
  induction count generalizing pixels with
  | zero =>
    rw [Nat.zero_mul] at hlength
    rw [List.eq_nil_of_length_eq_zero hlength]
    rfl
  | succ count ih =>
    have hrest : (pixels.drop n).length = count * n := by
      rw [List.length_drop, hlength, Nat.succ_mul, Nat.add_sub_cancel]
    have hshift : ∀ p, block pixels n (p + 1) = block (pixels.drop n) n p := by
      intro p
      unfold block
      rw [List.drop_drop, Nat.succ_mul, Nat.add_comm n]
    rw [List.range_succ_eq_map, List.flatMap_cons, List.flatMap_map]
    have hblocks : (List.range count).flatMap (fun p => block pixels n (p + 1)) = pixels.drop n := by
      rw [← ih hrest]
      exact List.flatMap_congr fun p _ => hshift p
    rw [hblocks]
    unfold block
    rw [Nat.zero_mul, List.drop_zero, List.take_append_drop]

theorem rotated_one (h : img.Sound) : rotated .one img = img := by
  have hpixels : (rotated .one img).pixels = img.pixels := by
    have hblocks := flatMap_blocks h.length
    show (List.range (img.width * img.height)).flatMap _ = _
    rw [← hblocks]
    exact List.flatMap_congr fun p _ => by rw [sourceIndex_one, hblocks]
  exact Image.ext rfl rfl rfl hpixels

theorem basicImagingNew_eq (h : img.Sound) (g : Symmetry) :
    basicImagingNew (g.width img.width img.height) (g.height img.width img.height) img.channels true =
      some ⟨g.width img.width img.height, g.height img.width img.height, img.channels,
        List.replicate (img.width * img.height * img.channels % 2 ^ 32) 0⟩ := by
  have hw : 1 ≤ g.width img.width img.height := (rotated_sound h g).width
  have hh : 1 ≤ g.height img.width img.height := (rotated_sound h g).height
  have hc := h.channels
  have hne : ¬ (g.width img.width img.height = 0 ∨ g.height img.width img.height = 0 ∨
      img.channels = 0 ∨ true = false) := by
    rintro (hzero | hzero | hzero | hzero)
    · omega
    · omega
    · omega
    · cases hzero
  unfold basicImagingNew
  rw [if_neg hne, size_eq]

theorem rotate_copies (h : img.Sound) (ho : 2 ≤ o) (ho' : o ≤ 8) :
    rotateImageForOrientation img o true =
      (copyPixels img.pixels img.channels (copies img o)
        (List.replicate (img.width * img.height * img.channels % 2 ^ 32) 0)).map fun pixels =>
          some { rotated (symmetry o) img with pixels } := by
  have hw := h.width
  have hh := h.height
  have hc := h.channels
  unfold rotateImageForOrientation
  rw [if_neg (by omega), if_neg (by omega), newWidth_eq ho ho', newHeight_eq ho ho',
    basicImagingNew_eq h]
  rfl

/-- An image of less than 4 GB is turned round as a whole. -/
theorem rotate_eq (h : img.Sound) (ho : 2 ≤ o) (ho' : o ≤ 8)
    (hsize : img.width * img.height * img.channels < 2 ^ 32) :
    rotateImageForOrientation img o true = .ok (some (rotated (symmetry o) img)) := by
  have hcopies := @copyPixels_range img.pixels img.channels
    (sourceIndex (symmetry o) img.width img.height) (img.width * img.height) 0 []
    (List.replicate (img.width * img.height * img.channels) 0)
    (fun p _ hp => h.inside (sourceIndex_lt _ (by omega))) (by rw [Nat.zero_mul]; rfl)
    (by rw [List.length_replicate])
  rw [← List.range_eq_range', List.nil_append, List.nil_append, List.drop_of_length_le
    (by rw [List.length_replicate]), List.append_nil] at hcopies
  rw [rotate_copies h ho ho', Nat.mod_eq_of_lt hsize, copies_eq img ho ho', hcopies]
  rfl

theorem size_lt_of_rotate (h : img.Sound) (ho : 2 ≤ o) (ho' : o ≤ 8) {out : Image}
    (hrotate : rotateImageForOrientation img o true = .ok (some out)) :
    img.width * img.height * img.channels < 2 ^ 32 := by
  rw [rotate_copies h ho ho', copies_eq img ho ho'] at hrotate
  have hpos : 0 < img.width * img.height := Nat.mul_pos h.width h.height
  have hlast : img.width * img.height - 1 < img.width * img.height := Nat.sub_lt hpos Nat.one_pos
  by_contra hlarge
  cases hcopy : copyPixels img.pixels img.channels
      ((List.range (img.width * img.height)).map fun p =>
        (p, sourceIndex (symmetry o) img.width img.height p))
      (List.replicate (img.width * img.height * img.channels % 2 ^ 32) 0) with
  | error fault =>
    rw [hcopy] at hrotate
    cases hrotate
  | ok pixels =>
    have hinside := copyPixels_inside hcopy _
      (List.mem_map.mpr ⟨_, List.mem_range.mpr hlast, rfl⟩)
    simp only [List.length_replicate] at hinside
    rw [← Nat.succ_mul, Nat.succ_eq_add_one, Nat.sub_add_cancel hpos] at hinside
    have hmod := Nat.mod_lt (img.width * img.height * img.channels) (Nat.two_pow_pos 32)
    exact hlarge (hinside.trans_lt hmod)

end Rotated

/-! Orientations. -/

/-- What is promised of every orientation of an image. -/
structure Lossless (img : Image) : Prop where
  permutes : ∀ o, 2 ≤ o → o ≤ 8 → ∃ out, rotateImageForOrientation img o true = .ok (some out) ∧
    out.width = newWidth img o ∧ out.height = newHeight img o ∧ out.channels = img.channels ∧
    ((copies img o).map (·.1)).Perm (List.range (out.width * out.height)) ∧
    ((copies img o).map (·.2)).Perm (List.range (img.width * img.height)) ∧
    ∀ copy ∈ copies img o,
      block out.pixels img.channels copy.1 = block img.pixels img.channels copy.2
  undone : ∀ o o', (o, o') ∈ [(2, 2), (3, 3), (4, 4), (5, 5), (7, 7), (6, 8), (8, 6)] →
    (orient img o true).bind (orient · o' true) = .ok img
  composes : ∀ o o', 1 ≤ o → o ≤ 8 → 1 ≤ o' → o' ≤ 8 →
    (orient img o true).bind (orient · o' true) = orient img (compose o o') true

theorem orient_eq {img : Image} (h : img.Sound)
    (hsize : img.width * img.height * img.channels < 2 ^ 32) {o : ℕ} (ho : 1 ≤ o) (ho' : o ≤ 8) :
    orient img o true = .ok (rotated (symmetry o) img) := by
  unfold orient
  split
  · rename_i htwo
    rw [rotate_eq h htwo ho' hsize]
    rfl
  · obtain rfl : o = 1 := by omega
    exact congrArg _ (rotated_one h).symm

theorem orient_orient {img : Image} (h : img.Sound)
    (hsize : img.width * img.height * img.channels < 2 ^ 32) {o o' : ℕ} (ho : 1 ≤ o) (ho' : o ≤ 8)
    (hp : 1 ≤ o') (hp' : o' ≤ 8) :
    (orient img o true).bind (orient · o' true) = orient img (compose o o') true := by
  have hsize' : (rotated (symmetry o) img).width * (rotated (symmetry o) img).height *
      (rotated (symmetry o) img).channels < 2 ^ 32 := by
    rw [rotated_size]
    exact hsize
  obtain ⟨hc, hc'⟩ : 1 ≤ compose o o' ∧ compose o o' ≤ 8 := orientationOf_le _
  rw [orient_eq h hsize ho ho', orient_eq h hsize hc hc']
  show orient (rotated (symmetry o) img) o' true = _
  rw [orient_eq (rotated_sound h _) hsize' hp hp', rotated_rotated h, symmetry_compose]

/-- The orientations of an image lose nothing just if it has less than 4 GB. -/
theorem lossless_iff {img : Image} (h : img.Sound) :
    Lossless img ↔ img.width * img.height * img.channels < 2 ^ 32 := by
  constructor
  · intro hlossless
    obtain ⟨out, hrotate, -⟩ := hlossless.permutes 2 le_rfl (by decide)
    exact size_lt_of_rotate h le_rfl (by decide) hrotate
  · intro hsize
    refine ⟨fun o ho ho' => ?_, fun o o' hmem => ?_,
      fun o o' ho ho' hp hp' => orient_orient h hsize ho ho' hp hp'⟩
    · refine ⟨_, rotate_eq h ho ho' hsize, (newWidth_eq ho ho').symm, (newHeight_eq ho ho').symm, rfl,
        ?_, ?_, ?_⟩
      · rw [copies_eq img ho ho', List.map_map, rotated_size]
        exact (List.map_id _).symm ▸ List.Perm.refl _
      · rw [copies_eq img ho ho', List.map_map]
        exact sourceIndex_perm (symmetry o) img.width img.height
      · rw [copies_eq img ho ho']
        intro copy hcopy
        obtain ⟨p, hp, rfl⟩ := List.mem_map.mp hcopy
        exact block_rotated h (symmetry o) (List.mem_range.mp hp)
    · have hpairs : ∀ q ∈ [(2, 2), (3, 3), (4, 4), (5, 5), (7, 7), (6, 8), (8, 6)],
          1 ≤ q.1 ∧ q.1 ≤ 8 ∧ 1 ≤ q.2 ∧ q.2 ≤ 8 ∧ compose q.1 q.2 = 1 := by decide
      obtain ⟨ho, ho', hp, hp', hone⟩ := hpairs (o, o') hmem
      rw [orient_orient h hsize ho ho' hp hp', hone]
      rfl

/-- Two pixels side by side. -/
def twoPixels : Image := ⟨2, 1, 1, [10, 20]⟩

theorem lossless_iff_twoPixels :
    Lossless twoPixels ↔ twoPixels.width * twoPixels.height * twoPixels.channels < 2 ^ 32 :=
  lossless_iff ⟨by decide, by decide, by decide, by decide⟩

/-- The buffer for an image of 65536 times 65537 pixels has 65536 bytes. -/
theorem large_notLossless : ¬ ∀ img : Image, img.Sound → Lossless img := by
  intro h
  have hsound : (⟨65536, 65537, 1, List.replicate (65536 * 65537) 0⟩ : Image).Sound := by
    refine ⟨by decide, by decide, le_rfl, ?_⟩
    rw [List.length_replicate, Nat.mul_one]
  obtain ⟨out, hrotate, -⟩ := (h _ hsound).permutes 2 le_rfl (by decide)
  exact absurd (size_lt_of_rotate hsound le_rfl (by decide) hrotate) (by decide)

end AmmarServer.BasicImaging
