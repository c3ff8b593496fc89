import AmmarServer.BasicImaging.MarkerWalk

/-! The directory of a TIFF block, and what is read of the orientation in it. A value is read as if it
were a long one, and a block that is too short for an entry is read behind its end. -/

namespace AmmarServer.Exif

/-! Blocks. -/

/-- The twelve bytes of an entry. A short value stands in the first two bytes of the value field. -/
structure Entry where
  tag0 : UInt8
  tag1 : UInt8
  type0 : UInt8
  type1 : UInt8
  count0 : UInt8
  count1 : UInt8
  count2 : UInt8
  count3 : UInt8
  value0 : UInt8
  value1 : UInt8
  pad0 : UInt8
  pad1 : UInt8
deriving DecidableEq, Repr

namespace Entry

def bytes (e : Entry) : List UInt8 :=
  [e.tag0, e.tag1, e.type0, e.type1, e.count0, e.count1, e.count2, e.count3, e.value0, e.value1,
    e.pad0, e.pad1]

variable (littleEndian : Bool) (e : Entry)

def isOrientation : Bool :=
  decide (short littleEndian e.tag0 e.tag1 = 0x0112 ∧ short littleEndian e.type0 e.type1 = 3 ∧
    long littleEndian e.count0 e.count1 e.count2 e.count3 = 1)

def value : ℕ := short littleEndian e.value0 e.value1

/-- What stands behind the value. -/
def pad : ℕ := short littleEndian e.pad0 e.pad1

/-- The value reads the same as a long one, for what is an orientation. -/
def ReadsAsLong : Prop :=
  if littleEndian then 1 ≤ e.value littleEndian ∧ e.value littleEndian ≤ 8 → e.pad littleEndian = 0
  else ¬ (1 ≤ e.value littleEndian ∧ e.value littleEndian ≤ 8) ∧
    ¬ (e.value littleEndian = 0 ∧ 1 ≤ e.pad littleEndian ∧ e.pad littleEndian ≤ 8)

end Entry

/-- A value that is an orientation, and 0 for others. -/
def inRange (value : ℕ) : ℕ := if 1 ≤ value ∧ value ≤ 8 then value else 0

/-- The orientation that a directory stores. -/
def stored (littleEndian : Bool) (entries : List Entry) : ℕ :=
  match entries.find? (Entry.isOrientation littleEndian) with
  | none => 0
  | some e => inRange (e.value littleEndian)

def mark (littleEndian : Bool) : UInt8 := if littleEndian then 73 else 77

/-- A block with a header, and the number of entries and all the bytes behind it where its offset
leads to. -/
def Directory (littleEndian : Bool) (tiff : List UInt8) (count : ℕ) (behind : List UInt8) : Prop :=
  ∃ m0 m1 o0 o1 o2 o3 n0 n1 rest,
    tiff = mark littleEndian :: mark littleEndian :: m0 :: m1 :: o0 :: o1 :: o2 :: o3 :: rest ∧
    short littleEndian m0 m1 = 42 ∧
    tiff.drop (long littleEndian o0 o1 o2 o3) = n0 :: n1 :: behind ∧
    short littleEndian n0 n1 = count

def WellFormed (littleEndian : Bool) (entries : List Entry) (tiff : List UInt8) : Prop :=
  ∃ behind, Directory littleEndian tiff entries.length (entries.flatMap Entry.bytes ++ behind)

/-- A directory that declares entries in a block without bytes enough for one. -/
def TooShort (tiff : List UInt8) : Prop :=
  tiff.length < 12 ∧ ∃ littleEndian count behind,
    Directory littleEndian tiff count behind ∧ count ≠ 0

/-- The block of the first Exif segment of a JPEG file. -/
def ExifBlock (file : File) (tiff : List UInt8) : Prop :=
  ∃ rest, file.data = 0xFF :: 0xD8 :: rest ∧ FirstExif rest tiff

/-- The walks stay within the file and the block, and the orientation is what a well-formed block
stores. -/
def Exact (file : File) : Prop :=
  (∃ orientation, readEXIFOrientation file = .ok orientation) ∧
    ∀ tiff littleEndian entries, ExifBlock file tiff → WellFormed littleEndian entries tiff →
      readEXIFOrientation file = .ok (stored littleEndian entries)

/-! The entries. -/

section Entries
variable {tiff : List UInt8} {pos : ℕ}

/-- The value as it is read. -/
def read (littleEndian : Bool) (entries : List Entry) : ℕ :=
  match entries.find? (Entry.isOrientation littleEndian) with
  | none => 0
  | some e => inRange (long littleEndian e.value0 e.value1 e.pad0 e.pad1)

theorem ifd0Entries_entry {e : Entry} {behind : List UInt8} (hlong : tiff.length < 2 ^ 64)
    (h : tiff.drop pos = e.bytes ++ behind) (hroom : 12 ≤ tiff.length) (littleEndian : Bool)
    (entries : ℕ) :
    ifd0Entries tiff littleEndian (entries + 1) pos =
      if e.isOrientation littleEndian then
        .ok (inRange (long littleEndian e.value0 e.value1 e.pad0 e.pad1))
      else ifd0Entries tiff littleEndian entries (pos + 12) := by
  have hcount := congrArg List.length h
  rw [List.length_drop, List.length_append] at hcount
  have hbytes : e.bytes.length = 12 := rfl
  have hinside : ¬ minus tiff.length 12 < pos := by
    rw [minus_eq hroom hlong]
    omega
  have htype : tiff.drop (pos + 2) = _ := @drop_behind _ _ [e.tag0, e.tag1] _ h
  have hnumber : tiff.drop (pos + 4) = _ :=
    @drop_behind _ _ [e.tag0, e.tag1, e.type0, e.type1] _ h
  have hvalue : tiff.drop (pos + 8) = _ := @drop_behind _ _ [e.tag0, e.tag1, e.type0, e.type1,
    e.count0, e.count1, e.count2, e.count3] _ h
  rw [ifd0Entries, if_neg hinside, exifGet16_drop h, ok_bind, exifGet16_drop htype, ok_bind,
    exifGet32_drop hnumber, ok_bind, exifGet32_drop hvalue, ok_bind]
  unfold Entry.isOrientation inRange
  simp only [decide_eq_true_eq]
  split
  · split
    · rfl
    · rfl
  · rfl

theorem ifd0Entries_wellFormed {entries : List Entry} {behind : List UInt8}
    (hlong : tiff.length < 2 ^ 64) (hroom : 12 ≤ tiff.length ∨ entries = [])
    (h : tiff.drop pos = entries.flatMap Entry.bytes ++ behind) (littleEndian : Bool) :
    ifd0Entries tiff littleEndian entries.length pos = .ok (read littleEndian entries) := by
  induction entries generalizing pos with
  | nil => rfl
  | cons e entries ih =>
    have hroom := hroom.resolve_right (List.cons_ne_nil _ _)
    rw [List.flatMap_cons, List.append_assoc] at h
    rw [List.length_cons, ifd0Entries_entry hlong h hroom, read, List.find?_cons]
    cases e.isOrientation littleEndian with
    | true => rfl
    | false => exact ih (.inl hroom) (drop_behind h)

/-- The walk stays within a block that has room for an entry. -/
theorem ifd0Entries_inside (hlong : tiff.length < 2 ^ 64) (hroom : 12 ≤ tiff.length)
    (littleEndian : Bool) (entries : ℕ) :
    ∃ orientation, ifd0Entries tiff littleEndian entries pos = .ok orientation := by
  induction entries generalizing pos with
  | zero => exact ⟨0, rfl⟩
  | succ entries ih =>
    by_cases hinside : minus tiff.length 12 < pos
    · exact ⟨0, by rw [ifd0Entries, if_pos hinside, pure_ok]⟩
    · rw [minus_eq hroom hlong] at hinside
      obtain ⟨front, behind, hdrop, hlength⟩ := exists_drop (show pos + 12 ≤ tiff.length by omega)
      obtain ⟨e, rfl⟩ : ∃ e : Entry, front = e.bytes := by
        match front, hlength with
        | [a, b, c, d, e, f, g, h, i, j, k, l], _ => exact ⟨⟨a, b, c, d, e, f, g, h, i, j, k, l⟩, rfl⟩
      rw [ifd0Entries_entry hlong hdrop hroom]
      cases e.isOrientation littleEndian with
      | true => exact ⟨_, rfl⟩
      | false => exact ih

theorem byteAt_cases (p : ℕ) :
    (∃ byte, byteAt tiff p = .ok byte) ∨ byteAt tiff p = .error .outOfBounds := by
  unfold byteAt
  cases tiff[p]? with
  | none => exact .inr rfl
  | some byte => exact .inl ⟨byte, rfl⟩

theorem exifGet16_cases (p : ℕ) (littleEndian : Bool) :
    (∃ n, exifGet16 tiff p littleEndian = .ok n) ∨
      exifGet16 tiff p littleEndian = .error .outOfBounds := by
  unfold exifGet16
  rcases @byteAt_cases tiff p with ⟨p0, h0⟩ | h0
  · rcases @byteAt_cases tiff (p + 1) with ⟨p1, h1⟩ | h1
    · rw [h0, h1]
      cases littleEndian with
      | true => exact .inl ⟨_, rfl⟩
      | false => exact .inl ⟨_, rfl⟩
    · rw [h0, h1]
      exact .inr rfl
  · rw [h0]
    exact .inr rfl

theorem exifGet32_outside {p : ℕ} (hlt : tiff.length < p + 4) (littleEndian : Bool) :
    exifGet32 tiff p littleEndian = .error .outOfBounds := by
  have hlast : byteAt tiff (p + 3) = .error .outOfBounds := by
    unfold byteAt
    rw [List.getElem?_eq_none (by omega)]
  unfold exifGet32
  rcases @byteAt_cases tiff p with ⟨p0, h0⟩ | h0
  · rcases @byteAt_cases tiff (p + 1) with ⟨p1, h1⟩ | h1
    · rcases @byteAt_cases tiff (p + 2) with ⟨p2, h2⟩ | h2
      · rw [h0, h1, h2, hlast]
        rfl
      · rw [h0, h1, h2]
        rfl
    · rw [h0, h1]
      rfl
  · rw [h0]
    rfl

/-- The walk leaves a block that is too short for an entry. -/
theorem ifd0Entries_outside (hpos : 2 ≤ pos) (hle : pos ≤ tiff.length) (hshort : tiff.length < 12)
    (littleEndian : Bool) (entries : ℕ) :
    ifd0Entries tiff littleEndian (entries + 1) pos = .error .outOfBounds := by
  have hwraps : ¬ minus tiff.length 12 < pos := by
    unfold minus
    omega
  rw [ifd0Entries, if_neg hwraps, exifGet32_outside (show tiff.length < pos + 8 + 4 by omega)]
  rcases @exifGet16_cases tiff pos littleEndian with ⟨tag, htag⟩ | htag
  · rcases @exifGet16_cases tiff (pos + 2) littleEndian with ⟨type, htype⟩ | htype
    · rw [htag, htype, ok_bind, ok_bind]
      by_cases hnumber : pos + 8 ≤ tiff.length
      · obtain ⟨front, behind, hdrop, hlength⟩ :=
          exists_drop (show pos + 4 + 4 ≤ tiff.length by omega)
        match front, hlength with
        | [c0, c1, c2, c3], _ =>
          rw [exifGet32_drop hdrop]
          rfl
      · rw [exifGet32_outside (show tiff.length < pos + 4 + 4 by omega)]
        rfl
    · rw [htag, htype]
      rfl
  · rw [htag]
    rfl

end Entries

/-! The block. -/

section Block
variable {tiff : List UInt8}

theorem byteOrder_mark (littleEndian : Bool) :
    byteOrder (mark littleEndian) (mark littleEndian) = some littleEndian := by
  cases littleEndian with
  | true => rfl
  | false => rfl

theorem byteOrder_eq_some {tiff0 tiff1 : UInt8} {littleEndian : Bool}
    (h : byteOrder tiff0 tiff1 = some littleEndian) :
    tiff0 = mark littleEndian ∧ tiff1 = mark littleEndian := by
  unfold byteOrder at h
  split at h
  · cases h
    assumption
  · split at h
    · cases h
      assumption
    · cases h

theorem parse_directory {littleEndian : Bool} {count : ℕ} {behind : List UInt8}
    (hlong : tiff.length < 2 ^ 64) (h : Directory littleEndian tiff count behind) :
    ∃ pos, 2 ≤ pos ∧ pos ≤ tiff.length ∧ tiff.drop pos = behind ∧
      parseEXIFTIFFOrientation tiff = ifd0Entries tiff littleEndian count pos := by
  obtain ⟨m0, m1, o0, o1, o2, o3, n0, n1, rest, hheader, hmagic, hdrop, hcount⟩ := h
  have height : ¬ tiff.length < 8 := by
    rw [hheader]
    simp only [List.length_cons]
    omega
  have h1 : tiff.drop 1 = _ := @drop_behind _ 0 [mark littleEndian] _ hheader
  have h2 : tiff.drop 2 = _ :=
    @drop_behind _ 0 [mark littleEndian, mark littleEndian] _ hheader
  have h4 : tiff.drop 4 = _ :=
    @drop_behind _ 0 [mark littleEndian, mark littleEndian, m0, m1] _ hheader
  have hlength := congrArg List.length hdrop
  simp only [List.length_drop, List.length_cons] at hlength
  have hinside : ¬ minus tiff.length 2 < long littleEndian o0 o1 o2 o3 := by
    rw [minus_eq (by omega) hlong]
    omega
  refine ⟨long littleEndian o0 o1 o2 o3 + 2, Nat.le_add_left _ _, by omega,
    @drop_behind _ _ [n0, n1] _ hdrop, ?_⟩
  unfold parseEXIFTIFFOrientation
  rw [if_neg height, byteAt_drop (p := 0) hheader, ok_bind, byteAt_drop h1, ok_bind,
    byteOrder_mark]
  dsimp only
  rw [exifGet16_drop h2, ok_bind, hmagic, if_neg (fun hne => hne rfl), exifGet32_drop h4, ok_bind,
    if_neg hinside, exifGet16_drop hdrop, ok_bind, hcount]

theorem parse_cases (hlong : tiff.length < 2 ^ 64) :
    parseEXIFTIFFOrientation tiff = .ok 0 ∨
      ∃ littleEndian count behind, Directory littleEndian tiff count behind := by
  by_cases height : tiff.length < 8
  · exact .inl (by rw [parseEXIFTIFFOrientation, if_pos height, pure_ok])
  obtain ⟨front, rest, hdrop, hlength⟩ := exists_drop (p := 0) (show 0 + 8 ≤ tiff.length by omega)
  match front, hlength with
  | [t0, t1, m0, m1, o0, o1, o2, o3], _ =>
    have h1 : tiff.drop 1 = _ := @drop_behind _ 0 [t0] _ hdrop
    have h2 : tiff.drop 2 = _ := @drop_behind _ 0 [t0, t1] _ hdrop
    have h4 : tiff.drop 4 = _ := @drop_behind _ 0 [t0, t1, m0, m1] _ hdrop
    unfold parseEXIFTIFFOrientation
    rw [if_neg height, byteAt_drop hdrop, ok_bind, byteAt_drop h1, ok_bind]
    cases horder : byteOrder t0 t1 with
    | none => exact .inl rfl
    | some littleEndian =>
      obtain ⟨rfl, rfl⟩ := byteOrder_eq_some horder
      dsimp only
      rw [exifGet16_drop h2, ok_bind]
      by_cases hmagic : short littleEndian m0 m1 = 42
      · rw [if_neg (fun hne => hne hmagic), exifGet32_drop h4, ok_bind]
        by_cases hinside : minus tiff.length 2 < long littleEndian o0 o1 o2 o3
        · exact .inl (if_pos hinside)
        · rw [minus_eq (by omega) hlong] at hinside
          obtain ⟨number, behind, hnumber, htwo⟩ :=
            exists_drop (show long littleEndian o0 o1 o2 o3 + 2 ≤ tiff.length by omega)
          match number, htwo with
          | [n0, n1], _ =>
            exact .inr ⟨littleEndian, _, behind, m0, m1, o0, o1, o2, o3, n0, n1, rest, hdrop,
              hmagic, hnumber, rfl⟩
      · exact .inl (if_pos hmagic)

/-- A block is read within its bounds unless it is too short. -/
theorem parse_inside_iff (hlong : tiff.length < 2 ^ 64) :
    (∃ orientation, parseEXIFTIFFOrientation tiff = .ok orientation) ↔ ¬ TooShort tiff := by
  constructor
  · rintro ⟨orientation, hok⟩ ⟨hshort, littleEndian, count, behind, hdirectory, hcount⟩
    obtain ⟨pos, hpos, hle, -, hparse⟩ := parse_directory hlong hdirectory
    obtain ⟨entries, rfl⟩ := Nat.exists_eq_succ_of_ne_zero hcount
    rw [hparse, ifd0Entries_outside hpos hle hshort] at hok
    cases hok
  · intro hfits
    rcases parse_cases hlong with hnone | ⟨littleEndian, count, behind, hdirectory⟩
    · exact ⟨0, hnone⟩
    obtain ⟨pos, -, -, -, hparse⟩ := parse_directory hlong hdirectory
    rw [hparse]
    by_cases hroom : 12 ≤ tiff.length
    · exact ifd0Entries_inside hlong hroom littleEndian count
    · cases count with
      | zero => exact ⟨0, rfl⟩
      | succ count =>
        exact absurd ⟨Nat.not_le.mp hroom, _, _, _, hdirectory, Nat.succ_ne_zero _⟩ hfits

theorem parse_wellFormed {littleEndian : Bool} {entries : List Entry} (hlong : tiff.length < 2 ^ 64)
    (h : WellFormed littleEndian entries tiff) :
    parseEXIFTIFFOrientation tiff = .ok (read littleEndian entries) := by
  obtain ⟨behind, hdirectory⟩ := h
  obtain ⟨pos, hpos, hle, hdrop, hparse⟩ := parse_directory hlong hdirectory
  rw [hparse]
  refine ifd0Entries_wellFormed hlong ?_ hdrop littleEndian
  cases entries with
  | nil => exact .inr rfl
  | cons e entries =>
    left
    have hlength := congrArg List.length hdrop
    rw [List.length_drop, List.flatMap_cons, List.append_assoc, List.length_append] at hlength
    have hbytes : e.bytes.length = 12 := rfl
    omega

end Block

theorem inRange_long_iff (littleEndian : Bool) (e : Entry) :
    inRange (long littleEndian e.value0 e.value1 e.pad0 e.pad1) = inRange (e.value littleEndian) ↔
      e.ReadsAsLong littleEndian := by
  cases littleEndian with
  | true =>
    change inRange (e.value true + 65536 * e.pad true) = inRange (e.value true) ↔
      (1 ≤ e.value true ∧ e.value true ≤ 8 → e.pad true = 0)
    generalize e.value true = value
    generalize e.pad true = pad
    unfold inRange
    split <;> split <;> omega
  | false =>
    have hpad : e.pad false < 65536 := short_lt false e.pad0 e.pad1
    change inRange (65536 * e.value false + e.pad false) = inRange (e.value false) ↔
      (¬ (1 ≤ e.value false ∧ e.value false ≤ 8) ∧
        ¬ (e.value false = 0 ∧ 1 ≤ e.pad false ∧ e.pad false ≤ 8))
    revert hpad
    generalize e.value false = value
    generalize e.pad false = pad
    intro hpad
    unfold inRange
    split <;> split <;> omega

/-! Files. -/

theorem FirstExif.length_le {rest tiff : List UInt8} (h : FirstExif rest tiff) :
    tiff.length ≤ rest.length := by
  induction h with
  | exif htiff hlength =>
    simp only [List.length_append, List.length_cons]
    omega
  | standalone hmarker h ih =>
    rw [List.length_append]
    omega
  | segment hfill hlast hmarker hlength hexif h ih =>
    rw [List.length_append]
    omega

theorem FirstExif.length_gt {rest tiff : List UInt8} (h : FirstExif rest tiff) :
    2 ≤ rest.length := by
  cases h with
  | exif =>
    rw [List.length_append, List.length_append, length_markerBytes]
    omega
  | standalone =>
    rw [List.length_append, length_markerBytes]
    omega
  | segment =>
    rw [List.length_append, List.length_append, length_markerBytes]
    omega

theorem ExifBlock.length_lt {file : File} {tiff : List UInt8} (h : ExifBlock file tiff) :
    tiff.length < 2 ^ 64 := by
  obtain ⟨rest, hdata, hfirst⟩ := h
  have hle := hfirst.length_le
  have hfile := congrArg List.length hdata
  have hsize := file.size_lt
  simp only [List.length_cons] at hfile
  omega

/-- A file is read as its Exif block, or has none. -/
theorem readEXIFOrientation_cases (file : File) :
    (readEXIFOrientation file = .ok 0 ∧ ∀ tiff, ¬ ExifBlock file tiff) ∨
      ∃ tiff, ExifBlock file tiff ∧ readEXIFOrientation file = parseEXIFTIFFOrientation tiff ∧
        ∀ other, ExifBlock file other → other = tiff := by
  have hlong := file.size_lt
  by_cases hfour : file.data.length < 4
  · refine .inl ⟨by rw [readEXIFOrientation, if_pos hfour, pure_ok], ?_⟩
    rintro tiff ⟨rest, hdata, hfirst⟩
    have hlength := congrArg List.length hdata
    have hfive := hfirst.length_gt
    simp only [List.length_cons] at hlength
    omega
  obtain ⟨front, rest, hdrop, hlength⟩ :=
    @exists_drop file.data 0 _ (show 0 + 2 ≤ file.data.length by omega)
  obtain ⟨data0, data1, rfl⟩ := List.length_eq_two.mp hlength
  have h1 : file.data.drop 1 = _ := @drop_behind _ 0 [data0] _ hdrop
  have h2 : file.data.drop 2 = rest := @drop_behind _ 0 [data0, data1] _ hdrop
  have hread : readEXIFOrientation file =
      if data0 = 0xFF ∧ data1 = 0xD8 then
        findExif file.data file.data.length 2 >>= fun found =>
          found.elim (pure 0) parseEXIFTIFFOrientation
      else pure 0 := by
    rw [readEXIFOrientation, if_neg hfour, byteAt_drop hdrop, ok_bind, byteAt_drop h1, ok_bind]
    refine congrArg (fun read => if data0 = 0xFF ∧ data1 = 0xD8 then
      findExif file.data file.data.length 2 >>= read else pure 0) (funext fun found => ?_)
    cases found with
    | none => rfl
    | some tiff => rfl
  by_cases hsoi : data0 = 0xFF ∧ data1 = 0xD8
  · rw [if_pos hsoi] at hread
    obtain ⟨rfl, rfl⟩ := hsoi
    obtain ⟨found, hfound, hsound⟩ :=
      findExif_sound (by omega) hlong file.data.length 2 (by omega)
    have hcomplete : ∀ tiff, ExifBlock file tiff → found = some tiff := by
      rintro tiff ⟨rest', hdata, hfirst⟩
      have hrest : file.data.drop 2 = rest' := congrArg (List.drop 2) hdata
      exact Except.ok.inj (hfound.symm.trans
        (findExif_complete (by omega) hlong hfirst _ 2 hrest (by omega)))
    rw [hfound, ok_bind] at hread
    cases found with
    | none => exact .inl ⟨hread, fun tiff h => (by cases hcomplete tiff h)⟩
    | some tiff =>
      refine .inr ⟨tiff, ⟨rest, hdrop, ?_⟩, hread, fun other h => ?_⟩
      · rw [← h2]
        exact hsound tiff rfl
      · exact (Option.some.inj (hcomplete other h)).symm
  · rw [if_neg hsoi] at hread
    refine .inl ⟨hread, ?_⟩
    rintro tiff ⟨rest', hdata, -⟩
    have hsame : data0 :: data1 :: rest = 0xFF :: 0xD8 :: rest' := hdrop.symm.trans hdata
    obtain ⟨h0, htail⟩ := List.cons.inj hsame
    exact hsoi ⟨h0, (List.cons.inj htail).1⟩

/-- What is read of a file is exact where its Exif block has room for the entries that it declares,
and the value that it stores reads the same as a long one. -/
theorem orientation_exact_iff (file : File) :
    Exact file ↔ ∀ tiff, ExifBlock file tiff → ¬ TooShort tiff ∧
      ∀ littleEndian entries e, WellFormed littleEndian entries tiff →
        entries.find? (Entry.isOrientation littleEndian) = some e → e.ReadsAsLong littleEndian := by
  have hread : ∀ littleEndian entries, read littleEndian entries = stored littleEndian entries ↔
      ∀ e, entries.find? (Entry.isOrientation littleEndian) = some e →
        e.ReadsAsLong littleEndian := by
    intro littleEndian entries
    unfold read stored
    cases hfind : entries.find? (Entry.isOrientation littleEndian) with
    | none => exact iff_of_true rfl fun e he => (by cases he)
    | some e =>
      rw [inRange_long_iff]
      exact ⟨by rintro h _ ⟨⟩; exact h, fun h => h e rfl⟩
  rcases readEXIFOrientation_cases file with ⟨hok, hnone⟩ | ⟨tiff, hblock, hparse, hunique⟩
  · exact iff_of_true ⟨⟨0, hok⟩, fun tiff _ _ h => absurd h (hnone tiff)⟩
      fun tiff h => absurd h (hnone tiff)
  have hlong := hblock.length_lt
  unfold Exact
  rw [hparse, parse_inside_iff hlong]
  constructor
  · rintro ⟨hfits, hexact⟩ other hother
    obtain rfl := hunique other hother
    refine ⟨hfits, fun littleEndian entries e hformed => ?_⟩
    have h := hexact other littleEndian entries hother hformed
    rw [parse_wellFormed hlong hformed] at h
    exact (hread littleEndian entries).mp (Except.ok.inj h) e
  · intro h
    refine ⟨(h tiff hblock).1, fun other littleEndian entries hother hformed => ?_⟩
    obtain rfl := hunique other hother
    rw [parse_wellFormed hlong hformed]
    exact congrArg _ ((hread littleEndian entries).mpr fun e =>
      (h other hother).2 littleEndian entries e hformed)

/-- A big-endian block with the orientation 6. -/
def portraitBlock : List UInt8 :=
  [77, 77, 0, 42, 0, 0, 0, 8, 0, 1, 1, 18, 0, 3, 0, 0, 0, 1, 0, 6, 0, 0]

def portrait : File where
  data := 0xFF :: 0xD8 :: (markerBytes 0 0xE1 ++ 0 :: 30 :: (exifHeader ++ portraitBlock) ++
    [0xFF, 0xD9])
  size_lt := Nat.lt_of_lt_of_le (m := 2 ^ 6) (by decide)
    (Nat.pow_le_pow_right (by decide) (by decide))

theorem portrait_notExact : ¬ ∀ file, Exact file := by
  intro h
  have hblock : ExifBlock portrait portraitBlock :=
    ⟨_, rfl, .exif (by decide) (by unfold IsLength; decide)⟩
  have hformed : WellFormed false [⟨1, 18, 0, 3, 0, 0, 0, 1, 0, 6, 0, 0⟩] portraitBlock :=
    ⟨[], 0, 42, 0, 0, 0, 8, 0, 1, _, rfl, rfl, rfl, rfl⟩
  have hsix := (h portrait).2 _ _ _ hblock hformed
  rcases readEXIFOrientation_cases portrait with ⟨-, hnone⟩ | ⟨tiff, -, hparse, hunique⟩
  · exact hnone _ hblock
  · obtain rfl := hunique _ hblock
    rw [hparse, parse_wellFormed hblock.length_lt hformed] at hsix
    have hread : read false [⟨1, 18, 0, 3, 0, 0, 0, 1, 0, 6, 0, 0⟩] = 6 := Except.ok.inj hsix
    revert hread
    decide

end AmmarServer.Exif
