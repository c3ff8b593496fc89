import AmmarServer.Lib.CBuffer
import Mathlib.Data.List.DropRight

/-! The functions of `tools/http_tools.c` that rewrite a request target where it stands, as loops over
the character array, and the strings they leave in it. -/

namespace AmmarServer
open CString

def MAX_RESOURCE_SLASHES : Nat := 15

/-! ## As the source has them -/

/-- The loop of `ReducePathSlashes_Inplace` over the slashes behind one; the new `offset`. -/
def countSlashes (filename : List UInt8) (length : Nat) : Nat → Nat → Nat → Nat
  | 0, _, offset => offset
  | fuel + 1, z, offset =>
    if z < length ∧ charAt filename z = 47 then
      countSlashes filename length fuel (z + 1) (offset + 1)
    else offset

/-- The main loop of `ReducePathSlashes_Inplace`. The test for `z` that moves past the first slash
never holds, as `offset` has grown with `z`. -/
def reduceSlashesLoop (length : Nat) : Nat → Nat → Nat → List UInt8 → List UInt8 × Nat
  | 0, _, offset, filename => (filename, offset)
  | fuel + 1, i, offset, filename =>
    if i + offset < length then
      let slashed := charAt filename (i + offset) = 47
      let z := i + offset + 1
      let grown := if slashed then countSlashes filename length length z offset else offset
      let i := if slashed ∧ z + (grown - offset) > i + grown + 1 then i + 1 else i
      let filename := if grown > 0 ∧ i + grown < length then
          filename.set i (charAt filename (i + grown))
        else filename
      reduceSlashesLoop length fuel (i + 1) grown filename
    else (filename, offset)

/-- `ReducePathSlashes_Inplace`. -/
def reducePathSlashesInplace (filename : List UInt8) : List UInt8 :=
  let length := strlen filename
  let (filename, offset) := reduceSlashesLoop length length 0 0 filename
  if offset > 0 then filename.set (length - offset) 0 else filename

/-- The loop of `StripGETRequestQueryAndFragment`: where it stops, and `fragment_pos`. -/
def queryScan (request : List UInt8) (length : Nat) : Nat → Nat → Nat → Nat × Nat
  | 0, i, fragmentPos => (i, fragmentPos)
  | fuel + 1, i, fragmentPos =>
    if i < length ∧ charAt request i ≠ 63 then
      queryScan request length fuel (i + 1) (if charAt request i = 35 then i else fragmentPos)
    else (i, fragmentPos)

/-- `StripGETRequestQueryAndFragment`: whether a query was cut off, and the array. -/
def stripGETRequestQueryAndFragment (request : List UInt8) (maxQueryLength : Nat) :
    Bool × List UInt8 :=
  let length := strlen request
  if length = 0 then (false, request)
  else
    let length := if length > maxQueryLength then maxQueryLength else length
    let (i, fragmentPos) := queryScan request length length 0 length
    let request := if fragmentPos < length then request.set fragmentPos 0 else request
    if i = length then (false, request)
    else if i + 1 ≥ length then (false, request)
    else (true, request.set i 0)

def escapeDigit (c : UInt8) : Option UInt8 :=
  if 48 ≤ c ∧ c ≤ 57 then some (c - 48)
  else if 97 ≤ c ∧ c ≤ 102 then some (10 + (c - 97))
  else if 65 ≤ c ∧ c ≤ 70 then some (10 + (c - 65))
  else none

/-- The byte that `%AB` stands for; `none` is `sec_byte`. -/
def escapedByte (enableSecurity : Bool) (a b : UInt8) : Option UInt8 :=
  match escapeDigit a, escapeDigit b with
  | some x, some y =>
    let asciiVal := x * 16 + y
    if enableSecurity ∧ (asciiVal < 32 ∨ asciiVal > 126) then none else some asciiVal
  | _, _ => none

/-- The loop of `StripHTMLCharacters_Inplace`. -/
def stripHTMLLoop (enableSecurity : Bool) (length : Nat) :
    Nat → Nat → Nat → List UInt8 → List UInt8 × Nat × Nat
  | 0, i, offset, filename => (filename, i, offset)
  | fuel + 1, i, offset, filename =>
    if i < length then
      let at' := i + offset
      let (filename, offset) :=
        if charAt filename at' = 37 ∧ at' < length - 2 then
          match escapedByte enableSecurity (charAt filename (at' + 1))
              (charAt filename (at' + 2)) with
          | none => (filename.set i 95, offset)
          | some asciiVal => (filename.set i asciiVal, offset + 2)
        else (filename, offset)
      let i := i + 1
      let filename := if offset ≠ 0 then filename.set i (charAt filename (i + offset)) else filename
      stripHTMLLoop enableSecurity length fuel i offset filename
    else (filename, i, offset)

def muteAt (filename : List UInt8) (i : Nat) : List UInt8 :=
  if charAt filename i = 37 then filename.set i 95 else filename

/-- `StripHTMLCharacters_Inplace`. -/
def stripHTMLCharactersInplace (filename : List UInt8) (enableSecurity : Bool) : List UInt8 :=
  let length := strlen filename
  let filename := if length = 1 then muteAt filename 0 else filename
  let filename := if length = 2 then muteAt (muteAt filename 0) 1 else filename
  if length ≤ 2 then filename
  else
    let (filename, i, offset) := stripHTMLLoop enableSecurity length length 0 0 filename
    if offset ≠ 0 then filename.set i 0 else filename

/-- The loop of `FilenameStripperOk`, from index `i` down to 1. A `char` is signed, so a byte from
128 on compares below a blank. -/
def filenameStripperLoop (filename : List UInt8) : Nat → Nat → Bool
  | 0, _ => true
  | i + 1, slashes =>
    let c := charAt filename (i + 1)
    if c < 32 ∨ c ≥ 128 ∨ c > 126 then false
    else if c = 47 then
      if slashes + 1 > MAX_RESOURCE_SLASHES then false
      else filenameStripperLoop filename i (slashes + 1)
    else if c = 92 then false
    else if c = 46 ∧ charAt filename i = 46 then false
    else filenameStripperLoop filename i slashes

/-- `FilenameStripperOk`. -/
def filenameStripperOk (filename : List UInt8) : Bool :=
  let length := strlen filename
  if length = 0 then false else filenameStripperLoop filename (length - 1) 0

/-! ## Slashes -/

/-- A path with each run of slashes written as one. -/
def collapseSlashes : List UInt8 → List UInt8
  | [] => []
  | c :: rest =>
    if c = 47 ∧ rest.head? = some 47 then collapseSlashes rest else c :: collapseSlashes rest

theorem collapseSlashes_run {rest : List UInt8} (n : Nat) (h : rest.head? ≠ some 47) :
    collapseSlashes (47 :: (List.replicate n 47 ++ rest)) = 47 :: collapseSlashes rest := by
  induction n with
  | zero => simp [collapseSlashes, h]
  | succ n ih =>
    rw [List.replicate_succ, List.cons_append, collapseSlashes]
    simpa using ih

theorem zero_notMem_collapseSlashes {s : List UInt8} (h : 0 ∉ s) : 0 ∉ collapseSlashes s := by
  induction s with
  | nil => exact h
  | cons c rest ih =>
    rw [List.mem_cons, not_or] at h
    rw [collapseSlashes]
    split
    · exact ih h.2
    · rw [List.mem_cons, not_or]
      exact ⟨h.1, ih h.2⟩

section Slashes
variable {orig path : List UInt8}

theorem charAt_of_path (hpath : path <+: orig) {i : Nat} (hi : i < path.length) :
    charAt path i = charAt orig i := by
  obtain ⟨rest, rfl⟩ := hpath
  exact (charAt_append_left hi).symm

theorem drop_path (hpath : path <+: orig) {i : Nat} (hi : i < path.length) :
    path.drop i = charAt orig i :: path.drop (i + 1) := by
  rw [List.drop_eq_getElem_cons hi, ← charAt_of_path hpath hi, charAt_eq hi]

theorem countSlashes_spec (hpath : path <+: orig) {filename : List UInt8} {fuel z : Nat} (offset : Nat)
    (hfuel : path.length ≤ z + fuel) (hz : z ≤ path.length)
    (hsame : ∀ j, z ≤ j → charAt filename j = charAt orig j) :
    ∃ k, countSlashes filename path.length fuel z offset = offset + k ∧ z + k ≤ path.length ∧
      path.drop z = List.replicate k 47 ++ path.drop (z + k) ∧
      (path.drop (z + k)).head? ≠ some 47 := by
  induction fuel generalizing z offset with
  | zero =>
    refine ⟨0, rfl, hz, rfl, ?_⟩
    rw [List.drop_of_length_le (by omega)]
    exact fun h => by cases h
  | succ fuel ih =>
    rw [countSlashes]
    split
    · rename_i hslash
      obtain ⟨k, hk, hle, hrun, hend⟩ := @ih (z + 1) (offset + 1) (by omega) (by omega)
        fun j hj => hsame j (by omega)
      rw [hsame z le_rfl] at hslash
      refine ⟨k + 1, by rw [hk]; omega, by omega, ?_, ?_⟩
      · rw [drop_path hpath hslash.1, hslash.2, hrun, List.replicate_succ, List.cons_append,
          Nat.add_right_comm, Nat.add_assoc]
      · rwa [Nat.add_right_comm, Nat.add_assoc] at hend
    · rename_i hnot
      refine ⟨0, rfl, hz, rfl, ?_⟩
      rcases Nat.lt_or_ge z path.length with hlt | hge
      · rw [Nat.add_zero, drop_path hpath hlt, List.head?_cons]
        rintro hslash
        exact hnot ⟨hlt, (hsame z le_rfl).trans (Option.some.inj hslash)⟩
      · rw [List.drop_of_length_le (by omega)]
        exact fun h => by cases h

/-- Of the slashes from `n` on the last one is the next byte to be kept. -/
theorem countSlashes_step (hpath : path <+: orig) {filename : List UInt8} {n : Nat} (offset : Nat)
    (hn : n < path.length) (hsame : ∀ j, n ≤ j → charAt filename j = charAt orig j) :
    ∃ k, (if charAt filename n = 47 then
        countSlashes filename path.length path.length (n + 1) offset else offset) =
          offset + k ∧
      n + k < path.length ∧
      collapseSlashes (path.drop n) =
        charAt orig (n + k) :: collapseSlashes (path.drop (n + k + 1)) := by
  rw [hsame n le_rfl]
  split
  · rename_i hslash
    obtain ⟨k, hk, hle, hrun, hend⟩ := @countSlashes_spec orig path hpath filename path.length (n + 1)
      offset (by omega) (by omega) fun j hj => hsame j (by omega)
    rw [Nat.add_right_comm] at hrun hend
    refine ⟨k, hk, by omega, ?_⟩
    rw [drop_path hpath hn, hslash, hrun, collapseSlashes_run k hend]
    congr 1
    -- the last of the slashes is a slash
    cases k with
    | zero => exact hslash.symm
    | succ k =>
      have hlast := congrArg (fun l => charAt l k) hrun
      simp only [charAt_drop] at hlast
      rw [charAt_append_left (by simp), charAt_of_path hpath (by omega)] at hlast
      rw [Nat.add_comm k 1, ← Nat.add_assoc, hlast]
      simp [charAt]
  · rename_i hslash
    refine ⟨0, rfl, hn, ?_⟩
    rw [drop_path hpath hn, collapseSlashes, if_neg (fun h => hslash h.1)]
    rfl

/-- What the loop has written in front of `i`, and what it has not come to yet. -/
theorem reduceSlashesLoop_spec (hpath : path <+: orig) {fuel i offset : Nat} {filename : List UInt8}
    (hfuel : path.length ≤ i + offset + fuel) (hi : i + offset ≤ path.length)
    (hlength : filename.length = orig.length)
    (hsame : ∀ j, i + offset ≤ j → charAt filename j = charAt orig j)
    (hzero : offset = 0 → filename = orig) :
    ∃ filename' offset', reduceSlashesLoop path.length fuel i offset filename =
        (filename', offset') ∧
      offset' ≤ path.length ∧ filename'.length = orig.length ∧
      (offset' = 0 → filename' = orig) ∧
      (∀ j, path.length ≤ j → charAt filename' j = charAt orig j) ∧
      filename'.take (path.length - offset') =
        filename.take i ++ collapseSlashes (path.drop (i + offset)) := by
  induction fuel generalizing i offset filename with
  | zero =>
    refine ⟨filename, offset, rfl, by omega, hlength, hzero, fun j hj => hsame j (by omega), ?_⟩
    rw [List.drop_of_length_le (by omega), collapseSlashes, List.append_nil]
    congr 1
    omega
  | succ fuel ih =>
    rw [reduceSlashesLoop]
    split
    · rename_i hmore
      obtain ⟨k, hk, hnext, hcollapse⟩ := countSlashes_step hpath offset hmore hsame
      simp only
      rw [hk, if_neg (by omega), hcollapse]
      have hroom : i < filename.length := by
        have hle := hpath.length_le
        omega
      split
      · rename_i hmoved
        obtain ⟨f, o, hloop, hle, hlen, hid, hbehind, htake⟩ := @ih (i + 1) (offset + k)
          (filename.set i (charAt filename (i + (offset + k)))) (by omega) (by omega)
          (by rw [List.length_set]; exact hlength)
          (fun j hj => by rw [charAt_set_of_ne (by omega)]; exact hsame j (by omega))
          (fun hcon => by omega)
        refine ⟨f, o, hloop, hle, hlen, hid, hbehind, ?_⟩
        have hindex : i + 1 + (offset + k) = i + offset + k + 1 := by omega
        rw [htake, take_succ_set hroom, hsame _ (by omega), List.append_assoc, hindex,
          ← Nat.add_assoc]
        rfl
      · rename_i hstays
        obtain ⟨rfl, rfl⟩ : offset = 0 ∧ k = 0 := by omega
        obtain ⟨f, o, hloop, hle, hlen, hid, hbehind, htake⟩ := @ih (i + 1) 0 filename (by omega)
          (by omega) hlength (fun j hj => hsame j (by omega)) hzero
        refine ⟨f, o, hloop, hle, hlen, hid, hbehind, ?_⟩
        rw [htake, take_succ_charAt hroom, hsame _ (by omega), List.append_assoc]
        rfl
    · refine ⟨filename, offset, rfl, by omega, hlength, hzero, fun j hj => hsame j (by omega), ?_⟩
      rw [List.drop_of_length_le (by omega), collapseSlashes, List.append_nil]
      congr 1
      omega

end Slashes

theorem cstring_reducePathSlashesInplace (filename : List UInt8) :
    cstring (reducePathSlashesInplace filename) = collapseSlashes (cstring filename) := by
  obtain ⟨f, offset, hloop, hle, hlength, hid, -, htake⟩ := @reduceSlashesLoop_spec filename
    (cstring filename) (cstring_isPrefix filename) (strlen filename) 0 0 filename (Nat.le_add_left _ _)
    (Nat.zero_le _) rfl (fun _ _ => rfl) (fun _ => rfl)
  rw [← strlen] at hloop hle htake
  rw [List.take_zero, List.nil_append, Nat.add_zero, List.drop_zero] at htake
  have hle' := strlen_le filename
  have hsize : (collapseSlashes (cstring filename)).length = strlen filename - offset := by
    rw [← htake, List.length_take]
    omega
  rw [reducePathSlashesInplace]
  simp only
  rw [hloop]
  simp only
  apply cstring_eq_of_take (zero_notMem_collapseSlashes (zero_notMem_cstring _))
  · rw [hsize]
    split
    · rw [List.take_set_of_le le_rfl, htake]
    · exact htake
  · rw [hsize]
    split
    · exact charAt_set_self (by omega) 0
    · obtain rfl : offset = 0 := by omega
      rw [hid rfl]
      exact charAt_strlen filename

/-! ## Escapes -/

/-- A path with its escapes read once. Where an escape stands for no printable byte its `%` is
muted, and a `%` with fewer than two bytes behind it is none. -/
def percentDecode : List UInt8 → List UInt8
  | [] => []
  | [a] => [a]
  | [a, b] => [a, b]
  | a :: x :: y :: rest =>
    if a = 37 then
      match escapedByte true x y with
      | none => 95 :: percentDecode (x :: y :: rest)
      | some asciiVal => asciiVal :: percentDecode rest
    else a :: percentDecode (x :: y :: rest)

/-- In a path that is too short for an escape every `%` is muted. -/
def decodePath (path : List UInt8) : List UInt8 :=
  if path.length ≤ 2 then path.map fun c => if c = 37 then 95 else c else percentDecode path

theorem escapedByte_printable {a b v : UInt8} (h : escapedByte true a b = some v) :
    32 ≤ v ∧ v ≤ 126 := by
  unfold escapedByte at h
  split at h
  · simp only [true_and] at h
    split at h
    · cases h
    · rename_i hprintable
      obtain rfl := Option.some.inj h
      simp only [not_or, UInt8.not_lt, gt_iff_lt] at hprintable
      exact hprintable
  · cases h

theorem zero_notMem_percentDecode {s : List UInt8} (h : 0 ∉ s) : 0 ∉ percentDecode s := by
  induction s using percentDecode.induct with
  | case1 => exact h
  | case2 a => exact h
  | case3 a b => exact h
  | case4 x y rest hnone ih =>
    rw [percentDecode, if_pos rfl, hnone]
    simp only [List.mem_cons, not_or] at h ⊢
    exact ⟨by decide, by simpa using ih (by simpa using h.2)⟩
  | case5 x y rest asciiVal hsome ih =>
    rw [percentDecode, if_pos rfl, hsome]
    simp only [List.mem_cons, not_or] at h ⊢
    refine ⟨?_, ih h.2.2.2⟩
    rintro rfl
    exact absurd (escapedByte_printable hsome).1 (by decide)
  | case6 a x y rest hne ih =>
    rw [percentDecode, if_neg hne]
    rw [List.mem_cons, not_or] at h ⊢
    exact ⟨h.1, ih h.2⟩

theorem percentDecode_of_length_le {s : List UInt8} (h : s.length ≤ 2) : percentDecode s = s := by
  match s, h with
  | [], _ => rfl
  | [a], _ => rfl
  | [a, b], _ => rfl

theorem percentDecode_cons_of_ne {a : UInt8} (h : a ≠ 37) (rest : List UInt8) :
    percentDecode (a :: rest) = a :: percentDecode rest := by
  match rest with
  | [] => rfl
  | [x] => rfl
  | x :: y :: rest => rw [percentDecode, if_neg h]

section Escapes
variable {orig : List UInt8}

theorem stripHTMLLoop_behind {fuel i offset length : Nat} {filename : List UInt8}
    (hend : length ≤ i + offset) (hfuel : length ≤ i + fuel) (hi : i ≤ length) :
    ∃ filename', stripHTMLLoop true length fuel i offset filename = (filename', length, offset) ∧
      filename'.length = filename.length ∧
      ∀ j ≤ i, charAt filename' j = charAt filename j := by
  induction fuel generalizing i filename with
  | zero =>
    obtain rfl : i = length := by omega
    exact ⟨filename, rfl, rfl, fun _ _ => rfl⟩
  | succ fuel ih =>
    rw [stripHTMLLoop]
    split
    · rename_i hlt
      simp only
      rw [if_neg (fun h => by omega)]
      simp only
      obtain ⟨f, hloop, hlength, hsame⟩ := @ih (i + 1)
        (if offset ≠ 0 then filename.set (i + 1) (charAt filename (i + 1 + offset)) else filename)
        (by omega) (by omega) (by omega)
      refine ⟨f, hloop, ?_, fun j hj => ?_⟩
      · rw [hlength]
        split
        · rw [List.length_set]
        · rfl
      · rw [hsame j (by omega)]
        split
        · exact charAt_set_of_ne (by omega) _
        · rfl
    · obtain rfl : i = length := by omega
      exact ⟨filename, rfl, rfl, fun _ _ => rfl⟩

/-- The byte written at `i` is followed by a copy of the next byte to be read. -/
theorem copied {i offset : Nat} {filename : List UInt8} (hlength : filename.length = orig.length)
    (hsame : ∀ j, i + offset ≤ j → charAt filename j = charAt orig j) :
    let copy := if offset ≠ 0 then filename.set i (charAt filename (i + offset)) else filename
    copy.length = orig.length ∧ copy.take i = filename.take i ∧
      charAt copy i = charAt orig (i + offset) ∧
      ∀ j, i + offset ≤ j → charAt copy j = charAt orig j := by
  simp only
  split
  · refine ⟨by rw [List.length_set]; exact hlength, List.take_set_of_le le_rfl, ?_,
      fun j hj => ?_⟩
    · rw [hsame _ le_rfl]
      rcases Nat.lt_or_ge i filename.length with hlt | hge
      · exact charAt_set_self hlt _
      · rw [charAt_of_length_le (by rw [List.length_set]; exact hge),
          charAt_of_length_le (by omega)]
    · rw [charAt_set_of_ne (by omega)]
      exact hsame j hj
  · rename_i hzero
    obtain rfl : offset = 0 := by omega
    exact ⟨hlength, rfl, hsame i le_rfl, hsame⟩

theorem stripHTML_step {i offset : Nat} {filename : List UInt8}
    (hmore : i + offset < strlen orig) (hlength : filename.length = orig.length)
    (hsame : ∀ j, i + offset ≤ j → charAt filename j = charAt orig j)
    (hcopy : charAt filename i = charAt orig (i + offset)) :
    ∃ written offset' c,
      (if charAt filename (i + offset) = 37 ∧ i + offset < strlen orig - 2 then
          match escapedByte true (charAt filename (i + offset + 1))
              (charAt filename (i + offset + 2)) with
          | none => (filename.set i 95, offset)
          | some asciiVal => (filename.set i asciiVal, offset + 2)
        else (filename, offset)) = (written, offset') ∧
      i + 1 + offset' ≤ strlen orig ∧ written.length = orig.length ∧
      written.take (i + 1) = filename.take i ++ [c] ∧
      (∀ j, i + 1 + offset' ≤ j → charAt written j = charAt orig j) ∧
      percentDecode ((cstring orig).drop (i + offset)) =
        c :: percentDecode ((cstring orig).drop (i + 1 + offset')) := by
  have hroom : i < filename.length := by
    have hle := strlen_le orig
    omega
  have hset : ∀ (c : UInt8) (o : Nat), offset ≤ o → ∀ j, i + 1 + o ≤ j →
      charAt (filename.set i c) j = charAt orig j := by
    intro c o ho j hj
    rw [charAt_set_of_ne (by omega)]
    exact hsame j (by omega)
  have hnext : i + 1 + offset = i + offset + 1 := by omega
  rw [hsame _ le_rfl, hsame _ (by omega), hsame _ (by omega)]
  split
  · rename_i hescape
    have hbehind : (cstring orig).drop (i + offset + 1) =
        charAt orig (i + offset + 1) :: charAt orig (i + offset + 2) ::
          (cstring orig).drop (i + offset + 3) := by
      have hone : i + offset + 1 < strlen orig := by omega
      have htwo : i + offset + 1 + 1 < strlen orig := by omega
      rw [drop_cstring hone, drop_cstring htwo]
    cases hbyte : escapedByte true (charAt orig (i + offset + 1))
        (charAt orig (i + offset + 2)) with
    | none =>
      refine ⟨filename.set i 95, offset, 95, rfl, by omega, ?_, take_succ_set hroom 95,
        hset 95 offset le_rfl, ?_⟩
      · rw [List.length_set]
        exact hlength
      · rw [drop_cstring hmore, hescape.1, hnext, hbehind, percentDecode, if_pos rfl, hbyte]
    | some v =>
      refine ⟨filename.set i v, offset + 2, v, rfl, by omega, ?_, take_succ_set hroom v,
        hset v (offset + 2) (by omega), ?_⟩
      · rw [List.length_set]
        exact hlength
      · have hindex : i + 1 + (offset + 2) = i + offset + 3 := by omega
        rw [drop_cstring hmore, hescape.1, hbehind, percentDecode, if_pos rfl, hbyte, hindex]
  · rename_i hplain
    refine ⟨filename, offset, charAt orig (i + offset), rfl, by omega, hlength, ?_,
      fun j hj => hsame j (by omega), ?_⟩
    · rw [take_succ_charAt hroom, hcopy]
    · rw [hnext]
      by_cases hc : charAt orig (i + offset) = 37
      · -- an escape that the path is too short for
        have hshort : ((cstring orig).drop (i + offset)).length ≤ 2 := by
          rw [List.length_drop, ← strlen]
          by_contra
          exact hplain ⟨hc, by omega⟩
        rw [percentDecode_of_length_le hshort, percentDecode_of_length_le, drop_cstring hmore]
        rw [List.length_drop] at hshort ⊢
        omega
      · rw [drop_cstring hmore, percentDecode_cons_of_ne hc]

theorem stripHTMLLoop_spec {fuel i offset : Nat} {filename : List UInt8}
    (hi : i + offset ≤ strlen orig) (hfuel : strlen orig ≤ i + fuel)
    (hlength : filename.length = orig.length)
    (hsame : ∀ j, i + offset ≤ j → charAt filename j = charAt orig j)
    (hcopy : charAt filename i = charAt orig (i + offset)) :
    ∃ filename' offset', stripHTMLLoop true (strlen orig) fuel i offset filename =
        (filename', strlen orig, offset') ∧
      ∃ written, written = filename.take i ++ percentDecode ((cstring orig).drop (i + offset)) ∧
        written.length ≤ strlen orig ∧ filename'.length = orig.length ∧
        filename'.take written.length = written ∧ charAt filename' written.length = 0 := by
  have hle := strlen_le orig
  induction fuel generalizing i offset filename with
  | zero =>
    obtain ⟨rfl, rfl⟩ : i = strlen orig ∧ offset = 0 := by omega
    refine ⟨filename, 0, rfl, filename.take (strlen orig), ?_, ?_, hlength, ?_, ?_⟩
    · rw [List.drop_of_length_le (by rw [← strlen]; omega), percentDecode, List.append_nil]
    · exact List.length_take_le ..
    all_goals
      rw [List.length_take_of_le (by omega)]
    rw [hcopy]
    exact charAt_strlen orig
  | succ fuel ih =>
    rcases Nat.lt_or_ge (i + offset) (strlen orig) with hmore | hend
    · rw [stripHTMLLoop, if_pos (by omega)]
      obtain ⟨f, o, c, hstep, hbound, hlen, htake, hrest, hdecode⟩ :=
        stripHTML_step hmore hlength hsame hcopy
      simp only
      rw [hstep]
      simp only
      obtain ⟨hlen', htake', hcopy', hrest'⟩ := copied hlen hrest
      obtain ⟨f', o', hloop, written, hwritten, hsize, hlen', hfront, hnul⟩ :=
        ih hbound (by omega) hlen' hrest' hcopy'
      refine ⟨f', o', hloop, written, ?_, hsize, hlen', hfront, hnul⟩
      rw [hwritten, htake', htake, hdecode, List.append_assoc]
      rfl
    · obtain ⟨f, hloop, hlen, hfront⟩ := @stripHTMLLoop_behind (fuel + 1) i offset (strlen orig)
        filename hend hfuel (by omega)
      refine ⟨f, offset, hloop, filename.take i, ?_, ?_, hlen.trans hlength, ?_, ?_⟩
      · rw [List.drop_of_length_le (by rw [← strlen]; omega), percentDecode, List.append_nil]
      · rw [List.length_take]
        omega
      all_goals
        rw [List.length_take_of_le (by omega)]
      · exact take_eq_of_charAt hlen fun j hj => hfront j hj.le
      · obtain hend : i + offset = strlen orig := by omega
        rw [hfront i le_rfl, hcopy, hend]
        exact charAt_strlen orig

end Escapes

theorem zero_notMem_decodePath {s : List UInt8} (h : 0 ∉ s) : 0 ∉ decodePath s := by
  unfold decodePath
  split
  · rw [List.mem_map]
    rintro ⟨c, hc, hzero⟩
    split at hzero
    · cases hzero
    · rw [hzero] at hc
      exact h hc
  · exact zero_notMem_percentDecode h

theorem charAt_muteAt {filename : List UInt8} (i j : Nat) :
    charAt (muteAt filename i) j =
      if i = j ∧ charAt filename j = 37 then 95 else charAt filename j := by
  unfold muteAt
  by_cases hij : i = j
  · subst hij
    by_cases hc : charAt filename i = 37
    · have hlt : i < filename.length := by
        by_contra hge
        rw [charAt_of_length_le (Nat.le_of_not_lt hge)] at hc
        cases hc
      rw [if_pos hc, if_pos ⟨rfl, hc⟩]
      exact charAt_set_self hlt 95
    · rw [if_neg hc, if_neg fun h => hc h.2]
  · rw [if_neg fun h : i = j ∧ _ => hij h.1]
    split
    · exact charAt_set_of_ne hij 95
    · rfl

theorem cstring_stripHTMLCharactersInplace (filename : List UInt8) :
    cstring (stripHTMLCharactersInplace filename true) = decodePath (cstring filename) := by
  have hle := strlen_le filename
  have hnul := zero_notMem_decodePath (zero_notMem_cstring filename)
  rw [stripHTMLCharactersInplace]
  simp only
  split
  · rename_i hshort
    -- at most two bytes, each muted in its place
    apply cstring_eq_of_charAt hnul
    intro j hj
    have hpath : decodePath (cstring filename) =
        (cstring filename).map fun c => if c = 37 then 95 else c := if_pos hshort
    rw [hpath, List.length_map] at hj
    rw [hpath, charAt_map rfl, charAt_cstring hj]
    rw [← strlen] at hj
    have hend := charAt_strlen filename
    obtain h | h | h : strlen filename = 0 ∨ strlen filename = 1 ∨ strlen filename = 2 := by omega
    · obtain rfl : j = 0 := by omega
      rw [h] at hend
      simp [h, hend]
    · rw [h] at hend
      obtain rfl | rfl : j = 0 ∨ j = 1 := by omega
      · simp [h, charAt_muteAt]
      · simp [h, charAt_muteAt, hend]
    · rw [h] at hend
      obtain rfl | rfl | rfl : j = 0 ∨ j = 1 ∨ j = 2 := by omega
      · simp [h, charAt_muteAt]
      · simp [h, charAt_muteAt]
      · simp [h, charAt_muteAt, hend]
  · rename_i hlong
    obtain ⟨f, offset, hloop, written, hwritten, hsize, hlength, htake, hend⟩ :=
      @stripHTMLLoop_spec filename (strlen filename) 0 0 filename (by omega) (by omega) rfl
        (fun _ _ => rfl) rfl
    rw [Nat.add_zero, List.take_zero, List.nil_append, List.drop_zero] at hwritten
    have hone : strlen filename ≠ 1 := by omega
    have htwo : strlen filename ≠ 2 := by omega
    simp only [hone, htwo, if_false]
    rw [hloop]
    have hpath : decodePath (cstring filename) = percentDecode (cstring filename) := if_neg hlong
    rw [hpath, ← hwritten] at hnul ⊢
    simp only
    apply cstring_eq_of_take hnul
    · split
      · rw [List.take_set_of_le hsize, htake]
      · exact htake
    · split
      · rcases Nat.eq_or_lt_of_le hsize with heq | hlt
        · rw [heq]
          rcases Nat.lt_or_ge (strlen filename) f.length with hin | hout
          · exact charAt_set_self hin 0
          · exact charAt_of_length_le (by rw [List.length_set]; exact hout)
        · rw [charAt_set_of_ne (by omega)]
          exact hend
      · exact hend

/-! ## Queries and fragments -/

/-- The part of a request target in front of its query, as it is cut: at the last `#` in front of
the first `?`, else at the `?`, unless that is the last byte. -/
def cutTarget (target : List UInt8) : List UInt8 :=
  let front := target.takeWhile (· ≠ 63)
  if 35 ∈ front then (front.rdropWhile (· ≠ 35)).dropLast
  else if front.length + 1 = target.length then target
  else front

structure Scanned (request : List UInt8) (length i fragmentPos i' fragmentPos' : Nat) : Prop where
  le : i ≤ i'
  le_length : i' ≤ length
  noQuery : ∀ j, i ≤ j → j < i' → charAt request j ≠ 63
  query : i' < length → charAt request i' = 63
  fragment : (fragmentPos' = fragmentPos ∧ ∀ j, i ≤ j → j < i' → charAt request j ≠ 35) ∨
    (i ≤ fragmentPos' ∧ fragmentPos' < i' ∧ charAt request fragmentPos' = 35 ∧
      ∀ j, fragmentPos' < j → j < i' → charAt request j ≠ 35)

theorem queryScan_spec {request : List UInt8} {length fuel i fragmentPos : Nat} (hi : i ≤ length)
    (hfuel : length ≤ i + fuel) :
    Scanned request length i fragmentPos (queryScan request length fuel i fragmentPos).1
      (queryScan request length fuel i fragmentPos).2 := by
  induction fuel generalizing i fragmentPos with
  | zero =>
    rw [queryScan]
    refine ⟨le_rfl, hi, fun j hj hj' => absurd hj' (Nat.not_lt.mpr hj), fun hlt => ?_,
      .inl ⟨rfl, fun j hj hj' => absurd hj' (Nat.not_lt.mpr hj)⟩⟩
    simp only at hlt
    omega
  | succ fuel ih =>
    rw [queryScan]
    split
    · rename_i hgoes
      have ih := @ih (i + 1) (if charAt request i = 35 then i else fragmentPos) (by omega) (by omega)
      generalize queryScan request length fuel (i + 1) (if charAt request i = 35 then i
        else fragmentPos) = scan at ih ⊢
      obtain ⟨i', fragmentPos'⟩ := scan
      obtain ⟨hle, hlength, hnone, hquery, hfragment⟩ := ih
      simp only at hle hlength hnone hquery hfragment ⊢
      refine ⟨by omega, hlength, fun j hj hj' => ?_, hquery, ?_⟩
      · rcases Nat.eq_or_lt_of_le hj with rfl | hlt
        · exact hgoes.2
        · exact hnone j hlt hj'
      · rcases hfragment with ⟨heq, hno⟩ | ⟨hge, hlt, hat, hno⟩
        · by_cases hhere : charAt request i = 35
          · rw [if_pos hhere] at heq
            subst heq
            exact .inr ⟨le_rfl, by omega, hhere, fun j hj hj' => hno j (by omega) hj'⟩
          · rw [if_neg hhere] at heq
            refine .inl ⟨heq, fun j hj hj' => ?_⟩
            rcases Nat.eq_or_lt_of_le hj with rfl | hlt
            · exact hhere
            · exact hno j hlt hj'
        · exact .inr ⟨by omega, hlt, hat, hno⟩
    · rename_i hstops
      refine ⟨le_rfl, hi, fun j hj hj' => absurd hj' (Nat.not_lt.mpr hj), fun hlt => ?_,
        .inl ⟨rfl, fun j hj hj' => absurd hj' (Nat.not_lt.mpr hj)⟩⟩
      by_contra hcon
      exact hstops ⟨hlt, hcon⟩

theorem cstring_set_zero {s : List UInt8} {i : Nat} (h : i < strlen s) :
    cstring (s.set i 0) = (cstring s).take i := by
  have hle := strlen_le s
  have hlength : ((cstring s).take i).length = i := List.length_take_of_le (Nat.le_of_lt h)
  apply cstring_eq_of_take
  · exact fun hcon => zero_notMem_cstring s (List.mem_of_mem_take hcon)
  · rw [hlength, List.take_set_of_le le_rfl, ← take_strlen, List.take_take,
      Nat.min_eq_left h.le]
  · rw [hlength]
    exact charAt_set_self (by omega) 0

theorem cstring_set_of_le {s : List UInt8} {i : Nat} (h : strlen s ≤ i) :
    cstring (s.set i 0) = cstring s := by
  apply cstring_eq_of_charAt (zero_notMem_cstring s)
  intro j hj
  rw [charAt_cstring hj]
  rw [← strlen] at hj
  by_cases hij : i = j
  · obtain rfl : i = strlen s := by omega
    rw [← hij, charAt_strlen]
    rcases Nat.lt_or_ge (strlen s) s.length with hlt | hge
    · exact charAt_set_self hlt 0
    · exact charAt_of_length_le (by rwa [List.length_set])
  · exact charAt_set_of_ne hij 0

theorem rdropWhile_append {α : Type*} {p : α → Bool} {front behind : List α} {a : α}
    (ha : p a = false) (hbehind : ∀ b ∈ behind, p b = true) :
    (front ++ a :: behind).rdropWhile p = front ++ [a] := by
  rw [List.rdropWhile, List.reverse_append, List.reverse_cons, List.append_assoc,
    List.dropWhile_append_of_pos (fun b hb => hbehind b (List.mem_reverse.mp hb))]
  simp [ha]

/-- The front of a target, by the places where the scan finds its `?` and its last `#`. -/
theorem cutTarget_scanned {request : List UInt8} {i fragmentPos : Nat}
    (h : Scanned request (strlen request) 0 (strlen request) i fragmentPos) :
    cutTarget (cstring request) =
      if fragmentPos < strlen request then (cstring request).take fragmentPos
      else if i + 1 = strlen request then cstring request
      else (cstring request).take i := by
  obtain ⟨_, hlength, hnone, hquery, hfragment⟩ := h
  have hsize : ((cstring request).take i).length = i := List.length_take_of_le hlength
  have hat : ∀ {j c}, j < i → charAt ((cstring request).take i) j = c → charAt request j = c := by
    intro j c hj hc
    rwa [charAt_take hj, charAt_cstring (by omega)] at hc
  have hfront : (cstring request).takeWhile (· ≠ 63) = (cstring request).take i := by
    have hall : ∀ c ∈ (cstring request).take i, decide (c ≠ 63) = true := by
      intro c hc
      obtain ⟨j, hj, hcj⟩ := exists_charAt_of_mem hc
      rw [hsize] at hj
      rw [← hat hj hcj]
      exact decide_eq_true (hnone j (Nat.zero_le j) hj)
    conv_lhs => rw [← List.take_append_drop i (cstring request)]
    rw [List.takeWhile_append_of_pos hall]
    rcases Nat.lt_or_ge i (strlen request) with hlt | hge
    · rw [drop_cstring hlt, hquery hlt]
      simp
    · rw [List.drop_of_length_le hge]
      simp
  unfold cutTarget
  rw [hfront]
  simp only
  rw [hsize]
  rcases hfragment with ⟨rfl, hno⟩ | ⟨_, hlt, hhash, hno⟩
  · rw [if_neg (Nat.lt_irrefl _), if_neg]
    · rfl
    · intro hmem
      obtain ⟨j, hj, hcj⟩ := exists_charAt_of_mem hmem
      rw [hsize] at hj
      exact hno j (Nat.zero_le j) hj (hat hj hcj)
  · have hsplit : (cstring request).take i = (cstring request).take fragmentPos ++
        35 :: ((cstring request).take i).drop (fragmentPos + 1) := by
      conv_lhs => rw [← List.take_append_drop fragmentPos ((cstring request).take i)]
      rw [List.take_take, Nat.min_eq_left hlt.le,
        List.drop_eq_getElem_cons (by rw [hsize]; exact hlt), ← charAt_eq, charAt_take hlt,
        charAt_cstring (by omega), hhash]
    have hbehind : ∀ c ∈ ((cstring request).take i).drop (fragmentPos + 1),
        decide (c ≠ 35) = true := by
      intro c hc
      obtain ⟨j, hj, hcj⟩ := exists_charAt_of_mem hc
      rw [List.length_drop, hsize] at hj
      rw [charAt_drop] at hcj
      have hbyte := hat (by omega : fragmentPos + 1 + j < i) hcj
      rw [← hbyte]
      exact decide_eq_true (hno _ (by omega) (by omega))
    have hmem : 35 ∈ (cstring request).take i := by
      rw [hsplit]
      exact List.mem_append_right _ (List.mem_cons_self ..)
    have hcut : fragmentPos < strlen request := by omega
    rw [if_pos hmem, if_pos hcut, hsplit, rdropWhile_append (by simp) hbehind,
      List.dropLast_concat]

theorem cstring_stripGETRequestQueryAndFragment {request : List UInt8} {maxQueryLength : Nat}
    (h : strlen request ≤ maxQueryLength) :
    cstring (stripGETRequestQueryAndFragment request maxQueryLength).2 =
      cutTarget (cstring request) := by
  rw [stripGETRequestQueryAndFragment]
  simp only
  rw [if_neg (Nat.not_lt.mpr h)]
  split
  · rename_i hnil
    have hempty : cstring request = [] := List.length_eq_zero_iff.mp hnil
    rw [hempty]
    rfl
  · have hscan := @queryScan_spec request (strlen request) (strlen request) 0 (strlen request)
      (Nat.zero_le _) (Nat.le_add_left _ _)
    generalize queryScan request (strlen request) (strlen request) 0 (strlen request) = scan
      at hscan ⊢
    obtain ⟨i, fragmentPos⟩ := scan
    simp only at hscan ⊢
    have hlength := hscan.le_length
    rw [cutTarget_scanned hscan]
    by_cases hcut : fragmentPos < strlen request
    · have hfront : fragmentPos < i := by
        rcases hscan.fragment with ⟨rfl, _⟩ | ⟨_, hlt, _⟩
        · exact absurd hcut (Nat.lt_irrefl _)
        · exact hlt
      rw [if_pos hcut, if_pos hcut]
      split
      · exact cstring_set_zero hcut
      · split
        · exact cstring_set_zero hcut
        · simp only
          rw [cstring_set_of_le, cstring_set_zero hcut]
          rw [strlen, cstring_set_zero hcut, List.length_take]
          omega
    · rw [if_neg hcut, if_neg hcut]
      by_cases hend : i = strlen request
      · rw [if_pos hend, if_neg (by omega), hend, strlen, List.take_length]
      · rw [if_neg hend]
        by_cases hlast : i + 1 = strlen request
        · rw [if_pos hlast, if_pos (by omega)]
        · rw [if_neg hlast, if_neg (by omega)]
          exact cstring_set_zero (by omega)

/-! ## The filter -/

theorem filenameStripperLoop_spec {filename : List UInt8} {n slashes : Nat}
    (h : filenameStripperLoop filename n slashes = true) {j : Nat} (hj : j < n) :
    32 ≤ charAt filename (j + 1) ∧ charAt filename (j + 1) ≤ 126 ∧
      ¬ (charAt filename j = 46 ∧ charAt filename (j + 1) = 46) := by
  induction n generalizing slashes with
  | zero => exact absurd hj (Nat.not_lt_zero j)
  | succ n ih =>
    simp only [filenameStripperLoop] at h
    split at h
    · cases h
    rename_i hprintable
    simp only [not_or, UInt8.not_lt, gt_iff_lt] at hprintable
    rcases Nat.lt_succ_iff_lt_or_eq.mp hj with hlt | rfl
    · split at h
      · split at h
        · cases h
        · exact ih h hlt
      · split at h
        · cases h
        · split at h
          · cases h
          · exact ih h hlt
    · refine ⟨hprintable.1, hprintable.2.2, fun hdots => ?_⟩
      have hne : ¬ charAt filename (j + 1) = 47 := by
        rw [hdots.2]
        decide
      have hne' : ¬ charAt filename (j + 1) = 92 := by
        rw [hdots.2]
        decide
      rw [if_neg hne, if_neg hne', if_pos ⟨hdots.2, hdots.1⟩] at h
      cases h

/-- The first byte is not looked at. -/
theorem filenameStripperOk_spec {filename : List UInt8} (h : filenameStripperOk filename = true) :
    cstring filename ≠ [] ∧ (∀ c ∈ (cstring filename).tail, 32 ≤ c ∧ c ≤ 126) ∧
      ¬ [46, 46] <:+: cstring filename := by
  unfold filenameStripperOk at h
  simp only at h
  split at h
  · cases h
  rename_i hne
  refine ⟨fun hnil => hne ?_, fun c hc => ?_, ?_⟩
  · rw [strlen, hnil]
    rfl
  · obtain ⟨j, hj, hcj⟩ := exists_charAt_of_mem hc
    rw [List.length_tail, ← strlen] at hj
    rw [← List.drop_one, charAt_drop, charAt_cstring (by omega), Nat.add_comm] at hcj
    have hspec := filenameStripperLoop_spec h hj
    rw [hcj] at hspec
    exact ⟨hspec.1, hspec.2.1⟩
  · rintro ⟨front, behind, hdots⟩
    have hlength := congrArg List.length hdots
    rw [List.length_append, List.length_append, ← strlen] at hlength
    have hat : ∀ k < 2, charAt filename (front.length + k) = 46 := by
      intro k hk
      rw [← charAt_cstring (by simp only [List.length_cons] at hlength; omega), ← hdots,
        List.append_assoc]
      obtain rfl | rfl : k = 0 ∨ k = 1 := by omega
      · simp [charAt]
      · simp [charAt]
    simp only [List.length_cons, List.length_nil] at hlength
    exact (filenameStripperLoop_spec h (by omega)).2.2 ⟨hat 0 (by omega), hat 1 (by omega)⟩

end AmmarServer
