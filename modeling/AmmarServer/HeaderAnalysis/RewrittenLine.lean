import AmmarServer.HeaderAnalysis.HeaderLines
import AmmarServer.HeaderAnalysis.ResourcePath
import AmmarServer.Lib.Erasure

/-! What the request line looks like after it has been rewritten where it stands, and which of the
bytes behind its target have been moved into it. -/

namespace AmmarServer
open CString

/-! ## Escapes -/

section Escapes
variable {orig : List UInt8}

theorem charAt_set_charAt {s t : List UInt8} {i j : ℕ} (hlength : s.length = t.length)
    (hij : i ≤ j) : charAt (s.set i (charAt t j)) i = charAt t j := by
  rcases Nat.lt_or_ge i s.length with hlt | hge
  · exact charAt_set_self hlt _
  · rw [charAt_of_length_le (by rw [List.length_set]; exact hge),
      charAt_of_length_le ((hlength.ge.trans hge).trans hij)]

theorem stripHTMLLoop_copies {fuel i offset : ℕ} {filename : List UInt8}
    (hend : strlen orig ≤ i + offset) (hfuel : strlen orig ≤ i + fuel) (hi : i ≤ strlen orig)
    (hlength : filename.length = orig.length)
    (hrest : ∀ j, strlen orig < j → charAt filename j = charAt orig j)
    (hcopy : charAt filename i = charAt orig (i + offset)) :
    ∃ filename', stripHTMLLoop true (strlen orig) fuel i offset filename =
        (filename', strlen orig, offset) ∧ filename'.length = orig.length ∧
      (∀ j ≤ i, charAt filename' j = charAt filename j) ∧
      (∀ j, i ≤ j → j ≤ strlen orig → charAt filename' j = charAt orig (j + offset)) ∧
      ∀ j, strlen orig < j → charAt filename' j = charAt orig j := by
  induction fuel generalizing i filename with
  | zero =>
    obtain rfl : i = strlen orig := by omega
    refine ⟨filename, rfl, hlength, fun _ _ => rfl, fun j hj hj' => ?_, hrest⟩
    rw [Nat.le_antisymm hj' hj, hcopy]
  | succ fuel ih =>
    rw [stripHTMLLoop]
    split
    · rename_i hlt
      have hread : charAt filename (i + 1 + offset) = charAt orig (i + 1 + offset) :=
        hrest _ (by omega)
      have hoffset : offset ≠ 0 := by omega
      simp only
      rw [if_neg (fun h => by omega)]
      simp only
      rw [if_pos hoffset, hread]
      obtain ⟨f, hloop, hlen, hfront, hcopied, hbehind⟩ := @ih (i + 1)
        (filename.set (i + 1) (charAt orig (i + 1 + offset))) (by omega) (by omega) (by omega)
        (by rw [List.length_set]; exact hlength)
        (fun j hj => by rw [charAt_set_of_ne (by omega)]; exact hrest j hj)
        (charAt_set_charAt hlength (by omega))
      have hfront' : ∀ j ≤ i, charAt f j = charAt filename j := fun j hj => by
        rw [hfront j (by omega), charAt_set_of_ne (by omega)]
      refine ⟨f, hloop, hlen, hfront', fun j hj hj' => ?_, hbehind⟩
      rcases Nat.eq_or_lt_of_le hj with rfl | hlt
      · rw [hfront' _ le_rfl, hcopy]
      · exact hcopied j hlt hj'
    · obtain rfl : i = strlen orig := by omega
      refine ⟨filename, rfl, hlength, fun _ _ => rfl, fun j hj hj' => ?_, hrest⟩
      rw [Nat.le_antisymm hj' hj, hcopy]

/-- The bytes of the string that no longer has its escapes are followed by bytes from behind it. -/
theorem stripHTMLLoop_shifts {fuel i offset : ℕ} {filename : List UInt8}
    (hi : i + offset ≤ strlen orig) (hfuel : strlen orig ≤ i + fuel)
    (hlength : filename.length = orig.length)
    (hsame : ∀ j, i + offset ≤ j → charAt filename j = charAt orig j)
    (hcopy : charAt filename i = charAt orig (i + offset)) :
    ∃ filename' offset', stripHTMLLoop true (strlen orig) fuel i offset filename =
        (filename', strlen orig, offset') ∧
      i + (percentDecode ((cstring orig).drop (i + offset))).length + offset' = strlen orig ∧
      (∀ j, strlen orig ≤ j + offset' → j ≤ strlen orig →
        charAt filename' j = charAt orig (j + offset')) ∧
      ∀ j, strlen orig < j → charAt filename' j = charAt orig j := by
  have hdrop : (cstring orig).drop (strlen orig) = [] := List.drop_length ..
  induction fuel generalizing i offset filename with
  | zero =>
    obtain ⟨rfl, rfl⟩ : i = strlen orig ∧ offset = 0 := by omega
    refine ⟨filename, 0, rfl, ?_, fun j _ hj => ?_, fun j hj => hsame j (by omega)⟩
    · rw [Nat.add_zero (strlen orig), hdrop, percentDecode, List.length_nil]
      rfl
    · exact hsame j (by omega)
  | succ fuel ih =>
    rcases Nat.lt_or_ge (i + offset) (strlen orig) with hmore | hend
    · rw [stripHTMLLoop, if_pos (by omega)]
      obtain ⟨f, o, c, hstep, hbound, hlen, htake, hrest, hdecode⟩ :=
        stripHTML_step hmore hlength hsame hcopy
      simp only
      rw [hstep]
      simp only
      obtain ⟨hlen', -, hcopy', hrest'⟩ := copied hlen hrest
      obtain ⟨f', o', hloop, hsize, hshift, hbehind⟩ := ih hbound (by omega) hlen' hrest' hcopy'
      refine ⟨f', o', hloop, ?_, hshift, hbehind⟩
      rw [hdecode, List.length_cons]
      omega
    · have hread : i + offset = strlen orig := Nat.le_antisymm hi hend
      obtain ⟨f, hloop, -, -, hcopied, hbehind⟩ := @stripHTMLLoop_copies orig (fuel + 1) i offset
        filename hend hfuel (by omega) hlength (fun j hj => hsame j (by omega)) hcopy
      refine ⟨f, offset, hloop, ?_, fun j hj hj' => hcopied j (by omega) hj', hbehind⟩
      rw [hread, hdrop, percentDecode, List.length_nil]
      omega

end Escapes

theorem length_decodePath_le (path : List UInt8) : (decodePath path).length ≤ path.length := by
  have hdecode : ∀ s : List UInt8, (percentDecode s).length ≤ s.length := by
    intro s
    induction s using percentDecode.induct with
    | case1 => exact le_rfl
    | case2 a => exact le_rfl
    | case3 a b => exact le_rfl
    | case4 x y rest hnone ih =>
      rw [percentDecode, if_pos rfl, hnone]
      exact Nat.succ_le_succ ih
    | case5 x y rest asciiVal hsome ih =>
      rw [percentDecode, if_pos rfl, hsome]
      exact Nat.succ_le_succ (ih.trans (Nat.le_add_right _ 2))
    | case6 a x y rest hne ih =>
      rw [percentDecode, if_neg hne]
      exact Nat.succ_le_succ ih
  unfold decodePath
  split
  · rw [List.length_map]
  · exact hdecode path

theorem length_stripHTMLCharactersInplace (filename : List UInt8) :
    (stripHTMLCharactersInplace filename true).length = filename.length := by
  have hmute : ∀ (s : List UInt8) (i : ℕ), (muteAt s i).length = s.length := by
    intro s i
    unfold muteAt
    split
    · exact List.length_set ..
    · rfl
  rw [stripHTMLCharactersInplace]
  simp only
  split
  · split
    · split
      · rw [hmute, hmute, hmute]
      · rw [hmute, hmute]
    · split
      · exact hmute _ _
      · rfl
  · rename_i hlong
    obtain ⟨f, offset, hloop, -, -, -, hlength, -⟩ :=
      @stripHTMLLoop_spec filename (strlen filename) 0 0 filename (by omega) (by omega) rfl
        (fun _ _ => rfl) rfl
    have hone : strlen filename ≠ 1 := by omega
    have htwo : strlen filename ≠ 2 := by omega
    simp only [hone, htwo, if_false]
    rw [hloop]
    simp only
    split
    · rw [List.length_set]
      exact hlength
    · exact hlength

theorem charAt_append_add (s t : List UInt8) (i : ℕ) :
    charAt (s ++ t) (s.length + i) = charAt t i := by
  rw [charAt, charAt, List.getD_eq_getElem?_getD, List.getD_eq_getElem?_getD,
    List.getElem?_append_right (Nat.le_add_right _ i), Nat.add_sub_cancel_left]

/-- The array that `StripHTMLCharacters_Inplace` leaves. -/
theorem charAt_stripHTMLCharactersInplace (filename : List UInt8) (j : ℕ) :
    charAt (stripHTMLCharactersInplace filename true) j =
      if j < (decodePath (cstring filename)).length then charAt (decodePath (cstring filename)) j
      else if j < strlen filename then
        charAt filename (j + (strlen filename - (decodePath (cstring filename)).length))
      else charAt filename j := by
  have hstring := cstring_stripHTMLCharactersInplace filename
  have hle := length_decodePath_le (cstring filename)
  split
  · rename_i hj
    have hin : j ≤ strlen (stripHTMLCharactersInplace filename true) := by
      rw [strlen, hstring]
      exact hj.le
    rw [← hstring, charAt_cstring hin]
  · rename_i hj
    have hend := charAt_strlen filename
    rw [stripHTMLCharactersInplace]
    simp only
    split
    · rename_i hshort
      have hlength : (decodePath (cstring filename)).length = strlen filename := by
        have hpath : (cstring filename).length ≤ 2 := hshort
        rw [decodePath, if_pos hpath, List.length_map, strlen]
      rw [hlength] at hj ⊢
      rw [if_neg hj]
      obtain h | h | h : strlen filename = 0 ∨ strlen filename = 1 ∨ strlen filename = 2 := by
        omega
      · simp [h]
      · rw [h] at hj
        simp [h, charAt_muteAt, show ¬ 0 = j by omega]
      · rw [h] at hj
        simp [h, charAt_muteAt, show ¬ 0 = j by omega, show ¬ 1 = j by omega]
    · rename_i hlong
      obtain ⟨f, offset, hloop, hsize, hshift, hbehind⟩ :=
        @stripHTMLLoop_shifts filename (strlen filename) 0 0 filename (by omega) (by omega) rfl
          (fun _ _ => rfl) rfl
      have hpath : decodePath (cstring filename) = percentDecode (cstring filename) := if_neg hlong
      rw [Nat.add_zero, List.drop_zero, Nat.zero_add, ← hpath] at hsize
      have hone : strlen filename ≠ 1 := by omega
      have htwo : strlen filename ≠ 2 := by omega
      simp only [hone, htwo, if_false]
      rw [hloop]
      simp only
      have hgap : strlen filename - (decodePath (cstring filename)).length = offset := by omega
      have hset : ∀ k, k ≠ strlen filename →
          charAt (if offset ≠ 0 then f.set (strlen filename) 0 else f) k = charAt f k := by
        intro k hk
        split
        · exact charAt_set_of_ne (Ne.symm hk) 0
        · rfl
      rw [hgap]
      by_cases hlt : j < strlen filename
      · rw [if_pos hlt, hset j hlt.ne, hshift j (by omega) hlt.le]
      · rw [if_neg hlt]
        rcases Nat.eq_or_lt_of_le (Nat.le_of_not_lt hlt) with rfl | hgt
        · rw [hend]
          split
          · rcases Nat.lt_or_ge (strlen filename) f.length with hin | hout
            · exact charAt_set_self hin 0
            · exact charAt_of_length_le (by rw [List.length_set]; exact hout)
          · rename_i hzero
            rw [not_not] at hzero
            rw [hshift _ (by omega) le_rfl, hzero, Nat.add_zero, hend]
        · rw [hset j hgt.ne', hbehind j hgt]

/-- What holds of the bytes of a path and of what an escape can become holds of the path decoded. -/
theorem forall_mem_decodePath {p : UInt8 → Prop} (hmute : p 95)
    (hprintable : ∀ c, 32 ≤ c → c ≤ 126 → p c) {path : List UInt8} (hpath : ∀ c ∈ path, p c) :
    ∀ c ∈ decodePath path, p c := by
  have hdecode : ∀ s : List UInt8, (∀ c ∈ s, p c) → ∀ c ∈ percentDecode s, p c := by
    intro s
    induction s using percentDecode.induct with
    | case1 => exact id
    | case2 a => exact id
    | case3 a b => exact id
    | case4 x y rest hnone ih =>
      intro hs
      rw [percentDecode, if_pos rfl, hnone]
      exact List.forall_mem_cons.mpr ⟨hmute, ih (List.forall_mem_cons.mp hs).2⟩
    | case5 x y rest asciiVal hsome ih =>
      intro hs
      obtain ⟨-, hs⟩ := List.forall_mem_cons.mp hs
      obtain ⟨-, hs⟩ := List.forall_mem_cons.mp hs
      obtain ⟨-, hs⟩ := List.forall_mem_cons.mp hs
      obtain ⟨hlow, hhigh⟩ := escapedByte_printable hsome
      rw [percentDecode, if_pos rfl, hsome]
      exact List.forall_mem_cons.mpr ⟨hprintable _ hlow hhigh, ih hs⟩
    | case6 a x y rest hne ih =>
      intro hs
      obtain ⟨ha, hs⟩ := List.forall_mem_cons.mp hs
      rw [percentDecode, if_neg hne]
      exact List.forall_mem_cons.mpr ⟨ha, ih hs⟩
  unfold decodePath
  split
  · intro c hc
    obtain ⟨d, hd, rfl⟩ := List.mem_map.mp hc
    split
    · exact hmute
    · exact hpath d hd
  · exact hdecode path hpath

/-! ## Queries -/

theorem erased_stripGETRequestQueryAndFragment (request : List UInt8) (maxQueryLength : ℕ) :
    Erased 0 (strlen request) request
      (stripGETRequestQueryAndFragment request maxQueryLength).2 := by
  unfold stripGETRequestQueryAndFragment
  dsimp only
  split
  · exact Erased.refl ..
  · generalize hlength : (if strlen request > maxQueryLength then maxQueryLength
      else strlen request) = length
    have hle : length ≤ strlen request := by
      rw [← hlength]
      split
      · rename_i hgt
        exact hgt.le
      · exact le_rfl
    generalize queryScan request length length 0 length = scan
    have hcut : Erased 0 (strlen request) request
        (if scan.2 < length then request.set scan.2 0 else request) :=
      Erased.ite fun hlt => Erased.set (Nat.zero_le _) (hlt.trans_le hle)
    split
    · exact hcut
    · split
      · exact hcut
      · rename_i hi
        exact hcut.trans (Erased.set (Nat.zero_le _) (by omega))

namespace HeaderAnalysis
open Bytes

/-! ## The absolute form -/

/-- What `stripped` points at after the origin form has been made: a part of the buffer that starts
in the target, with no line break in the target. -/
structure Points (m t : List UInt8) : Prop where
  start : m.length - t.length ≤ strlen m
  length : t.length ≤ m.length
  behind : ∀ j, strlen m ≤ j + (m.length - t.length) →
    charAt t j = charAt m (j + (m.length - t.length))
  plain : ∀ j, j + (m.length - t.length) < strlen m → isNewline (charAt t j) = false

theorem strlen_dropWhile (p : UInt8 → Bool) (s : List UInt8) :
    ∃ n, s.dropWhile (fun c => decide (c ≠ 0) && p c) = s.drop n ∧
      strlen (s.drop n) + n = strlen s := by
  induction s with
  | nil => exact ⟨0, rfl, rfl⟩
  | cons c s ih =>
    rw [List.dropWhile_cons]
    split
    · rename_i hc
      obtain ⟨n, hdrop, hlength⟩ := ih
      have hne : c ≠ 0 := of_decide_eq_true (Bool.and_elim_left hc)
      refine ⟨n + 1, hdrop, ?_⟩
      rw [List.drop_succ_cons, strlen, strlen, cstring_cons hne, List.length_cons]
      exact congrArg (· + 1) hlength
    · exact ⟨0, rfl, rfl⟩

theorem Points.of_drop {m : List UInt8} {k : ℕ} (hk : k ≤ strlen m)
    (hline : ∀ j < strlen m, isNewline (charAt m j) = false) : Points m (m.drop k) := by
  have hle := strlen_le m
  have hmoved : m.length - (m.drop k).length = k := by
    rw [List.length_drop]
    omega
  refine ⟨hmoved.trans_le hk, by rw [List.length_drop]; exact Nat.sub_le .., fun j _ => ?_,
    fun j hj => ?_⟩
  · rw [hmoved, charAt_drop, Nat.add_comm]
  · rw [hmoved] at hj
    rw [charAt_drop]
    exact hline _ (Nat.add_comm j k ▸ hj)

theorem Points.of_length {m t : List UInt8} (hlength : t.length = m.length)
    (hbehind : ∀ j, strlen m ≤ j → charAt t j = charAt m j)
    (hplain : ∀ j < strlen m, isNewline (charAt t j) = false) : Points m t := by
  have hzero : m.length - t.length = 0 := by rw [hlength, Nat.sub_self]
  refine ⟨hzero ▸ Nat.zero_le _, hlength.le, ?_, ?_⟩
  · rw [hzero]
    exact hbehind
  · rw [hzero]
    exact hplain

theorem points_originForm {m : List UInt8} (hnul : 0 ∈ m)
    (hline : ∀ j < strlen m, isNewline (charAt m j) = false) : Points m (originForm m).2 := by
  unfold originForm
  simp only
  split
  · rename_i habsolute
    have hscheme := schemeLength_le habsolute
    have hseven : 7 ≤ (if strncasecmpEq m (ascii "https://") 8 then 8 else 7) := by
      split
      · exact Nat.le_succ 7
      · exact le_rfl
    generalize (if strncasecmpEq m (ascii "https://") 8 then 8 else 7) = n at hscheme hseven ⊢
    simp only [Bool.decide_and]
    obtain ⟨q, hsplit, hlength⟩ := strlen_dropWhile
      (fun c => decide (c ≠ 47) && (decide (c ≠ 63) && decide (c ≠ 35))) (m.drop n)
    rw [hsplit]
    rw [List.drop_drop] at hlength ⊢
    have hstring : strlen (m.drop n) + n = strlen m := by
      rw [strlen, cstring_drop hscheme, List.length_drop]
      exact Nat.sub_add_cancel hscheme
    have hlt : strlen m < m.length := by
      obtain ⟨behind, hm⟩ := eq_cstring_append hnul
      have hcount := congrArg List.length hm
      rw [List.length_append, List.length_cons, ← strlen] at hcount
      omega
    have hin : n + q ≤ strlen m := by omega
    split
    · -- the pointer moves to the slash behind the authority
      exact Points.of_drop hin hline
    · split
      · -- the rest of the target is moved behind a slash
        have hroom : (m.drop (n + q)).length ≥ strlen (m.drop (n + q)) + 1 := by
          rw [List.length_drop]
          omega
        have hmoved : ((m.drop (n + q)).take (strlen (m.drop (n + q)) + 1)).length =
            strlen (m.drop (n + q)) + 1 := List.length_take_of_le hroom
        have hbyte : ∀ j, j < strlen (m.drop (n + q)) + 1 →
            isNewline (charAt ((m.drop (n + q)).take (strlen (m.drop (n + q)) + 1)) j) = false := by
          intro j hj
          rw [charAt_take hj, charAt_drop]
          rcases Nat.lt_or_ge (n + q + j) (strlen m) with hbefore | hat
          · exact hline _ hbefore
          · have hend : n + q + j = strlen m := by omega
            rw [hend, charAt_strlen]
            rfl
        generalize (m.drop (n + q)).take (strlen (m.drop (n + q)) + 1) = moved at hmoved hbyte ⊢
        have hsize : 1 + moved.length ≤ strlen m := by omega
        have htail : ∀ j, 1 + moved.length ≤ j →
            charAt (47 :: (moved ++ m.drop (1 + moved.length))) j = charAt m j := by
          intro j hj
          obtain ⟨d, rfl⟩ := Nat.exists_eq_add_of_le hj
          have hfront : (47 :: moved).length = 1 + moved.length := by
            rw [List.length_cons, Nat.add_comm]
          rw [← charAt_drop m, ← hfront, ← List.cons_append, charAt_append_add]
        refine Points.of_length ?_ (fun j hj => htail j (by omega)) fun j hj => ?_
        · rw [List.length_cons, List.length_append, List.length_drop]
          omega
        · rcases Nat.lt_or_ge j (1 + moved.length) with hfront | hback
          · cases j with
            | zero => rfl
            | succ j =>
              show isNewline (charAt (moved ++ m.drop (1 + moved.length)) j) = false
              rw [charAt_append_left (by omega)]
              exact hbyte j (by omega)
          · rw [htail j hback]
            exact hline j hj
      · refine Points.of_length ?_ (fun j hj => ?_) fun j hj => ?_
        · rw [List.length_set, List.length_set]
        · rw [charAt_set_of_ne (by omega), charAt_set_of_ne (by omega)]
        · have hroom : 1 < (m.set 0 47).length := by
            rw [List.length_set]
            omega
          obtain rfl | rfl | hmore : j = 0 ∨ j = 1 ∨ 1 < j := by omega
          · rw [charAt_set_of_ne (by decide), charAt_set_self (by omega)]
            rfl
          · rw [charAt_set_self hroom]
            rfl
          · rw [charAt_set_of_ne (by omega), charAt_set_of_ne (by omega)]
            exact hline j hj
  · exact Points.of_drop (Nat.zero_le _) hline

/-! ## The whole line -/

/-- The buffer from the target on, as it is when the escapes are decoded, where it comes to that. -/
def decodedTarget (request : List UInt8) (request_length : ℕ) : List UInt8 :=
  let requestType := scanForFirstLines request request_length
  if requestType = .GET ∨ requestType = .HEAD ∨ requestType = .POST then
    let s := skipWhile request request_length (· = 32) (if requestType = .GET then 3 else 4)
    let e := skipWhile request request_length (· ≠ 32) s
    if s ≥ request_length ∨ e ≥ request_length then []
    else
      let stripped := (originForm ((request.set e 0).drop s)).2
      if strlen stripped ≥ MAX_RESOURCE - 2 then []
      else (stripGETRequestQueryAndFragment stripped MAX_QUERY).2
  else []

/-- Where the target ends in the buffer. -/
def decodedEnd (request : List UInt8) (request_length : ℕ) : ℕ :=
  request.length - (decodedTarget request request_length).length +
    strlen (decodedTarget request request_length)

/-- How many bytes shorter the target is with its escapes decoded. -/
def decodedGap (request : List UInt8) (request_length : ℕ) : ℕ :=
  strlen (decodedTarget request request_length) -
    (decodePath (cstring (decodedTarget request request_length))).length

/-- The line breaks of a buffer whose first line of `length` bytes has been rewritten: those behind
the line, and in the line those that have come `gap` places towards its front. -/
structure Rewritten (length stop gap : ℕ) (request array : List UInt8) : Prop where
  size : array.length = request.length
  behind : ∀ p, length ≤ p → charAt array p = charAt request p
  low : gap ≠ 0 → gap + 3 ≤ stop
  stopped : gap ≠ 0 → stop < length ∧ isNewline (charAt array stop) = false
  front : ∀ p < length, isNewline (charAt array p) = true →
    p < stop ∧ length ≤ p + gap ∧ charAt array p = charAt request (p + gap)
  moved : ∀ q, length ≤ q → q < stop + gap → charAt array (q - gap) = charAt request q

theorem Rewritten.of_same {length stop : ℕ} {request array : List UInt8}
    (hsize : array.length = request.length)
    (hbehind : ∀ p, length ≤ p → charAt array p = charAt request p)
    (hplain : ∀ p < length, isNewline (charAt array p) = false) :
    Rewritten length stop 0 request array := by
  refine ⟨hsize, hbehind, fun h => absurd rfl h, fun h => absurd rfl h, fun p hp hnew => ?_,
    fun q hq _ => hbehind q hq⟩
  rw [hplain p hp] at hnew
  cases hnew

theorem strlen_le_of_charAt_eq_zero {s : List UInt8} {i : ℕ} (h : charAt s i = 0) :
    strlen s ≤ i := by
  by_contra hlt
  exact charAt_ne_zero (Nat.lt_of_not_le hlt) h

theorem charAt_take_append {s u : List UInt8} {n : ℕ} (h : n ≤ s.length) (p : ℕ) :
    charAt (s.take n ++ u) p = if p < n then charAt s p else charAt u (p - n) := by
  have hlength : (s.take n).length = n := List.length_take_of_le h
  split
  · rename_i hp
    rw [charAt_append_left (hp.trans_eq hlength.symm), charAt_take hp]
  · rename_i hp
    obtain ⟨d, rfl⟩ := Nat.exists_eq_add_of_le (Nat.le_of_not_lt hp)
    have happend := charAt_append_add (s.take n) u d
    rw [hlength] at happend
    rw [happend, Nat.add_sub_cancel_left]

/-- A buffer whose target has been put into origin form. -/
structure Targeted (length off : ℕ) (request buffer t : List UInt8) : Prop where
  size : buffer.length = request.length
  low : 3 ≤ off
  off_eq : off + t.length = request.length
  string : off + strlen t < length
  front : ∀ p < off, charAt buffer p = charAt request p
  behind : ∀ j, length ≤ off + j → charAt t j = charAt request (off + j)
  plain : ∀ j, off + j < length → isNewline (charAt t j) = false

theorem targeted_originForm {request : List UInt8} {length s e : ℕ}
    (hroom : length ≤ request.length)
    (hline : ∀ p < length, isNewline (charAt request p) = false) (hlow : 3 ≤ s) (hs : s ≤ e)
    (he : e < length) :
    Targeted length (request.length - (originForm ((request.set e 0).drop s)).2.length) request
      (request.set e 0) (originForm ((request.set e 0).drop s)).2 := by
  have hsize : (request.set e 0).length = request.length := List.length_set ..
  have hmsize : ((request.set e 0).drop s).length = request.length - s := by
    rw [List.length_drop, hsize]
  have hset : ∀ p, p ≠ e → charAt (request.set e 0) p = charAt request p := fun p hp =>
    charAt_set_of_ne (Ne.symm hp) 0
  have hstop : charAt ((request.set e 0).drop s) (e - s) = 0 := by
    rw [charAt_drop, Nat.add_sub_cancel' hs]
    exact charAt_set_self (he.trans_le hroom) 0
  have hstring := strlen_le_of_charAt_eq_zero hstop
  have hnul : 0 ∈ (request.set e 0).drop s := by
    have hin : e - s < ((request.set e 0).drop s).length := by omega
    have hmem := List.getElem_mem hin
    rw [← charAt_eq hin, hstop] at hmem
    exact hmem
  have hbyte : ∀ j, s + j < length → isNewline (charAt ((request.set e 0).drop s) j) = false := by
    intro j hj
    rw [charAt_drop]
    by_cases heq : s + j = e
    · rw [heq, charAt_set_self (he.trans_le hroom)]
      rfl
    · rw [hset _ heq]
      exact hline _ hj
  have hpoints := points_originForm hnul fun j hj => hbyte j (by omega)
  generalize (originForm ((request.set e 0).drop s)).2 = t at hpoints ⊢
  obtain ⟨hstart, hlength, hbehind, hplain⟩ := hpoints
  rw [hmsize] at hstart hlength hbehind hplain
  have hend : strlen t + (request.length - s - t.length) ≤
      strlen ((request.set e 0).drop s) := by
    have hzero : charAt t (strlen ((request.set e 0).drop s) - (request.length - s - t.length)) =
        0 := by
      rw [hbehind _ (by omega), Nat.sub_add_cancel hstart]
      exact charAt_strlen _
    have hle := strlen_le_of_charAt_eq_zero hzero
    omega
  have hoff : request.length - t.length = s + (request.length - s - t.length) := by omega
  refine ⟨hsize, by omega, by omega, by omega, fun p hp => hset p (by omega), fun j hj => ?_,
    fun j hj => ?_⟩
  · have hindex : s + (j + (request.length - s - t.length)) = request.length - t.length + j := by
      omega
    rw [hbehind j (by omega), charAt_drop, hindex, hset _ (by omega)]
  · rcases Nat.lt_or_ge (j + (request.length - s - t.length))
      (strlen ((request.set e 0).drop s)) with hlt | hge
    · exact hplain j hlt
    · rw [hbehind j hge]
      exact hbyte _ (by omega)

theorem Targeted.rewritten_of_long {length off : ℕ} {request buffer t : List UInt8}
    (h : Targeted length off request buffer t)
    (hline : ∀ p < length, isNewline (charAt request p) = false) (stop : ℕ) :
    Rewritten length stop 0 request (buffer.take off ++ t) := by
  have hoff := h.off_eq
  have hsize := h.size
  have hstring := h.string
  have hle : off ≤ buffer.length := by omega
  refine Rewritten.of_same ?_ (fun p hp => ?_) fun p hp => ?_
  · rw [List.length_append, List.length_take_of_le hle, hoff]
  · have hindex : off + (p - off) = p := by omega
    rw [charAt_take_append hle, if_neg (by omega), h.behind _ (by omega), hindex]
  · rw [charAt_take_append hle]
    split
    · rename_i hp'
      rw [h.front p hp']
      exact hline p hp
    · exact h.plain _ (by omega)

theorem Targeted.rewritten {length off : ℕ} {request buffer t t' : List UInt8}
    (h : Targeted length off request buffer t) (hcut : Erased 0 (strlen t) t t')
    (hline : ∀ p < length, isNewline (charAt request p) = false) :
    Rewritten length (off + strlen t') (strlen t' - (decodePath (cstring t')).length) request
      (buffer.take off ++ stripHTMLCharactersInplace t' true) := by
  have hoff := h.off_eq
  have hsize := h.size
  have hstring := h.string
  have hcutSize := hcut.length
  have hle : off ≤ buffer.length := by omega
  have hshort : strlen t' ≤ strlen t := by
    apply strlen_le_of_charAt_eq_zero
    rcases hcut.inside (strlen t) with hsame | hzero
    · rw [hsame, charAt_strlen]
    · exact hzero
  have hplain : ∀ j, off + j < length → isNewline (charAt t' j) = false := by
    intro j hj
    rcases hcut.inside j with hsame | hzero
    · rw [hsame]
      exact h.plain j hj
    · rw [hzero]
      rfl
  have hbehind : ∀ j, length ≤ off + j → charAt t' j = charAt request (off + j) := by
    intro j hj
    rw [hcut.outside j (.inr (by omega))]
    exact h.behind j hj
  have hdecoded : ∀ j < (decodePath (cstring t')).length,
      isNewline (charAt (decodePath (cstring t')) j) = false := by
    have hprintable : ∀ c : UInt8, 32 ≤ c → c ≤ 126 → isNewline c = false := by
      apply forall_byte
      decide +kernel
    have hall := @forall_mem_decodePath (fun c => isNewline c = false) rfl hprintable (cstring t')
      fun c hc => by
        obtain ⟨j, hj, rfl⟩ := exists_charAt_of_mem hc
        rw [charAt_cstring (by rw [strlen]; exact hj.le)]
        exact hplain j (by rw [← strlen] at hj; omega)
    intro j hj
    rw [charAt_eq hj]
    exact hall _ (List.getElem_mem hj)
  have hdecodedLe := length_decodePath_le (cstring t')
  rw [← strlen] at hdecodedLe
  have harray : ∀ p, charAt (buffer.take off ++ stripHTMLCharactersInplace t' true) p =
      if p < off then charAt buffer p else charAt (stripHTMLCharactersInplace t' true) (p - off) :=
    charAt_take_append hle
  generalize hw : (decodePath (cstring t')).length = w at hdecoded hdecodedLe ⊢
  have hstrip := charAt_stripHTMLCharactersInplace t'
  rw [hw] at hstrip
  have hlow := h.low
  refine ⟨?_, fun p hp => ?_, fun hgap => by omega, fun hgap => ⟨by omega, ?_⟩,
    fun p hp hnew => ?_, fun q hq hq' => ?_⟩
  · rw [List.length_append, List.length_take_of_le hle, length_stripHTMLCharactersInplace, hcutSize,
      hoff]
  · have hindex : off + (p - off) = p := by omega
    rw [harray, if_neg (by omega), hstrip, if_neg (by omega), if_neg (by omega),
      hbehind _ (by omega), hindex]
  · rw [harray, if_neg (by omega), Nat.add_sub_cancel_left, hstrip, if_neg (by omega),
      if_neg (by omega), charAt_strlen]
    rfl
  · rw [harray] at hnew ⊢
    by_cases hfront : p < off
    · rw [if_pos hfront, h.front p hfront, hline p hp] at hnew
      cases hnew
    · rw [if_neg hfront, hstrip] at hnew ⊢
      by_cases hdec : p - off < w
      · rw [if_pos hdec, hdecoded _ hdec] at hnew
        cases hnew
      · rw [if_neg hdec] at hnew ⊢
        by_cases hstr : p - off < strlen t'
        · rw [if_pos hstr] at hnew ⊢
          have hreach : length ≤ off + (p - off + (strlen t' - w)) := by
            by_contra hcon
            rw [hplain _ (Nat.lt_of_not_le hcon)] at hnew
            cases hnew
          have hindex : off + (p - off + (strlen t' - w)) = p + (strlen t' - w) := by omega
          exact ⟨by omega, by omega, by rw [hbehind _ hreach, hindex]⟩
        · rw [if_neg hstr, hplain _ (by omega)] at hnew
          cases hnew
  · have hindex : q - (strlen t' - w) - off + (strlen t' - w) = q - off := by omega
    have hindex' : off + (q - off) = q := by omega
    rw [harray, if_neg (by omega), hstrip, if_neg (by omega), if_pos (by omega), hindex,
      hbehind _ (by omega), hindex']

theorem scanForFirstLines_small {str : List UInt8} {strLength : ℕ} (h : strLength < 3) :
    scanForFirstLines str strLength = .NONE := by
  unfold scanForFirstLines
  exact if_pos h

theorem rewritten_firstLineArray {request : List UInt8} {length : ℕ}
    (hroom : length ≤ request.length)
    (hline : ∀ p < length, isNewline (charAt request p) = false) :
    Rewritten length (decodedEnd request length) (decodedGap request length) request
      (firstLineArray request length) := by
  have hsame : ∀ stop, Rewritten length stop 0 request request := fun stop =>
    Rewritten.of_same rfl (fun _ _ => rfl) hline
  have hsmall : length < 3 → scanForFirstLines request length = .NONE := scanForFirstLines_small
  unfold decodedEnd decodedGap firstLineArray decodedTarget
  simp only
  generalize scanForFirstLines request length = type at hsmall ⊢
  by_cases htype : type = .GET ∨ type = .HEAD ∨ type = .POST
  · have hlong : ¬ length < 3 := by
      intro hlength
      rw [hsmall hlength] at htype
      exact absurd htype (by decide)
    rw [if_neg hlong, if_pos htype, if_pos htype]
    have hlow : 3 ≤ skipWhile request length (· = 32) (if type = .GET then 3 else 4) := by
      refine le_trans ?_ (Nat.le_add_right ..)
      split
      · exact le_rfl
      · exact Nat.le_succ 3
    generalize skipWhile request length (· = 32) (if type = .GET then 3 else 4) = s at hlow ⊢
    have hs : s ≤ skipWhile request length (· ≠ 32) s := Nat.le_add_right ..
    generalize skipWhile request length (· ≠ 32) s = e at hs ⊢
    by_cases hs' : s ≥ length
    · rw [if_pos hs', if_pos (.inl hs')]
      exact hsame _
    · by_cases he : e ≥ length
      · rw [if_neg hs', if_pos he, if_pos (.inr he)]
        exact hsame _
      · rw [if_neg hs', if_neg he, if_neg (not_or.mpr ⟨hs', he⟩)]
        have htarget := targeted_originForm hroom hline hlow hs (Nat.lt_of_not_le he)
        have hsize : (request.set e 0).length = request.length := List.length_set ..
        generalize (originForm ((request.set e 0).drop s)).2 = t at htarget ⊢
        rw [hsize]
        split
        · exact htarget.rewritten_of_long hline _
        · have hcut := erased_stripGETRequestQueryAndFragment t MAX_QUERY
          rw [hcut.length]
          exact htarget.rewritten hcut hline
  · rw [if_neg htype, if_neg htype, ite_self]
    exact hsame _

end HeaderAnalysis

end AmmarServer
