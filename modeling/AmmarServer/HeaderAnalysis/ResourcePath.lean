import AmmarServer.HeaderAnalysis.FirstLine
import AmmarServer.Lib.Paths

/-! Which file a request line names: what the rewriters leave of its target, and where below the web
root the path lies that is made of it. -/

namespace AmmarServer.HeaderAnalysis
open CString Paths

/-! ## The target of a request line -/

/-- The target of the request line at the front of `request`. -/
def lineTarget (request : List UInt8) (request_length : Nat) : List UInt8 :=
  let s := if scanForFirstLines request request_length = .GET then 3 else 4
  let s := skipWhile request request_length (· = 32) s
  cstring (((request.take request_length).drop s).takeWhile (· ≠ 32))

/-- A target without the scheme and authority of the absolute form. -/
def originTarget (target : List UInt8) : List UInt8 :=
  let http := strncasecmpEq target (ascii "http://") 7
  let https := strncasecmpEq target (ascii "https://") 8
  if http ∨ https then
    let authority := target.drop (if https then 8 else 7)
    let rest := authority.dropWhile fun c => c ≠ 47 ∧ c ≠ 63 ∧ c ≠ 35
    if rest.head? = some 47 then rest else 47 :: rest
  else target

theorem cstring_cons {c : UInt8} (h : c ≠ 0) (s : List UInt8) :
    cstring (c :: s) = c :: cstring s := by
  rw [cstring, List.takeWhile_cons_of_pos (by simpa using h)]
  rfl

theorem strncasecmpEq_cstring (s t : List UInt8) (n : Nat) :
    strncasecmpEq (cstring s) t n = strncasecmpEq s t n := by
  induction n generalizing s t with
  | zero => rw [strncasecmpEq, strncasecmpEq]
  | succ n ih =>
    cases s with
    | nil => rfl
    | cons c s =>
      by_cases hc : c = 0
      · subst hc
        rfl
      · rw [cstring_cons hc, strncasecmpEq, strncasecmpEq, peek_cons, peek_cons, List.tail_cons,
          List.tail_cons, ih]

theorem length_le_strlen {s t : List UInt8} (ht : ∀ c ∈ t, c ≠ 0)
    (h : strncasecmpEq s t t.length = true) : t.length ≤ strlen s := by
  rw [← strncasecmpEq_cstring, strncasecmpEq_iff ht] at h
  have hlength := congrArg List.length h
  rw [List.length_map, List.length_map, List.length_take] at hlength
  rw [strlen]
  omega

theorem cstring_drop {s : List UInt8} {n : Nat} (h : n ≤ strlen s) :
    cstring (s.drop n) = (cstring s).drop n := by
  induction n generalizing s with
  | zero => rfl
  | succ n ih =>
    cases s with
    | nil => rfl
    | cons c s =>
      by_cases hc : c = 0
      · subst hc
        exact absurd h (Nat.not_succ_le_zero n)
      · rw [strlen, cstring_cons hc, List.length_cons] at h
        rw [cstring_cons hc, List.drop_succ_cons, List.drop_succ_cons,
          ih (Nat.le_of_succ_le_succ h)]

theorem cstring_dropWhile (p : UInt8 → Bool) (s : List UInt8) :
    cstring (s.dropWhile fun c => decide (c ≠ 0) && p c) = (cstring s).dropWhile p := by
  induction s with
  | nil => rfl
  | cons c s ih =>
    by_cases hc : c = 0
    · subst hc
      rfl
    · rw [cstring_cons hc, List.dropWhile_cons, List.dropWhile_cons]
      simp only [ne_eq, hc, not_false_eq_true, decide_true, Bool.true_and]
      split
      · exact ih
      · exact cstring_cons hc s

theorem charAt_zero_eq_iff {s : List UInt8} {c : UInt8} (hc : c ≠ 0) :
    charAt s 0 = c ↔ (cstring s).head? = some c := by
  cases s with
  | nil =>
    refine iff_of_false (fun h => hc h.symm) (fun h => by cases h)
  | cons d s =>
    by_cases hd : d = 0
    · subst hd
      exact iff_of_false (fun h => hc h.symm) (fun h => by cases h)
    · rw [cstring_cons hd, List.head?_cons, Option.some_inj]
      rfl

theorem eq_cstring_append {s : List UInt8} (h : 0 ∈ s) : ∃ behind, s = cstring s ++ 0 :: behind := by
  induction s with
  | nil => cases h
  | cons c s ih =>
    by_cases hc : c = 0
    · subst hc
      exact ⟨s, rfl⟩
    · obtain ⟨behind, hs⟩ := ih ((List.mem_cons.mp h).resolve_left fun hcon => hc hcon.symm)
      refine ⟨behind, ?_⟩
      rw [cstring_cons hc, List.cons_append, ← hs]

theorem zero_mem_drop {s : List UInt8} {n : Nat} (h : 0 ∈ s) (hn : n ≤ strlen s) : 0 ∈ s.drop n := by
  obtain ⟨behind, hs⟩ := eq_cstring_append h
  rw [hs, List.drop_append_of_le_length hn]
  exact List.mem_append_right _ (List.mem_cons_self ..)

theorem zero_mem_dropWhile (p : UInt8 → Bool) {s : List UInt8} (h : 0 ∈ s) :
    0 ∈ s.dropWhile fun c => decide (c ≠ 0) && p c := by
  induction s with
  | nil => cases h
  | cons c s ih =>
    by_cases hc : c = 0
    · subst hc
      exact h
    · rw [List.dropWhile_cons]
      split
      · exact ih ((List.mem_cons.mp h).resolve_left fun hcon => hc hcon.symm)
      · exact h

theorem charAt_dropWhile (p : UInt8 → Bool) (s : List UInt8) :
    charAt (s.dropWhile fun c => decide (c ≠ 0) && p c) 0 = 0 ∨
      p (charAt (s.dropWhile fun c => decide (c ≠ 0) && p c) 0) = false := by
  induction s with
  | nil => exact .inl rfl
  | cons c s ih =>
    rw [List.dropWhile_cons]
    split
    · exact ih
    · rename_i hstop
      rw [Bool.and_eq_true, not_and, decide_eq_true_eq] at hstop
      by_cases hc : c = 0
      · exact .inl hc
      · exact .inr (Bool.eq_false_iff.mpr (hstop hc))

theorem schemeLength_le {s : List UInt8}
    (h : strncasecmpEq s (ascii "http://") 7 = true ∨ strncasecmpEq s (ascii "https://") 8 = true) :
    (if strncasecmpEq s (ascii "https://") 8 then 8 else 7) ≤ strlen s := by
  split
  · rename_i hsecure
    exact @length_le_strlen s (ascii "https://") (by decide +kernel) hsecure
  · rename_i hplain
    exact @length_le_strlen s (ascii "http://") (by decide +kernel) (h.resolve_right hplain)

theorem cstring_originForm {stripped : List UInt8} (hnul : 0 ∈ stripped) :
    cstring (originForm stripped).2 = originTarget (cstring stripped) := by
  unfold originForm originTarget
  simp only [strncasecmpEq_cstring]
  split
  · rename_i habsolute
    have hscheme := schemeLength_le habsolute
    generalize (if strncasecmpEq stripped (ascii "https://") 8 then 8 else 7) = n at hscheme ⊢
    simp only [Bool.decide_and]
    have hsplit := cstring_dropWhile
      (fun c => decide (c ≠ 47) && (decide (c ≠ 63) && decide (c ≠ 35))) (stripped.drop n)
    have hzero := zero_mem_dropWhile
      (fun c => decide (c ≠ 47) && (decide (c ≠ 63) && decide (c ≠ 35))) (zero_mem_drop hnul hscheme)
    have hstop := charAt_dropWhile
      (fun c => decide (c ≠ 47) && (decide (c ≠ 63) && decide (c ≠ 35))) (stripped.drop n)
    rw [cstring_drop hscheme] at hsplit
    generalize ((stripped.drop n).dropWhile fun c => decide (c ≠ 0) &&
      (decide (c ≠ 47) && (decide (c ≠ 63) && decide (c ≠ 35)))) = split at hsplit hzero hstop ⊢
    rw [← hsplit]
    by_cases hslash : charAt split 0 = 47
    · rw [if_pos hslash, if_pos ((charAt_zero_eq_iff (by decide)).mp hslash)]
    · rw [if_neg hslash, if_neg fun h => hslash ((charAt_zero_eq_iff (by decide)).mpr h)]
      split
      · obtain ⟨behind, hbehind⟩ := eq_cstring_append hzero
        have hmoved : split.take (strlen split + 1) = cstring split ++ [0] := by
          have htake := @List.take_length_add_append _ (cstring split) (0 :: behind) 1
          rw [← hbehind] at htake
          exact htake
        rw [hmoved, cstring_cons (by decide), List.append_assoc]
        exact congrArg _ (cstring_append (zero_notMem_cstring split) _)
      · rename_i hend
        have hnil : cstring split = [] := by
          have hat : charAt split 0 = 0 := by
            refine hstop.resolve_right fun hcon => ?_
            simp only [Bool.and_eq_false_iff, decide_eq_false_iff_not, not_not] at hcon
            rcases hcon with h47 | h63 | h35
            · exact hslash h47
            · exact hend (.inl h63)
            · exact hend (.inr h35)
          exact cstring_eq_of_take List.not_mem_nil rfl hat
        have hroom : 0 < stripped.length := List.length_pos_of_mem hnul
        rw [hnil]
        apply cstring_eq_of_charAt (by decide)
        intro j hj
        obtain rfl | rfl : j = 0 ∨ j = 1 := by
          simp only [List.length_singleton] at hj
          omega
        · rw [charAt_set_of_ne (by decide), charAt_set_self hroom]
          rfl
        · rcases Nat.lt_or_ge 1 stripped.length with hlt | hge
          · exact charAt_set_self (by rwa [List.length_set]) 0
          · exact charAt_of_length_le (by simpa using hge)
  · rfl

/-! ## The path in a target -/

/-- The part of a target in front of its query and fragment. -/
def pathOf (target : List UInt8) : List UInt8 := target.takeWhile fun c => c ≠ 63 ∧ c ≠ 35

/-- The target is cut where its path ends: there is one `#` at most in front of the first `?`, and
the first `?` is not the last byte of a target without one. -/
def CutsCleanly (target : List UInt8) : Prop :=
  (target.takeWhile (· ≠ 63)).count 35 ≤ 1 ∧
    ((target.takeWhile (· ≠ 63)).count 35 = 0 →
      (target.takeWhile (· ≠ 63)).length + 1 ≠ target.length)

instance (target : List UInt8) : Decidable (CutsCleanly target) :=
  inferInstanceAs (Decidable (_ ∧ _))

theorem pathOf_eq (target : List UInt8) :
    pathOf target = (target.takeWhile (· ≠ 63)).takeWhile (· ≠ 35) := by
  rw [pathOf, List.takeWhile_takeWhile]
  congr 1
  funext c
  simp [and_comm]

theorem takeWhile_front {front behind : List UInt8} {c : UInt8} (h : c ∉ front) :
    (front ++ c :: behind).takeWhile (· ≠ c) = front := by
  have hall : ∀ d ∈ front, decide (d ≠ c) = true := by
    intro d hd
    simp only [decide_eq_true_eq]
    rintro rfl
    exact h hd
  rw [List.takeWhile_append_of_pos hall]
  simp

theorem exists_last {l : List UInt8} {c : UInt8} (h : c ∈ l) :
    ∃ front behind, l = front ++ c :: behind ∧ c ∉ behind := by
  obtain ⟨front, behind, hl, hnot⟩ := List.eq_append_cons_of_mem (List.mem_reverse.mpr h)
  refine ⟨behind.reverse, front.reverse, ?_, by simpa using hnot⟩
  rw [← List.reverse_reverse l, hl]
  simp

/-- What is left of a target is its path, or goes on behind it with a `?` or a `#`. -/
theorem cutTarget_cases (target : List UInt8) :
    (CutsCleanly target ∧ cutTarget target = pathOf target) ∨
      (¬ CutsCleanly target ∧ ∃ c behind, (c = 63 ∨ c = 35) ∧
        cutTarget target = pathOf target ++ c :: behind) := by
  rw [pathOf_eq]
  unfold CutsCleanly cutTarget
  have hfront : target = target.takeWhile (· ≠ 63) ++ target.dropWhile (· ≠ 63) :=
    List.takeWhile_append_dropWhile.symm
  have hstop : ∀ c ∈ (target.dropWhile (· ≠ 63)).head?, c = 63 := by
    intro c hc
    have hnot := List.head?_dropWhile_not (· ≠ (63 : UInt8)) target
    rw [Option.mem_def.mp hc] at hnot
    simpa using hnot
  generalize target.takeWhile (· ≠ 63) = front at hfront ⊢
  generalize target.dropWhile (· ≠ 63) = query at hfront hstop
  by_cases hhash : 35 ∈ front
  · obtain ⟨a, b, rfl, hb⟩ := exists_last hhash
    have hbehind : ∀ c ∈ b, decide (c ≠ 35) = true := by
      intro c hc
      simp only [decide_eq_true_eq]
      rintro rfl
      exact hb hc
    have hcount : (a ++ 35 :: b).count 35 = a.count 35 + 1 := by
      rw [List.count_append, List.count_cons_self, List.count_eq_zero.mpr hb]
    rw [if_pos hhash, rdropWhile_append (by simp) hbehind, List.dropLast_concat, hcount]
    by_cases ha : 35 ∈ a
    · obtain ⟨x, y, rfl, hx⟩ := List.eq_append_cons_of_mem ha
      have hpos : 0 < (x ++ 35 :: y).count 35 := List.count_pos_iff.mpr ha
      refine .inr ⟨fun hclean => by omega, 35, y, .inr rfl, ?_⟩
      rw [List.append_assoc, List.cons_append, takeWhile_front hx]
    · have hzero := List.count_eq_zero.mpr ha
      rw [hzero, takeWhile_front ha]
      exact .inl ⟨⟨le_rfl, fun hcon => by omega⟩, rfl⟩
  · have hcount : front.count 35 = 0 := List.count_eq_zero.mpr hhash
    have hpath : front.takeWhile (· ≠ 35) = front := by
      apply List.takeWhile_eq_self_iff.mpr
      intro c hc
      simp only [decide_eq_true_eq]
      rintro rfl
      exact hhash hc
    rw [if_neg hhash, hpath, hcount]
    by_cases hlast : front.length + 1 = target.length
    · rw [if_pos hlast]
      refine .inr ⟨fun hclean => hclean.2 rfl hlast, 63, [], .inl rfl, ?_⟩
      have hone : query.length = 1 := by
        rw [hfront, List.length_append] at hlast
        omega
      obtain ⟨c, rfl⟩ := List.length_eq_one_iff.mp hone
      rw [hfront, hstop c rfl]
    · rw [if_neg hlast]
      exact .inl ⟨⟨Nat.zero_le 1, fun _ => hlast⟩, rfl⟩

/-! ## More of a target gives another path -/

/-- The bytes of a path that are no slash. -/
def bytesOf (path : List UInt8) : Nat := path.countP (· ≠ 47)

theorem bytesOf_cons (c : UInt8) (path : List UInt8) :
    bytesOf (c :: path) = bytesOf path + if c = 47 then 0 else 1 := by
  rw [bytesOf, List.countP_cons, bytesOf]
  by_cases hc : c = 47 <;> simp [hc]

theorem bytesOf_append (path behind : List UInt8) :
    bytesOf (path ++ behind) = bytesOf path + bytesOf behind := List.countP_append

theorem bytesOf_collapseSlashes (path : List UInt8) :
    bytesOf (collapseSlashes path) = bytesOf path := by
  induction path with
  | nil => rfl
  | cons c path ih =>
    rw [collapseSlashes]
    split
    · rename_i hslash
      rw [ih, bytesOf_cons, if_pos hslash.1]
      rfl
    · rw [bytesOf_cons, bytesOf_cons, ih]

theorem escapedByte_of_queryMark {c : UInt8} (hc : c = 63 ∨ c = 35) (a : UInt8) :
    escapedByte true a c = none ∧ escapedByte true c a = none := by
  have hnone : escapeDigit c = none := by
    rcases hc with rfl | rfl <;> decide
  constructor
  · rw [escapedByte, hnone]
    cases escapeDigit a <;> rfl
  · rw [escapedByte, hnone]

theorem bytesOf_percentDecode_append {path behind : List UInt8} {c : UInt8}
    (hc : c = 63 ∨ c = 35) :
    bytesOf (percentDecode path) < bytesOf (percentDecode (path ++ c :: behind)) := by
  have hne : c ≠ 37 ∧ c ≠ 47 := by rcases hc with rfl | rfl <;> decide
  have hself : ∀ behind, 0 < bytesOf (percentDecode (c :: behind)) := by
    intro behind
    rw [percentDecode_cons_of_ne hne.1, bytesOf_cons, if_neg hne.2]
    omega
  have hone : ∀ a behind, bytesOf [a] < bytesOf (percentDecode (a :: c :: behind)) := by
    intro a behind
    by_cases ha : a = 37
    · subst ha
      have hlone : bytesOf [37] = 1 := rfl
      cases behind with
      | nil =>
        rw [hlone, percentDecode, bytesOf_cons, bytesOf_cons, if_neg hne.2]
        decide
      | cons y behind =>
        have hpos := hself (y :: behind)
        rw [percentDecode, if_pos rfl, (escapedByte_of_queryMark hc y).2, hlone]
        simp only
        rw [bytesOf_cons, if_neg (by decide)]
        omega
    · have hpos := hself behind
      rw [percentDecode_cons_of_ne ha, bytesOf_cons, bytesOf_cons]
      exact Nat.add_lt_add_right hpos _
  induction path using percentDecode.induct with
  | case1 => exact hself behind
  | case2 a => exact hone a behind
  | case3 a b =>
    have hb := hone b behind
    rw [percentDecode, bytesOf_cons, List.cons_append, List.cons_append, List.nil_append]
    by_cases ha : a = 37
    · subst ha
      rw [percentDecode, if_pos rfl, (escapedByte_of_queryMark hc b).1]
      simp only
      rw [bytesOf_cons 95, if_neg (by decide), if_neg (by decide)]
      omega
    · rw [percentDecode_cons_of_ne ha, bytesOf_cons a]
      omega
  | case4 x y rest hnone ih =>
    rw [List.cons_append, List.cons_append, List.cons_append, percentDecode, percentDecode,
      if_pos rfl, if_pos rfl, hnone]
    simp only
    rw [bytesOf_cons, bytesOf_cons]
    exact Nat.add_lt_add_right ih _
  | case5 x y rest asciiVal hsome ih =>
    rw [List.cons_append, List.cons_append, List.cons_append, percentDecode, percentDecode,
      if_pos rfl, if_pos rfl, hsome]
    simp only
    rw [bytesOf_cons, bytesOf_cons]
    exact Nat.add_lt_add_right ih _
  | case6 a x y rest hne ih =>
    rw [List.cons_append, percentDecode_cons_of_ne hne, percentDecode_cons_of_ne hne,
      bytesOf_cons, bytesOf_cons]
    exact Nat.add_lt_add_right ih _

/-- Muting takes no byte away. -/
theorem bytesOf_decodePath (path : List UInt8) :
    bytesOf (decodePath path) = bytesOf (percentDecode path) := by
  unfold decodePath
  split
  · rename_i hshort
    rw [percentDecode_of_length_le hshort, bytesOf, bytesOf, List.countP_map]
    apply List.countP_congr
    intro c _
    by_cases hc : c = 37
    · subst hc
      simp
    · simp [hc]
  · rfl

theorem collapseSlashes_cutTarget_ne {target : List UInt8} (h : ¬ CutsCleanly target)
    (root : List UInt8) :
    collapseSlashes (root ++ decodePath (cutTarget target)) ≠
      collapseSlashes (root ++ decodePath (pathOf target)) := by
  rcases cutTarget_cases target with ⟨hclean, _⟩ | ⟨_, c, behind, hc, hcut⟩
  · exact absurd hclean h
  · intro hsame
    have hbytes := congrArg bytesOf hsame
    have hmore := @bytesOf_percentDecode_append (pathOf target) behind c hc
    rw [bytesOf_collapseSlashes, bytesOf_collapseSlashes, bytesOf_append, bytesOf_append,
      bytesOf_decodePath, bytesOf_decodePath, hcut] at hbytes
    omega

/-! ## Collapsing slashes names the same place -/

theorem head?_collapseSlashes (path : List UInt8) : (collapseSlashes path).head? = path.head? := by
  induction path with
  | nil => rfl
  | cons c path ih =>
    rw [collapseSlashes]
    split
    · rename_i hslash
      rw [ih, hslash.2, hslash.1, List.head?_cons]
    · rfl

/-- Only empty components go, and none of them is the first. -/
theorem components_collapseSlashes {path first : List UInt8} {others : List (List UInt8)}
    (h : components path = first :: others) :
    ∃ others', components (collapseSlashes path) = first :: others' ∧
      others'.filter (· ≠ []) = others.filter (· ≠ []) := by
  induction path generalizing first others with
  | nil => exact ⟨others, h, rfl⟩
  | cons c path ih =>
    obtain ⟨x, xs, hx⟩ := List.exists_cons_of_ne_nil (components_ne_nil path)
    obtain ⟨ys, hy, hfilter⟩ := ih hx
    rw [collapseSlashes]
    split
    · rename_i hslash
      obtain ⟨path, rfl⟩ := List.head?_eq_some_iff.mp hslash.2
      obtain ⟨rfl, rfl⟩ := List.cons.inj (h.symm.trans
        ((congrArg (fun b => components (b :: 47 :: path)) hslash.1).trans (components_slash _)))
      have hxnil : x = [] := by
        have hhead := hx.symm.trans (components_slash path)
        exact (List.cons.inj hhead).1
      subst hxnil
      refine ⟨ys, hy, ?_⟩
      rw [hfilter, hx, List.filter_cons_of_neg (by simp)]
    · by_cases hc : c = slash
      · subst hc
        rw [components_slash] at h ⊢
        obtain ⟨rfl, rfl⟩ := List.cons.inj h
        refine ⟨_, rfl, ?_⟩
        rw [hy, hx, List.filter_cons, List.filter_cons, hfilter]
      · rw [components_cons hc hx] at h
        obtain ⟨rfl, rfl⟩ := List.cons.inj h
        exact ⟨ys, components_cons hc hy, hfilter⟩

theorem filter_components_collapseSlashes (path : List UInt8) :
    (components (collapseSlashes path)).filter (· ≠ []) = (components path).filter (· ≠ []) := by
  obtain ⟨x, xs, hx⟩ := List.exists_cons_of_ne_nil (components_ne_nil path)
  obtain ⟨ys, hy, hfilter⟩ := components_collapseSlashes hx
  rw [hx, hy, List.filter_cons, List.filter_cons, hfilter]

theorem dotdot_mem_collapseSlashes {path : List UInt8} :
    dotdot ∈ components (collapseSlashes path) ↔ dotdot ∈ components path := by
  have hmem : ∀ cs : List (List UInt8), dotdot ∈ cs ↔ dotdot ∈ cs.filter (· ≠ []) := by
    intro cs
    simp [List.mem_filter, dotdot]
  rw [hmem, filter_components_collapseSlashes, ← hmem]

theorem under_collapseSlashes {root path : List UInt8} :
    Under root (collapseSlashes path) ↔ Under root path := by
  have habsolute : isAbsolute (collapseSlashes path) = isAbsolute path := by
    rw [isAbsolute, head?_collapseSlashes, isAbsolute]
  rw [Under, Under, normalise_congr habsolute (filter_components_collapseSlashes path), habsolute]

theorem length_collapseSlashes_le (path : List UInt8) :
    (collapseSlashes path).length ≤ path.length := by
  induction path with
  | nil => exact le_rfl
  | cons c path ih =>
    rw [collapseSlashes]
    split
    · exact ih.trans (Nat.le_succ _)
    · exact Nat.succ_le_succ ih

/-! ## An accepted request line -/

theorem cstring_append_zero (s rest : List UInt8) : cstring (s ++ 0 :: rest) = cstring s := by
  induction s with
  | nil => rfl
  | cons c s ih =>
    by_cases hc : c = 0
    · subst hc
      rfl
    · rw [List.cons_append, cstring_cons hc, cstring_cons hc, ih]

theorem target_ended {request : List UInt8} {length s : Nat} (hlength : length ≤ request.length)
    (he : skipWhile request length (· ≠ 32) s < length) :
    ∃ rest, (request.set (skipWhile request length (· ≠ 32) s) 0).drop s =
      ((request.take length).drop s).takeWhile (· ≠ 32) ++ 0 :: rest := by
  unfold skipWhile at he ⊢
  have hleading : ((request.take length).drop s).takeWhile (· ≠ 32) <+: request.drop s := by
    rw [List.drop_take]
    exact (List.takeWhile_prefix _).trans (List.take_prefix _ _)
  generalize ((request.take length).drop s).takeWhile (· ≠ 32) = word at he hleading ⊢
  obtain ⟨rest, hrest⟩ := hleading
  have hsize := congrArg List.length hrest
  rw [List.length_append, List.length_drop] at hsize
  obtain ⟨c, rest, rfl⟩ := List.exists_cons_of_ne_nil (List.length_pos_iff.mp
    (by omega : 0 < rest.length))
  refine ⟨rest, ?_⟩
  rw [List.drop_set, if_neg (by omega), ← hrest, Nat.add_sub_cancel_left]
  simp

/-- What `verified_local_resource` holds of the part of the target that is left. -/
theorem verified_eq {root stripped : List UInt8} (hroot : strlen root < MAX_FILE_PATH)
    (hfits : strlen stripped < MAX_FILE_PATH - strlen root) :
    cstring (reducePathSlashesInplace ((cstring root).take MAX_FILE_PATH ++
        (cstring stripped).take (MAX_FILE_PATH - strlen root - 1) ++ [0])) =
      collapseSlashes (cstring root ++ cstring stripped) := by
  rw [cstring_reducePathSlashesInplace, List.take_of_length_le hroot.le,
    List.take_of_length_le (by rw [← strlen]; omega), cstring_append]
  rw [List.mem_append, not_or]
  exact ⟨zero_notMem_cstring root, zero_notMem_cstring stripped⟩

theorem processFirstHTTPLine_accepted {KEEPALIVE_ENABLED : Bool} {line behind root : List UInt8}
    {header : HTTPHeader}
    (h : processFirstHTTPLine KEEPALIVE_ENABLED (line ++ behind) line.length root = .ok header) :
    ∃ left, left = decodePath (cutTarget (originTarget
        (lineTarget (line ++ behind) line.length))) ∧
      left ≠ [] ∧ (∀ c ∈ left.tail, 32 ≤ c ∧ c ≤ 126) ∧ ¬ [46, 46] <:+: left ∧
      (cstring root).length + left.length < MAX_FILE_PATH ∧
      header.verified_local_resource = collapseSlashes (cstring root ++ left) := by
  have hline : line.length ≤ (line ++ behind).length := by
    rw [List.length_append]
    omega
  unfold processFirstHTTPLine at h
  split at h
  · cases h
  simp only at h
  split at h
  swap
  · cases h
  generalize hs : skipWhile (line ++ behind) line.length (· = 32)
    (if scanForFirstLines (line ++ behind) line.length = .GET then 3 else 4) = s at h
  split at h
  · cases h
  split at h
  · cases h
  rename_i he
  obtain ⟨rest, hrest⟩ := target_ended hline (Nat.lt_of_not_le he)
  have htarget : cstring (((line ++ behind).set
      (skipWhile (line ++ behind) line.length (· ≠ 32) s) 0).drop s) =
      lineTarget (line ++ behind) line.length := by
    rw [hrest, cstring_append_zero, lineTarget, hs]
  have hnul : 0 ∈ ((line ++ behind).set
      (skipWhile (line ++ behind) line.length (· ≠ 32) s) 0).drop s := by
    rw [hrest]
    exact List.mem_append_right _ (List.mem_cons_self ..)
  have horigin := cstring_originForm hnul
  rw [htarget] at horigin
  generalize originForm (((line ++ behind).set
    (skipWhile (line ++ behind) line.length (· ≠ 32) s) 0).drop s) = origin at h horigin
  obtain ⟨absolute, stripped⟩ := origin
  simp only at h horigin
  split at h
  · cases h
  rename_i hsize
  have hcut := @cstring_stripGETRequestQueryAndFragment stripped MAX_QUERY (by
    simp only [MAX_RESOURCE, MAX_QUERY] at hsize ⊢
    omega)
  rw [horigin] at hcut
  generalize stripGETRequestQueryAndFragment stripped MAX_QUERY = cut at h hcut
  obtain ⟨hasQuery, cut⟩ := cut
  simp only at h hcut
  have hdecode := cstring_stripHTMLCharactersInplace cut
  rw [hcut] at hdecode
  generalize stripHTMLCharactersInplace cut true = named at h hdecode
  split at h
  swap
  · cases h
  rename_i hok
  split at h
  · cases h
  rename_i hfits
  obtain ⟨hne, hprintable, hdots⟩ := filenameStripperOk_spec hok
  obtain rfl := Except.ok.inj h
  rw [not_or] at hfits
  refine ⟨cstring named, hdecode, hne, hprintable, hdots, ?_, ?_⟩
  · rw [← strlen, ← strlen]
    omega
  · exact verified_eq (Nat.lt_of_not_le hfits.1) (Nat.lt_of_not_le hfits.2)

/-! ## Staying under the web root -/

/-- Writing `path` behind `root` leads nowhere but below `root`: behind a slash, or at a last
component of the root that is empty, the place itself, or the way up from somewhere below. -/
def Joins (root path : List UInt8) : Prop :=
  if path.head? = some slash then root ≠ [] ∧ dotdot ∉ components root
  else
    let last := (components root).getLast (components_ne_nil root)
    dotdot ∉ (components root).dropLast ∧
      (last = [] ∨ (last = dot ∧ (components path).head? ≠ some dot) ∨
        (last = dotdot ∧ (isAbsolute root = true ∨ ∃ c ∈ (components root).dropLast, Named c)))

theorem lawfulBEq_component : LawfulBEq (List UInt8) := inferInstance

instance (root path : List UInt8) : Decidable (Joins root path) := by
  unfold Joins
  have := lawfulBEq_component
  infer_instance

/-- What is asked of the file that a request line names. -/
structure StaysUnder (root target verified : List UInt8) : Prop where
  path : verified = collapseSlashes (root ++ decodePath (pathOf target))
  fits : verified.length < MAX_FILE_PATH
  noDotdot : dotdot ∉ components verified
  printable : ∀ c ∈ decodePath (pathOf target), 32 ≤ c ∧ c ≤ 126
  under : Under root verified

theorem dotdot_notMem {path : List UInt8} (h : ¬ [46, 46] <:+: path) : dotdot ∉ components path :=
  fun hmem => h (infix_of_mem_components hmem)

/-- The root and a path without `..` in it: no way up, and nothing outside the root. -/
theorem joins_iff {root path : List UInt8} (hne : path ≠ []) (hdots : ¬ [46, 46] <:+: path) :
    dotdot ∉ components (root ++ path) ∧ Under root (root ++ path) ↔ Joins root path := by
  have hpath := dotdot_notMem hdots
  unfold Joins
  split
  · rename_i hslash
    obtain ⟨path, rfl⟩ := List.head?_eq_some_iff.mp hslash
    rw [components_slash, List.mem_cons, not_or] at hpath
    constructor
    · rintro ⟨hno, hunder⟩
      refine ⟨?_, fun hroot => hno ?_⟩
      · rintro rfl
        cases hunder.1
      · rw [components_append_slash]
        exact List.mem_append_left _ hroot
    · rintro ⟨hroot, hno⟩
      refine ⟨?_, under_slash hroot hpath.2⟩
      rw [components_append_slash, List.mem_append, not_or]
      exact ⟨hno, hpath.2⟩
  · rename_i hslash
    obtain ⟨first, others, hfirst, hcomponents⟩ :
        ∃ first others, first ≠ [] ∧ components path = first :: others := by
      obtain ⟨c, path, rfl⟩ := List.exists_cons_of_ne_nil hne
      obtain ⟨x, xs, hx⟩ := List.exists_cons_of_ne_nil (components_ne_nil path)
      refine ⟨c :: x, xs, List.cons_ne_nil _ _, components_cons (fun hc => hslash ?_) hx⟩
      rw [hc, List.head?_cons]
    rw [hcomponents, List.mem_cons, not_or] at hpath
    have hjoined := @components_append root path first others hcomponents
    have hno : dotdot ∉ components (root ++ path) ↔ dotdot ∉ (components root).dropLast ∧
        dotdot ≠ (components root).getLast (components_ne_nil root) ++ first := by
      rw [hjoined, List.mem_append, List.mem_cons, not_or, not_or, and_iff_left hpath.2]
    simp only
    rw [hcomponents, List.head?_cons]
    constructor
    · rintro ⟨hnone, hunder⟩
      obtain ⟨hfront, hlast⟩ := hno.mp hnone
      refine ⟨hfront, ?_⟩
      rcases (under_append_iff hcomponents hfirst hnone).mp hunder with hnil | hdot | hup
      · exact .inl hnil
      · refine .inr (.inl ⟨hdot, fun hcon => hlast ?_⟩)
        rw [hdot, Option.some.inj hcon]
        rfl
      · exact .inr (.inr hup)
    · rintro ⟨hfront, hlast⟩
      have hnone : dotdot ∉ components (root ++ path) := by
        refine hno.mpr ⟨hfront, fun hcon => ?_⟩
        rcases hlast with hnil | ⟨hdot, hhead⟩ | ⟨hup, _⟩
        · rw [hnil, List.nil_append] at hcon
          exact hpath.1 hcon
        · rw [hdot] at hcon
          exact hhead (congrArg some (List.cons.inj hcon).2.symm)
        · rw [hup] at hcon
          exact hfirst (List.append_right_eq_self.mp hcon.symm)
      refine ⟨hnone, (under_append_iff hcomponents hfirst hnone).mpr ?_⟩
      rcases hlast with hnil | ⟨hdot, _⟩ | hup
      · exact .inl hnil
      · exact .inr (.inl hdot)
      · exact .inr (.inr hup)

/-- An accepted request line names a file under the web root exactly where its target is cut at its
path, the first byte of the path is a printable one, and the path joins the root cleanly. -/
theorem accepted_staysUnder_iff {KEEPALIVE_ENABLED : Bool} {line behind root : List UInt8}
    {header : HTTPHeader}
    (h : processFirstHTTPLine KEEPALIVE_ENABLED (line ++ behind) line.length root = .ok header) :
    let target := originTarget (lineTarget (line ++ behind) line.length)
    StaysUnder (cstring root) target header.verified_local_resource ↔
      CutsCleanly target ∧ (∀ c ∈ (decodePath (pathOf target)).head?, 32 ≤ c ∧ c ≤ 126) ∧
        Joins (cstring root) (decodePath (pathOf target)) := by
  obtain ⟨left, hleft, hne, hprintable, hdots, hfits, hverified⟩ := processFirstHTTPLine_accepted h
  simp only
  generalize originTarget (lineTarget (line ++ behind) line.length) = target at hleft ⊢
  rw [hverified]
  by_cases hclean : CutsCleanly target
  · obtain ⟨_, hcut⟩ | ⟨hcon, _⟩ := cutTarget_cases target
    swap
    · exact absurd hclean hcon
    rw [hcut] at hleft
    subst hleft
    constructor
    · intro hstays
      refine ⟨hclean, fun c hc => hstays.printable c (List.mem_of_mem_head? hc), ?_⟩
      exact (joins_iff hne hdots).mp ⟨fun hmem => hstays.noDotdot
        (dotdot_mem_collapseSlashes.mpr hmem), under_collapseSlashes.mp hstays.under⟩
    · rintro ⟨_, hfirst, hjoins⟩
      obtain ⟨hno, hunder⟩ := (joins_iff hne hdots).mpr hjoins
      refine ⟨rfl, ?_, fun hmem => hno (dotdot_mem_collapseSlashes.mp hmem), fun c hc => ?_,
        under_collapseSlashes.mpr hunder⟩
      · have hle := length_collapseSlashes_le (cstring root ++ decodePath (pathOf target))
        rw [List.length_append] at hle
        omega
      · obtain ⟨d, left, hd⟩ := List.exists_cons_of_ne_nil hne
        rw [hd] at hc hprintable hfirst
        rcases List.mem_cons.mp hc with rfl | hc
        · exact hfirst c rfl
        · exact hprintable c hc
  · refine iff_of_false (fun hstays => ?_) (fun hcon => hclean hcon.1)
    have hsame := hstays.path
    rw [hleft] at hsame
    exact collapseSlashes_cutTarget_ne hclean (cstring root) hsame

/-- The header that a request line without query and in origin form is accepted with. -/
def acceptedHeader (resource verified : List UInt8) : HTTPHeader where
  requestType := .GET
  httpVersionMajor := 1
  httpVersionMinor := 1
  keepalive := true
  requestTargetWasAbsolute := false
  GETrequest := none
  GETrequestSize := 0
  resource := resource
  verified_local_resource := verified

theorem accepted_staysUnder_index :
    let line := ascii "GET /index.html HTTP/1.1\r\n"
    let target := originTarget (lineTarget (line ++ []) line.length)
    StaysUnder (cstring (ascii "public_html/")) target (ascii "public_html/index.html") ↔
      CutsCleanly target ∧ (∀ c ∈ (decodePath (pathOf target)).head?, 32 ≤ c ∧ c ≤ 126) ∧
        Joins (cstring (ascii "public_html/")) (decodePath (pathOf target)) :=
  @accepted_staysUnder_iff true (ascii "GET /index.html HTTP/1.1\r\n") [] (ascii "public_html/")
    (acceptedHeader (ascii "/index.html") (ascii "public_html/index.html")) (by decide)

/-- A target that does not start with a slash names a file next to the web root. -/
theorem bareTarget_leavesRoot :
    let line := ascii "GET -private/key HTTP/1.1\r\n"
    let header := acceptedHeader (ascii "-private/key") (ascii "public_html-private/key")
    processFirstHTTPLine true line line.length (ascii "public_html") = .ok header ∧
      ¬ StaysUnder (ascii "public_html") (originTarget (lineTarget line line.length))
        header.verified_local_resource := by
  refine ⟨by decide, fun hstays => ?_⟩
  have hunder := hstays.under
  revert hunder
  decide

end AmmarServer.HeaderAnalysis
