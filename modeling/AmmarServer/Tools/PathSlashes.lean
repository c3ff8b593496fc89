import AmmarServer.Tools.InplaceStrings
import Mathlib.Data.List.Destutter

/-! `ReducePathSlashes_Inplace` with the `unsigned int` that it keeps a length in. A longer path is read
to a part of its length only. -/

namespace AmmarServer
open CString

/-- `ReducePathSlashes_Inplace`: its answer, and the array. -/
def reducePathSlashes (filename : List UInt8) : Bool × List UInt8 :=
  let length := strlen filename % 2 ^ 32
  let (filename, offset) := reduceSlashesLoop length length 0 0 filename
  if offset > 0 then (true, filename.set (length - offset) 0) else (false, filename)

namespace Slashes

/-- Two bytes that may stand side by side. -/
def Apart (a b : UInt8) : Prop := ¬ (a = 47 ∧ b = 47)

instance decidableApart : DecidableRel Apart := fun a b =>
  inferInstanceAs (Decidable (¬ (a = 47 ∧ b = 47)))

/-- A path with a single slash for each run of them, and its other bytes as they are. -/
def collapsed (s : List UInt8) : List UInt8 := s.destutter Apart

/-- A path without a repeated slash. -/
def Single (s : List UInt8) : Prop := s.IsChain Apart

instance decidableSingle (s : List UInt8) : Decidable (Single s) :=
  inferInstanceAs (Decidable (s.IsChain Apart))

/-- What `ReducePathSlashes_Inplace` does for one path: the string it leaves, what stands behind the
string that it was given, what it answers, and that there is nothing left to do. -/
structure Collapses (filename : List UInt8) : Prop where
  string : cstring (reducePathSlashes filename).2 = collapsed (cstring filename)
  behind : ∀ j, strlen filename ≤ j →
    charAt (reducePathSlashes filename).2 j = charAt filename j
  answer : (reducePathSlashes filename).1 = true ↔
    cstring (reducePathSlashes filename).2 ≠ cstring filename
  again : reducePathSlashes (reducePathSlashes filename).2 = (false, (reducePathSlashes filename).2)

/-- The part of a path that its length as an `unsigned int` covers. -/
def counted (s : List UInt8) : List UInt8 := s.take (s.length % 2 ^ 32)

/-- The paths that the lost bits of a length do not matter for. -/
def Spared (s : List UInt8) : Prop :=
  s.length < 2 ^ 32 ∨ Single s ∨
    ¬ Single (counted s) ∧ ∀ c ∈ s.drop (s.length % 2 ^ 32 - 1), c = 47

/-! Collapsed paths. -/

theorem collapsed_cons_cons (a b : UInt8) (s : List UInt8) :
    collapsed (a :: b :: s) =
      if a = 47 ∧ b = 47 then collapsed (b :: s) else a :: collapsed (b :: s) := by
  unfold collapsed
  rw [List.destutter_cons', List.destutter_cons', List.destutter'_cons]
  by_cases hslash : a = 47 ∧ b = 47
  · obtain ⟨rfl, rfl⟩ := hslash
    rfl
  · rw [if_neg hslash, if_pos (show Apart a b from hslash)]

theorem collapseSlashes_eq (s : List UInt8) : collapseSlashes s = collapsed s := by
  induction s with
  | nil => rfl
  | cons a s ih =>
    cases s with
    | nil =>
      rw [collapseSlashes, if_neg fun h => absurd h.2 (by simp)]
      rfl
    | cons b s =>
      rw [collapseSlashes, ih, collapsed_cons_cons]
      simp only [List.head?_cons, Option.some.injEq]

theorem collapsed_eq_self {s : List UInt8} : collapsed s = s ↔ Single s :=
  List.destutter_eq_self_iff _ _

theorem single_collapsed (s : List UInt8) : Single (collapsed s) := List.isChain_destutter _ _

theorem length_collapsed {s : List UInt8} : (collapsed s).length = s.length ↔ Single s := by
  rw [← collapsed_eq_self]
  exact ⟨(List.destutter_sublist _ s).eq_of_length, congrArg List.length⟩

theorem Single.take {s : List UInt8} (h : Single s) (n : ℕ) : Single (s.take n) :=
  List.IsChain.take h n

theorem collapsed_ne_nil (a : UInt8) (s : List UInt8) : collapsed (a :: s) ≠ [] :=
  fun h => List.cons_ne_nil a s ((List.destutter_eq_nil _).mp h)

theorem collapsed_append (front : List UInt8) (a : UInt8) (rest : List UInt8) :
    collapsed (front ++ a :: rest) = collapsed (front ++ [a]) ++ (collapsed (a :: rest)).tail := by
  induction front with
  | nil =>
    have hhead : ∀ (s : List UInt8) (b : UInt8), ∃ behind, collapsed (b :: s) = b :: behind := by
      intro s
      induction s with
      | nil => exact fun b => ⟨[], rfl⟩
      | cons c s ih =>
        intro b
        rw [collapsed_cons_cons]
        split
        · rename_i hslash
          rw [hslash.1, ← hslash.2]
          exact ih c
        · exact ⟨_, rfl⟩
    obtain ⟨behind, hbehind⟩ := hhead rest a
    rw [List.nil_append, hbehind]
    rfl
  | cons b front ih =>
    cases front with
    | nil =>
      rw [List.nil_append] at ih
      simp only [List.cons_append, List.nil_append, collapsed_cons_cons]
      rw [ih]
      split
      · rfl
      · rfl
    | cons c front =>
      simp only [List.cons_append] at ih ⊢
      rw [collapsed_cons_cons, collapsed_cons_cons, ih]
      split
      · rfl
      · rfl

theorem tail_collapsed {a : UInt8} {rest : List UInt8} (hrest : rest ≠ []) :
    (collapsed (a :: rest)).tail = [] ↔ ∀ c ∈ a :: rest, c = 47 := by
  induction rest generalizing a with
  | nil => exact absurd rfl hrest
  | cons b rest ih =>
    rw [collapsed_cons_cons, List.forall_mem_cons]
    split
    · rename_i hslash
      rcases eq_or_ne rest [] with rfl | hne
      · simp [hslash.1, hslash.2, collapsed]
      · rw [ih hne]
        exact ⟨fun h => ⟨hslash.1, h⟩, And.right⟩
    · rename_i hslash
      refine ⟨fun h => absurd h (collapsed_ne_nil b rest), fun h => absurd ⟨h.1, ?_⟩ hslash⟩
      exact h.2 b (List.mem_cons_self ..)

/-- A path and a part of it in front collapse to one string where only slashes follow a slash. -/
theorem collapsed_take {s : List UInt8} {n : ℕ} (hn : 0 < n) (hlong : n < s.length) :
    collapsed (s.take n) = collapsed s ↔ ∀ c ∈ s.drop (n - 1), c = 47 := by
  obtain ⟨m, rfl⟩ := Nat.exists_eq_add_one.mpr hn
  have hdrop : s.drop m = s[m] :: s.drop (m + 1) := List.drop_eq_getElem_cons (by omega)
  have hrest : s.drop (m + 1) ≠ [] := by
    intro hnil
    have hlength := List.drop_eq_nil_iff.mp hnil
    omega
  have hwhole : collapsed s = collapsed (s.take (m + 1)) ++ (collapsed (s.drop m)).tail := by
    conv_lhs => rw [← List.take_append_drop m s, hdrop, collapsed_append]
    rw [List.take_succ_eq_append_getElem (by omega), hdrop]
  rw [hwhole, List.self_eq_append_right, Nat.add_sub_cancel, hdrop]
  exact tail_collapsed hrest

theorem counted_of_lt {s : List UInt8} (h : s.length < 2 ^ 32) : counted s = s := by
  rw [counted, Nat.mod_eq_of_lt h, List.take_length]

theorem length_counted (s : List UInt8) : (counted s).length = s.length % 2 ^ 32 := by
  rw [counted, List.length_take]
  exact Nat.min_eq_left (Nat.mod_le _ _)

/-! The call. -/

theorem reducePathSlashes_cases (filename : List UInt8) :
    (Single (counted (cstring filename)) ∧ reducePathSlashes filename = (false, filename)) ∨
      (¬ Single (counted (cstring filename)) ∧ ∃ f, reducePathSlashes filename = (true, f) ∧
        cstring f = collapsed (counted (cstring filename)) ∧
        ∀ j, strlen filename ≤ j → charAt f j = charAt filename j) := by
  have hcount := length_counted (cstring filename)
  have hpath : counted (cstring filename) <+: filename :=
    (List.take_prefix _ _).trans (cstring_isPrefix filename)
  have hzero : 0 ∉ collapsed (counted (cstring filename)) := fun hmem =>
    zero_notMem_cstring filename (List.mem_of_mem_take ((List.destutter_sublist _ _).subset hmem))
  obtain ⟨f, offset, hloop, hle, hlength, hid, hbehind, htake⟩ := @reduceSlashesLoop_spec filename
    _ hpath (counted (cstring filename)).length 0 0 filename (Nat.le_add_left _ _) (Nat.zero_le _)
    rfl (fun _ _ => rfl) (fun _ => rfl)
  rw [List.take_zero, List.nil_append, Nat.add_zero, List.drop_zero, collapseSlashes_eq] at htake
  have hroom := hpath.length_le
  have hshort : (counted (cstring filename)).length ≤ strlen filename :=
    hcount.trans_le (Nat.mod_le _ _)
  have hsize : (collapsed (counted (cstring filename))).length =
      (counted (cstring filename)).length - offset := by
    rw [← htake, List.length_take]
    omega
  have hreduce : reducePathSlashes filename =
      if offset > 0 then (true, f.set ((counted (cstring filename)).length - offset) 0)
      else (false, f) := by
    unfold reducePathSlashes
    simp only
    rw [strlen, ← hcount, hloop]
  rw [hreduce]
  rcases Nat.eq_zero_or_pos offset with rfl | hpos
  · rw [if_neg (Nat.lt_irrefl 0), hid rfl]
    exact .inl ⟨length_collapsed.mp hsize, rfl⟩
  · rw [if_pos hpos]
    refine .inr ⟨fun hsingle => ?_, _, rfl, ?_, fun j hj => ?_⟩
    · have hsame := length_collapsed.mpr hsingle
      omega
    · apply cstring_eq_of_take hzero
      · rw [hsize, List.take_set_of_le le_rfl, htake]
      · rw [hsize]
        exact charAt_set_self (by omega) 0
    · rw [charAt_set_of_ne (by omega)]
      exact hbehind j (hshort.trans hj)

/-- Nothing is left to do where the call found a repeated slash. -/
theorem reducePathSlashes_again {filename f : List UInt8}
    (h : cstring f = collapsed (counted (cstring filename))) : reducePathSlashes f = (false, f) := by
  have hsingle : Single (counted (cstring f)) := by
    rw [h]
    exact (single_collapsed _).take _
  rcases reducePathSlashes_cases f with ⟨-, hreduce⟩ | ⟨hnot, -⟩
  · exact hreduce
  · exact absurd hsingle hnot

theorem Spared.collapsed_counted {s : List UInt8} (h : Spared s) (hnot : ¬ Single (counted s)) :
    collapsed (counted s) = collapsed s := by
  rcases h with hshort | hsingle | ⟨-, hslashes⟩
  · rw [counted_of_lt hshort]
  · exact absurd (hsingle.take _) hnot
  · rcases Nat.lt_or_ge (s.length % 2 ^ 32) s.length with hlt | hge
    · refine (collapsed_take (Nat.pos_of_ne_zero fun hzero => hnot ?_) hlt).mpr hslashes
      rw [counted, hzero]
      exact List.IsChain.nil
    · rw [counted, List.take_of_length_le hge]

theorem Spared.collapses {filename : List UInt8} (h : Spared (cstring filename)) :
    Collapses filename := by
  rcases reducePathSlashes_cases filename with
    ⟨hsingle, hreduce⟩ | ⟨hnot, f, hreduce, hstring, hbehind⟩
  · have hwhole : Single (cstring filename) := by
      rcases h with hshort | hwhole | ⟨hnot, -⟩
      · rwa [counted_of_lt hshort] at hsingle
      · exact hwhole
      · exact absurd hsingle hnot
    constructor
    · rw [hreduce]
      exact (collapsed_eq_self.mpr hwhole).symm
    · intro j hj
      rw [hreduce]
    · simp [hreduce]
    · rw [hreduce]
      exact hreduce
  · constructor
    · rw [hreduce]
      exact hstring.trans (h.collapsed_counted hnot)
    · rw [hreduce]
      exact hbehind
    · -- the string has got shorter
      have hchanged : cstring f ≠ cstring filename := by
        intro hsame
        rw [hstring, h.collapsed_counted hnot] at hsame
        exact hnot ((collapsed_eq_self.mp hsame).take _)
      simpa [hreduce] using hchanged
    · rw [hreduce]
      exact reducePathSlashes_again hstring

theorem Collapses.spared {filename : List UInt8} (h : Collapses filename) :
    Spared (cstring filename) := by
  have hstring := h.string
  rcases reducePathSlashes_cases filename with ⟨-, hreduce⟩ | ⟨hnot, f, hreduce, hcollapsed, -⟩
  · rw [hreduce] at hstring
    exact .inr (.inl (collapsed_eq_self.mp hstring.symm))
  · rw [hreduce] at hstring
    have hsame := hcollapsed.symm.trans hstring
    rcases Nat.lt_or_ge (cstring filename).length (2 ^ 32) with hshort | hlong
    · exact .inl hshort
    · have hlt : (cstring filename).length % 2 ^ 32 < (cstring filename).length :=
        (Nat.mod_lt _ (Nat.two_pow_pos 32)).trans_le hlong
      refine .inr (.inr ⟨hnot, (collapsed_take (Nat.pos_of_ne_zero fun hzero => hnot ?_) hlt).mp hsame⟩)
      rw [counted, hzero]
      exact List.IsChain.nil

/-- `ReducePathSlashes_Inplace` collapses the paths that are spared, and those only; two of them that
differ in repeated slashes become one path. -/
theorem reducePathSlashes_collapses (filename : List UInt8) :
    (Collapses filename ↔ Spared (cstring filename)) ∧
      ∀ other, Spared (cstring filename) → Spared (cstring other) →
        collapsed (cstring filename) = collapsed (cstring other) →
        cstring (reducePathSlashes filename).2 = cstring (reducePathSlashes other).2 :=
  ⟨⟨Collapses.spared, Spared.collapses⟩, fun _ hfilename hother hsame =>
    (hfilename.collapses.string.trans hsame).trans hother.collapses.string.symm⟩

/-- `/a//b` and `//a/b` become `/a/b`. -/
theorem doubled_collapses :
    Collapses [47, 97, 47, 47, 98, 0] ∧
      cstring (reducePathSlashes [47, 97, 47, 47, 98, 0]).2 =
        cstring (reducePathSlashes [47, 47, 97, 47, 98, 0]).2 :=
  ⟨(reducePathSlashes_collapses _).1.mpr (.inl (by decide)),
    (reducePathSlashes_collapses _).2 _ (.inl (by decide)) (.inl (by decide)) (by decide)⟩

theorem Spared.ne_replicate {n : ℕ} (hn : n % 2 ^ 32 = 0) (hlong : 2 ^ 32 ≤ n) :
    ¬ Spared (List.replicate n 47) := by
  rintro (hshort | hsingle | ⟨hnot, -⟩)
  · rw [List.length_replicate] at hshort
    exact absurd hshort (Nat.not_lt.mpr hlong)
  · have htwo : 2 ≤ n := Nat.le_trans (by decide) hlong
    obtain ⟨m, rfl⟩ := Nat.exists_eq_add_of_le' htwo
    rw [List.replicate_succ, List.replicate_succ] at hsingle
    exact (List.isChain_cons_cons.mp hsingle).1 ⟨rfl, rfl⟩
  · rw [counted, List.length_replicate, hn] at hnot
    exact hnot List.IsChain.nil

/-- A path of as many slashes as an `unsigned int` has values stays as it is. -/
theorem slashes_not_collapsed : ¬ Collapses (List.replicate (2 ^ 32) 47 ++ [0]) := by
  intro h
  have hspared := h.spared
  rw [cstring_append fun hmem => absurd (List.eq_of_mem_replicate hmem) (by decide)] at hspared
  exact Spared.ne_replicate rfl le_rfl hspared

end Slashes

end AmmarServer
