import Mathlib.Data.List.Infix
import Mathlib.Data.UInt

/-! File paths as strings of bytes, and what they name when no link is followed. -/

namespace Paths

def slash : UInt8 := 47

def dot : List UInt8 := [46]

def dotdot : List UInt8 := [46, 46]

/-- The components of a path, the empty ones included. -/
def components (path : List UInt8) : List (List UInt8) := path.splitOn slash

def isAbsolute (path : List UInt8) : Bool := path.head? == some slash

/-- One component of a path, on top of the components that are there. -/
def descend (absolute : Bool) (place : List (List UInt8)) (c : List UInt8) : List (List UInt8) :=
  if c = [] ∨ c = dot then place
  else if c = dotdot then
    if place = [] ∨ place.getLast? = some dotdot then
      if absolute then place else place ++ [dotdot]
    else place.dropLast
  else place ++ [c]

/-- The lexical normalisation of a path. -/
def normalise (path : List UInt8) : List (List UInt8) :=
  (components path).foldl (descend (isAbsolute path)) []

/-- The path names the directory `root` or something beneath it. -/
def Under (root path : List UInt8) : Prop :=
  isAbsolute root = isAbsolute path ∧ normalise root <+: normalise path

instance (root path : List UInt8) : Decidable (Under root path) := by
  unfold Under
  infer_instance

/-! ## Components -/

theorem components_ne_nil (path : List UInt8) : components path ≠ [] := List.splitOn_ne_nil _ _

@[simp] theorem components_nil : components [] = [[]] := rfl

theorem components_slash (path : List UInt8) : components (slash :: path) = [] :: components path := by
  rw [components, List.splitOn_cons_eq_if_modifyHead]
  simp [components]

theorem components_cons {c : UInt8} (h : c ≠ slash) {path first : List UInt8}
    {others : List (List UInt8)} (hpath : components path = first :: others) :
    components (c :: path) = (c :: first) :: others := by
  rw [components] at hpath ⊢
  rw [List.splitOn_cons_eq_if_modifyHead, hpath]
  simp [h]

theorem components_append_slash (a b : List UInt8) :
    components (a ++ slash :: b) = components a ++ components b :=
  List.splitOn_append_cons_self _ _

/-- Two strings side by side: the last component of the one goes on in the first of the other. -/
theorem components_append {a b first : List UInt8} {others : List (List UInt8)}
    (hb : components b = first :: others) :
    components (a ++ b) = (components a).dropLast ++
      ((components a).getLast (components_ne_nil a) ++ first) :: others := by
  induction a with
  | nil => simpa using hb
  | cons c a ih =>
    by_cases hc : c = slash
    · subst hc
      have hne := components_ne_nil a
      simp only [List.cons_append, components_slash, ih, List.getLast_cons hne,
        List.dropLast_cons_of_ne_nil hne]
    · obtain ⟨x, xs, hx⟩ := List.exists_cons_of_ne_nil (components_ne_nil a)
      have hca := components_cons hc hx
      cases xs with
      | nil =>
        simp only [hx, List.dropLast_singleton, List.nil_append, List.getLast_singleton] at ih
        rw [List.cons_append, components_cons hc ih]
        simp [hca]
      | cons y ys =>
        simp only [hx, List.dropLast_cons_cons, List.cons_append] at ih
        rw [List.cons_append, components_cons hc ih]
        simp [hca]

theorem first_isPrefix {path first : List UInt8} {others : List (List UInt8)}
    (h : components path = first :: others) : first <+: path := by
  induction path generalizing first others with
  | nil =>
    obtain ⟨rfl, _⟩ := List.cons.inj h
    exact List.prefix_refl _
  | cons c path ih =>
    by_cases hc : c = slash
    · rw [hc, components_slash] at h
      obtain ⟨rfl, _⟩ := List.cons.inj h
      exact List.nil_prefix
    · obtain ⟨x, xs, hx⟩ := List.exists_cons_of_ne_nil (components_ne_nil path)
      rw [components_cons hc hx] at h
      obtain ⟨rfl, _⟩ := List.cons.inj h
      exact (List.prefix_cons_inj c).mpr (ih hx)

theorem infix_of_mem_components {path c : List UInt8} (h : c ∈ components path) : c <:+: path := by
  induction path with
  | nil =>
    rw [components_nil, List.mem_singleton] at h
    rw [h]
  | cons b path ih =>
    by_cases hb : b = slash
    · rw [hb, components_slash, List.mem_cons] at h
      rcases h with rfl | h
      · exact List.nil_infix
      · exact (ih h).trans (List.suffix_cons b path).isInfix
    · obtain ⟨x, xs, hx⟩ := List.exists_cons_of_ne_nil (components_ne_nil path)
      rw [components_cons hb hx, List.mem_cons] at h
      rcases h with rfl | h
      · exact ((List.prefix_cons_inj b).mpr (first_isPrefix hx)).isInfix
      · refine (ih ?_).trans (List.suffix_cons b path).isInfix
        rw [hx]
        exact List.mem_cons_of_mem x h

/-! ## Normalisation -/

def Named (c : List UInt8) : Prop := c ≠ [] ∧ c ≠ dot

instance (c : List UInt8) : Decidable (Named c) := inferInstanceAs (Decidable (_ ∧ _))

/-- Without a way up, a path leads down its components. -/
theorem foldl_descend {absolute : Bool} {cs : List (List UInt8)} (h : dotdot ∉ cs)
    (place : List (List UInt8)) :
    cs.foldl (descend absolute) place = place ++ cs.filter (Named ·) := by
  induction cs generalizing place with
  | nil => simp
  | cons c cs ih =>
    rw [List.mem_cons, not_or] at h
    rw [List.foldl_cons, ih h.2, descend]
    by_cases hc : c = [] ∨ c = dot
    · have hnamed : ¬ Named c := fun hn => hc.elim hn.1 hn.2
      rw [if_pos hc, List.filter_cons_of_neg (by simpa using hnamed)]
    · have hnamed : Named c := not_or.mp hc
      rw [if_neg hc, if_neg (Ne.symm h.1), List.filter_cons_of_pos (by simpa using hnamed),
        List.append_assoc]
      rfl

/-- Empty components lead nowhere. -/
theorem foldl_descend_filter (absolute : Bool) (cs place : List (List UInt8)) :
    (cs.filter (· ≠ [])).foldl (descend absolute) place = cs.foldl (descend absolute) place := by
  induction cs generalizing place with
  | nil => rfl
  | cons c cs ih =>
    by_cases hc : c = []
    · subst hc
      rw [List.filter_cons_of_neg (by simp), List.foldl_cons, ih]
      rfl
    · rw [List.filter_cons_of_pos (by simpa using hc), List.foldl_cons, List.foldl_cons, ih]

theorem normalise_eq {path : List UInt8} (h : dotdot ∉ components path) :
    normalise path = (components path).filter (Named ·) := by
  rw [normalise, foldl_descend h, List.nil_append]

/-- Paths that differ in empty components only. -/
theorem normalise_congr {a b : List UInt8} (habsolute : isAbsolute a = isAbsolute b)
    (h : (components a).filter (· ≠ []) = (components b).filter (· ≠ [])) :
    normalise a = normalise b := by
  rw [normalise, normalise, ← foldl_descend_filter, h, foldl_descend_filter, habsolute]

/-! ## Joining a root and a path -/

/-- What is written behind a slash at the root stays under it, without a way up. -/
theorem under_slash {root path : List UInt8} (hroot : root ≠ []) (h : dotdot ∉ components path) :
    Under root (root ++ slash :: path) := by
  have habsolute : isAbsolute root = isAbsolute (root ++ slash :: path) := by
    obtain ⟨c, root, rfl⟩ := List.exists_cons_of_ne_nil hroot
    rfl
  refine ⟨habsolute, ?_⟩
  rw [normalise, normalise, components_append_slash, List.foldl_append, ← habsolute,
    foldl_descend h]
  exact List.prefix_append _ _

theorem isAbsolute_append {root path : List UInt8} (hpath : path.head? ≠ some slash) :
    isAbsolute root = isAbsolute (root ++ path) := by
  cases root with
  | nil =>
    rw [List.nil_append, isAbsolute, isAbsolute]
    simpa using hpath
  | cons c root => rfl

/-- The place a root names, by its last component. -/
theorem normalise_last (root : List UInt8) (h : dotdot ∉ (components root).dropLast) :
    normalise root = descend (isAbsolute root) ((components root).dropLast.filter (Named ·))
      ((components root).getLast (components_ne_nil root)) := by
  rw [normalise]
  conv_lhs => rw [← List.dropLast_append_getLast (components_ne_nil root)]
  rw [List.foldl_append, foldl_descend h]
  rfl

/-- Where a path is written on at the last component of its root, it stays under the root only if
that component is empty, the place itself, or the way up from a place that is below another. -/
theorem under_append_iff {root path first : List UInt8} {others : List (List UInt8)}
    (hpath : components path = first :: others) (hfirst : first ≠ [])
    (h : dotdot ∉ components (root ++ path)) :
    Under root (root ++ path) ↔
      (components root).getLast (components_ne_nil root) = [] ∨
        (components root).getLast (components_ne_nil root) = dot ∨
        ((components root).getLast (components_ne_nil root) = dotdot ∧
          (isAbsolute root = true ∨ ∃ c ∈ (components root).dropLast, Named c)) := by
  have hhead : path.head? ≠ some slash := by
    intro hcon
    obtain ⟨path, rfl⟩ := List.head?_eq_some_iff.mp hcon
    rw [components_slash] at hpath
    exact hfirst (List.cons.inj hpath).1.symm
  have hcomponents := @components_append root path first others hpath
  have hparts := h
  rw [hcomponents, List.mem_append, List.mem_cons, not_or, not_or] at hparts
  obtain ⟨hfront, hjoined, hothers⟩ := hparts
  have habsolute := @isAbsolute_append root path hhead
  rw [Under, and_iff_right habsolute, normalise_last root hfront, normalise_eq h, hcomponents,
    List.filter_append]
  generalize (components root).getLast (components_ne_nil root) = last at *
  generalize (components root).dropLast = front at *
  have hplace : dotdot ∉ front.filter (Named ·) := fun hcon => hfront (List.mem_of_mem_filter hcon)
  by_cases hhere : last = [] ∨ last = dot
  · rw [descend, if_pos hhere]
    refine iff_of_true (List.prefix_append _ _) ?_
    rcases hhere with hnil | hdot
    · exact .inl hnil
    · exact .inr (.inl hdot)
  rw [descend, if_neg hhere]
  rw [not_or] at hhere
  by_cases hup : last = dotdot
  · rw [if_pos hup]
    by_cases hempty : front.filter (Named ·) = []
    · have hnone : ¬ ∃ c ∈ front, Named c := by
        simpa [List.filter_eq_nil_iff] using hempty
      rw [if_pos (.inl hempty), hempty]
      cases isAbsolute root with
      | true =>
        refine iff_of_true (List.prefix_append _ _) (.inr (.inr ⟨hup, .inl rfl⟩))
      | false =>
        refine iff_of_false (fun hleading => ?_) ?_
        · have hmem := List.IsPrefix.subset hleading (List.mem_singleton_self dotdot)
          rw [List.nil_append] at hmem
          rcases List.mem_cons.mp (List.mem_of_mem_filter hmem) with heq | hmem
          · exact hjoined heq
          · exact hothers hmem
        · rintro (hnil | hdot | ⟨_, hcon | hnamed⟩)
          · exact hhere.1 hnil
          · exact hhere.2 hdot
          · cases hcon
          · exact hnone hnamed
    · have hlast : (front.filter (Named ·)).getLast? ≠ some dotdot :=
        fun hcon => hplace (List.mem_of_getLast? hcon)
      obtain ⟨c, hc⟩ := List.exists_mem_of_ne_nil _ hempty
      have hnamed : ∃ c ∈ front, Named c :=
        ⟨c, List.mem_of_mem_filter hc, by simpa using (List.mem_filter.mp hc).2⟩
      rw [if_neg (by rw [not_or]; exact ⟨hempty, hlast⟩)]
      exact iff_of_true ((List.dropLast_prefix _).trans (List.prefix_append _ _))
        (.inr (.inr ⟨hup, .inr hnamed⟩))
  · have hlength : 2 ≤ (last ++ first).length := by
      have h1 := List.length_pos_iff.mpr hhere.1
      have h2 := List.length_pos_iff.mpr hfirst
      rw [List.length_append]
      omega
    have hnamed : Named (last ++ first) := by
      refine ⟨fun hcon => ?_, fun hcon => ?_⟩
      · rw [hcon] at hlength
        cases hlength
      · rw [hcon] at hlength
        exact absurd hlength (by decide)
    rw [if_neg hup, List.prefix_append_right_inj, List.filter_cons_of_pos (by simpa using hnamed)]
    refine iff_of_false (fun hleading => ?_) ?_
    · -- the joined component is longer than the root's
      have hsame := (List.cons_prefix_cons.mp hleading).1
      exact hfirst (List.append_right_eq_self.mp hsame.symm)
    · rintro (hnil | hdot | ⟨hcon, _⟩)
      · exact hhere.1 hnil
      · exact hhere.2 hdot
      · exact hup hcon

end Paths
