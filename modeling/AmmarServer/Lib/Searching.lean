import Mathlib.Data.List.Perm.Basic
import Mathlib.Data.List.Sort

/-! What the standard promises of `qsort` and `bsearch` on a key. It leaves open how equal elements
are ordered and which of several matching elements is found. -/

namespace Searching
variable {α : Type*}

def SortedBy (key : α → ℕ) (l : List α) : Prop := l.Pairwise fun a b => key a ≤ key b

structure Qsort (key : α → ℕ) where
  sort : List α → List α
  perm : ∀ l, (sort l).Perm l
  sorted : ∀ l, SortedBy key (sort l)

structure Bsearch (key : α → ℕ) where
  search : List α → ℕ → Option ℕ
  hit : ∀ {l k i}, search l k = some i → ∃ a, l[i]? = some a ∧ key a = k
  miss : ∀ {l k}, SortedBy key l → search l k = none → ∀ a ∈ l, key a ≠ k

variable {key : α → ℕ}

theorem SortedBy.le {l : List α} (h : SortedBy key l) {i j : ℕ} (hij : i ≤ j) {a b : α}
    (ha : l[i]? = some a) (hb : l[j]? = some b) : key a ≤ key b := by
  obtain ⟨hi, rfl⟩ := List.getElem?_eq_some_iff.mp ha
  obtain ⟨hj, rfl⟩ := List.getElem?_eq_some_iff.mp hb
  rcases hij.lt_or_eq with hlt | rfl
  · exact List.pairwise_iff_getElem.mp h i j hi hj hlt
  · exact le_rfl

/-- Sorting by insertion. -/
def Qsort.insertion : Qsort key where
  sort := List.insertionSort fun a b => key a ≤ key b
  perm := List.perm_insertionSort _
  sorted l := by
    have : Std.Total fun a b : α => key a ≤ key b := ⟨fun a b => le_total (key a) (key b)⟩
    have : IsTrans α fun a b => key a ≤ key b := ⟨fun _ _ _ => le_trans⟩
    exact List.pairwise_insertionSort _ l

/-- The loop that halves the window `[lo, hi)`. -/
def halve (key : α → ℕ) (l : List α) (k : ℕ) : ℕ → ℕ → ℕ → Option ℕ
  | 0, _, _ => none
  | fuel + 1, lo, hi =>
    if lo < hi then
      match l[(lo + hi) / 2]? with
      | none => none
      | some a =>
        if k < key a then halve key l k fuel lo ((lo + hi) / 2)
        else if key a < k then halve key l k fuel ((lo + hi) / 2 + 1) hi
        else some ((lo + hi) / 2)
    else none

theorem halve_hit {l : List α} {k fuel lo hi i : ℕ} (h : halve key l k fuel lo hi = some i) :
    ∃ a, l[i]? = some a ∧ key a = k := by
  induction fuel generalizing lo hi with
  | zero => cases h
  | succ fuel ih =>
    unfold halve at h
    split at h
    · split at h
      · cases h
      · rename_i a ha
        split at h
        · exact ih h
        · split at h
          · exact ih h
          · cases h
            exact ⟨a, ha, by omega⟩
    · cases h

theorem halve_isSome {l : List α} (hl : SortedBy key l) {k fuel lo hi i : ℕ} {a : α}
    (hfuel : hi - lo ≤ fuel) (hhi : hi ≤ l.length) (hlo : lo ≤ i) (hi' : i < hi)
    (ha : l[i]? = some a) (hk : key a = k) : halve key l k fuel lo hi ≠ none := by
  induction fuel generalizing lo hi with
  | zero => omega
  | succ fuel ih =>
    have hmid : (lo + hi) / 2 < l.length := by omega
    unfold halve
    rw [if_pos (by omega), List.getElem?_eq_getElem hmid]
    have hget := List.getElem?_eq_getElem hmid
    simp only
    split
    · -- everything from the middle on is above the needle
      rename_i hlt
      have hbelow : i < (lo + hi) / 2 := by
        by_contra hge
        have := hl.le (not_lt.mp hge) hget ha
        omega
      exact ih (by omega) (by omega) hlo hbelow
    · split
      · rename_i hlt
        have habove : (lo + hi) / 2 < i := by
          by_contra hge
          have := hl.le (not_lt.mp hge) ha hget
          omega
        exact ih (by omega) hhi habove hi'
      · exact Option.some_ne_none _

/-- Searching by halving. -/
def Bsearch.halving : Bsearch key where
  search l k := halve key l k l.length 0 l.length
  hit := halve_hit
  miss := by
    intro l k hl hnone a ha hk
    obtain ⟨i, hi⟩ := List.mem_iff_getElem?.mp ha
    have hlt := (List.getElem?_eq_some_iff.mp hi).1
    exact halve_isSome hl (by omega) le_rfl (Nat.zero_le i) hlt hi hk hnone

/-- A search may find any element that matches. -/
theorem Bsearch.exists_search {l : List α} {k i : ℕ} {a : α} (ha : l[i]? = some a)
    (hk : key a = k) : ∃ b : Bsearch key, b.search l k = some i := by
  classical
  refine ⟨{ search := fun l' k' => if l' = l ∧ k' = k then some i else
              (@halving α key).search l' k', hit := ?_, miss := ?_ }, if_pos ⟨rfl, rfl⟩⟩
  · intro l' k' i' h
    split at h
    · rename_i hsame
      obtain ⟨rfl, rfl⟩ := hsame
      cases h
      exact ⟨a, ha, hk⟩
    · exact Bsearch.halving.hit h
  · intro l' k' hl h
    split at h
    · cases h
    · exact Bsearch.halving.miss hl h

/-- The last element in the place of the `i`th one is the list without that one. -/
theorem set_getLast_dropLast_perm {l : List α} {last : α} (hlast : l.getLast? = some last) {i : ℕ}
    (hi : i < l.length) : (l.set i last).dropLast.Perm (l.eraseIdx i) := by
  obtain ⟨init, rfl⟩ := List.getLast?_eq_some_iff.mp hlast
  rw [List.length_append, List.length_singleton] at hi
  rcases (Nat.lt_succ_iff.mp hi).lt_or_eq with hlt | rfl
  · rw [List.set_append_left i last hlt, List.dropLast_concat,
      List.eraseIdx_append_of_lt_length hlt]
    exact (List.set_perm_cons_eraseIdx hlt last).trans (List.perm_append_singleton last _).symm
  · rw [List.set_append_right _ last le_rfl, List.eraseIdx_append_of_length_le le_rfl]
    simp

end Searching
