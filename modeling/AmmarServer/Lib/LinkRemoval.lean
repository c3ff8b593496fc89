import AmmarServer.Lib.LinkQueue

/-! Elements that leave a list of links from anywhere in it: the link to them is set to theirs. -/

namespace LinkQueue
variable {ι : Type*}

/-- Where the link to the rest of the list is, and what it is. -/
theorem Linked.link_eq {next : ι → Option ι} {before after : List ι}
    (h : Linked next (before ++ after)) :
    before.getLast?.elim (before ++ after).head? next = after.head? := by
  induction before with
  | nil => rfl
  | cons i before ih =>
    cases before with
    | nil => exact h.tail.1
    | cons j before =>
      rw [List.getLast?_cons_cons, ← ih h.tail.2, List.getLast?_cons]
      rfl

theorem Linked.head_eq {next : ι → Option ι} {before after : List ι} {i : ι}
    (h : Linked next (before ++ i :: after)) :
    (if before.getLast? = none then next i else (before ++ i :: after).head?) =
      (before ++ after).head? := by
  cases before with
  | nil => exact h.tail.1
  | cons j before =>
    rw [if_neg (by simp)]
    rfl

variable [DecidableEq ι]

/-- The loop that looks for an element: what `previous` is when it is found. -/
def findPrevious (next : ι → Option ι) (target : ι) :
    Nat → Option ι → Option ι → Option (Option ι)
  | 0, _, _ => none
  | _ + 1, _, none => none
  | fuel + 1, previous, some i =>
    if i = target then some previous else findPrevious next target fuel (some i) (next i)

/-- The link of `previous`, if there is one, is set to `link`. -/
def relink (next : ι → Option ι) (previous link : Option ι) : ι → Option ι :=
  previous.elim next fun p => Function.update next p link

variable {next : ι → Option ι} {before after : List ι} {i : ι}

theorem findPrevious_eq (h : Linked next (before ++ i :: after)) (hi : i ∉ before) {fuel : Nat}
    (hfuel : before.length < fuel) (previous : Option ι) :
    findPrevious next i fuel previous (before ++ i :: after).head? =
      some (before.getLast?.or previous) := by
  induction before generalizing fuel previous with
  | nil =>
    obtain ⟨fuel, rfl⟩ : ∃ n, fuel = n + 1 := ⟨fuel - 1, by rw [List.length_nil] at hfuel; omega⟩
    exact if_pos rfl
  | cons j before ih =>
    obtain ⟨fuel, rfl⟩ : ∃ n, fuel = n + 1 := ⟨fuel - 1, by rw [List.length_cons] at hfuel; omega⟩
    rw [List.mem_cons, not_or] at hi
    have hlink := Linked.tail (l := before ++ i :: after) h
    show (if j = i then _ else findPrevious next i fuel (some j) (next j)) = _
    rw [if_neg (Ne.symm hi.1), hlink.1, ih hlink.2 hi.2 (Nat.lt_of_succ_lt_succ hfuel)]
    cases before with
    | nil => rfl
    | cons k before => rw [List.getLast?_cons_cons, List.getLast?_eq_some_getLast, Option.some_or,
        Option.some_or]; exact List.cons_ne_nil k before

/-- The link of the one before it is set to the element's own. -/
theorem Linked.unlink (h : Linked next (before ++ i :: after))
    (hnodup : (before ++ i :: after).Nodup) {p : ι} (hp : before.getLast? = some p) :
    Linked (Function.update next p (next i)) (before ++ after) := by
  induction before with
  | nil => cases hp
  | cons j before ih =>
    have hlink := Linked.tail (l := before ++ i :: after) h
    rw [List.cons_append, List.nodup_cons] at hnodup
    cases before with
    | nil =>
      -- the element stands right behind the first one
      obtain rfl : j = p := Option.some.inj hp
      have hafter := (Linked.tail (l := after) hlink.2)
      have hlinked : Linked (Function.update next j (next i)) after := by
        refine hafter.2.congr fun k hk => Function.update_of_ne ?_ ..
        rintro rfl
        exact hnodup.1 (List.mem_cons_of_mem i hk)
      have hj : Function.update next j (next i) j = after.head? := by
        rw [Function.update_self]
        exact hafter.1
      cases after with
      | nil => exact hj
      | cons k after => exact ⟨hj, hlinked⟩
    | cons k before =>
      rw [List.getLast?_cons_cons] at hp
      have hpin : p ∈ k :: before ++ i :: after :=
        List.mem_append_left _ (List.mem_of_mem_getLast? hp)
      have hjp : j ≠ p := by
        rintro rfl
        exact hnodup.1 hpin
      refine ⟨?_, ih hlink.2 hnodup.2 hp⟩
      rw [Function.update_of_ne hjp]
      exact hlink.1

theorem Linked.relink (h : Linked next (before ++ i :: after))
    (hnodup : (before ++ i :: after).Nodup) :
    Linked (relink next before.getLast? (next i)) (before ++ after) := by
  cases hlast : before.getLast? with
  | none =>
    rw [List.getLast?_eq_none_iff.mp hlast] at h ⊢
    exact h.tail.2
  | some p => exact h.unlink hnodup hlast

variable {head tail : Option ι} {queued : ι → Bool}

/-- The element leaves the queue: the link to it, the tail if it was the last, its own link. -/
theorem Represents.remove (h : Represents head tail next queued (before ++ i :: after)) :
    Represents
      (if before.getLast? = none then next i else head)
      (if tail = some i then before.getLast? else tail)
      (Function.update (relink next before.getLast? (next i)) i none)
      (Function.update queued i false) (before ++ after) := by
  have hnodup := h.nodup
  have hsub : (before ++ after).Sublist (before ++ i :: after) :=
    List.Sublist.append_left (List.sublist_cons_self i after) before
  have hnotin : i ∉ before ++ after := by
    have hperm : List.Perm (before ++ i :: after) (i :: (before ++ after)) := List.perm_middle
    exact (List.nodup_cons.mp (hperm.nodup_iff.mp hnodup)).1
  refine ⟨hsub.nodup hnodup, ?_, ?_, ?_, fun j => ?_⟩
  · rw [h.head_eq]
    exact h.linked.head_eq
  · rw [h.tail_eq]
    cases after with
    | nil => rw [List.getLast?_append_of_ne_nil _ (by simp)]; simp
    | cons j after =>
      have hlast : (before ++ i :: j :: after).getLast? = (before ++ j :: after).getLast? := by
        rw [List.getLast?_append_of_ne_nil _ (by simp), List.getLast?_append_of_ne_nil _ (by simp),
          List.getLast?_cons_cons]
      have hne : (before ++ i :: j :: after).getLast? ≠ some i := by
        rw [hlast]
        exact fun hcon => hnotin (List.mem_of_mem_getLast? hcon)
      rw [if_neg hne, hlast]
  · refine (h.linked.relink hnodup).congr fun j hj => Function.update_of_ne ?_ ..
    rintro rfl
    exact hnotin hj
  · by_cases hj : j = i
    · subst hj
      simp [hnotin]
    · rw [Function.update_of_ne hj, h.mem_iff j, List.mem_append, List.mem_append, List.mem_cons]
      exact or_congr Iff.rfl (or_iff_right hj)

end LinkQueue
