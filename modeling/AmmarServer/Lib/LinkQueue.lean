import Mathlib.Data.List.Nodup
import Mathlib.Logic.Function.Basic

/-! Queues whose links live in the elements: a head, a tail, and in each element a link to the next
one and a mark that it is queued. `Represents` says which list such a queue is. -/

namespace LinkQueue
variable {ι : Type*}

/-- The links lead along the list and end behind it. -/
def Linked (next : ι → Option ι) : List ι → Prop
  | [] => True
  | [i] => next i = none
  | i :: j :: l => next i = some j ∧ Linked next (j :: l)

structure Represents (head tail : Option ι) (next : ι → Option ι) (queued : ι → Bool)
    (l : List ι) : Prop where
  nodup : l.Nodup
  head_eq : head = l.head?
  tail_eq : tail = l.getLast?
  linked : Linked next l
  mem_iff : ∀ i, queued i = true ↔ i ∈ l

/-- The elements met on the way from `head`, for as many links as there is fuel. -/
def walk (next : ι → Option ι) : Nat → Option ι → List ι
  | 0, _ => []
  | _ + 1, none => []
  | fuel + 1, some i => i :: walk next fuel (next i)

theorem represents_nil {next : ι → Option ι} {queued : ι → Bool} (h : ∀ i, queued i = false) :
    Represents none none next queued [] :=
  ⟨List.nodup_nil, rfl, rfl, trivial, fun i => by simp [h i]⟩

theorem Linked.congr {next next' : ι → Option ι} {l : List ι} (h : Linked next l)
    (heq : ∀ i ∈ l, next' i = next i) : Linked next' l := by
  induction l with
  | nil => trivial
  | cons i l ih =>
    have hi : next' i = next i := heq i (List.mem_cons_self ..)
    cases l with
    | nil => exact hi.trans h
    | cons j l =>
      exact ⟨hi.trans h.1, ih h.2 fun k hk => heq k (List.mem_cons_of_mem _ hk)⟩

theorem Linked.tail {next : ι → Option ι} {i : ι} {l : List ι} (h : Linked next (i :: l)) :
    next i = l.head? ∧ Linked next l := by
  cases l with
  | nil => exact ⟨h, trivial⟩
  | cons j l => exact h

theorem Linked.walk_eq {next : ι → Option ι} {l : List ι} (h : Linked next l) {fuel : Nat}
    (hfuel : l.length ≤ fuel) : walk next fuel l.head? = l := by
  induction l generalizing fuel with
  | nil => cases fuel <;> rfl
  | cons i l ih =>
    obtain ⟨fuel, rfl⟩ : ∃ n, fuel = n + 1 := ⟨fuel - 1, by rw [List.length_cons] at hfuel; omega⟩
    rw [List.head?_cons, walk, h.tail.1, ih h.tail.2 (Nat.le_of_succ_le_succ hfuel)]

section
variable {head tail : Option ι} {next : ι → Option ι} {queued : ι → Bool} {l : List ι}

theorem Represents.walk_eq (h : Represents head tail next queued l) {fuel : Nat}
    (hfuel : l.length ≤ fuel) : walk next fuel head = l := by
  rw [h.head_eq, h.linked.walk_eq hfuel]

theorem Represents.head_eq_none_iff (h : Represents head tail next queued l) :
    head = none ↔ l = [] := by
  rw [h.head_eq, List.head?_eq_none_iff]

theorem Represents.tail_eq_none_iff (h : Represents head tail next queued l) :
    tail = none ↔ l = [] := by
  rw [h.tail_eq, List.getLast?_eq_none_iff]

end

variable [DecidableEq ι]

/-- The last element's link is set to a new one that leads nowhere. -/
theorem Linked.push {next : ι → Option ι} {l : List ι} {t i : ι} (h : Linked next (l ++ [t]))
    (hnodup : (l ++ [t]).Nodup) (hi : i ∉ l ++ [t]) :
    Linked (Function.update (Function.update next i none) t (some i)) (l ++ [t] ++ [i]) := by
  induction l with
  | nil =>
    have hti : i ≠ t := by simpa using hi
    refine ⟨Function.update_self .., ?_⟩
    rw [Linked, Function.update_of_ne hti, Function.update_self]
  | cons k l ih =>
    have htail := h.tail
    rw [List.cons_append, List.nodup_cons] at hnodup
    rw [List.cons_append, List.mem_cons, not_or] at hi
    have hkt : k ≠ t := by
      rintro rfl
      exact hnodup.1 (List.mem_append_right _ (List.mem_cons_self ..))
    have ih := ih htail.2 hnodup.2 hi.2
    have hk : Function.update (Function.update next i none) t (some i) k = (l ++ [t]).head? := by
      rw [Function.update_of_ne hkt, Function.update_of_ne (Ne.symm hi.1)]
      exact htail.1
    cases l with
    | nil => exact ⟨hk, ih⟩
    | cons j l => exact ⟨hk, ih⟩

variable {head tail : Option ι} {next : ι → Option ι} {queued : ι → Bool} {l : List ι}

theorem Represents.push_nil (h : Represents head tail next queued l) (htail : tail = none) (i : ι) :
    Represents (some i) (some i) (Function.update next i none) (Function.update queued i true)
      (l ++ [i]) := by
  obtain rfl := h.tail_eq_none_iff.mp htail
  refine ⟨List.nodup_singleton i, rfl, rfl, Function.update_self .., fun j => ?_⟩
  by_cases hj : j = i
  · subst hj
    simp
  · simp [hj, (h.mem_iff j).not]

theorem Represents.push (h : Represents head tail next queued l) {t i : ι} (htail : tail = some t)
    (hi : queued i = false) :
    Represents head (some i) (Function.update (Function.update next i none) t (some i))
      (Function.update queued i true) (l ++ [i]) := by
  have hmem : i ∉ l := fun hil => by simp [(h.mem_iff i).mpr hil] at hi
  obtain ⟨l', rfl⟩ : ∃ l', l = l' ++ [t] := by
    rw [h.tail_eq, List.getLast?_eq_some_iff] at htail
    exact htail
  refine ⟨?_, ?_, ?_, h.linked.push h.nodup hmem, fun j => ?_⟩
  · exact List.nodup_append.mpr ⟨h.nodup, List.nodup_singleton i, fun a ha b hb => by
      rintro rfl
      exact hmem (List.mem_singleton.mp hb ▸ ha)⟩
  · rw [h.head_eq]
    cases l' <;> rfl
  · simp
  · by_cases hj : j = i
    · subst hj
      simp
    · rw [Function.update_of_ne hj, h.mem_iff j, List.mem_append (t := [i]), List.mem_singleton]
      exact (or_iff_left hj).symm

/-- Taking the head off moves the head to its link, and empties the queue when there is none. -/
theorem Represents.pop {i : ι} (h : Represents head tail next queued l) (hhead : head = some i) :
    ∃ l', l = i :: l' ∧
      Represents (next i) (if next i = none then none else tail) (Function.update next i none)
        (Function.update queued i false) l' := by
  cases l with
  | nil =>
    rw [h.head_eq] at hhead
    cases hhead
  | cons k l' =>
    obtain rfl : k = i := by
      rw [h.head_eq] at hhead
      exact Option.some.inj hhead
    have hnotin : k ∉ l' := (List.nodup_cons.mp h.nodup).1
    have hlink := h.linked.tail
    refine ⟨l', rfl, (List.nodup_cons.mp h.nodup).2, hlink.1, ?_, ?_, fun j => ?_⟩
    · rw [hlink.1, h.tail_eq]
      cases l' with
      | nil => rfl
      | cons j l' => simp
    · refine hlink.2.congr fun j hj => Function.update_of_ne ?_ ..
      rintro rfl
      exact hnotin hj
    · by_cases hj : j = k
      · subst hj
        simp [hnotin]
      · rw [Function.update_of_ne hj, h.mem_iff j, List.mem_cons]
        exact or_iff_right hj

/-! ## Several queues over one table of elements -/

@[ext] structure Table (ρ ι : Type*) where
  head : ρ → Option ι
  tail : ρ → Option ι
  next : ρ × ι → Option ι
  queued : ρ × ι → Bool

variable {ρ : Type*}

theorem update_pair [DecidableEq ρ] {β : Type*} (f : ρ × ι → β) (r : ρ) (i : ι) (b : β) :
    (fun j => Function.update f (r, i) b (r, j)) = Function.update (fun j => f (r, j)) i b := by
  funext j
  by_cases hj : j = i
  · rw [hj, Function.update_self, Function.update_self]
  · rw [Function.update_of_ne hj, Function.update_of_ne fun hcon => hj (congrArg Prod.snd hcon)]

theorem update_pair_of_ne [DecidableEq ρ] {β : Type*} (f : ρ × ι → β) {r r' : ρ} (hr : r' ≠ r)
    (i : ι) (b : β) : (fun j => Function.update f (r, i) b (r', j)) = fun j => f (r', j) :=
  funext fun _ => Function.update_of_ne (fun hcon => hr (congrArg Prod.fst hcon)) ..

namespace Table

/-- The queue `r` is the list `l`. -/
def Holds (t : Table ρ ι) (r : ρ) (l : List ι) : Prop :=
  Represents (t.head r) (t.tail r) (fun i => t.next (r, i)) (fun i => t.queued (r, i)) l

variable [DecidableEq ρ]

/-- The element goes to the end of its queue, unless it is queued already. -/
def push (t : Table ρ ι) (a : ρ × ι) : Table ρ ι :=
  if t.queued a then t
  else
    match t.tail a.1 with
    | none => {
      head := Function.update t.head a.1 (some a.2)
      tail := Function.update t.tail a.1 (some a.2)
      next := Function.update t.next a none
      queued := Function.update t.queued a true }
    | some last => {
      head := t.head
      tail := Function.update t.tail a.1 (some a.2)
      next := Function.update (Function.update t.next a none) (a.1, last) (some a.2)
      queued := Function.update t.queued a true }

/-- The element, which is the first one of its queue, comes off. -/
def pop (t : Table ρ ι) (a : ρ × ι) : Table ρ ι where
  head := Function.update t.head a.1 (t.next a)
  tail := Function.update t.tail a.1 (if t.next a = none then none else t.tail a.1)
  next := Function.update t.next a none
  queued := Function.update t.queued a false

variable {t : Table ρ ι} {a : ρ × ι} {l : List ι}

theorem push_queued (t : Table ρ ι) (a : ρ × ι) :
    (t.push a).queued = Function.update t.queued a true := by
  unfold push
  split
  · rename_i hqueued
    exact (Function.update_eq_self_iff.mpr hqueued.symm).symm
  · split <;> rfl

theorem push_head_of_ne (t : Table ρ ι) {a : ρ × ι} {r : ρ} (hr : r ≠ a.1) :
    (t.push a).head r = t.head r := by
  unfold push
  split
  · rfl
  · split
    · exact Function.update_of_ne hr ..
    · rfl

theorem Holds.push (h : t.Holds a.1 l) (ha : t.queued a = false) :
    (t.push a).Holds a.1 (l ++ [a.2]) := by
  obtain ⟨r, i⟩ := a
  unfold Table.push Holds
  rw [if_neg (Bool.eq_false_iff.mp ha)]
  split
  · rename_i htail
    have hpush := Represents.push_nil h htail i
    simp only [update_pair, Function.update_self]
    exact hpush
  · rename_i last htail
    have hpush := Represents.push h htail ha
    simp only [update_pair, Function.update_self]
    exact hpush

theorem Holds.push_of_ne {r : ρ} (h : t.Holds r l) (hr : r ≠ a.1) : (t.push a).Holds r l := by
  obtain ⟨r', i⟩ := a
  unfold Table.push Holds
  split
  · exact h
  · split
    · simp only [update_pair_of_ne _ hr, Function.update_of_ne hr]
      exact h
    · simp only [update_pair_of_ne _ hr, Function.update_of_ne hr]
      exact h

theorem Holds.pop (h : t.Holds a.1 l) (hhead : t.head a.1 = some a.2) :
    ∃ l', l = a.2 :: l' ∧ (t.pop a).Holds a.1 l' := by
  obtain ⟨r, i⟩ := a
  obtain ⟨l', hcons, hpop⟩ := Represents.pop h hhead
  refine ⟨l', hcons, ?_⟩
  unfold Table.pop Holds
  simp only [update_pair, Function.update_self]
  exact hpop

theorem Holds.pop_of_ne {r : ρ} (h : t.Holds r l) (hr : r ≠ a.1) : (t.pop a).Holds r l := by
  obtain ⟨r', i⟩ := a
  unfold Table.pop Holds
  simp only [update_pair_of_ne _ hr, Function.update_of_ne hr]
  exact h

theorem push_holds (h : ∀ r, ∃ l, t.Holds r l) (a : ρ × ι) : ∀ r, ∃ l, (t.push a).Holds r l := by
  intro r
  obtain ⟨l, hl⟩ := h r
  by_cases hr : r = a.1
  · subst hr
    cases ha : t.queued a with
    | false => exact ⟨l ++ [a.2], hl.push ha⟩
    | true =>
      refine ⟨l, ?_⟩
      unfold push
      rw [if_pos ha]
      exact hl
  · exact ⟨l, hl.push_of_ne hr⟩

theorem pop_holds (h : ∀ r, ∃ l, t.Holds r l) {a : ρ × ι} (hhead : t.head a.1 = some a.2) :
    ∀ r, ∃ l, (t.pop a).Holds r l := by
  intro r
  obtain ⟨l, hl⟩ := h r
  by_cases hr : r = a.1
  · subst hr
    obtain ⟨l', -, hl'⟩ := hl.pop hhead
    exact ⟨l', hl'⟩
  · exact ⟨l, hl.pop_of_ne hr⟩

/-! Elements leave at the front and join at the end. -/

/-- Those of the queue `r`. -/
def ofQueue (r : ρ) (l : List (ρ × ι)) : List ι := (l.filter fun a => a.1 = r).map Prod.snd

omit [DecidableEq ι] in
theorem ofQueue_nil (r : ρ) : ofQueue r ([] : List (ρ × ι)) = [] := rfl

omit [DecidableEq ι] in
theorem ofQueue_self (a : ρ × ι) : ofQueue a.1 [a] = [a.2] := by simp [ofQueue]

omit [DecidableEq ι] in
theorem ofQueue_of_ne {a : ρ × ι} {r : ρ} (hr : r ≠ a.1) : ofQueue r [a] = [] := by
  simp [ofQueue, hr.symm]

/-- What becomes of the queues: whoever is not live is passed over at the front, those in `handed`
come off behind them, and those in `joined` are new at the end. -/
def Advances (live : ρ × ι → Prop) (t t' : Table ρ ι) (handed joined : List (ρ × ι)) : Prop :=
  (∀ a ∈ handed, live a) ∧ ∀ r l, t.Holds r l →
    ∃ passed kept, l = passed ++ (ofQueue r handed ++ kept) ∧ (∀ i ∈ passed, ¬ live (r, i)) ∧
      t'.Holds r (kept ++ ofQueue r joined)

variable {live : ρ × ι → Prop} {t₁ t₂ : Table ρ ι} {handed joined : List (ρ × ι)}

omit [DecidableEq ι] in
theorem Advances.refl (live : ρ × ι → Prop) (t : Table ρ ι) : Advances live t t [] [] := by
  refine ⟨fun _ hcon => (by cases hcon), fun r l hl => ⟨[], l, rfl, fun _ hcon => (by cases hcon), ?_⟩⟩
  rw [ofQueue_nil, List.append_nil]
  exact hl

omit [DecidableEq ι] in
theorem Advances.trans (h : Advances live t t₁ [] []) (h₁ : Advances live t₁ t₂ handed joined) :
    Advances live t t₂ handed joined := by
  refine ⟨h₁.1, fun r l hl => ?_⟩
  obtain ⟨passed, kept, rfl, hpassed, hkept⟩ := h.2 r l hl
  rw [ofQueue_nil, List.append_nil] at hkept
  obtain ⟨passed', kept', rfl, hpassed', hkept'⟩ := h₁.2 r kept hkept
  refine ⟨passed ++ passed', kept', ?_, fun i hi => ?_, hkept'⟩
  · rw [ofQueue_nil, List.nil_append, List.append_assoc]
  · exact (List.mem_append.mp hi).elim (hpassed i) (hpassed' i)

/-- The first of a queue is passed over. -/
theorem Advances.pass (hhead : t.head a.1 = some a.2) (ha : ¬ live a) :
    Advances live t (t.pop a) [] [] := by
  refine ⟨fun _ hcon => (by cases hcon), fun r l hl => ?_⟩
  by_cases hr : r = a.1
  · subst hr
    obtain ⟨l', rfl, hl'⟩ := hl.pop hhead
    refine ⟨[a.2], l', rfl, fun i hi => ?_, ?_⟩
    · rw [List.mem_singleton.mp hi]
      exact ha
    · rw [ofQueue_nil, List.append_nil]
      exact hl'
  · refine ⟨[], l, rfl, fun _ hcon => (by cases hcon), ?_⟩
    rw [ofQueue_nil, List.append_nil]
    exact hl.pop_of_ne hr

/-- The first of a queue comes off. -/
theorem Advances.hand (hhead : t.head a.1 = some a.2) (ha : live a) :
    Advances live t (t.pop a) [a] [] := by
  refine ⟨fun b hb => List.mem_singleton.mp hb ▸ ha, fun r l hl => ?_⟩
  by_cases hr : r = a.1
  · subst hr
    obtain ⟨l', rfl, hl'⟩ := hl.pop hhead
    refine ⟨[], l', ?_, fun _ hcon => (by cases hcon), ?_⟩
    · rw [ofQueue_self]
      rfl
    · rw [ofQueue_nil, List.append_nil]
      exact hl'
  · refine ⟨[], l, ?_, fun _ hcon => (by cases hcon), ?_⟩
    · rw [ofQueue_of_ne hr]
      rfl
    · rw [ofQueue_nil, List.append_nil]
      exact hl.pop_of_ne hr

theorem Advances.push (h : Advances live t t₁ handed []) (a : ρ × ι) :
    Advances live t (t₁.push a) handed (if t₁.queued a then [] else [a]) := by
  refine ⟨h.1, fun r l hl => ?_⟩
  obtain ⟨passed, kept, rfl, hpassed, hkept⟩ := h.2 r l hl
  rw [ofQueue_nil, List.append_nil] at hkept
  refine ⟨passed, kept, rfl, hpassed, ?_⟩
  cases ha : t₁.queued a with
  | true =>
    unfold Table.push
    rw [if_pos ha, if_pos rfl, ofQueue_nil, List.append_nil]
    exact hkept
  | false =>
    rw [if_neg Bool.false_ne_true]
    by_cases hr : r = a.1
    · subst hr
      rw [ofQueue_self]
      exact hkept.push ha
    · rw [ofQueue_of_ne hr, List.append_nil]
      exact hkept.push_of_ne hr

omit [DecidableEq ι] in
theorem Advances.holds (h : Advances live t t₁ handed joined) (hholds : ∀ r, ∃ l, t.Holds r l) :
    ∀ r, ∃ l, t₁.Holds r l := by
  intro r
  obtain ⟨l, hl⟩ := hholds r
  obtain ⟨passed, kept, -, -, hkept⟩ := h.2 r l hl
  exact ⟨_, hkept⟩

omit [DecidableEq ι] in
/-- Whoever is queued was queued before, or has joined. -/
theorem Advances.queued_or (h : Advances live t t₁ handed joined) (hholds : ∀ r, ∃ l, t.Holds r l)
    (ha : t₁.queued a = true) : t.queued a = true ∨ a ∈ joined := by
  obtain ⟨l, hl⟩ := hholds a.1
  obtain ⟨passed, kept, rfl, -, hkept⟩ := h.2 a.1 l hl
  rcases List.mem_append.mp ((hkept.mem_iff a.2).mp ha) with hmem | hmem
  · exact .inl ((hl.mem_iff a.2).mpr (List.mem_append_right _ (List.mem_append_right _ hmem)))
  · obtain ⟨b, hb, hsnd⟩ := List.mem_map.mp hmem
    obtain ⟨hb, hfst⟩ := List.mem_filter.mp hb
    have hab : b = a := Prod.ext (of_decide_eq_true hfst) hsnd
    exact .inr (hab ▸ hb)

end Table
end LinkQueue
