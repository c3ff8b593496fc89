import AmmarServer.ASVIO.Bridge

/-! The list of the jobs and the queue in it, over the calls that change them. -/

namespace AmmarServer.Asvio
open LinkQueue

namespace Bridge

/-- A record that nobody took yet. -/
def isQueued (s : Bridge) (i : ℕ) : Bool := i < s.allocated ∧ (s.record i).state = .queued

theorem isQueued_iff {s : Bridge} {i : ℕ} :
    s.isQueued i = true ↔ i < s.allocated ∧ (s.record i).state = .queued := decide_eq_true_iff

end Bridge

/-- The jobs are `l`, those nobody took yet are `q`. -/
structure Inv (s : Bridge) (l q : List ℕ) : Prop where
  jobs_eq : s.jobs = l.head?
  linked : Linked s.next l
  nodup : l.Nodup
  below : ∀ i ∈ l, i < s.allocated
  numberOfJobs_eq : s.numberOfJobs = l.length
  numberOfJobs_le : s.numberOfJobs ≤ ASVIO_MAX_JOBS
  queue : Represents s.queueHead s.queueTail s.nextQueued s.isQueued q
  sorted : q.Pairwise (· < ·)
  kept : ∀ i < s.allocated, (s.record i).state ≠ .finished → i ∈ l
  fresh : ∀ i < s.allocated, (s.record i).state = .queued → (s.record i).seq = 0
  once : s.handedOut.Nodup
  taken : ∀ i ∈ s.handedOut, i < s.allocated ∧ (s.record i).state ≠ .queued

variable {s : Bridge} {l q : List ℕ}

theorem Inv.sound (h : Inv s l q) : Sound s where
  queue := ⟨q, h.queue, h.sorted⟩
  handedOut := h.once
  jobs := ⟨l, h.jobs_eq, h.linked, h.nodup, h.numberOfJobs_eq, h.kept⟩
  numberOfJobs_le := h.numberOfJobs_le

theorem inv_start : Inv Bridge.start [] [] where
  jobs_eq := rfl
  linked := trivial
  nodup := List.nodup_nil
  below := fun i hi => by cases hi
  numberOfJobs_eq := rfl
  numberOfJobs_le := Nat.zero_le _
  queue := represents_nil fun i => decide_eq_false fun hi => Nat.not_lt_zero i hi.1
  sorted := List.Pairwise.nil
  kept := fun i hi => absurd hi (Nat.not_lt_zero i)
  fresh := fun i hi => absurd hi (Nat.not_lt_zero i)
  once := List.nodup_nil
  taken := fun i hi => by cases hi

theorem length_le_of_below {n : ℕ} (hnodup : l.Nodup) (hbelow : ∀ i ∈ l, i < n) : l.length ≤ n := by
  have hsub : l ⊆ List.range n := fun i hi => List.mem_range.mpr (hbelow i hi)
  have hle := (hnodup.subperm hsub).length_le
  rwa [List.length_range] at hle

theorem Inv.remembered_eq (h : Inv s l q) : s.remembered = l := by
  unfold Bridge.remembered
  rw [h.jobs_eq]
  exact h.linked.walk_eq (length_le_of_below h.nodup h.below)

theorem Inv.findJob_mem (h : Inv s l q) {jobID : List UInt8} {i : ℕ}
    (hfind : s.findJob jobID = some i) : i ∈ l := by
  rw [← h.remembered_eq]
  exact List.mem_of_find?_eq_some hfind

theorem Inv.queued_below (h : Inv s l q) {i : ℕ} (hi : i ∈ q) : i < s.allocated :=
  (Bridge.isQueued_iff.mp ((h.queue.mem_iff i).mpr hi)).1

/-! `forgetOldJobs`. -/

theorem forgetFrom_eq (now : ℤ) {fuel : ℕ} {kept : List ℕ} (hjobs : s.jobs = (kept ++ l).head?)
    (hlinked : Linked s.next (kept ++ l)) (hnodup : (kept ++ l).Nodup) (hfuel : l.length < fuel) :
    ∃ next, Linked next (kept ++ l.filter fun i => !s.isOld now i) ∧
      Bridge.forgetFrom now fuel kept.getLast? s =
        { s with
          jobs := (kept ++ l.filter fun i => !s.isOld now i).head?
          next
          numberOfJobs := s.numberOfJobs - (l.filter fun i => s.isOld now i).length } := by
  induction l generalizing fuel kept s with
  | nil =>
    obtain ⟨fuel, rfl⟩ : ∃ n, fuel = n + 1 := ⟨fuel - 1, by rw [List.length_nil] at hfuel; omega⟩
    refine ⟨s.next, hlinked, ?_⟩
    rw [Bridge.forgetFrom, hjobs, hlinked.link_eq]
    show s = _
    rw [List.filter_nil, List.filter_nil, ← hjobs]
    rfl
  | cons i l ih =>
    obtain ⟨fuel, rfl⟩ : ∃ n, fuel = n + 1 := ⟨fuel - 1, by rw [List.length_cons] at hfuel; omega⟩
    rw [List.length_cons, Nat.add_lt_add_iff_right] at hfuel
    have hlink : kept.getLast?.elim s.jobs s.next = some i := by
      rw [hjobs, hlinked.link_eq]
      rfl
    rw [Bridge.forgetFrom, hlink]
    cases hold : s.isOld now i with
    | true =>
      -- the record goes, and the link stays where it is
      have hsub : (kept ++ l).Sublist (kept ++ i :: l) :=
        List.Sublist.append_left (List.sublist_cons_self i l) kept
      have hhead : (if kept.getLast? = none then s.next i else s.jobs) = (kept ++ l).head? := by
        rw [hjobs]
        exact hlinked.head_eq
      obtain ⟨next, hnext, heq⟩ := ih (s := { s with
          jobs := if kept.getLast? = none then s.next i else s.jobs
          next := relink s.next kept.getLast? (s.next i)
          numberOfJobs := s.numberOfJobs - 1 })
        hhead (hlinked.relink hnodup) (hsub.nodup hnodup) hfuel
      refine ⟨next, ?_, ?_⟩
      · rw [List.filter_cons_of_neg (by simp [hold])]
        exact hnext
      · rw [List.filter_cons_of_neg (by simp [hold]), List.filter_cons_of_pos hold,
          List.length_cons, Nat.add_comm, ← Nat.sub_sub]
        exact (if_pos hold).trans heq
    | false =>
      have happ : kept ++ i :: l = kept ++ [i] ++ l := by rw [List.append_assoc]; rfl
      rw [happ] at hjobs hlinked hnodup
      obtain ⟨next, hnext, heq⟩ := ih hjobs hlinked hnodup hfuel
      refine ⟨next, ?_, ?_⟩
      · rw [List.filter_cons_of_pos (by simp [hold]), ← List.singleton_append,
          ← List.append_assoc]
        exact hnext
      · rw [List.filter_cons_of_pos (by simp [hold]), List.filter_cons_of_neg (by simp [hold]),
          ← List.singleton_append, ← List.append_assoc, ← heq, List.getLast?_concat]
        exact if_neg (by rw [hold]; exact Bool.false_ne_true)

theorem Inv.forgetOldJobs (h : Inv s l q) (now : ℤ) :
    ∃ next, Inv (s.forgetOldJobs now) (l.filter fun i => !s.isOld now i) q ∧
      s.forgetOldJobs now =
        { s with
          jobs := (l.filter fun i => !s.isOld now i).head?
          next
          numberOfJobs := (l.filter fun i => !s.isOld now i).length } := by
  obtain ⟨next, hnext, heq⟩ := @forgetFrom_eq _ _ now _ [] h.jobs_eq h.linked h.nodup
    (Nat.lt_succ_of_le (length_le_of_below h.nodup h.below))
  have hlength : s.numberOfJobs - (l.filter fun i => s.isOld now i).length =
      (l.filter fun i => !s.isOld now i).length := by
    have hsum := List.length_eq_length_filter_add (l := l) fun i => s.isOld now i
    rw [h.numberOfJobs_eq]
    omega
  have heq' : s.forgetOldJobs now = { s with
      jobs := (l.filter fun i => !s.isOld now i).head?
      next
      numberOfJobs := (l.filter fun i => !s.isOld now i).length } := by
    rw [← hlength]
    exact heq
  refine ⟨next, ?_, heq'⟩
  rw [heq']
  exact {
    h with
    jobs_eq := rfl
    linked := hnext
    nodup := h.nodup.filter _
    below := fun i hi => h.below i (List.mem_of_mem_filter hi)
    numberOfJobs_eq := rfl
    numberOfJobs_le := by
      have hle := List.length_filter_le (fun i => !s.isOld now i) l
      have hmax := h.numberOfJobs_le
      rw [h.numberOfJobs_eq] at hmax
      exact hle.trans hmax
    kept := by
      -- a record that is not finished is not old
      intro i hi hstate
      refine List.mem_filter.mpr ⟨h.kept i hi hstate, ?_⟩
      have hold : s.isOld now i = false := decide_eq_false fun hcon => hstate hcon.1
      rw [hold]
      rfl }

/-! `removeFromQueue` and what becomes of the record behind it. -/

/-- The queue of a state whose record `i` has left it. -/
structure Unqueued (s s' : Bridge) (i : ℕ) (q : List ℕ) : Prop where
  queue : Represents s'.queueHead s'.queueTail s'.nextQueued (Function.update s.isQueued i false) q
  sorted : q.Pairwise (· < ·)
  same : s' = { s with
    queueHead := s'.queueHead
    queueTail := s'.queueTail
    nextQueued := s'.nextQueued }

theorem Inv.removeFromQueue (h : Inv s l q) {i : ℕ} (hi : i ∈ q) :
    ∃ q', Unqueued s (s.removeFromQueue i) i q' := by
  obtain ⟨before, after, rfl⟩ := List.append_of_mem hi
  have hnotin : i ∉ before := by
    have hperm : List.Perm (before ++ i :: after) (i :: (before ++ after)) := List.perm_middle
    have hnodup := (List.nodup_cons.mp (hperm.nodup_iff.mp h.queue.nodup)).1
    exact fun hcon => hnodup (List.mem_append_left after hcon)
  have hfuel : before.length < s.allocated := by
    have hle := length_le_of_below h.queue.nodup fun j hj => h.queued_below hj
    rw [List.length_append, List.length_cons] at hle
    omega
  have hprevious : findPrevious s.nextQueued i s.allocated none s.queueHead =
      some before.getLast? := by
    rw [h.queue.head_eq, findPrevious_eq h.queue.linked hnotin hfuel, Option.or_none]
  refine ⟨before ++ after, ?_, ?_, ?_⟩
  · unfold Bridge.removeFromQueue
    rw [hprevious]
    exact h.queue.remove
  · exact h.sorted.sublist (List.Sublist.append_left (List.sublist_cons_self i after) before)
  · unfold Bridge.removeFromQueue
    rw [hprevious]

theorem Inv.unqueued (h : Inv s l q) {i : ℕ} (hi : (s.record i).state ≠ .queued) :
    Unqueued s s i q := by
  have hsame : Function.update s.isQueued i false = s.isQueued :=
    Function.update_eq_self_iff.mpr (decide_eq_false fun hcon => hi hcon.2).symm
  refine ⟨?_, h.sorted, rfl⟩
  rw [hsame]
  exact h.queue

theorem isQueued_setRecord (s : Bridge) (i : ℕ) {r : Record} (hr : r.state ≠ .queued) :
    (s.setRecord i r).isQueued = Function.update s.isQueued i false := by
  funext j
  show decide (j < s.allocated ∧ (Function.update s.record i r j).state = .queued) = _
  by_cases hj : j = i
  · subst hj
    rw [Function.update_self, Function.update_self]
    exact decide_eq_false fun hcon => hr hcon.2
  · rw [Function.update_of_ne hj, Function.update_of_ne hj]
    rfl

theorem Inv.setRecord (h : Inv s l q) {s' : Bridge} {i : ℕ} {q' : List ℕ}
    (hleft : Unqueued s s' i q') {r : Record} (hr : r.state ≠ .queued)
    (hfinished : r.state ≠ .finished → (s.record i).state ≠ .finished) :
    Inv (s'.setRecord i r) l q' := by
  obtain ⟨queue, sorted, same⟩ := hleft
  rw [same]
  have hstate : ∀ j, j ≠ i → Function.update s.record i r j = s.record j :=
    fun j hj => Function.update_of_ne hj ..
  exact {
    jobs_eq := h.jobs_eq
    linked := h.linked
    nodup := h.nodup
    below := h.below
    numberOfJobs_eq := h.numberOfJobs_eq
    numberOfJobs_le := h.numberOfJobs_le
    queue := by
      rw [isQueued_setRecord _ i hr]
      exact queue
    sorted := sorted
    kept := by
      intro j hj hlive
      change (Function.update s.record i r j).state ≠ _ at hlive
      by_cases hji : j = i
      · subst hji
        rw [Function.update_self] at hlive
        exact h.kept j hj (hfinished hlive)
      · rw [hstate j hji] at hlive
        exact h.kept j hj hlive
    fresh := by
      intro j hj hqueued
      change (Function.update s.record i r j).state = _ at hqueued
      show (Function.update s.record i r j).seq = 0
      by_cases hji : j = i
      · subst hji
        rw [Function.update_self] at hqueued
        exact absurd hqueued hr
      · rw [hstate j hji] at hqueued ⊢
        exact h.fresh j hj hqueued
    once := h.once
    taken := by
      intro j hj
      obtain ⟨hlt, hne⟩ := h.taken j hj
      refine ⟨hlt, ?_⟩
      show (Function.update s.record i r j).state ≠ _
      by_cases hji : j = i
      · subst hji
        rw [Function.update_self]
        exact hr
      · rw [hstate j hji]
        exact hne }

/-! The end of `runCallback`. -/

theorem isQueued_push (s : Bridge) (job : Job) :
    (s.push job).isQueued = Function.update s.isQueued s.allocated true := by
  funext j
  show decide (j < s.allocated + 1 ∧ ((s.push job).record j).state = .queued) = _
  by_cases hj : j = s.allocated
  · subst hj
    rw [Function.update_self, show (s.push job).record s.allocated = _ from Function.update_self ..]
    exact decide_eq_true ⟨Nat.lt_succ_self _, rfl⟩
  · have hlt : j < s.allocated + 1 ↔ j < s.allocated := by omega
    rw [Function.update_of_ne hj, show (s.push job).record j = _ from Function.update_of_ne hj ..]
    simp only [hlt]
    rfl

theorem Inv.push_queue (h : Inv s l q) (job : Job) :
    Represents (s.push job).queueHead (s.push job).queueTail (s.push job).nextQueued
      (s.push job).isQueued (q ++ [s.allocated]) := by
  have hfree : s.isQueued s.allocated = false :=
    decide_eq_false fun hcon => Nat.lt_irrefl _ hcon.1
  rw [isQueued_push]
  show Represents (if s.queueTail = none then some s.allocated else s.queueHead) (some s.allocated)
    (relink (Function.update s.nextQueued s.allocated none) s.queueTail (some s.allocated)) _ _
  cases htail : s.queueTail with
  | none => exact h.queue.push_nil htail s.allocated
  | some t =>
    rw [if_neg (by simp)]
    exact h.queue.push htail hfree

theorem Inv.push (h : Inv s l q) (job : Job) (hroom : s.numberOfJobs < ASVIO_MAX_JOBS) :
    Inv (s.push job) (s.allocated :: l) (q ++ [s.allocated]) := by
  have hnotin : s.allocated ∉ l := fun hcon => Nat.lt_irrefl _ (h.below _ hcon)
  have hold : ∀ j, j ≠ s.allocated → (s.push job).record j = s.record j :=
    fun j hj => Function.update_of_ne hj ..
  have hnew : (s.push job).record s.allocated =
      ⟨job, .queued, CString.ascii "queued", 0, none, false, 0⟩ := Function.update_self ..
  have hlt : ∀ j < s.allocated + 1, j ≠ s.allocated → j < s.allocated := by omega
  exact {
    jobs_eq := rfl
    linked := by
      have hlinked : Linked (Function.update s.next s.allocated s.jobs) l :=
        h.linked.congr fun j hj => Function.update_of_ne (Nat.ne_of_lt (h.below j hj)) ..
      have hfirst : Function.update s.next s.allocated s.jobs s.allocated = l.head? := by
        rw [Function.update_self, h.jobs_eq]
      cases l with
      | nil => exact hfirst
      | cons j l => exact ⟨hfirst, hlinked⟩
    nodup := List.nodup_cons.mpr ⟨hnotin, h.nodup⟩
    below := by
      intro j hj
      rcases List.mem_cons.mp hj with rfl | hj
      · exact Nat.lt_succ_self _
      · exact Nat.lt_succ_of_lt (h.below j hj)
    numberOfJobs_eq := congrArg (· + 1) h.numberOfJobs_eq
    numberOfJobs_le := hroom
    queue := h.push_queue job
    sorted := by
      refine List.pairwise_append.mpr ⟨h.sorted, List.pairwise_singleton .., fun i hi j hj => ?_⟩
      rw [List.mem_singleton.mp hj]
      exact h.queued_below hi
    kept := by
      intro j hj hlive
      by_cases hja : j = s.allocated
      · exact hja ▸ List.mem_cons_self ..
      · rw [hold j hja] at hlive
        exact List.mem_cons_of_mem _ (h.kept j (hlt j hj hja) hlive)
    fresh := by
      intro j hj hqueued
      by_cases hja : j = s.allocated
      · rw [hja, hnew]
      · rw [hold j hja] at hqueued ⊢
        exact h.fresh j (hlt j hj hja) hqueued
    once := h.once
    taken := by
      intro j hj
      obtain ⟨hja, hne⟩ := h.taken j hj
      rw [hold j (Nat.ne_of_lt hja)]
      exact ⟨Nat.lt_succ_of_lt hja, hne⟩ }

end AmmarServer.Asvio
