import AmmarServer.ASVIO.Jobs
import AmmarServer.Lib.Run

/-! The life of the jobs, over every order of the critical sections. -/

namespace AmmarServer.Asvio
open LinkQueue Run

variable {s : Bridge} {l q : List ℕ}

/-! What an event makes of the records. -/

theorem Moves.of_same {e : Event} {s' : Bridge}
    (hsame : ∀ i < s.allocated, s'.record i = s.record i)
    (hforgotten : ∀ i ∈ s.remembered, i ∉ s'.remembered → (s.record i).state = .finished ∧
      ∃ rqst, e = .run rqst ∧ ASVIO_FINISHED_JOB_LIFETIME < rqst.now - (s.record i).finishedAt) :
    Moves s e s' where
  state := by
    intro i hi
    rw [hsame i hi]
    exact .stay _
  seq := fun i hi hne => absurd (congrArg Record.view (hsame i hi)) hne
  payload := fun i hi _ => congrArg Record.payload (hsame i hi)
  forgotten := hforgotten

theorem Moves.of_setRecord {e : Event} {s' : Bridge} {i : ℕ} {r : Record}
    (hrecord : s'.record = Function.update s.record i r) (hremembered : s'.remembered = s.remembered)
    (hstate : Follows (s.record i).state r.state)
    (hseq : r.view ≠ (s.record i).view → (s.record i).seq < r.seq)
    (hpayload : (s.record i).state = .finished → r.payload = (s.record i).payload) :
    Moves s e s' := by
  have hother : ∀ j, j ≠ i → s'.record j = s.record j := by
    intro j hj
    rw [hrecord]
    exact Function.update_of_ne hj ..
  have hself : s'.record i = r := by
    rw [hrecord]
    exact Function.update_self ..
  refine ⟨fun j _ => ?_, fun j _ => ?_, fun j _ => ?_, fun j hj hnot => ?_⟩
  · by_cases hj : j = i
    · rw [hj, hself]
      exact hstate
    · rw [hother j hj]
      exact .stay _
  · by_cases hj : j = i
    · rw [hj, hself]
      exact hseq
    · rw [hother j hj]
      exact fun hne => absurd rfl hne
  · by_cases hj : j = i
    · rw [hj, hself]
      exact hpayload
    · rw [hother j hj]
      exact fun _ => rfl
  · rw [hremembered] at hnot
    exact absurd hj hnot

theorem Follows.of_finished {state : State} (h : Follows .finished state) : state = .finished := by
  generalize hfrom : State.finished = before at h
  cases h with
  | stay => rfl
  | take => cases hfrom
  | finish => cases hfrom
  | cancel => cases hfrom

/-- What a step is to be shown of. -/
structure Steps (s : Bridge) (e : Event) (s' : Bridge) : Prop where
  inv : ∃ l q, Inv s' l q
  moves : Moves s e s'
  handedOut : s'.handedOut = s.handedOut

theorem Steps.refl (h : Inv s l q) (e : Event) : Steps s e s where
  inv := ⟨l, q, h⟩
  moves := .of_same (fun _ _ => rfl) fun _ hi hnot => absurd hi hnot
  handedOut := rfl

theorem Steps.of_setRecord (h : Inv s l q) {s' : Bridge} {i : ℕ} {q' : List ℕ}
    (hleft : Unqueued s s' i q') {r : Record} (hr : r.state ≠ .queued)
    (hstate : Follows (s.record i).state r.state) (e : Event)
    (hseq : r.view ≠ (s.record i).view → (s.record i).seq < r.seq)
    (hpayload : (s.record i).state = .finished → r.payload = (s.record i).payload) :
    Steps s e (s'.setRecord i r) := by
  have hfinished : r.state ≠ .finished → (s.record i).state ≠ .finished := by
    intro hne hcon
    rw [hcon] at hstate
    exact hne hstate.of_finished
  have hinv := h.setRecord hleft hr hfinished
  refine ⟨⟨l, q', hinv⟩, .of_setRecord ?_ ?_ hstate hseq hpayload, ?_⟩
  · show Function.update s'.record i r = _
    rw [hleft.same]
  · rw [hinv.remembered_eq, h.remembered_eq]
  · show s'.handedOut = _
    rw [hleft.same]

theorem lt_add_one {c : UInt32} (h : c ≠ 2 ^ 32 - 1) : c < c + 1 := by
  have hne : c.toNat ≠ 2 ^ 32 - 1 := fun hcon => h (UInt32.toNat_inj.mp hcon)
  have hlt := c.toNat_lt
  rw [UInt32.lt_iff_toNat_lt, UInt32.toNat_add]
  show c.toNat < (c.toNat + 1) % 2 ^ 32
  rw [Nat.mod_eq_of_lt (by omega)]
  exact Nat.lt_succ_self _

/-! The events. -/

theorem run_steps (h : Inv s l q) (rqst : RunRequest) :
    Steps s (.run rqst) (s.runCallback rqst).2 := by
  obtain ⟨next, hinv, heq⟩ := h.forgetOldJobs rqst.now
  have hforgotten : ∀ i ∈ s.remembered, i ∉ l.filter (fun i => !s.isOld rqst.now i) →
      (s.record i).state = .finished ∧ ∃ r, Event.run rqst = .run r ∧
        ASVIO_FINISHED_JOB_LIFETIME < r.now - (s.record i).finishedAt := by
    intro i hi hnot
    rw [h.remembered_eq] at hi
    have hold : s.isOld rqst.now i = true := by
      cases hcon : s.isOld rqst.now i with
      | true => rfl
      | false => exact absurd (List.mem_filter.mpr ⟨hi, by rw [hcon]; rfl⟩) hnot
    obtain ⟨hstate, hlate⟩ := of_decide_eq_true hold
    exact ⟨hstate, rqst, rfl, hlate⟩
  unfold Bridge.runCallback
  cases parseRun rqst with
  | error reply => exact .refl h _
  | ok job =>
    dsimp only
    split
    · refine ⟨⟨_, _, hinv⟩, .of_same (fun i _ => ?_) ?_, ?_⟩
      · rw [heq]
      · rw [hinv.remembered_eq]
        exact hforgotten
      · rw [heq]
    · rename_i hroom
      rw [not_or, Nat.not_le] at hroom
      have hpush := hinv.push job hroom.2
      refine ⟨⟨_, _, hpush⟩, .of_same (fun i hi => ?_) fun i hi hnot => ?_, ?_⟩
      · show Function.update (s.forgetOldJobs rqst.now).record (s.forgetOldJobs rqst.now).allocated
          _ i = _
        rw [heq]
        exact Function.update_of_ne (Nat.ne_of_lt hi) ..
      · rw [hpush.remembered_eq] at hnot
        exact hforgotten i hi fun hcon => hnot (List.mem_cons_of_mem _ hcon)
      · show (s.forgetOldJobs rqst.now).handedOut = _
        rw [heq]

section
variable {jobID : List UInt8} {i : ℕ} {now : ℤ}

theorem cancel_unknown (hfind : s.findJob jobID = none) :
    (s.cancelCallback (some jobID) now).2 = s := by
  simp only [Bridge.cancelCallback, hfind]

theorem cancel_queued (hfind : s.findJob jobID = some i) (hstate : (s.record i).state = .queued) :
    (s.cancelCallback (some jobID) now).2 =
      (s.removeFromQueue i).setRecord i ((s.record i).cancel now) := by
  simp only [Bridge.cancelCallback, hfind, hstate]

theorem cancel_taken (hfind : s.findJob jobID = some i) (hstate : (s.record i).state = .taken) :
    (s.cancelCallback (some jobID) now).2 =
      s.setRecord i { s.record i with cancelRequested := true } := by
  simp only [Bridge.cancelCallback, hfind, hstate]

theorem cancel_finished (hfind : s.findJob jobID = some i)
    (hstate : (s.record i).state = .finished) : (s.cancelCallback (some jobID) now).2 = s := by
  simp only [Bridge.cancelCallback, hfind, hstate]

end

theorem cancel_steps (h : Inv s l q) (jobID : Option (List UInt8)) (now : ℤ) :
    Steps s (.cancel jobID now) (s.cancelCallback jobID now).2 := by
  cases jobID with
  | none => exact .refl h _
  | some jobID =>
    cases hfind : s.findJob jobID with
    | none =>
      rw [cancel_unknown hfind]
      exact .refl h _
    | some i =>
      have hi := h.below i (h.findJob_mem hfind)
      cases hstate : (s.record i).state with
      | queued =>
        obtain ⟨q', hleft⟩ := h.removeFromQueue
          ((h.queue.mem_iff i).mp (Bridge.isQueued_iff.mpr ⟨hi, hstate⟩))
        rw [cancel_queued hfind hstate]
        refine Steps.of_setRecord h hleft (by simp [Record.cancel]) ?_ _ ?_ fun _ => rfl
        · rw [hstate]
          exact .cancel
        · intro _
          apply lt_add_one
          rw [h.fresh i hi hstate]
          decide
      | taken =>
        have hne : (s.record i).state ≠ .queued := by simp [hstate]
        rw [cancel_taken hfind hstate]
        exact Steps.of_setRecord (r := { s.record i with cancelRequested := true }) h
          (h.unqueued hne) hne (.stay _) _ (fun hview => absurd rfl hview) fun _ => rfl
      | finished =>
        rw [cancel_finished hfind hstate]
        exact .refl h _

theorem nextJob_steps (h : Inv s l q) :
    Steps s .nextJob s.asvioNextJob.2 ∧ (∀ i, s.asvioNextJob.1 = some i →
      (s.record i).state = .queued ∧ i < s.asvioNextJob.2.allocated ∧
        (s.asvioNextJob.2.record i).state = .taken) := by
  unfold Bridge.asvioNextJob
  cases hhead : s.queueHead with
  | none => exact ⟨.refl h _, fun i hi => by cases hi⟩
  | some i =>
    cases hstop : s.stopping with
    | true => exact ⟨.refl h _, fun j hj => by cases hj⟩
    | false =>
      have hi : i ∈ q := by
        apply List.mem_of_mem_head?
        rw [← h.queue.head_eq]
        exact hhead
      obtain ⟨hlt, hstate⟩ := Bridge.isQueued_iff.mp ((h.queue.mem_iff i).mpr hi)
      obtain ⟨q', hleft⟩ := h.removeFromQueue hi
      refine ⟨?_, fun j hj => ?_⟩
      · refine Steps.of_setRecord h hleft (by simp) ?_ _ (fun hview => absurd rfl hview)
          fun _ => rfl
        rw [hstate]
        exact .take
      · obtain rfl : i = j := Option.some.inj hj
        refine ⟨hstate, ?_, ?_⟩
        · show i < (s.removeFromQueue i).allocated
          rw [hleft.same]
          exact hlt
        · show (Function.update (s.removeFromQueue i).record i _ i).state = _
          rw [Function.update_self]

theorem publish_steps (h : Inv s l q) (p : Publication) (final : Bool) (e : Event)
    (hcounted : ∀ jobID i, p.jobID = some jobID → s.findJob jobID = some i →
      (s.record i).state = .taken → (s.record i).seq ≠ 2 ^ 32 - 1) :
    Steps s e (s.publish p final).2 := by
  unfold Bridge.publish
  cases hid : p.jobID with
  | none => exact .refl h e
  | some jobID =>
    dsimp only
    split
    · exact .refl h e
    · cases hfind : s.findJob jobID with
      | none => exact .refl h e
      | some i =>
        dsimp only
        split
        · exact .refl h e
        · rename_i htaken
          rw [not_not] at htaken
          have hseq := lt_add_one (hcounted jobID i hid hfind htaken)
          have hleft := h.unqueued (i := i) (by simp [htaken])
          cases final with
          | false =>
            refine Steps.of_setRecord (r := (s.record i).publish p false) h hleft ?_ (.stay _) e
              (fun _ => hseq) fun hcon => ?_
            · show (s.record i).state ≠ .queued
              simp [htaken]
            · rw [htaken] at hcon
              cases hcon
          | true =>
            refine Steps.of_setRecord (r := (s.record i).publish p true) h hleft
              (by simp [Record.publish]) ?_ e (fun _ => hseq) fun hcon => ?_
            · rw [htaken]
              exact .finish
            · rw [htaken] at hcon
              cases hcon

/-! The runs. -/

theorem Moves.hand {e : Event} {s' : Bridge} (h : Moves s e s') (handedOut : List ℕ) :
    Moves s e { s' with handedOut } := ⟨h.state, h.seq, h.payload, h.forgotten⟩

theorem Inv.hand (h : Inv s l q) {handedOut : List ℕ} (once : handedOut.Nodup)
    (taken : ∀ i ∈ handedOut, i < s.allocated ∧ (s.record i).state ≠ .queued) :
    Inv { s with handedOut } l q := { h with once, taken }

/-- Only `asvio_next_job` hands a record out. -/
theorem Steps.keep {e : Event} (h : Steps s e (act s e).2) (hnone : (act s e).1.handedOut = []) :
    (∃ l q, Inv (step s e) l q) ∧ Moves s e (step s e) := by
  have hstep : step s e = (act s e).2 := by
    unfold step
    rw [hnone, List.nil_append, ← h.handedOut]
  rw [hstep]
  exact ⟨h.inv, h.moves⟩

theorem step_spec (h : Inv s l q) (e : Event) (hcounted : Counted s e) :
    (∃ l q, Inv (step s e) l q) ∧ Moves s e (step s e) := by
  cases e with
  | run rqst => exact (run_steps h rqst).keep rfl
  | poll rqst => exact (Steps.refl h (.poll rqst)).keep rfl
  | cancel jobID now => exact (cancel_steps h jobID now).keep rfl
  | nextJob =>
    obtain ⟨⟨⟨l', q', hinv⟩, hmoves, hkept⟩, hjob⟩ := nextJob_steps h
    refine ⟨⟨l', q', ?_⟩, hmoves.hand _⟩
    show Inv { s.asvioNextJob.2 with
      handedOut := (Answer.job s.asvioNextJob.1).handedOut ++ s.handedOut } l' q'
    refine hinv.hand ?_ ?_
    · cases hanswer : s.asvioNextJob.1 with
      | none => exact h.once
      | some i =>
        -- it has been in the queue until now
        refine List.nodup_cons.mpr ⟨fun hcon => ?_, h.once⟩
        exact (h.taken i hcon).2 (hjob i hanswer).1
    · have htaken := hinv.taken
      rw [hkept] at htaken
      cases hanswer : s.asvioNextJob.1 with
      | none => exact htaken
      | some i =>
        obtain ⟨-, hlt, hstate⟩ := hjob i hanswer
        intro j hj
        rcases List.mem_cons.mp hj with rfl | hj
        · exact ⟨hlt, by simp [hstate]⟩
        · exact htaken j hj
  | update p => exact (publish_steps h p false _ hcounted).keep rfl
  | finish p => exact (publish_steps h p true _ hcounted).keep rfl
  | cancelled jobID => exact (Steps.refl h (.cancelled jobID)).keep rfl
  | setStopping stopping =>
    have hinv : Inv { s with stopping } l q := { h with }
    refine Steps.keep ⟨⟨l, q, hinv⟩, .of_same (fun _ _ => rfl) fun i hi hnot => ?_, rfl⟩ rfl
    exact absurd hi hnot

theorem reaches_inv (h : Reaches step Counted Bridge.start s) : ∃ l q, Inv s l q := by
  induction h with
  | start => exact ⟨[], [], inv_start⟩
  | step e _ hcounted ih =>
    obtain ⟨_, _, hinv⟩ := ih
    exact (step_spec hinv e hcounted).1

/-- As long as no `seq` is published past its last number, the jobs follow their life cycle. -/
theorem lifeCycle (h : Reaches step Counted Bridge.start s) :
    Sound s ∧ ∀ e, Counted s e → Moves s e (step s e) := by
  obtain ⟨l, q, hinv⟩ := reaches_inv h
  exact ⟨hinv.sound, fun e hcounted => (step_spec hinv e hcounted).2⟩

/-! One job. -/

def field (name value : String) : PostItem :=
  { name := some (CString.ascii name)
    filename := none
    value := some (CString.ascii value) }

def request : RunRequest where
  POSTItem := [field "api" "/predict", field "data" "1"]
  calloc := true
  memory := fun _ => true
  random := List.replicate 16 0
  now := 0

def jobID : List UInt8 := List.replicate 32 48

def yielded : Publication where
  jobID := some jobID
  status := none
  payload := none
  memory := true
  now := 0

def running : Bridge := step (step Bridge.start (.run request)) .nextJob

theorem lifeCycle_running :
    Sound running ∧ ∀ e, Counted running e → Moves running e (step running e) :=
  lifeCycle (.step Event.nextJob (.step (Event.run request) .start trivial) trivial)

/-! The last number. -/

/-- The record that is found under an id is running and has come to a number. -/
structure RunsAt (s : Bridge) (id : List UInt8) (i : ℕ) (seq : UInt32) : Prop where
  found : s.findJob id = some i
  below : i < s.allocated
  state : (s.record i).state = .taken
  seq_eq : (s.record i).seq = seq

theorem findJob_setRecord {i : ℕ} {r : Record} (hid : r.job.id = (s.record i).job.id)
    (id : List UInt8) : (s.setRecord i r).findJob id = s.findJob id := by
  have hsame : (fun j => decide (((s.setRecord i r).record j).job.id = id)) =
      fun j => decide ((s.record j).job.id = id) := by
    funext j
    show decide ((Function.update s.record i r j).job.id = id) = _
    by_cases hj : j = i
    · rw [hj, Function.update_self, hid]
    · rw [Function.update_of_ne hj]
  unfold Bridge.findJob
  rw [hsame]
  rfl

/-- Each update of it counts one further, the last one back to 0. -/
theorem RunsAt.update {i : ℕ} {seq : UInt32} {p : Publication} {id : List UInt8}
    (h : RunsAt s id i seq) (hid : p.jobID = some id) (hpayload : p.payload = none) :
    RunsAt (step s (.update p)) id i (seq + 1) := by
  have hpublish : s.asvioJobUpdate p = (true, s.setRecord i ((s.record i).publish p false)) := by
    simp only [Bridge.asvioJobUpdate, Bridge.publish, hid, hpayload, h.found, h.state]
    rfl
  have hstep : step s (.update p) = s.setRecord i ((s.record i).publish p false) := by
    show { (s.asvioJobUpdate p).2 with handedOut := [] ++ s.handedOut } = _
    rw [hpublish]
    rfl
  have hself : (step s (.update p)).record i = (s.record i).publish p false := by
    rw [hstep]
    exact Function.update_self ..
  refine ⟨?_, ?_, ?_, ?_⟩
  · rw [hstep, findJob_setRecord (by rfl)]
    exact h.found
  · rw [hstep]
    exact h.below
  · rw [hself]
    exact h.state
  · rw [hself, ← h.seq_eq]
    rfl

theorem RunsAt.updates {i : ℕ} {seq : UInt32} {p : Publication} {id : List UInt8}
    (h : RunsAt s id i seq) (hid : p.jobID = some id) (hpayload : p.payload = none) (n : ℕ) :
    RunsAt ((fun s => step s (.update p))^[n] s) id i (seq + UInt32.ofNat n) := by
  induction n with
  | zero =>
    rw [show seq + UInt32.ofNat 0 = seq from UInt32.add_zero seq]
    exact h
  | succ n ih =>
    rw [Function.iterate_succ_apply', UInt32.ofNat_add, ← UInt32.add_assoc]
    exact ih.update hid hpayload

theorem running_runsAt : RunsAt running jobID 0 0 where
  found := by decide
  below := by decide
  state := by decide
  seq_eq := by decide

theorem reaches_iterate (p : Publication)
    (h : Reaches step (fun _ _ => True) Bridge.start s) (n : ℕ) :
    Reaches step (fun _ _ => True) Bridge.start ((fun s => step s (.update p))^[n] s) := by
  induction n with
  | zero => exact h
  | succ n ih =>
    rw [Function.iterate_succ_apply']
    exact .step (.update p) ih trivial

theorem last_add_one {n : ℕ} (hn : n = 2 ^ 32 - 1) :
    0 + UInt32.ofNat n ≠ 0 ∧ 0 + UInt32.ofNat n + 1 = 0 := by
  subst hn
  decide

/-- Behind 2^32 updates a poll shows 0 again. -/
theorem seq_wraps : ¬∀ s, Reaches step (fun _ _ => True) Bridge.start s →
    Sound s ∧ ∀ e, Moves s e (step s e) := by
  intro hall
  have hstart : Reaches step (fun _ _ => True) Bridge.start running :=
    .step Event.nextJob (.step (Event.run request) .start trivial) trivial
  obtain ⟨n, hn⟩ : ∃ n, n = 2 ^ 32 - 1 := ⟨_, rfl⟩
  have hreached := reaches_iterate yielded hstart n
  have hlast := running_runsAt.updates (p := yielded) rfl rfl n
  obtain ⟨hne, hzero⟩ := last_add_one hn
  generalize (fun s => step s (.update yielded))^[n] running = s at hreached hlast
  generalize 0 + UInt32.ofNat n = last at hlast hne hzero
  have hnext := hlast.update (p := yielded) rfl rfl
  rw [hzero] at hnext
  have hlt := ((hall s hreached).2 (.update yielded)).seq 0 hlast.below fun hcon => by
    have hseq : ((step s (.update yielded)).record 0).seq = (s.record 0).seq :=
      congrArg View.seq hcon
    rw [hnext.seq_eq, hlast.seq_eq] at hseq
    exact hne hseq.symm
  rw [hnext.seq_eq, UInt32.lt_iff_toNat_lt] at hlt
  exact Nat.not_lt_zero _ hlt

end AmmarServer.Asvio
