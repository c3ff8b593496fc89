import AmmarServer.Threads.UringOrder
import AmmarServer.Threads.UringSent
import AmmarServer.Threads.UringUserData

/-! The send tickets of the ring server and the connections that wait for one, in every state that a
run reaches. -/

namespace AmmarServer.Uring
open ApiProtocol CString Pipeline

variable {env : Environment} {spare : Slot → Prop}

/-! ## Steps -/

theorem Awake.startup : Awake env spare (startup env) := by
  have hunarmed : (Uring.startup env).unarmed = ringStartup.unarmed :=
    unarmed_armAcceptSomewhere env ringStartup 0
  have hqueue : ∀ r, QueueIs ringStartup r [] := fun r => LinkQueue.represents_nil fun _ => rfl
  refine Awake.of_unarmed ⟨⟨⟨fun r => ⟨[], hqueue r⟩, ?_, ?_⟩, ?_, ?_⟩, ?_⟩ hunarmed
  · exact fun a ha => absurd ha Bool.false_ne_true
  · exact fun a ha => absurd ha Bool.false_ne_true
  · exact ⟨List.nodup_nil, fun t => iff_of_false Bool.false_ne_true List.not_mem_nil,
      fun t ht => absurd ht List.not_mem_nil, fun o ho => absurd ho List.not_mem_nil⟩
  · exact Nat.zero_le _
  · exact fun _ a hawaits => absurd hawaits.inUse Bool.false_ne_true

/-- What a step needs so that nobody is left waiting behind it: received bytes that leave a complete
request with no send outstanding get an answer at once, and the completion of the last outstanding
send wakes whoever waits. -/
def WakesStep (env : Environment) (s : UringState) : Event → Prop
  | .recv r cqe => r < env.ringCount → s.sends = [] → ∀ data, cqe.Brings env s r data →
      Stirs env s (r, cqe.slot) ((s.connection (r, cqe.slot)).inBuf.data ++ data)
  | .send place res => ∀ o, s.sends = [o] → place = 0 → WakesNext env s o res
  | _ => True

theorem Awake.step (hsend : SendsFit env) {s : UringState} (h : Awake env spare s) (e : Event)
    (hstirs : ∀ r cqe, e = .recv r cqe → r < env.ringCount → s.sends = [] → ∀ data,
      cqe.Brings env s r data → spare (r, cqe.slot) ∨
        Stirs env s (r, cqe.slot) ((s.connection (r, cqe.slot)).inBuf.data ++ data))
    (hwakes : ∀ place res o, e = .send place res → s.sends[place]? = some o →
      Quiet spare (handleSendCompletion env { s with sends := s.sends.eraseIdx place } o res)) :
    Awake env spare (step env s e) := by
  cases e with
  | accept r res more =>
    simp only [Uring.step]
    split
    · exact h.handleAcceptCompletion r res more
    · exact h
  | recv r cqe =>
    simp only [Uring.step]
    split
    · rename_i hr
      exact h.handleRecvCompletion hsend r cqe (hstirs r cqe rfl hr)
    · exact h
  | send place res =>
    simp only [Uring.step]
    split
    · exact h
    · rename_i o ho
      exact ⟨(handleSendCompletion_works hsend h.toStaffed ho res).1, hwakes place res o rfl ho⟩
  | close r =>
    simp only [Uring.step]
    split
    · simp only [handleCloseCompletion]
      split
      · exact h.of_unarmed (unarmed_armAcceptSomewhere env s r)
      · exact h
    · exact h
  | flush =>
    obtain ⟨hworks, hquiet⟩ := flushBatch_works hsend h.toStaffed h.quiet
    exact ⟨hworks.toStaffed, hquiet⟩
  | sendDeferred answer => exact h.apiSendDeferred hsend answer
  | setHandlers api batch =>
    exact ⟨⟨⟨h.queues.exist, h.queues.inTable, h.queues.inUse⟩, h.pool.congr rfl rfl, h.batch⟩,
      h.quiet⟩

theorem awake_step (hsend : SendsFit env) {s : UringState} (h : Awake env nobody s) {e : Event}
    (hwakes : WakesStep env s e) : Awake env nobody (step env s e) := by
  refine h.step hsend e (fun r cqe he hr hnone data hbrings => ?_) fun place res o he ho => ?_
  · rw [he] at hwakes
    exact .inr (hwakes hr hnone data hbrings)
  · rw [he] at hwakes
    refine (handleSendCompletion_works hsend h.toStaffed ho res).2 fun hlast => ?_
    obtain ⟨hplace, hget⟩ := List.getElem?_eq_some_iff.mp ho
    have hlength := List.length_eraseIdx_of_lt hplace
    rw [hlast, List.length_nil] at hlength
    obtain ⟨o', ho'⟩ := List.length_eq_one_iff.mp (show s.sends.length = 1 by omega)
    have hzero : place = 0 := by omega
    rw [hzero, ho'] at ho
    obtain rfl := Option.some.inj ho
    exact hwakes o' ho' hzero

/-! ## No lost wake-up -/

/-- Whoever is in a queue with a complete request and no send in flight has a send to wait for. -/
def NoLostWakeUp (env : Environment) (s : UringState) : Prop :=
  ∀ r, ∀ slot ∈ waitingList env s r, (s.connection (r, slot)).inUse = true →
    (s.connection (r, slot)).sendInFlight = false →
    Complete (s.connection (r, slot)).inBuf.data →
    ∃ o ∈ s.sends, (s.sendTicket o.ticket).busy = true

theorem Awake.noLostWakeUp {s : UringState} (h : Awake env nobody s) : NoLostWakeUp env s := by
  intro r slot hslot hopen hidle hcomplete
  have hflag := (h.queues.mem_waitingList r slot).mp hslot
  cases hsends : s.sends with
  | nil => exact (h.quiet hsends (r, slot) ⟨hflag, hopen, hidle, hcomplete⟩).elim
  | cons o rest =>
    refine ⟨o, List.mem_cons_self, (h.pool.busy o.ticket).mpr ?_⟩
    rw [List.nil_append, hsends]
    exact List.mem_map_of_mem List.mem_cons_self

theorem reaches_noLostWakeUp (env : Environment) (hsend : SendsFit env) {s : UringState}
    (h : Run.Reaches (step env) (WakesStep env) (startup env) s) : NoLostWakeUp env s := by
  have hawake : Awake env nobody s :=
    h.invariant .startup fun _ _ hbefore hwakes => awake_step hsend hbefore hwakes
  exact hawake.noLostWakeUp

/-- Two connections send a request each and the first is sent its response. -/
theorem reaches_noLostWakeUp_two :
    NoLostWakeUp calm (step calm (step calm (step calm (step calm (step calm (startup calm)
      (.accept 0 (.ok 0) true)) (.accept 0 (.ok 1) true)) (receive 0 (ascii "G\n\n")))
      (receive 1 (ascii "G\n\n"))) (.send 0 200)) := by
  refine reaches_noLostWakeUp calm (fun _ _ => rfl)
    (.step _ (.step _ (.step _ (.step _ (.step _ .start trivial) trivial) ?_) ?_) ?_)
  · intro _ _ data hbrings _
    exact .inl fun hflag => absurd hflag (by decide)
  · intro _ hnone
    exact absurd hnone (by decide)
  · intro o ho
    have hlength := congrArg List.length ho
    rw [List.length_singleton] at hlength
    exact absurd hlength (by decide)

/-- All the tickets are taken by sends, one more connection waits, and all the sends fail. -/
def failingSends : List Event :=
  (List.range 33).map (fun slot => .accept 0 (.ok slot) true) ++
    (List.range 33).map (fun slot => receive slot (ascii "G\n\n")) ++
    List.replicate 32 (.send 0 0)

theorem failingSends_leaveOneWaiting :
    ¬ ∀ (env : Environment) (s : UringState),
      Run.Reaches (step env) (fun _ _ => True) (startup env) s → NoLostWakeUp env s := by
  intro h
  have hrun : Run.Reaches (step calm) (fun _ _ => True) (startup calm)
      (failingSends.foldl (step calm) (startup calm)) :=
    .foldl (fun _ _ => trivial) failingSends .start
  have hend : let s := failingSends.foldl (step calm) (startup calm)
      32 ∈ waitingList calm s 0 ∧ (s.connection (0, 32)).inUse = true ∧
        (s.connection (0, 32)).sendInFlight = false ∧
        (nextFrame (s.connection (0, 32)).inBuf.data 0).1 = .ready ∧ s.sends = [] := by
    decide +kernel
  obtain ⟨hwaits, hopen, hidle, hcomplete, hnone⟩ := hend
  obtain ⟨o, ho, -⟩ := h calm _ hrun 0 32 hwaits hopen hidle hcomplete
  exact List.ne_nil_of_mem ho hnone

/-! ## Neither leaked nor shared -/

/-- A busy ticket is that of exactly one outstanding send, which names it in its `user_data` and whose
bytes are in the ticket's buffer; any other ticket is that of none. -/
structure TicketsMatch (env : Environment) (s : UringState) : Prop where
  oneSend : ∀ t, (s.sends.map OutstandingSend.ticket).count t =
    if (s.sendTicket t).busy = true then 1 else 0
  tagged : ∀ o ∈ s.sends, ∀ slot < 2 ^ 32,
    userDataGeneration (userData URING_OP_SEND o.ticket slot) = o.ticket
  laid : ∀ o ∈ s.sends, Laid env (s.sendTicket o.ticket)

theorem Pool.ticketsMatch {s : UringState} (h : Pool env [] s) : TicketsMatch env s where
  oneSend t := by
    have hmem := h.busy t
    rw [List.nil_append] at hmem
    split
    · rename_i hbusy
      exact List.count_eq_one_of_mem h.nodup (hmem.mp hbusy)
    · rename_i hfree
      exact List.count_eq_zero.mpr fun hcon => hfree (hmem.mpr hcon)
  tagged o ho slot hslot := by
    have hknown : o.ticket < 32 := h.known o.ticket (List.mem_map_of_mem ho)
    rw [userData_generation hslot, Nat.mod_eq_of_lt (by omega)]
  laid := h.laid

def everybody (_ : Slot) : Prop := True

theorem reaches_ticketsMatch (env : Environment) (hsend : SendsFit env) {s : UringState}
    (h : Run.Reaches (step env) (fun _ _ => True) (startup env) s) : TicketsMatch env s := by
  have hawake : Awake env everybody s := h.invariant .startup fun _ e hbefore _ =>
    hbefore.step hsend e (fun _ _ _ _ _ _ _ => .inl trivial) fun _ _ _ _ _ _ _ _ => trivial
  exact hawake.pool.ticketsMatch

/-- A response goes out in two parts. -/
theorem reaches_ticketsMatch_two :
    TicketsMatch calm (step calm (step calm (step calm (startup calm) (.accept 0 (.ok 0) true))
      (receive 0 (ascii "G\n\n"))) (.send 0 5)) :=
  reaches_ticketsMatch calm (fun _ _ => rfl) (.step _ (.step _ (.step _ .start trivial) trivial) trivial)

/-- The submission queue is full whenever a response is to be sent. -/
def crowded : Environment := { calm with getSqe := fun op _ => op ≠ .response }

/-- The response is laid out in a ticket that no send will ever give back. -/
theorem crowded_leaksTicket :
    ¬ ∀ (env : Environment) (s : UringState),
      Run.Reaches (step env) (fun _ _ => True) (startup env) s → TicketsMatch env s := by
  intro h
  have hrun : Run.Reaches (step crowded) (fun _ _ => True) (startup crowded)
      (step crowded (step crowded (startup crowded) (.accept 0 (.ok 0) true))
        (receive 0 (ascii "G\n\n"))) := .step _ (.step _ .start trivial) trivial
  have hone := (h crowded _ hrun).oneSend 0
  exact absurd hone (by decide)

end AmmarServer.Uring
