import AmmarServer.Threads.UringWakeUp

/-! The completion of a send: what it leaves of tickets and queues, and whether the connections that
wait are still woken behind it. -/

namespace AmmarServer.Uring
open ApiProtocol Pipeline

variable {env : Environment}

/-! ## Whoever waits first -/

theorem inUse_of_firstWaiting {s : UringState} {a : Slot} (h : firstWaiting env s = some a) :
    (s.connection a).inUse = true := by
  rw [firstWaiting_eq_find] at h
  have hfound := List.find?_some h
  exact hfound

theorem firstWaiting_of_waiting {s s' : UringState} {a : Slot} (h : firstWaiting env s = some a)
    (hwaiting : s'.waiting = s.waiting)
    (hinUse : ∀ b, (s'.connection b).inUse = true → (s.connection b).inUse = true)
    (ha : (s'.connection a).inUse = true) : firstWaiting env s' = some a := by
  have hcursor : s'.ticketCursor = s.ticketCursor := congrArg (fun w => w.2.2) hwaiting
  have hqueue : ∀ r, waitingList env s' r = waitingList env s r := fun r => by
    have hhead : (s'.ring r).waitingHead = (s.ring r).waitingHead :=
      congrArg (fun w => (w.1 r).1) hwaiting
    have hnext : (fun i => (s'.connection (r, i)).nextWaiting) =
        fun i => (s.connection (r, i)).nextWaiting :=
      funext fun i => congrArg (fun w => (w.2.1 (r, i)).1) hwaiting
    rw [waitingList, waitingList, hhead, hnext]
  rw [firstWaiting_eq_find] at h ⊢
  rw [hcursor, funext hqueue]
  exact find?_of_imp h (fun b => hinUse b) ha

/-- A connection was taken from the queues; it is the one that came first. -/
structure TookFirst (env : Environment) (s s₁ : UringState) : Prop extends Staffed env [] s₁ where
  taken : TakenFirst s (firstWaiting env s) s₁

theorem takeNextWaitingForTicket_took {s : UringState} (h : Staffed env [] s) :
    (takeNextWaitingForTicket env s).1 = firstWaiting env s ∧
      TookFirst env s (takeNextWaitingForTicket env s).2 := by
  obtain ⟨hfirst, hqueues, htaken⟩ :=
    takeWaitingFrom_taken h.queues (ringsFrom env s.ticketCursor)
  rw [← firstWaiting] at hfirst
  have hserving := htaken.serving
  have hsends : (takeNextWaitingForTicket env s).2.sends = s.sends :=
    (congrArg UringState.sends hserving :
      (takeNextWaitingForTicket env s).2.serving.sends = s.serving.sends)
  have hbatch : (takeNextWaitingForTicket env s).2.batchPending = s.batchPending :=
    (congrArg UringState.batchPending hserving :
      (takeNextWaitingForTicket env s).2.serving.batchPending = s.serving.batchPending)
  exact ⟨hfirst, ⟨hqueues, h.pool.congr hsends (sendTicket_of_serving_eq hserving),
    hbatch ▸ h.batch⟩, hfirst ▸ htaken⟩

theorem TakenFirst.sends {s s₁ : UringState} {first : Option Slot} (h : TakenFirst s first s₁) :
    s₁.sends = s.sends :=
  (congrArg UringState.sends h.serving : s₁.serving.sends = s.serving.sends)

theorem TakenFirst.field {β : Type} {s s₁ : UringState} {first : Option Slot}
    (h : TakenFirst s first s₁) (field : UringConnection → β)
    (hfield : ∀ conn, field conn.serving = field conn) (a : Slot) :
    field (s₁.connection a) = field (s.connection a) := by
  have hconn : (s₁.connection a).serving = (s.connection a).serving :=
    congrFun (congrArg UringState.connection h.serving) a
  rw [← hfield, hconn, hfield]

theorem TakenFirst.awaits {s s₁ : UringState} {first : Option Slot} (h : TakenFirst s first s₁)
    {a : Slot} (hawaits : (s₁.connection a).Awaits) :
    (s.connection a).Awaits ∧ first ≠ some a := by
  refine ⟨⟨h.flags a hawaits.waitingForTicket, ?_, ?_, ?_⟩, fun hfirst => ?_⟩
  · exact h.field UringConnection.inUse (fun _ => rfl) a ▸ hawaits.inUse
  · exact h.field UringConnection.sendInFlight (fun _ => rfl) a ▸ hawaits.sendInFlight
  · exact h.field (fun c => c.inBuf.data) (fun _ => rfl) a ▸ hawaits.complete
  · exact Bool.false_ne_true ((h.unflagged a hfirst).symm.trans hawaits.waitingForTicket)

theorem TakenFirst.answerable {s s₁ : UringState} {first : Option Slot} {a : Slot}
    {buf : List UInt8} (h : TakenFirst s first s₁) (hanswerable : Answerable env s a buf) :
    Answerable env s₁ a buf :=
  hanswerable.congr
    (congrArg UringState.apiBatchHandler h.serving :
      s₁.serving.apiBatchHandler = s.serving.apiBatchHandler)
    (h.field UringConnection.batched (fun _ => rfl) a)
    (h.field UringConnection.deferred (fun _ => rfl) a)

theorem serveNextRequest_staffed (hsend : SendsFit env) {s : UringState} {slot : Slot}
    (h : Staffed env [] s) (hopen : (s.connection slot).inUse = true) (buf : List UInt8) :
    Served env (fun _ => True) s (serveNextRequest env s slot buf) ∧
      (Answerable env s slot buf → s.sends = [] →
        (serveNextRequest env s slot buf).sends ≠ []) :=
  serveNextRequest_served hsend h hopen (fun _ _ _ => .inr trivial) (fun _ _ _ _ => trivial)
    fun _ _ => .inl (.inl trivial)

theorem used_pos_of_complete {buf : ApiPartialRequest} (h : Complete buf.data) : 0 < buf.used := by
  refine List.length_pos_iff.mpr fun hnil => ?_
  rw [hnil] at h
  exact not_complete_nil h

def nobody (_ : Slot) : Prop := False

/-- What the connection that waits first makes of the free ticket. -/
def FirstIsServed (env : Environment) (s : UringState) : Prop :=
  (∀ a, (s.connection a).Awaits → firstWaiting env s = some a) ∨
    ∃ a, firstWaiting env s = some a ∧ (s.connection a).sendInFlight = false ∧
      Answerable env s a (s.connection a).inBuf.data

theorem serveOneWaiting_awake (hsend : SendsFit env) {s : UringState} (h : Staffed env [] s) :
    Staffed env [] (serveOneWaiting env s) ∧
      ((s.sends = [] → FirstIsServed env s) → Quiet nobody (serveOneWaiting env s)) := by
  obtain ⟨hfirst, htook⟩ := takeNextWaitingForTicket_took h
  simp only [serveOneWaiting]
  generalize takeNextWaitingForTicket env s = taken at hfirst htook ⊢
  obtain ⟨first, s₁⟩ := taken
  simp only at hfirst htook ⊢
  have htaken := htook.taken
  -- whoever waits came first, and does not wait any more
  have hquiet : (s.sends = [] → ∀ a, (s.connection a).Awaits → firstWaiting env s = some a) →
      Quiet nobody s₁ := fun hfirst hnone a hawaits => by
    obtain ⟨hbefore, hne⟩ := htaken.awaits hawaits
    exact hne (hfirst (htaken.sends ▸ hnone) a hbefore)
  split
  · rename_i hnobody
    obtain ⟨hnone, rfl⟩ := Prod.mk.inj hnobody
    refine ⟨htook.toStaffed, fun hserved => hquiet fun hsends => ?_⟩
    rcases hserved hsends with hall | ⟨a, ha, -⟩
    · exact hall
    · rw [← hfirst, hnone] at ha
      cases ha
  rename_i waiting s₂ htakenFirst
  obtain ⟨hsome, rfl⟩ := Prod.mk.inj htakenFirst
  rw [hsome] at hfirst
  have hopen : (s₁.connection waiting).inUse = true :=
    (htaken.field UringConnection.inUse (fun _ => rfl) waiting).trans
      (inUse_of_firstWaiting hfirst.symm)
  split
  · obtain ⟨hserved, hanswered⟩ := serveNextRequest_staffed hsend htook.toStaffed hopen
      (s₁.connection waiting).inBuf.data
    refine ⟨hserved.toStaffed, fun hfirstServed => ?_⟩
    by_cases hnone : s₁.sends = []
    · rcases hfirstServed (htaken.sends ▸ hnone) with hall | ⟨a, ha, -, hanswerable⟩
      · have hquiet₁ := hquiet fun _ => hall
        have hexcused : Excused (s₁.connection waiting) := fun hflag =>
          absurd (htaken.unflagged waiting hfirst.symm) (by rw [hflag]; decide)
        exact (serveNextRequest_served hsend htook.toStaffed hopen (hquiet₁.but waiting)
          (fun _ => hquiet₁) fun _ _ => .inl (.inr hexcused)).1.quiet
      · obtain rfl := Option.some.inj (ha.symm.trans hfirst.symm)
        have hdata := htaken.field (fun c => c.inBuf.data) (fun _ => rfl) a
        refine quiet_of_sends (hanswered ?_ hnone)
        rw [hdata]
        exact htaken.answerable hanswerable
    · exact quiet_of_sends fun hcon => hnone (hserved.sends hcon)
  · rename_i hidle
    refine ⟨htook.toStaffed, fun hfirstServed => hquiet fun hnone => ?_⟩
    rcases hfirstServed hnone with hall | ⟨a, ha, hsending, hanswerable⟩
    · exact hall
    · obtain rfl := Option.some.inj (ha.symm.trans hfirst.symm)
      refine absurd ⟨?_, ?_⟩ hidle
      · rw [htaken.field UringConnection.sendInFlight (fun _ => rfl) a, hsending]
        exact Bool.false_ne_true
      · rw [htaken.field UringConnection.inBuf (fun _ => rfl) a]
        exact used_pos_of_complete hanswerable.complete

/-! ## The connection whose send completed -/

/-- While no batch is formed, serving a connection without sending anything touches no other. -/
structure Apart (slot : Slot) (s s' : UringState) : Prop where
  others : ∀ a, a ≠ slot → (s'.connection a).unarmed = (s.connection a).unarmed
  apiBatchHandler : s'.apiBatchHandler = s.apiBatchHandler

theorem apart_of_unarmed {slot : Slot} {s s' : UringState} (h : s'.unarmed = s.unarmed) :
    Apart slot s s' :=
  ⟨fun a _ => congrFun (congrArg UringState.connection h) a,
    (congrArg UringState.apiBatchHandler h :
      s'.unarmed.apiBatchHandler = s.unarmed.apiBatchHandler)⟩

theorem Apart.trans {slot : Slot} {s s₁ s₂ : UringState} (h : Apart slot s s₁)
    (h₁ : Apart slot s₁ s₂) : Apart slot s s₂ :=
  ⟨fun a ha => (h₁.others a ha).trans (h.others a ha),
    h₁.apiBatchHandler.trans h.apiBatchHandler⟩

theorem apart_setConnection (s : UringState) (slot : Slot) (conn : UringConnection) :
    Apart slot s (s.setConnection slot conn) :=
  ⟨fun a ha => by rw [UringState.setConnection_connection, Function.update_of_ne ha], rfl⟩

theorem apart_keepTail {s s' : UringState} {slot : Slot} {buf : List UInt8} {consumed : Nat}
    (hkeep : keepTail env s slot buf consumed = some s') : Apart slot s s' := by
  obtain ⟨kept, -, rfl⟩ := Option.map_eq_some_iff.mp hkeep
  have hasked : Apart slot s s.asked := apart_of_unarmed rfl
  exact hasked.trans (apart_setConnection ..)

theorem apart_closeConnection (s : UringState) (slot : Slot) :
    Apart slot s (closeConnection s slot) := by
  simp only [closeConnection]
  split
  · exact apart_of_unarmed rfl
  · have hset := apart_setConnection s slot { s.connection slot with
      inUse := false, recvArmed := false, inBuf := partialFree (s.connection slot).inBuf }
    split
    · exact ⟨hset.others, rfl⟩
    · exact ⟨hset.others, rfl⟩

theorem deferRequest_apart (hsend : SendsFit env) {s : UringState} {slot : Slot} {ticket : Nat}
    {buf : List UInt8} {frame : ApiFrame} {method : TypesOfRequests}
    (h : Staffed env [ticket] s)
    (hnone : (deferRequest env s slot ticket buf frame method).sends = []) :
    Apart slot s (deferRequest env s slot ticket buf frame method) := by
  simp only [deferRequest] at hnone ⊢
  set s₁ := (releaseSendTicket s ticket).setHistory slot
    { (releaseSendTicket s ticket).historyOf slot with
      deferredAt := s.offsetOf slot buf.length }
  have hnoted : Works env [] s s₁ := h.release.trans (h.release.setHistory ..)
  have hsame : Apart slot s s₁ := ⟨fun _ _ => rfl, rfl⟩
  set s₂ := s₁.setConnection slot { s₁.connection slot with
    deferred := true, deferredKeepAlive := frame.keepAlive, deferredMethod := method }
  have hset : Works env [] s s₂ := hnoted.trans (hnoted.setConnection rfl rfl id id)
  cases hkeep : keepTail env s₂ slot buf frame.totalLength with
  | some s₃ => exact hsame.trans ((apart_setConnection ..).trans (apart_keepTail hkeep))
  | none =>
    simp only [hkeep] at hnone
    have hasked : Works env [] s s₂.asked := hset.trans (hset.of_unarmed rfl)
    have hreset : Works env [] s (s₂.asked.setConnection slot
        { s₂.connection slot with deferred := false }) :=
      hasked.trans (hasked.setConnection rfl rfl id id)
    exact absurd hnone ((sendStatusAndClose_works hsend hreset.toStaffed slot
      (by decide : 413 ∈ ownStatuses) _).2 (by decide))

theorem serveNextRequest_apart (hsend : SendsFit env) {s : UringState} {slot : Slot}
    {buf : List UInt8} (h : Staffed env [] s) (hbatch : s.apiBatchHandler = false)
    (hnone : (serveNextRequest env s slot buf).sends = []) :
    Apart slot s (serveNextRequest env s slot buf) := by
  have hrefl : Apart slot s s := apart_of_unarmed rfl
  have hstatus : ∀ s₁, ∀ statusCode ∈ ownStatuses, ∀ offset, Staffed env [] s₁ →
      (sendStatusAndClose env s₁ slot statusCode offset).sends ≠ [] :=
    fun s₁ statusCode hown offset h₁ => (sendStatusAndClose_works hsend h₁ slot hown offset).2
      (by decide)
  have hasked : Works env [] s s.asked := h.of_unarmed rfl
  by_cases hpending : (s.connection slot).batched = true ∨ (s.connection slot).deferred = true
  · simpa only [serveNextRequest, if_pos hpending] using hrefl
  simp only [serveNextRequest, if_neg hpending] at hnone ⊢
  split at hnone
  · rename_i frame hframe
    cases hkeep : keepTail env s slot buf 0 with
    | none =>
      rw [hkeep] at hnone
      exact absurd hnone (hstatus _ 413 (by decide) _ hasked.toStaffed)
    | some s₁ => exact apart_keepTail hkeep
  · rename_i hrefused
    exact absurd hnone
      (hstatus _ _ (nextFrame_refuseStatus hrefused) _ (freeIn_works h slot).toStaffed)
  rename_i frame hframe
  simp only [hbatch, Bool.false_eq_true, if_false] at hnone ⊢
  cases hacquire : acquireSendTicket s with
  | none =>
    have hsends : s.sends ≠ [] := by
      intro hcon
      obtain ⟨ticket, s', hsome⟩ := h.pool.acquire_isSome (by rw [hcon]; decide)
      rw [hacquire] at hsome
      cases hsome
    simp only [hacquire] at hnone
    cases hkeep : keepTail env s slot buf 0 with
    | none =>
      simp only [hkeep] at hnone
      exact absurd hnone (hstatus _ 413 (by decide) _ hasked.toStaffed)
    | some s₁ =>
      simp only [hkeep] at hnone
      have hsame : (queueForTicket s₁ slot).sends = s₁.sends :=
        (congrArg UringState.sends (serving_queueForTicket s₁ slot) :
          (queueForTicket s₁ slot).serving.sends = s₁.serving.sends)
      exact absurd ((keepTail_works hkeep h).sends (hsame ▸ hnone)) hsends
  | some acquired =>
    obtain ⟨ticket, s₁⟩ := acquired
    have hacquired := h.acquire hacquire
    simp only [hacquire] at hnone ⊢
    have hfreed : Works env [] s (freeIn (releaseSendTicket s₁ ticket) slot) :=
      (hacquired.trans hacquired.release).trans (freeIn_works hacquired.release.toStaffed slot)
    split at hnone
    · exact absurd hnone (hstatus _ 400 (by decide) _ hfreed.toStaffed)
    rename_i request _
    by_cases hhandler : ¬ s₁.apiHandler = true
    · rw [if_pos hhandler] at hnone
      exact absurd hnone (hstatus _ 500 (by decide) _ hfreed.toStaffed)
    rw [if_neg hhandler] at hnone ⊢
    have hcalled : Works env [ticket] s s₁.asked := hacquired.trans (hacquired.of_unarmed rfl)
    have hanswered := (@answerRequest_works env nobody hsend _ _ _ hcalled.toStaffed (by decide)
      slot buf frame request.method (env.handler s₁.calls request)).2.2
    obtain ⟨-, -, rfl⟩ := acquireSendTicket_eq_some hacquire
    set s₁ := s.setTicket ticket { s.sendTicket ticket with busy := true, sent := 0 }
    have hsame : Apart slot s s₁.asked := ⟨fun _ _ => rfl, rfl⟩
    by_cases hdeferred : (env.handler s₁.calls request).deferred = true
    · simp only [answerRequest, hdeferred, if_true] at hnone ⊢
      exact hsame.trans (deferRequest_apart hsend hcalled.toStaffed hnone)
    · exact absurd hnone (hanswered (by simpa using hdeferred))

/-- What follows a response that was sent in full, on the connection it was sent on. -/
structure WentOn (env : Environment) (slot : Slot) (s s' : UringState) : Prop
    extends Staffed env [] s', Steady s s' where
  answered : Answerable env s slot (s.connection slot).inBuf.data → s.sends = [] → s'.sends ≠ []
  apart : s.apiBatchHandler = false → s'.sends = [] → Apart slot s s'

theorem goOnAfterSend_wentOn (hsend : SendsFit env) {s : UringState} {slot : Slot}
    (h : Staffed env [] s) (hopen : (s.connection slot).inUse = true) :
    WentOn env slot s (goOnAfterSend env s slot) ∧
      ∀ spare : Slot → Prop, Quiet spare s →
        (Complete (s.connection slot).inBuf.data → spare slot ∨ Excused (s.connection slot)) →
        Quiet spare (goOnAfterSend env s slot) := by
  simp only [goOnAfterSend]
  set s₁ := if (s.connection slot).inBuf.used > 0 then
      serveNextRequest env s slot (s.connection slot).inBuf.data else s with hs₁
  have hwent : WentOn env slot s s₁ := by
    rw [hs₁]
    split
    · obtain ⟨hserved, hanswered⟩ := serveNextRequest_staffed hsend h hopen
        (s.connection slot).inBuf.data
      exact ⟨hserved.toStaffed, hserved.toSteady, hanswered, serveNextRequest_apart hsend h⟩
    · rename_i hempty
      exact ⟨h, .refl s, fun hanswerable => absurd (used_pos_of_complete hanswerable.complete) hempty,
        fun _ _ => apart_of_unarmed rfl⟩
  have hquiet : ∀ spare : Slot → Prop, Quiet spare s →
      (Complete (s.connection slot).inBuf.data → spare slot ∨ Excused (s.connection slot)) →
      Quiet spare s₁ := fun spare hquiet hexcused => by
    rw [hs₁]
    split
    · exact (serveNextRequest_served hsend h hopen (hquiet.but slot) (fun _ => hquiet)
        fun _ hcomplete => .inl (hexcused hcomplete)).1.quiet
    · exact hquiet
  split
  · have hunarmed := unarmed_armRecv env s₁ slot
    have hsends := sends_of_unarmed hunarmed
    exact ⟨⟨(hwent.toStaffed.of_unarmed hunarmed).toStaffed,
      hwent.toSteady.trans (steady_of_unarmed hunarmed),
      fun hanswerable hnone => hsends ▸ hwent.answered hanswerable hnone,
      fun hbatch hnone => (hwent.apart hbatch (hsends ▸ hnone)).trans (apart_of_unarmed hunarmed)⟩,
      fun spare hspare hexcused => (hquiet spare hspare hexcused).of_unarmed hunarmed⟩
  · exact ⟨hwent, hquiet⟩

/-! ## The completion -/

/-- The connection the send was for is still there. -/
def StillTheirs (s : UringState) (o : OutstandingSend) : Prop :=
  (s.connection o.id.slot).inUse = true ∧
    (s.connection o.id.slot).generation = (s.sendTicket o.ticket).generation

/-- With these bytes the response is out. -/
def SentInFull (s : UringState) (o : OutstandingSend) (res : Int) : Prop :=
  0 < res ∧ (s.sendTicket o.ticket).total ≤ (s.sendTicket o.ticket).sent + res.toNat

/-- The connection is kept, and whatever it holds is served next. -/
def GoesOn (s : UringState) (o : OutstandingSend) (res : Int) : Prop :=
  StillTheirs s o ∧ SentInFull s o res ∧ (s.sendTicket o.ticket).closeWhenWritten = false

/-- The completion of the last outstanding send wakes those that wait: the rest of the response is
sent, or the response is out and the next request served is answered at once, on the connection
itself or on the one that waits first, or nobody waits but the one that is now taken. -/
inductive WakesNext (env : Environment) (s : UringState) (o : OutstandingSend) (res : Int) : Prop
  | rest (theirs : StillTheirs s o) (taken : 0 < res) (short : ¬ SentInFull s o res)
  | own (goesOn : GoesOn s o res)
      (answerable : Answerable env s o.id.slot (s.connection o.id.slot).inBuf.data)
  | first (full : SentInFull s o res) (a : Slot) (first : firstWaiting env s = some a)
      (other : StillTheirs s o → a ≠ o.id.slot) (idle : (s.connection a).sendInFlight = false)
      (answerable : Answerable env s a (s.connection a).inBuf.data)
  | nobodyElse (waits : ∀ a, (s.connection a).Awaits ∨ (GoesOn s o res ∧ a = o.id.slot ∧
      (s.connection a).waitingForTicket = true ∧ Complete (s.connection a).inBuf.data) →
        SentInFull s o res ∧ firstWaiting env s = some a)

theorem Staffed.completed {s : UringState} (h : Staffed env [] s) {place : Nat}
    {o : OutstandingSend} (ho : s.sends[place]? = some o) :
    Staffed env [o.ticket] { s with sends := s.sends.eraseIdx place } ∧
      Laid env (s.sendTicket o.ticket) := by
  obtain ⟨hplace, hget⟩ := List.getElem?_eq_some_iff.mp ho
  have hperm := (List.getElem_cons_eraseIdx_perm hplace).map OutstandingSend.ticket
  rw [List.map_cons, hget] at hperm
  have hsub : s.sends.eraseIdx place ⊆ s.sends := List.eraseIdx_subset
  exact ⟨⟨⟨h.queues.exist, h.queues.inTable, h.queues.inUse⟩,
    ⟨hperm.nodup_iff.mpr h.pool.nodup, fun t => (h.pool.busy t).trans hperm.symm.mem_iff,
      fun t ht => h.pool.known t (hperm.mem_iff.mp ht), fun o' ho' => h.pool.laid o' (hsub ho')⟩, h.batch⟩,
    h.pool.laid o (List.mem_of_getElem? ho)⟩

theorem Staffed.sendEnds {held : List Nat} {s : UringState} (h : Staffed env held s)
    (slot : Slot) : Staffed env held
      (s.setConnection slot { s.connection slot with sendInFlight := false }) :=
  ⟨h.queues.setConnection rfl rfl fun hopen => h.queues.inUse slot hopen, h.pool.congr rfl rfl,
    h.batch⟩

/-- The queues are those of `s`, and so are the connections in use but for some that are gone. -/
structure SameQueues (s s' : UringState) : Prop where
  waiting : s'.waiting = s.waiting
  inUse : ∀ a, (s'.connection a).inUse = true → (s.connection a).inUse = true

theorem FirstIsServed.of_first {s s' : UringState} {a : Slot} (hsame : SameQueues s s')
    (hfirst : firstWaiting env s = some a) (hidle : (s.connection a).sendInFlight = false)
    (hanswerable : Answerable env s a (s.connection a).inBuf.data)
    (hconn : (s'.connection a).unarmed = (s.connection a).unarmed)
    (hbatch : s'.apiBatchHandler = s.apiBatchHandler) : FirstIsServed env s' := by
  have hfield : ∀ {β : Type} (field : UringConnection → β), (∀ c, field c.unarmed = field c) →
      field (s'.connection a) = field (s.connection a) := fun field hfield => by
    rw [← hfield, hconn, hfield]
  refine .inr ⟨a, firstWaiting_of_waiting hfirst hsame.waiting hsame.inUse ?_, ?_, ?_⟩
  · exact (hfield UringConnection.inUse fun _ => rfl).trans (inUse_of_firstWaiting hfirst)
  · exact (hfield UringConnection.sendInFlight fun _ => rfl).trans hidle
  · rw [hfield (fun c => c.inBuf.data) fun _ => rfl]
    exact hanswerable.congr hbatch (hfield UringConnection.batched fun _ => rfl)
      (hfield UringConnection.deferred fun _ => rfl)

theorem FirstIsServed.of_quiet {s s' : UringState} (hsame : SameQueues s s')
    (hquiet : Quiet (fun a => firstWaiting env s = some a) s') (hnone : s'.sends = []) :
    FirstIsServed env s' := .inl fun a hawaits =>
  firstWaiting_of_waiting (hquiet hnone a hawaits) hsame.waiting hsame.inUse hawaits.inUse

/-- The response is out and the ticket free; what becomes of the connection it was sent on. -/
theorem afterResponse_works (hsend : SendsFit env) {s s₂ : UringState} {o : OutstandingSend}
    {res : Int} (h₂ : Staffed env [] s₂) (hfull : SentInFull s o res)
    (hconn : s₂.connection = s.connection) (hwaiting : s₂.waiting = s.waiting)
    (hbatch : s₂.apiBatchHandler = s.apiBatchHandler)
    {theirs : Prop} [Decidable theirs] (htheirs : theirs ↔ StillTheirs s o) :
    let after :=
      if theirs then
        let s₃ := s₂.setConnection o.id.slot
          { s₂.connection o.id.slot with sendInFlight := false }
        if (s.sendTicket o.ticket).closeWhenWritten = true then closeConnection s₃ o.id.slot
        else goOnAfterSend env s₃ o.id.slot
      else s₂
    Staffed env [] after ∧ ((s₂.sends = [] → WakesNext env s o res) → after.sends = [] →
      FirstIsServed env after) := by
  simp only
  split
  · rename_i hopen
    rw [htheirs] at hopen
    set conn : UringConnection := { s₂.connection o.id.slot with sendInFlight := false }
      with hconn₃
    set s₃ := s₂.setConnection o.id.slot conn with hs₃
    have h₃ : Staffed env [] s₃ := h₂.sendEnds o.id.slot
    have hown : s₃.connection o.id.slot = conn := Function.update_self ..
    have hothers : ∀ a, a ≠ o.id.slot → s₃.connection a = s.connection a := fun a ha => by
      rw [hs₃, UringState.setConnection_connection, Function.update_of_ne ha, hconn]
    have hopen₃ : (s₃.connection o.id.slot).inUse = true := by
      rw [hown, hconn₃, hconn]
      exact hopen.1
    have hnext : conn.nextWaiting = (s₂.connection o.id.slot).nextWaiting := rfl
    have hflag : conn.waitingForTicket = (s₂.connection o.id.slot).waitingForTicket := rfl
    have hsame₃ : SameQueues s s₃ := by
      refine ⟨(waiting_setConnection hnext hflag).trans hwaiting, fun a ha => ?_⟩
      by_cases haslot : a = o.id.slot
      · rw [haslot]
        exact hopen.1
      · rwa [hothers a haslot] at ha
    have hsame : ∀ t, Steady s₃ t → t.sends = [] → SameQueues s t := fun t hsteady hnone =>
      ⟨(hsteady.waiting hnone).trans hsame₃.waiting,
        fun a ha => hsame₃.inUse a (hsteady.inUse a ha)⟩
    -- those that wait for a ticket while the connection goes on
    have hothersQuiet : (∀ a, (s.connection a).Awaits → firstWaiting env s = some a) →
        QuietBut o.id.slot (fun a => firstWaiting env s = some a) s₃ := fun hfirst _ a hawaits => by
      by_cases haslot : a = o.id.slot
      · exact .inl haslot
      · rw [hothers a haslot] at hawaits
        exact .inr (hfirst a hawaits)
    split
    · rename_i hclose
      have hworks := closeConnection_works h₃ o.id.slot
      refine ⟨hworks.toStaffed, fun hwakes hnone => ?_⟩
      have hsame := hsame _ hworks.toSteady hnone
      have hnone₂ : s₂.sends = [] := hworks.sends hnone
      cases hwakes hnone₂ with
      | rest _ _ short => exact absurd hfull short
      | own goesOn _ => exact absurd (goesOn.2.2.symm.trans hclose) Bool.false_ne_true
      | first _ a first other idle answerable =>
        have ha := other hopen
        have hapart := apart_closeConnection s₃ o.id.slot
        refine .of_first hsame first idle answerable ?_ (hapart.apiBatchHandler.trans hbatch)
        rw [hapart.others a ha, hothers a ha]
      | nobodyElse waits =>
        refine .of_quiet hsame (hothersQuiet fun a hawaits => ?_).closeConnection hnone
        exact (waits a (.inl hawaits)).2
    · rename_i hkeep
      have hgoesOn : GoesOn s o res := ⟨hopen, hfull, by simpa using hkeep⟩
      obtain ⟨hwent, hspare⟩ := goOnAfterSend_wentOn hsend h₃ hopen₃
      refine ⟨hwent.toStaffed, fun hwakes hnone => ?_⟩
      have hsame := hsame _ hwent.toSteady hnone
      have hnone₂ : s₂.sends = [] := hwent.sends hnone
      have hdata : (s₃.connection o.id.slot).inBuf = (s.connection o.id.slot).inBuf := by
        rw [hown, hconn₃, hconn]
      cases hwakes hnone₂ with
      | rest _ _ short => exact absurd hfull short
      | own _ answerable =>
        refine absurd hnone (hwent.answered ?_ hnone₂)
        rw [hdata]
        refine answerable.congr hbatch ?_ ?_
        · rw [hown, hconn₃, hconn]
        · rw [hown, hconn₃, hconn]
      | first _ a first other idle answerable =>
        have ha := other hopen
        have hapart := hwent.apart (hbatch.trans answerable.unbatched) hnone
        refine .of_first hsame first idle answerable ?_ (hapart.apiBatchHandler.trans hbatch)
        rw [hapart.others a ha, hothers a ha]
      | nobodyElse waits =>
        have hflagged : (s₃.connection o.id.slot).waitingForTicket = true →
            Complete (s₃.connection o.id.slot).inBuf.data →
            firstWaiting env s = some o.id.slot := fun hflag hcomplete => by
          refine (waits _ (.inr ⟨hgoesOn, rfl, ?_, hdata ▸ hcomplete⟩)).2
          rwa [hown, hconn₃, hconn] at hflag
        have hquiet : Quiet (fun a => firstWaiting env s = some a) s₃ :=
          (hothersQuiet fun a hawaits => (waits a (.inl hawaits)).2).quiet fun _ hawaits =>
            hflagged hawaits.waitingForTicket hawaits.complete
        refine .of_quiet hsame (hspare _ hquiet fun hcomplete => ?_) hnone
        by_cases hflag : (s₃.connection o.id.slot).waitingForTicket = true
        · exact .inl (hflagged hflag hcomplete)
        · exact .inr fun hcon => absurd hcon hflag
  · rename_i hgone
    rw [htheirs] at hgone
    refine ⟨h₂, fun hwakes hnone => ?_⟩
    have hsame : SameQueues s s₂ := ⟨hwaiting, fun a ha => by rwa [hconn] at ha⟩
    cases hwakes hnone with
    | rest theirs _ _ => exact absurd theirs hgone
    | own goesOn _ => exact absurd goesOn.1 hgone
    | first _ a first _ idle answerable =>
      exact .of_first hsame first idle answerable (by rw [hconn]) hbatch
    | nobodyElse waits =>
      refine .of_quiet hsame (fun _ a hawaits => ?_) hnone
      rw [hconn] at hawaits
      exact (waits a (.inl hawaits)).2

theorem handleSendCompletion_works (hsend : SendsFit env) {s : UringState}
    (h : Staffed env [] s) {place : Nat} {o : OutstandingSend} (ho : s.sends[place]? = some o)
    (res : Int) :
    let after := handleSendCompletion env { s with sends := s.sends.eraseIdx place } o res
    Staffed env [] after ∧
      ((s.sends.eraseIdx place = [] → WakesNext env s o res) → Quiet nobody after) := by
  obtain ⟨hdone, hlaid⟩ := h.completed ho
  simp only
  set s₁ : UringState := { s with sends := s.sends.eraseIdx place }
  set theirs : Prop := (s₁.connection o.id.slot).inUse = true ∧
    (s₁.connection o.id.slot).generation = (s₁.sendTicket o.ticket).generation with htheirs
  have hnobody : ∀ t : UringState, (¬ StillTheirs s o ∨ ¬ 0 < res) → ¬ SentInFull s o res →
      (s.sends.eraseIdx place = [] → WakesNext env s o res) → t.sends = s₁.sends →
      (∀ a, (t.connection a).Awaits → (s.connection a).Awaits) → Quiet nobody t := by
    intro t hlost hshort hwakes hsends hawaits hnone a ha
    cases hwakes (hsends.symm.trans hnone) with
    | rest theirs taken _ => exact hlost.elim (fun hcon => hcon theirs) fun hcon => hcon taken
    | own goesOn _ => exact absurd goesOn.2.1 hshort
    | first full => exact absurd full hshort
    | nobodyElse waits => exact absurd (waits a (.inl (hawaits a ha))).1 hshort
  simp only [handleSendCompletion, ← htheirs]
  split
  · -- the send failed
    rename_i hfailed
    have hshort : ¬ SentInFull s o res := fun hcon => absurd hcon.1 (by omega)
    have hreleased : Works env [] s₁ (releaseSendTicket s₁ o.ticket) := hdone.release
    split
    · have hended := hreleased.toStaffed.sendEnds o.id.slot
      have hworks := closeConnection_works hended o.id.slot
      refine ⟨hworks.toStaffed, fun hwakes => ?_⟩
      refine hnobody _ (.inr (by omega)) hshort hwakes (closeConnection_sends ..) fun a ha => ?_
      obtain ⟨hne, hawaits⟩ := closeConnection_connection _ _ _ ha
      rwa [UringState.setConnection_connection, Function.update_of_ne hne] at hawaits
    · exact ⟨hreleased.toStaffed, fun hwakes => hnobody _ (.inr (by omega)) hshort hwakes rfl
        fun _ => id⟩
  rename_i hpositive
  set sent := (s₁.sendTicket o.ticket).sent + res.toNat with hsent
  set send : UringSendTicket := { s₁.sendTicket o.ticket with sent := sent }
  have hset : Works env [o.ticket] s₁ (s₁.setTicket o.ticket send) := hdone.setTicket rfl
  have hreleased : Works env [] s₁ (releaseSendTicket (s₁.setTicket o.ticket send) o.ticket) :=
    hset.trans hset.release
  split
  · -- the socket took a part of it
    rename_i hpart
    have hshort : ¬ SentInFull s o res := fun hcon => absurd hcon.2 (Nat.not_le.mpr hpart)
    split
    · have hrest : Laid env ((s₁.setTicket o.ticket send).sendTicket o.ticket) := by
        rw [UringState.setTicket_sendTicket, Function.update_self]
        exact ⟨hlaid.total, hpart, hlaid.fits⟩
      obtain ⟨hworks, hsubmitted⟩ := submitSend_works hsend hset.toStaffed hrest o.id.slot none
      exact ⟨hworks.toStaffed, fun _ => quiet_of_sends hsubmitted⟩
    · rename_i hgone
      exact ⟨hreleased.toStaffed, fun hwakes => hnobody _ (.inl hgone) hshort hwakes rfl
        fun _ => id⟩
  · rename_i hwhole
    have hfull : SentInFull s o res := ⟨by omega, Nat.not_lt.mp hwhole⟩
    obtain ⟨hstaffed, hfirst⟩ := afterResponse_works hsend hreleased.toStaffed hfull rfl rfl rfl
      (Iff.rfl : theirs ↔ StillTheirs s o)
    obtain ⟨hafter, hquiet⟩ := serveOneWaiting_awake hsend hstaffed
    exact ⟨hafter, fun hwakes => hquiet (hfirst hwakes)⟩

end AmmarServer.Uring
