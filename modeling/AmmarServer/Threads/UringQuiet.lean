import AmmarServer.Threads.UringTickets

/-! While no send is outstanding nobody waits for a ticket: what serving does to the tickets, and to
who waits. -/

namespace AmmarServer.Uring
open ApiProtocol Pipeline

variable {env : Environment}

/-! ## Who waits -/

/-- `buf` begins with a complete request. -/
def Complete (buf : List UInt8) : Prop := (nextFrame buf 0).1 = .ready

/-- In a queue, in use, with a complete request and with no send in flight. -/
structure UringConnection.Awaits (conn : UringConnection) : Prop where
  waitingForTicket : conn.waitingForTicket = true
  inUse : conn.inUse = true
  sendInFlight : conn.sendInFlight = false
  complete : Complete conn.inBuf.data

/-- The connection is in no queue, or sends already, or is gone: no request set aside on it waits for
a ticket. -/
def Excused (conn : UringConnection) : Prop :=
  conn.waitingForTicket = true → conn.inUse = true → conn.sendInFlight = true

theorem Excused.not_awaits {conn : UringConnection} (h : Excused conn) : ¬ conn.Awaits :=
  fun hawaits => Bool.false_ne_true
    (hawaits.sendInFlight.symm.trans (h hawaits.waitingForTicket hawaits.inUse))

/-- While no send is outstanding nobody waits, those in `spare` apart. -/
def Quiet (spare : Slot → Prop) (s : UringState) : Prop :=
  s.sends = [] → ∀ a, (s.connection a).Awaits → spare a

/-- The same, the connection in `slot` apart. -/
abbrev QuietBut (slot : Slot) (spare : Slot → Prop) (s : UringState) : Prop :=
  Quiet (fun a => a = slot ∨ spare a) s

variable {spare : Slot → Prop}

theorem not_complete_nil : ¬ Complete [] := by
  unfold Complete
  decide

theorem Quiet.but {s : UringState} (h : Quiet spare s) (slot : Slot) : QuietBut slot spare s :=
  fun hnone a hawaits => .inr (h hnone a hawaits)

theorem quiet_of_sends {s : UringState} (h : s.sends ≠ []) : Quiet spare s :=
  fun hnone => absurd hnone h

theorem Quiet.quiet {s : UringState} {slot : Slot} (h : QuietBut slot spare s)
    (hslot : s.sends = [] → (s.connection slot).Awaits → spare slot) : Quiet spare s :=
  fun hnone a hawaits => (h hnone a hawaits).elim (fun ha => ha ▸ hslot hnone (ha ▸ hawaits)) id

theorem quietBut_setConnection {s : UringState} {slot : Slot} (h : QuietBut slot spare s)
    (conn : UringConnection) : QuietBut slot spare (s.setConnection slot conn) :=
  fun hnone a hawaits => by
    by_cases ha : a = slot
    · exact .inl ha
    · rw [UringState.setConnection_connection, Function.update_of_ne ha] at hawaits
      exact h hnone a hawaits

theorem Quiet.setConnection {s : UringState} (h : Quiet spare s) {slot : Slot}
    {conn : UringConnection} (hconn : conn.Awaits → (s.connection slot).Awaits) :
    Quiet spare (s.setConnection slot conn) := by
  refine (quietBut_setConnection (h.but slot) conn).quiet fun hnone hawaits => ?_
  rw [UringState.setConnection_connection, Function.update_self] at hawaits
  exact h hnone slot (hconn hawaits)

theorem awaits_of_unarmed {s s' : UringState} (h : s'.unarmed = s.unarmed) (a : Slot) :
    (s'.connection a).Awaits ↔ (s.connection a).Awaits := by
  have hconn : (s'.connection a).unarmed = (s.connection a).unarmed :=
    congrFun (congrArg UringState.connection h) a
  have hawaits : ∀ conn : UringConnection, conn.Awaits ↔ conn.unarmed.Awaits := fun conn =>
    ⟨fun h => ⟨h.1, h.2, h.3, h.4⟩, fun h => ⟨h.1, h.2, h.3, h.4⟩⟩
  rw [hawaits, hconn, ← hawaits]

theorem sends_of_unarmed {s s' : UringState} (h : s'.unarmed = s.unarmed) : s'.sends = s.sends :=
  (congrArg UringState.sends h : s'.unarmed.sends = s.unarmed.sends)

theorem Quiet.of_unarmed {s s' : UringState} (h : Quiet spare s)
    (hunarmed : s'.unarmed = s.unarmed) : Quiet spare s' := fun hnone a hawaits =>
  h ((sends_of_unarmed hunarmed).symm.trans hnone) a ((awaits_of_unarmed hunarmed a).mp hawaits)

/-! ## Operations on one connection -/

/-- Queues, tickets and batch are as they should be, `held` apart. -/
structure Staffed (env : Environment) (held : List Nat) (s : UringState) : Prop where
  queues : Queues env s
  pool : Pool env held s
  batch : s.batchPending.length ≤ AMMSERVER_API_MAX_BATCH

/-- What the queues are made of. -/
def UringState.waiting (s : UringState) :
    (Nat → Option Nat × Option Nat) × (Slot → Option Nat × Bool) × Nat :=
  (fun r => ((s.ring r).waitingHead, (s.ring r).waitingTail),
    fun a => ((s.connection a).nextWaiting, (s.connection a).waitingForTicket), s.ticketCursor)

/-- No send is taken back, and as long as there is none the queues stay as they are and so does
whoever is excused. -/
structure Steady (s s' : UringState) : Prop where
  sends : s'.sends = [] → s.sends = []
  waiting : s'.sends = [] → s'.waiting = s.waiting
  inUse : ∀ a, (s'.connection a).inUse = true → (s.connection a).inUse = true
  excused : s'.sends = [] → ∀ a, Excused (s.connection a) → Excused (s'.connection a)

theorem Steady.refl (s : UringState) : Steady s s :=
  ⟨id, fun _ => rfl, fun _ => id, fun _ _ => id⟩

theorem Steady.trans {s s₁ s₂ : UringState} (h : Steady s s₁) (h₁ : Steady s₁ s₂) : Steady s s₂ where
  sends hnone := h.sends (h₁.sends hnone)
  waiting hnone := (h₁.waiting hnone).trans (h.waiting (h₁.sends hnone))
  inUse a ha := h.inUse a (h₁.inUse a ha)
  excused hnone a ha := h₁.excused hnone a (h.excused (h₁.sends hnone) a ha)

theorem steady_of_sends {s s' : UringState} (hsends : s'.sends ≠ [])
    (hinUse : ∀ a, (s'.connection a).inUse = true → (s.connection a).inUse = true) : Steady s s' :=
  ⟨fun hnone => absurd hnone hsends, fun hnone => absurd hnone hsends, hinUse,
    fun hnone => absurd hnone hsends⟩

theorem steady_of_unarmed {s s' : UringState} (h : s'.unarmed = s.unarmed) : Steady s s' := by
  have hconn : ∀ a, (s'.connection a).unarmed = (s.connection a).unarmed := fun a =>
    congrFun (congrArg UringState.connection h) a
  refine ⟨fun hnone => sends_of_unarmed h ▸ hnone, fun _ => ?_, fun a ha => ?_, fun _ a ha => ?_⟩
  · exact (congrArg UringState.waiting h : s'.unarmed.waiting = s.unarmed.waiting)
  · change (s.connection a).unarmed.inUse = true
    rw [← hconn]
    exact ha
  · change Excused (s'.connection a).unarmed
    rw [hconn]
    exact ha

theorem waiting_setConnection {s : UringState} {slot : Slot} {conn : UringConnection}
    (hnext : conn.nextWaiting = (s.connection slot).nextWaiting)
    (hflag : conn.waitingForTicket = (s.connection slot).waitingForTicket) :
    (s.setConnection slot conn).waiting = s.waiting := by
  have hlinks : (fun a => (((s.setConnection slot conn).connection a).nextWaiting,
      ((s.setConnection slot conn).connection a).waitingForTicket)) =
      fun a => ((s.connection a).nextWaiting, (s.connection a).waitingForTicket) :=
    map_setConnection (fun c => (c.nextWaiting, c.waitingForTicket)) (Prod.ext hnext hflag)
  rw [UringState.waiting, hlinks]
  rfl

theorem steady_setConnection {s : UringState} {slot : Slot} {conn : UringConnection}
    (hnext : conn.nextWaiting = (s.connection slot).nextWaiting)
    (hflag : conn.waitingForTicket = (s.connection slot).waitingForTicket)
    (hinUse : conn.inUse = true → (s.connection slot).inUse = true)
    (hexcused : Excused (s.connection slot) → Excused conn) :
    Steady s (s.setConnection slot conn) := by
  refine ⟨id, fun _ => waiting_setConnection hnext hflag, fun a ha => ?_, fun _ a ha => ?_⟩
  all_goals
    rw [UringState.setConnection_connection] at *
    by_cases haslot : a = slot
  · rw [haslot, Function.update_self] at ha
    exact haslot ▸ hinUse ha
  · rwa [Function.update_of_ne haslot] at ha
  · rw [haslot, Function.update_self]
    exact hexcused (haslot ▸ ha)
  · rwa [Function.update_of_ne haslot]

/-- What an operation makes of it. -/
structure Works (env : Environment) (held : List Nat) (s s' : UringState) : Prop
    extends Staffed env held s', Steady s s' where
  batchPending : s'.batchPending = s.batchPending

theorem Works.trans {held₁ held₂ : List Nat} {s s₁ s₂ : UringState} (h : Works env held₁ s s₁)
    (h₁ : Works env held₂ s₁ s₂) : Works env held₂ s s₂ :=
  ⟨h₁.toStaffed, h.toSteady.trans h₁.toSteady, h₁.batchPending.trans h.batchPending⟩

theorem Staffed.refl {held : List Nat} {s : UringState} (h : Staffed env held s) :
    Works env held s s := ⟨h, .refl s, rfl⟩

theorem Staffed.of_unarmed {held : List Nat} {s s' : UringState} (h : Staffed env held s)
    (hunarmed : s'.unarmed = s.unarmed) : Works env held s s' := by
  have hticket := sendTicket_of_serving_eq (serving_of_unarmed hunarmed)
  have hbatch : s'.batchPending = s.batchPending :=
    (congrArg UringState.batchPending hunarmed :
      s'.unarmed.batchPending = s.unarmed.batchPending)
  exact ⟨⟨h.queues.of_unarmed_eq hunarmed,
    h.pool.congr (sends_of_unarmed hunarmed) hticket, hbatch ▸ h.batch⟩,
    steady_of_unarmed hunarmed, hbatch⟩

theorem Staffed.setConnection {held : List Nat} {s : UringState} (h : Staffed env held s)
    {slot : Slot} {conn : UringConnection}
    (hnext : conn.nextWaiting = (s.connection slot).nextWaiting)
    (hflag : conn.waitingForTicket = (s.connection slot).waitingForTicket)
    (hinUse : conn.inUse = true → (s.connection slot).inUse = true)
    (hexcused : Excused (s.connection slot) → Excused conn) :
    Works env held s (s.setConnection slot conn) :=
  ⟨⟨h.queues.setConnection hnext hflag fun hcon => h.queues.inUse slot (hinUse hcon), h.pool.congr rfl rfl, h.batch⟩,
    steady_setConnection hnext hflag hinUse hexcused, rfl⟩

theorem Staffed.same {held held' : List Nat} {s s' : UringState} (h : Staffed env held s)
    (hpool : Pool env held' s') (hring : s'.ring = s.ring) (hconn : s'.connection = s.connection)
    (hcursor : s'.ticketCursor = s.ticketCursor) (hsends : s'.sends = s.sends)
    (hbatch : s'.batchPending = s.batchPending) : Works env held' s s' := by
  refine ⟨⟨h.queues.congr (fun r => by rw [hring]; exact ⟨rfl, rfl⟩)
    fun a => by rw [hconn]; exact ⟨rfl, rfl, h.queues.inUse a⟩, hpool, hbatch ▸ h.batch⟩,
    ⟨fun hnone => hsends ▸ hnone, fun _ => ?_, fun a => by rw [hconn]; exact id,
      fun _ a => by rw [hconn]; exact id⟩, hbatch⟩
  rw [UringState.waiting, UringState.waiting, hring, hconn, hcursor]

theorem Staffed.setHistory {held : List Nat} {s : UringState} (h : Staffed env held s)
    (slot : Slot) (history : History) : Works env held s (s.setHistory slot history) :=
  h.same (h.pool.congr rfl rfl) rfl rfl rfl rfl rfl

theorem Staffed.acquire {held : List Nat} {s s' : UringState} {ticket : Nat}
    (h : Staffed env held s) (hacquire : acquireSendTicket s = some (ticket, s')) :
    Works env (ticket :: held) s s' := by
  have hpool := h.pool.acquire hacquire
  obtain ⟨-, -, rfl⟩ := acquireSendTicket_eq_some hacquire
  exact h.same hpool rfl rfl rfl rfl rfl

theorem Staffed.release {held : List Nat} {s : UringState} {ticket : Nat}
    (h : Staffed env (ticket :: held) s) : Works env held s (releaseSendTicket s ticket) :=
  h.same h.pool.release rfl rfl rfl rfl rfl

theorem Staffed.setTicket {held : List Nat} {s : UringState} {ticket : Nat}
    (h : Staffed env (ticket :: held) s) {send : UringSendTicket}
    (hbusy : send.busy = (s.sendTicket ticket).busy) :
    Works env (ticket :: held) s (s.setTicket ticket send) :=
  h.same (h.pool.setTicket hbusy) rfl rfl rfl rfl rfl

/-- Every send finds a queue entry. -/
def SendsFit (env : Environment) : Prop := ∀ answer n, env.getSqe (sendOp answer) n = true

theorem submitSend_works (hsend : SendsFit env) {held : List Nat} {s : UringState}
    {ticket : Nat} (h : Staffed env (ticket :: held) s) (hlaid : Laid env (s.sendTicket ticket))
    (slot : Slot) (answer : Option Answer) :
    Works env held s (submitSend env s slot ticket answer) ∧
      (submitSend env s slot ticket answer).sends ≠ [] := by
  simp only [submitSend, hsend answer, if_true]
  have hasked : Works env (ticket :: held) s s.asked := h.of_unarmed rfl
  have hnoted : Works env (ticket :: held) s (s.asked.noteAnswer slot answer) :=
    hasked.trans (hasked.setHistory ..)
  have hflying : Works env (ticket :: held) s ((s.asked.noteAnswer slot answer).setConnection slot
      { s.connection slot with sendInFlight := true }) :=
    hnoted.trans (hnoted.setConnection rfl rfl id fun _ _ _ => rfl)
  have hpushed : (((s.asked.noteAnswer slot answer).setConnection slot
      { s.connection slot with sendInFlight := true }).pushSend slot ticket).sends ≠ [] :=
    List.append_ne_nil_of_right_ne_nil _ (List.cons_ne_nil _ _)
  exact ⟨⟨⟨⟨hflying.queues.exist, hflying.queues.inTable, hflying.queues.inUse⟩,
    hflying.pool.push slot hlaid, hflying.batch⟩, steady_of_sends hpushed hflying.inUse,
    hflying.batchPending⟩, hpushed⟩

theorem closeConnection_works {held : List Nat} {s : UringState} (h : Staffed env held s)
    (slot : Slot) : Works env held s (closeConnection s slot) := by
  simp only [closeConnection]
  split
  · exact h.refl
  set closed : UringConnection := { s.connection slot with
    inUse := false, recvArmed := false, inBuf := partialFree (s.connection slot).inBuf }
  have hclosed : Works env held s (s.setConnection slot closed) :=
    h.setConnection rfl rfl (fun hcon => absurd hcon Bool.false_ne_true)
      fun _ _ hcon => absurd hcon Bool.false_ne_true
  have hring : Works env held s ((s.setConnection slot closed).setRing slot.1
      { s.ring slot.1 with connectionsOpen := (s.ring slot.1).connectionsOpen - 1 }) :=
    hclosed.trans (hclosed.of_unarmed (unarmed_setRing rfl rfl))
  split <;> exact hring.trans (hring.of_unarmed rfl)

theorem closeConnection_connection (s : UringState) (slot a : Slot) :
    ((closeConnection s slot).connection a).Awaits → a ≠ slot ∧ (s.connection a).Awaits := by
  simp only [closeConnection]
  split
  · rename_i hgone
    intro hawaits
    refine ⟨?_, hawaits⟩
    rintro rfl
    exact hgone hawaits.inUse
  have hclosed : ∀ t : UringState, t.connection = (s.setConnection slot { s.connection slot with
      inUse := false, recvArmed := false
      inBuf := partialFree (s.connection slot).inBuf }).connection →
      (t.connection a).Awaits → a ≠ slot ∧ (s.connection a).Awaits := by
    intro t ht hawaits
    rw [ht, UringState.setConnection_connection] at hawaits
    by_cases ha : a = slot
    · rw [ha, Function.update_self] at hawaits
      exact absurd hawaits.inUse Bool.false_ne_true
    · rw [Function.update_of_ne ha] at hawaits
      exact ⟨ha, hawaits⟩
  split
  · exact hclosed _ rfl
  · exact hclosed _ rfl

theorem closeConnection_sends (s : UringState) (slot : Slot) :
    (closeConnection s slot).sends = s.sends := by
  simp only [closeConnection]
  split_ifs <;> rfl

theorem Quiet.closeConnection {s : UringState} {slot : Slot} (h : QuietBut slot spare s) :
    Quiet spare (closeConnection s slot) := fun hnone a hawaits => by
  obtain ⟨ha, hbefore⟩ := closeConnection_connection s slot a hawaits
  exact (h (closeConnection_sends s slot ▸ hnone) a hbefore).resolve_left ha

theorem sendResponse_works (hsend : SendsFit env) {held : List Nat} {s : UringState} {ticket : Nat}
    (h : Staffed env (ticket :: held) s) (slot : Slot) {response : List UInt8}
    (hresponse : 0 < response.length ∧
      response.length ≤ API_RESPONSE_HEADER_RESERVE + env.responseBodySize) (closing : Bool)
    (answer : Answer) :
    Works env held s (sendResponse env s slot ticket response closing answer) ∧
      (sendResponse env s slot ticket response closing answer).sends ≠ [] := by
  set send : UringSendTicket := { s.sendTicket ticket with
    data := response, total := response.length, sent := 0, slot := some slot.2
    generation := (s.connection slot).generation, closeWhenWritten := closing }
  have hset : Works env (ticket :: held) s (s.setTicket ticket send) := h.setTicket rfl
  have hlaid : Laid env ((s.setTicket ticket send).sendTicket ticket) := by
    rw [UringState.setTicket_sendTicket, Function.update_self]
    exact ⟨rfl, hresponse.1, hresponse.2⟩
  obtain ⟨hworks, hsent⟩ := submitSend_works hsend hset.toStaffed hlaid slot (some answer)
  exact ⟨hset.trans hworks, hsent⟩

theorem statusOnlyResponse_fits {statusCode : Nat} (h : statusCode ∈ ownStatuses) :
    0 < (statusOnlyResponse statusCode).length ∧ (statusOnlyResponse statusCode).length ≤
      API_RESPONSE_HEADER_RESERVE + env.responseBodySize :=
  have hlength := statusOnlyResponse_length h
  ⟨hlength.1, hlength.2.trans (Nat.le_add_right _ _)⟩

theorem sendStatusAndClose_works (hsend : SendsFit env) {held : List Nat} {s : UringState}
    (h : Staffed env held s) (slot : Slot) {statusCode : Nat} (hstatus : statusCode ∈ ownStatuses)
    (offset : Nat) :
    Works env held s (sendStatusAndClose env s slot statusCode offset) ∧
      (held.length < URING_SEND_TICKETS →
        (sendStatusAndClose env s slot statusCode offset).sends ≠ []) := by
  unfold sendStatusAndClose
  split
  · rename_i hnone
    refine ⟨closeConnection_works h slot, fun hroom => ?_⟩
    rw [closeConnection_sends]
    intro hsends
    obtain ⟨ticket, s', hacquire⟩ := h.pool.acquire_isSome (by simpa [hsends] using hroom)
    rw [hnone] at hacquire
    cases hacquire
  · rename_i ticket s₁ hacquire
    have hacquired := h.acquire hacquire
    obtain ⟨hworks, hsent⟩ := sendResponse_works hsend hacquired.toStaffed slot
      (statusOnlyResponse_fits hstatus) true ⟨offset, true⟩
    exact ⟨hacquired.trans hworks, fun _ => hsent⟩

theorem freeIn_works {held : List Nat} {s : UringState} (h : Staffed env held s) (slot : Slot) :
    Works env held s (freeIn s slot) := h.setConnection rfl rfl id id

theorem keepTail_works {held : List Nat} {s s' : UringState} {slot : Slot} {buf : List UInt8}
    {consumed : Nat} (hkeep : keepTail env s slot buf consumed = some s')
    (h : Staffed env held s) :
    Works env held s s' := by
  obtain ⟨kept, -, rfl⟩ := Option.map_eq_some_iff.mp hkeep
  have hasked : Works env held s s.asked := h.of_unarmed rfl
  exact hasked.trans (hasked.setConnection rfl rfl id id)

theorem keepTail_quietBut {s s' : UringState} {slot : Slot} {buf : List UInt8} {consumed : Nat}
    (hkeep : keepTail env s slot buf consumed = some s') (h : QuietBut slot spare s) :
    QuietBut slot spare s' := by
  obtain ⟨kept, -, rfl⟩ := Option.map_eq_some_iff.mp hkeep
  have hasked : QuietBut slot spare s.asked := h
  exact quietBut_setConnection hasked _

/-! ## Answering one request -/

theorem deferRequest_works (hsend : SendsFit env) {held : List Nat} {s : UringState} {ticket : Nat}
    (h : Staffed env (ticket :: held) s) (hroom : held.length < URING_SEND_TICKETS) (slot : Slot)
    (buf : List UInt8) (frame : ApiFrame) (method : TypesOfRequests) :
    Works env held s (deferRequest env s slot ticket buf frame method) ∧
      (QuietBut slot spare s → (s.sends = [] → spare slot ∨ Excused (s.connection slot)) →
        Quiet spare (deferRequest env s slot ticket buf frame method)) := by
  simp only [deferRequest]
  set s₁ := releaseSendTicket s ticket
  have h₁ : Works env held s s₁ := h.release
  set s₂ := s₁.setHistory slot
    { s₁.historyOf slot with deferredAt := s.offsetOf slot buf.length }
  have h₂ : Works env held s s₂ := h₁.trans (h₁.setHistory ..)
  set s₃ := s₂.setConnection slot { s₂.connection slot with
    deferred := true, deferredKeepAlive := frame.keepAlive, deferredMethod := method } with hs₃
  have h₃ : Works env held s s₃ := h₂.trans (h₂.setConnection rfl rfl id id)
  cases hkeep : keepTail env s₃ slot buf frame.totalLength with
  | some s₄ =>
    have h₄ := h₃.trans (keepTail_works hkeep h₃.toStaffed)
    refine ⟨h₄, fun hbut hexcused => ?_⟩
    have hbut₂ : QuietBut slot spare s₂ := hbut
    refine (keepTail_quietBut hkeep (quietBut_setConnection hbut₂ _)).quiet fun hnone hawaits => ?_
    obtain ⟨-, kept, hconn, -⟩ := keepTail_some env hkeep
    refine (hexcused (h₄.sends hnone)).resolve_right fun hexcused => ?_
    have hexcused₄ : Excused (s₄.connection slot) := by
      rw [hconn, hs₃, UringState.setConnection_connection, Function.update_self]
      exact hexcused
    exact hexcused₄.not_awaits hawaits
  | none =>
    have hreset : Works env held s (s₃.asked.setConnection slot
        { s₃.connection slot with deferred := false }) := by
      have hasked : Works env held s s₃.asked := h₃.trans (h₃.of_unarmed rfl)
      exact hasked.trans (hasked.setConnection rfl rfl id id)
    obtain ⟨hworks, hsent⟩ := sendStatusAndClose_works hsend hreset.toStaffed slot
      (by decide : 413 ∈ ownStatuses)
      (s.offsetOf slot buf.length)
    exact ⟨hreset.trans hworks, fun _ _ => quiet_of_sends (hsent hroom)⟩

theorem answerRequest_works (hsend : SendsFit env) {held : List Nat} {s : UringState} {ticket : Nat}
    (h : Staffed env (ticket :: held) s) (hroom : held.length < URING_SEND_TICKETS) (slot : Slot)
    (buf : List UInt8) (frame : ApiFrame) (method : TypesOfRequests) (res : APIResponse) :
    Works env held s (answerRequest env s slot ticket buf frame method res) ∧
      (QuietBut slot spare s → (s.sends = [] → spare slot ∨ Excused (s.connection slot)) →
        Quiet spare (answerRequest env s slot ticket buf frame method res)) ∧
      (res.deferred = false →
        (answerRequest env s slot ticket buf frame method res).sends ≠ []) := by
  simp only [answerRequest]
  split
  · rename_i hdeferred
    obtain ⟨hworks, hquiet⟩ := deferRequest_works hsend h hroom slot buf frame method
    exact ⟨hworks, hquiet, fun hcon => absurd (hcon.symm.trans hdeferred) Bool.false_ne_true⟩
  suffices hanswered : ∀ s', Works env held s s' ∧ s'.sends ≠ [] →
      Works env held s s' ∧ (QuietBut slot spare s → (s.sends = [] → spare slot ∨ Excused (s.connection slot)) →
        Quiet spare s') ∧ (res.deferred = false → s'.sends ≠ []) by
    refine hanswered _ ?_
    have hreleased : Works env held s (releaseSendTicket s ticket) := h.release
    cases hfinish : finish frame.keepAlive env.responseBodySize method res with
    | none =>
      have hfreed := hreleased.trans (freeIn_works hreleased.toStaffed slot)
      obtain ⟨hworks, hsent⟩ := sendStatusAndClose_works hsend hfreed.toStaffed slot
        (by decide : 500 ∈ ownStatuses)
        (s.offsetOf slot buf.length)
      exact ⟨hfreed.trans hworks, hsent hroom⟩
    | some response =>
      cases hkeep : keepTail env s slot buf frame.totalLength with
      | none =>
        have hasked : Works env held s (releaseSendTicket s.asked ticket) :=
          hreleased.trans (hreleased.of_unarmed rfl)
        obtain ⟨hworks, hsent⟩ := sendStatusAndClose_works hsend hasked.toStaffed slot
          (by decide : 413 ∈ ownStatuses)
          (s.offsetOf slot buf.length)
        exact ⟨hasked.trans hworks, hsent hroom⟩
      | some s₁ =>
        have hkept := keepTail_works hkeep h
        obtain ⟨hworks, hsent⟩ := sendResponse_works hsend hkept.toStaffed slot
          (finish_length hfinish) (!frame.keepAlive) ⟨s.offsetOf slot buf.length, false⟩
        exact ⟨hkept.trans hworks, hsent⟩
  exact fun s' hs' => ⟨hs'.1, fun _ _ => quiet_of_sends hs'.2, fun _ => hs'.2⟩

/-! ## The batch -/

def heldBy (serving : List UringBatchServing) : List Nat := serving.map UringBatchServing.ticket

/-- The invariant of the first loop of `FlushBatch`, with `rest` still to come: the batch is no
larger than the pool, so a ticket is missing only while sends are outstanding. -/
structure Gathering (env : Environment) (spare : Slot → Prop) (s₀ : UringState)
    (rest : List UringBatchEntry)
    (acc : UringState × List UringBatchServing) : Prop where
  works : Works env (heldBy acc.2) s₀ acc.1
  room : acc.2.length + rest.length ≤ URING_SEND_TICKETS
  quiet : Quiet spare acc.1
  excused : acc.1.sends = [] → ∀ x ∈ acc.2,
    spare x.slot ∨ Excused (acc.1.connection x.slot)

theorem Gathering.of_works {rest rest' : List UringBatchEntry} {s₀ s s' : UringState}
    {serving : List UringBatchServing} (h : Gathering env spare s₀ rest (s, serving))
    (hworks : Works env (heldBy serving) s s') (hrest : rest'.length ≤ rest.length)
    (hquiet : Quiet spare s') : Gathering env spare s₀ rest' (s', serving) :=
  ⟨h.works.trans hworks, (Nat.add_le_add_left hrest _).trans h.room, hquiet, fun hnone x hx =>
    (h.excused (hworks.sends hnone) x hx).imp id (hworks.excused hnone _)⟩

theorem queueForTicket_works {held : List Nat} {s : UringState} (h : Staffed env held s)
    {slot : Slot} (hopen : (s.connection slot).inUse = true) (hsends : s.sends ≠ []) :
    Works env held s (queueForTicket s slot) := by
  have hserving := serving_queueForTicket s slot
  have hsame : (queueForTicket s slot).sends = s.sends :=
    (congrArg UringState.sends hserving : (queueForTicket s slot).serving.sends = s.serving.sends)
  have hbatch : (queueForTicket s slot).batchPending = s.batchPending :=
    (congrArg UringState.batchPending hserving :
      (queueForTicket s slot).serving.batchPending = s.serving.batchPending)
  have hticket := sendTicket_of_serving_eq hserving
  exact ⟨⟨h.queues.push (h.queues.inUse slot hopen),
    h.pool.congr hsame hticket, hbatch ▸ h.batch⟩,
    steady_of_sends (fun hnone => hsends (hsame.symm.trans hnone))
      fun a ha => inUse_of_serving_eq hserving a ▸ ha, hbatch⟩

theorem Quiet.excused {s : UringState} (h : Quiet spare s) {slot : Slot}
    (hcomplete : Complete (s.connection slot).inBuf.data) (hnone : s.sends = []) :
    spare slot ∨ Excused (s.connection slot) := by
  refine or_iff_not_imp_left.mpr fun hspare hflag hinUse => ?_
  by_contra hcon
  exact hspare (h hnone slot ⟨hflag, hinUse, by simpa using hcon, hcomplete⟩)

theorem prepareUnbatched_gathering (hsend : SendsFit env) {rest : List UringBatchEntry}
    {s₀ s : UringState} {serving : List UringBatchServing}
    (h : Gathering env spare s₀ rest (s, serving))
    (hroom : serving.length < URING_SEND_TICKETS)
    (hnext : serving.length + rest.length + 1 ≤ URING_SEND_TICKETS)
    {slot : Slot} (hopen : (s.connection slot).inUse = true) :
    Gathering env spare s₀ rest (prepareUnbatched env s serving slot) := by
  have hheld : (heldBy serving).length < URING_SEND_TICKETS := by rwa [heldBy, List.length_map]
  simp only [prepareUnbatched]
  split
  · rename_i frame hframe
    have hcomplete : Complete (s.connection slot).inBuf.data := by rw [Complete, hframe]
    split
    · rename_i hnone
      have hsends : s.sends ≠ [] := by
        intro hcon
        obtain ⟨ticket, s', hacquire⟩ := h.works.pool.acquire_isSome (by simpa [hcon] using hheld)
        rw [hnone] at hacquire
        cases hacquire
      have hworks := queueForTicket_works h.works.toStaffed hopen hsends
      exact h.of_works hworks le_rfl (quiet_of_sends fun hcon => hsends (hworks.sends hcon))
    rename_i ticket s₁ hacquire
    have hacquired := h.works.acquire hacquire
    split
    · have hreleased : Works env (heldBy serving) s (releaseSendTicket s₁ ticket) :=
        hacquired.trans hacquired.release
      have hfreed := hreleased.trans (freeIn_works hreleased.toStaffed slot)
      obtain ⟨hworks, hsent⟩ := sendStatusAndClose_works hsend hfreed.toStaffed slot
        (by decide : 400 ∈ ownStatuses)
        (s.offsetOf slot (s.connection slot).inBuf.data.length)
      exact h.of_works (hfreed.trans hworks) le_rfl (quiet_of_sends (hsent hheld))
    · rename_i request _
      obtain ⟨-, -, rfl⟩ := acquireSendTicket_eq_some hacquire
      have hperm : (heldBy (serving ++ [⟨slot, ticket, frame, request⟩])).Perm
          (ticket :: heldBy serving) := by
        rw [heldBy, List.map_append]
        exact List.perm_append_singleton ..
      have hgathered := h.works.trans hacquired
      refine ⟨⟨⟨hacquired.queues, hacquired.pool.perm hperm, hacquired.batch⟩, hgathered.toSteady,
        hgathered.batchPending⟩, ?_, fun hnone => h.quiet hnone,
        fun hnone => List.forall_mem_append.mpr ⟨h.excused hnone, ?_⟩⟩
      · rw [List.length_append, List.length_singleton]
        omega
      · exact List.forall_mem_singleton.mpr (h.quiet.excused hcomplete hnone)
  · exact h.of_works (closeConnection_works h.works.toStaffed slot) le_rfl
      (h.quiet.but slot).closeConnection

theorem prepareBatchEntry_gathering (hsend : SendsFit env) {entry : UringBatchEntry}
    {rest : List UringBatchEntry} {s₀ : UringState} {acc : UringState × List UringBatchServing}
    (h : Gathering env spare s₀ (entry :: rest) acc) :
    Gathering env spare s₀ rest (prepareBatchEntry env acc entry) := by
  obtain ⟨s, serving⟩ := acc
  have hroom : serving.length + (rest.length + 1) ≤ URING_SEND_TICKETS := h.room
  simp only [prepareBatchEntry]
  split
  · exact ⟨h.works, (Nat.le_succ _).trans hroom, h.quiet, h.excused⟩
  rename_i hlive
  rw [not_or, not_not] at hlive
  set conn : UringConnection := { s.connection entry.slot with batched := false }
  have hworks : Works env (heldBy serving) s (s.setConnection entry.slot conn) :=
    h.works.setConnection rfl rfl id id
  have hquiet : Quiet spare (s.setConnection entry.slot conn) :=
    h.quiet.setConnection fun hawaits => ⟨hawaits.1, hawaits.2, hawaits.3, hawaits.4⟩
  refine prepareUnbatched_gathering hsend
    (h.of_works hworks (Nat.le_succ _) hquiet) (by omega) hroom ?_
  rw [UringState.setConnection_connection, Function.update_self]
  exact hlive.1

theorem gathering_foldl (hsend : SendsFit env) {rest : List UringBatchEntry} {s₀ : UringState}
    {acc : UringState × List UringBatchServing} (h : Gathering env spare s₀ rest acc) :
    Gathering env spare s₀ [] (rest.foldl (prepareBatchEntry env) acc) := by
  induction rest generalizing acc with
  | nil => exact h
  | cons entry rest ih => exact ih (prepareBatchEntry_gathering hsend h)

/-- The invariant of the last loop, with `rest` still to be answered. -/
structure Delivering (env : Environment) (spare : Slot → Prop) (s₀ : UringState)
    (rest : List (UringBatchServing × APIResponse)) (s : UringState) : Prop where
  works : Works env (heldBy (rest.map Prod.fst)) s₀ s
  room : rest.length ≤ URING_SEND_TICKETS
  quiet : Quiet spare s
  excused : s.sends = [] → ∀ x ∈ rest, spare x.1.slot ∨ Excused (s.connection x.1.slot)

theorem answerBatchEntry_delivering (hsend : SendsFit env) {s₀ s : UringState}
    {x : UringBatchServing × APIResponse} {rest : List (UringBatchServing × APIResponse)}
    (h : Delivering env spare s₀ (x :: rest) s) : Delivering env spare s₀ rest (answerBatchEntry env s x) := by
  have hroom := h.room
  rw [List.length_cons] at hroom
  have hheld : (heldBy (rest.map Prod.fst)).length < URING_SEND_TICKETS := by
    rw [heldBy, List.length_map, List.length_map]
    exact hroom
  obtain ⟨hworks, hquiet, -⟩ := answerRequest_works hsend h.works.toStaffed hheld x.1.slot
    (s.connection x.1.slot).inBuf.data x.1.frame x.1.request.method x.2
  refine ⟨h.works.trans hworks, (Nat.le_succ _).trans hroom, ?_, fun hnone y hy => ?_⟩
  · exact hquiet (h.quiet.but _) fun hnone => h.excused hnone x List.mem_cons_self
  · exact (h.excused (hworks.sends hnone) y (List.mem_cons_of_mem _ hy)).imp id
      (hworks.excused hnone _)

theorem delivering_foldl (hsend : SendsFit env) {s₀ s : UringState}
    {rest : List (UringBatchServing × APIResponse)} (h : Delivering env spare s₀ rest s) :
    Delivering env spare s₀ [] (rest.foldl (answerBatchEntry env) s) := by
  induction rest generalizing s with
  | nil => exact h
  | cons x rest ih => exact ih (answerBatchEntry_delivering hsend h)

theorem flushBatch_works (hsend : SendsFit env) {s : UringState} (h : Staffed env [] s)
    (hquiet : Quiet spare s) :
    Works env [] { s with batchPending := [] } (flushBatch env s) ∧ Quiet spare (flushBatch env s) := by
  have hcleared : Staffed env [] { s with batchPending := [] } :=
    ⟨⟨h.queues.exist, h.queues.inTable, h.queues.inUse⟩, h.pool.congr rfl rfl,
      Nat.zero_le _⟩
  have hstart : Gathering env spare { s with batchPending := [] } s.batchPending
      ({ s with batchPending := [] }, []) :=
    ⟨hcleared.refl, (Nat.zero_add _).trans_le h.batch, hquiet,
      fun _ x hx => absurd hx List.not_mem_nil⟩
  have hgathered := gathering_foldl hsend hstart
  simp only [flushBatch]
  generalize List.foldl (prepareBatchEntry env) _ _ = acc at hgathered ⊢
  obtain ⟨s₁, serving⟩ := acc
  simp only
  split
  · rename_i hnil
    obtain rfl := hnil
    exact ⟨hgathered.works, hgathered.quiet⟩
  set s₂ := { s₁ with calls := s₁.calls + (serving.map UringBatchServing.request).length }
  have hasked : Works env (heldBy serving) s₁ s₂ := hgathered.works.of_unarmed rfl
  have hworks₂ := hgathered.works.trans hasked
  have hdelivering : ∀ response : Nat → APIRequest → APIResponse,
      Delivering env spare { s with batchPending := [] }
        (serving.zip ((serving.map UringBatchServing.request).mapIdx response)) s₂ := by
    intro response
    have hlength : serving.length ≤
        ((serving.map UringBatchServing.request).mapIdx response).length := by simp
    have hfst := List.map_fst_zip hlength
    refine ⟨hfst.symm ▸ hworks₂, ?_, fun hnone => hgathered.quiet hnone,
      fun hnone x hx => hgathered.excused hnone _ (List.of_mem_zip hx).1⟩
    rw [← List.length_map Prod.fst, hfst]
    exact hgathered.room
  have hdone := fun response => delivering_foldl hsend (hdelivering response)
  exact ⟨(hdone _).works, (hdone _).quiet⟩

/-! ## Serving out of a buffer -/

/-- A complete request that is answered as soon as it is served: it joins no batch, and the handler
does not defer it. -/
structure Answerable (env : Environment) (s : UringState) (slot : Slot) (buf : List UInt8) :
    Prop where
  complete : Complete buf
  unbatched : s.apiBatchHandler = false
  answered : ∀ request, prepare buf (nextFrame buf 0).2 = some request →
    ∀ n, (env.handler n request).deferred = false
  batched : (s.connection slot).batched = false
  deferred : (s.connection slot).deferred = false

/-- What serving leaves: everything in order, and nobody waits but `spare`. -/
structure Served (env : Environment) (spare : Slot → Prop) (s s' : UringState) : Prop
    extends Staffed env [] s', Steady s s' where
  quiet : Quiet spare s'

theorem Works.served {s s' : UringState} (h : Works env [] s s') (hquiet : Quiet spare s') :
    Served env spare s s' := ⟨h.toStaffed, h.toSteady, hquiet⟩

theorem enqueue_served {s : UringState} {slot : Slot} {conn : UringConnection}
    (h : Staffed env [] s) (hroom : s.batchPending.length < AMMSERVER_API_MAX_BATCH)
    (hbut : QuietBut slot spare s)
    (hexcused : s.sends = [] → spare slot ∨ Excused (s.connection slot))
    (hconn : conn = { s.connection slot with batched := true }) (history : History)
    (generation : Nat) :
    Served env spare s { (s.setHistory slot history).setConnection slot conn with
      batchPending := s.batchPending ++ [⟨slot, generation⟩] } := by
  have hset : Works env [] s (s.setConnection slot conn) := by
    rw [hconn]
    exact h.setConnection rfl rfl id id
  have hquiet : Quiet spare (s.setConnection slot conn) := by
    refine (quietBut_setConnection hbut conn).quiet fun hnone hawaits => ?_
    refine (hexcused hnone).resolve_right fun hexcused => ?_
    rw [UringState.setConnection_connection, Function.update_self, hconn] at hawaits
    exact hexcused.not_awaits ⟨hawaits.1, hawaits.2, hawaits.3, hawaits.4⟩
  refine ⟨⟨⟨hset.queues.exist, hset.queues.inTable, hset.queues.inUse⟩,
    h.pool.congr rfl rfl, ?_⟩, ⟨id, hset.waiting, hset.inUse, hset.excused⟩, hquiet⟩
  rw [List.length_append]
  exact hroom

theorem serveNextRequest_served (hsend : SendsFit env) {s : UringState} {slot : Slot}
    {buf : List UInt8} (h : Staffed env [] s) (hopen : (s.connection slot).inUse = true)
    (hbut : QuietBut slot spare s)
    (hskip : (s.connection slot).batched = true ∨ (s.connection slot).deferred = true →
      Quiet spare s)
    (hserve : s.sends = [] → Complete buf →
      (spare slot ∨ Excused (s.connection slot)) ∨ Answerable env s slot buf) :
    Served env spare s (serveNextRequest env s slot buf) ∧
      (Answerable env s slot buf → s.sends = [] →
        (serveNextRequest env s slot buf).sends ≠ []) := by
  by_cases hpending : (s.connection slot).batched = true ∨ (s.connection slot).deferred = true
  · simp only [serveNextRequest, if_pos hpending]
    refine ⟨h.refl.served (hskip hpending), fun hanswerable => ?_⟩
    rcases hpending with hcon | hcon
    · exact absurd (hanswerable.batched.symm.trans hcon) Bool.false_ne_true
    · exact absurd (hanswerable.deferred.symm.trans hcon) Bool.false_ne_true
  simp only [serveNextRequest, if_neg hpending]
  -- wherever a status is sent, it is sent for want of nothing
  have hstatus : ∀ s₁, ∀ statusCode ∈ ownStatuses, ∀ offset, Staffed env [] s₁ → Steady s s₁ →
      Served env spare s (sendStatusAndClose env s₁ slot statusCode offset) ∧
        (Answerable env s slot buf → s.sends = [] →
          (sendStatusAndClose env s₁ slot statusCode offset).sends ≠ []) := by
    intro s₁ statusCode hown offset h₁ hsteady
    obtain ⟨hworks, hsent⟩ := sendStatusAndClose_works hsend h₁ slot hown offset
    have hsent := hsent (by decide)
    exact ⟨⟨hworks.toStaffed, hsteady.trans hworks.toSteady, quiet_of_sends hsent⟩,
      fun _ _ => hsent⟩
  have hasked : Works env [] s s.asked := h.of_unarmed rfl
  split
  · rename_i frame hframe
    have hincomplete : ¬ Complete buf := by
      rw [Complete, hframe]
      exact fun hcon => by cases hcon
    cases hkeep : keepTail env s slot buf 0 with
    | none => exact hstatus _ 413 (by decide) _ hasked.toStaffed hasked.toSteady
    | some s₁ =>
      refine ⟨(keepTail_works hkeep h).served ?_, fun hanswerable =>
        absurd hanswerable.complete hincomplete⟩
      refine (keepTail_quietBut hkeep hbut).quiet fun _ hawaits => absurd ?_ hincomplete
      obtain ⟨-, kept, hconn, -, -, -, hkept⟩ := keepTail_some env hkeep
      have hcomplete := hawaits.complete
      rwa [hconn, hkept, List.drop_zero] at hcomplete
  · rename_i hrefused
    have hfreed := freeIn_works h slot
    exact hstatus _ _ (nextFrame_refuseStatus hrefused) _ hfreed.toStaffed hfreed.toSteady
  rename_i frame hframe
  have hcomplete : Complete buf := by rw [Complete, hframe]
  split
  · rename_i hbatch
    have hindirect : ¬ Answerable env s slot buf := fun hanswerable =>
      Bool.false_ne_true (hanswerable.unbatched.symm.trans hbatch)
    have hexcused : s.sends = [] → spare slot ∨ Excused (s.connection slot) := fun hnone =>
      (hserve hnone hcomplete).resolve_right hindirect
    have hquiet : Quiet spare s := hbut.quiet fun hnone hawaits =>
      (hexcused hnone).resolve_right fun hexcused => hexcused.not_awaits hawaits
    -- what holds with and without a flush
    have hunkept : ∀ s₁, Staffed env [] s₁ → Steady s s₁ → ∀ offset,
        Served env spare s (sendStatusAndClose env s₁.asked slot 413 offset) ∧
          (Answerable env s slot buf → s.sends = [] →
            (sendStatusAndClose env s₁.asked slot 413 offset).sends ≠ []) := by
      intro s₁ h₁ hsteady offset
      have hasked₁ : Works env [] s₁ s₁.asked := h₁.of_unarmed rfl
      exact hstatus _ 413 (by decide) offset hasked₁.toStaffed (hsteady.trans hasked₁.toSteady)
    have hjoin : ∀ s₁ s₂, Staffed env [] s₁ → Steady s s₁ → Quiet spare s₁ →
        s₁.batchPending.length < AMMSERVER_API_MAX_BATCH → keepTail env s₁ slot buf 0 = some s₂ →
        ∀ offset,
        let s₃ := s₂.setHistory slot { s₂.historyOf slot with batchedAt := offset }
        let after := { s₃.setConnection slot { s₃.connection slot with batched := true } with
          batchPending := s₃.batchPending ++ [⟨slot, (s₃.connection slot).generation⟩] }
        Served env spare s after ∧
          (Answerable env s slot buf → s.sends = [] → after.sends ≠ []) := by
      intro s₁ s₂ h₁ hsteady hquiet₁ hroom hkeep offset
      have h₂ := keepTail_works hkeep h₁
      have hsteady₂ := hsteady.trans h₂.toSteady
      have hserved := enqueue_served h₂.toStaffed (h₂.batchPending ▸ hroom)
        (keepTail_quietBut hkeep (hquiet₁.but slot))
        (fun hnone => (hexcused (hsteady₂.sends hnone)).imp id (hsteady₂.excused hnone slot)) rfl
        { s₂.historyOf slot with batchedAt := offset } (s₂.connection slot).generation
      exact ⟨⟨hserved.toStaffed, hsteady₂.trans hserved.toSteady, hserved.quiet⟩,
        fun hanswerable => absurd hanswerable hindirect⟩
    by_cases hfull : s.batchPending.length ≥ AMMSERVER_API_MAX_BATCH
    · obtain ⟨hworks, hquiet₁⟩ := flushBatch_works hsend h hquiet
      have hsteady : Steady s (flushBatch env s) :=
        ⟨hworks.sends, hworks.waiting, hworks.inUse, hworks.excused⟩
      simp only [hfull, if_true]
      split
      · exact hunkept _ hworks.toStaffed hsteady _
      · rename_i s₂ hkeep
        refine hjoin _ s₂ hworks.toStaffed hsteady hquiet₁ ?_ hkeep _
        rw [hworks.batchPending]
        exact (by decide : 0 < AMMSERVER_API_MAX_BATCH)
    · simp only [hfull, if_false]
      split
      · exact hunkept s h (.refl s) _
      · rename_i s₂ hkeep
        exact hjoin s s₂ h (.refl s) hquiet (Nat.lt_of_not_ge hfull) hkeep _
  split
  · rename_i hnone
    have hsends : s.sends ≠ [] := by
      intro hcon
      obtain ⟨ticket, s', hacquire⟩ := h.pool.acquire_isSome (by rw [hcon]; decide)
      rw [hnone] at hacquire
      cases hacquire
    cases hkeep : keepTail env s slot buf 0 with
    | none => exact hstatus _ 413 (by decide) _ hasked.toStaffed hasked.toSteady
    | some s₁ =>
      have h₁ := keepTail_works hkeep h
      obtain ⟨-, kept, hconn, -⟩ := keepTail_some env hkeep
      have hopen₁ : (s₁.connection slot).inUse = true := by
        rw [hconn]
        exact hopen
      have hworks := queueForTicket_works h₁.toStaffed hopen₁ fun hcon => hsends (h₁.sends hcon)
      exact ⟨(h₁.trans hworks).served
        (quiet_of_sends fun hcon => hsends (h₁.sends (hworks.sends hcon))),
        fun _ hcon => absurd hcon hsends⟩
  rename_i ticket s₁ hacquire
  have hacquired := h.acquire hacquire
  have hfreed : Works env [] s (freeIn (releaseSendTicket s₁ ticket) slot) :=
    (hacquired.trans hacquired.release).trans (freeIn_works hacquired.release.toStaffed slot)
  split
  · exact hstatus _ 400 (by decide) _ hfreed.toStaffed hfreed.toSteady
  split
  · exact hstatus _ 500 (by decide) _ hfreed.toStaffed hfreed.toSteady
  rename_i request hprepare _
  obtain ⟨-, -, rfl⟩ := acquireSendTicket_eq_some hacquire
  set s₁ := s.setTicket ticket { s.sendTicket ticket with busy := true, sent := 0 }
  have hcalled : Works env [ticket] s s₁.asked := hacquired.trans (hacquired.of_unarmed rfl)
  obtain ⟨hworks, hquiet, hanswered⟩ := answerRequest_works hsend hcalled.toStaffed (by decide)
    slot buf frame request.method (env.handler s₁.calls request)
  have hanswers : Answerable env s slot buf → (answerRequest env s₁.asked slot ticket buf frame
      request.method (env.handler s₁.calls request)).sends ≠ [] := fun hanswerable =>
    hanswered (hanswerable.answered _ (by rw [hframe]; exact hprepare) _)
  refine ⟨(hcalled.trans hworks).served ?_, fun hanswerable _ => hanswers hanswerable⟩
  by_cases hnone : s.sends = []
  · rcases hserve hnone hcomplete with hexcused | hanswerable
    · exact hquiet hbut fun _ => hexcused
    · exact quiet_of_sends (hanswers hanswerable)
  · exact quiet_of_sends fun hcon => hnone (hworks.sends hcon)

end AmmarServer.Uring
