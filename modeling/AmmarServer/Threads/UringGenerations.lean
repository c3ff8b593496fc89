import AmmarServer.Threads.UringWaking

/-! Which connection a receive completion and a deferred answer are for: the generation in their tags
against the one that a slot counts. -/

namespace AmmarServer.Uring
open ApiProtocol CString Pipeline

variable (env : Environment)

/-! ## What identifies a connection -/

/-- The generations, how often each slot was accepted on, and what each connection received. -/
def UringState.tags (s : UringState) :
    (Slot → Nat) × (Slot → Nat) × (ConnectionId → List UInt8) :=
  (fun a => (s.connection a).generation, s.incarnation, fun id => (s.history id).received)

theorem tags_of_serving {s s' : UringState} (h : s'.serving = s.serving) : s'.tags = s.tags :=
  (congrArg UringState.tags h : s'.serving.tags = s.serving.tags)

theorem tags_of_unarmed {s s' : UringState} (h : s'.unarmed = s.unarmed) : s'.tags = s.tags :=
  tags_of_serving (serving_of_unarmed h)

theorem tags_setConnection {s : UringState} {slot : Slot} {conn : UringConnection}
    (h : conn.generation = (s.connection slot).generation) :
    (s.setConnection slot conn).tags = s.tags :=
  Prod.ext (map_setConnection UringConnection.generation h) rfl

theorem tags_disarm (s : UringState) (slot : Slot) :
    (s.setConnection slot { s.connection slot with recvArmed := false }).tags = s.tags :=
  tags_setConnection rfl

theorem tags_setHistory {s : UringState} {slot : Slot} {h : History}
    (hreceived : h.received = (s.historyOf slot).received) :
    (s.setHistory slot h).tags = s.tags := by
  refine Prod.ext rfl (Prod.ext rfl (funext fun id => ?_))
  change ((s.setHistory slot h).history id).received = (s.history id).received
  rw [UringState.setHistory_history]
  by_cases hid : id = s.idOf slot
  · rw [hid, Function.update_self, hreceived]
    rfl
  · rw [Function.update_of_ne hid]

theorem tags_acquireSendTicket {s s' : UringState} {ticket : Nat}
    (h : acquireSendTicket s = some (ticket, s')) : s'.tags = s.tags := by
  obtain ⟨-, -, rfl⟩ := acquireSendTicket_eq_some h
  rfl

theorem tags_submitSend (s : UringState) (slot : Slot) (ticket : Nat) (answer : Option Answer) :
    (submitSend env s slot ticket answer).tags = s.tags := by
  simp only [submitSend]
  split
  · have hnoted : (s.asked.noteAnswer slot answer).tags = s.tags := tags_setHistory rfl
    rw [← hnoted]
    exact tags_setConnection rfl
  · rfl

theorem tags_closeConnection (s : UringState) (slot : Slot) :
    (closeConnection s slot).tags = s.tags := by
  simp only [closeConnection]
  split
  · rfl
  · have hclosed : (s.setConnection slot { s.connection slot with
        inUse := false, recvArmed := false
        inBuf := partialFree (s.connection slot).inBuf }).tags = s.tags := tags_setConnection rfl
    split <;> exact hclosed

theorem tags_sendResponse (s : UringState) (slot : Slot) (ticket : Nat) (response : List UInt8)
    (closing : Bool) (answer : Answer) :
    (sendResponse env s slot ticket response closing answer).tags = s.tags :=
  tags_submitSend ..

theorem tags_sendStatusAndClose (s : UringState) (slot : Slot) (statusCode offset : Nat) :
    (sendStatusAndClose env s slot statusCode offset).tags = s.tags := by
  unfold sendStatusAndClose
  split
  · exact tags_closeConnection ..
  · rename_i hacquire
    exact (tags_sendResponse ..).trans (tags_acquireSendTicket hacquire)

theorem tags_freeIn (s : UringState) (slot : Slot) : (freeIn s slot).tags = s.tags :=
  tags_setConnection rfl

theorem tags_keepTail {s s' : UringState} {slot : Slot} {buf : List UInt8} {consumed : Nat}
    (h : keepTail env s slot buf consumed = some s') : s'.tags = s.tags := by
  obtain ⟨kept, -, rfl⟩ := Option.map_eq_some_iff.mp h
  exact tags_setConnection rfl

theorem tags_deferRequest (s : UringState) (slot : Slot) (ticket : Nat) (buf : List UInt8)
    (frame : ApiFrame) (method : TypesOfRequests) :
    (deferRequest env s slot ticket buf frame method).tags = s.tags := by
  simp only [deferRequest]
  set s₁ := (releaseSendTicket s ticket).setHistory slot
    { (releaseSendTicket s ticket).historyOf slot with deferredAt := s.offsetOf slot buf.length }
  have h₁ : s₁.tags = s.tags := tags_setHistory rfl
  set s₂ := s₁.setConnection slot { s₁.connection slot with
    deferred := true, deferredKeepAlive := frame.keepAlive, deferredMethod := method }
  have hset : s₂.tags = s₁.tags := tags_setConnection rfl
  have h₂ : s₂.tags = s.tags := hset.trans h₁
  split
  · rename_i hkeep
    exact (tags_keepTail env hkeep).trans h₂
  · have hreset : (s₂.asked.setConnection slot
        { s₂.connection slot with deferred := false }).tags = s₂.asked.tags :=
      tags_setConnection rfl
    exact (tags_sendStatusAndClose ..).trans (hreset.trans h₂)

theorem tags_answerRequest (s : UringState) (slot : Slot) (ticket : Nat) (buf : List UInt8)
    (frame : ApiFrame) (method : TypesOfRequests) (res : APIResponse) :
    (answerRequest env s slot ticket buf frame method res).tags = s.tags := by
  simp only [answerRequest]
  split
  · exact tags_deferRequest ..
  split
  · exact (tags_sendStatusAndClose ..).trans (tags_freeIn ..)
  split
  · exact tags_sendStatusAndClose ..
  · rename_i hkeep
    exact (tags_sendResponse ..).trans (tags_keepTail env hkeep)

/-! ## The batch -/

theorem tags_prepareUnbatched (s : UringState) (serving : List UringBatchServing) (slot : Slot) :
    (prepareUnbatched env s serving slot).1.tags = s.tags := by
  simp only [prepareUnbatched]
  split
  · split
    · exact tags_of_serving (serving_queueForTicket s slot)
    rename_i hacquire
    have hacquired := tags_acquireSendTicket hacquire
    split
    · exact (tags_sendStatusAndClose ..).trans ((tags_freeIn ..).trans hacquired)
    · exact hacquired
  · exact tags_closeConnection ..

theorem tags_prepareBatchEntry (acc : UringState × List UringBatchServing)
    (entry : UringBatchEntry) : (prepareBatchEntry env acc entry).1.tags = acc.1.tags := by
  obtain ⟨s, serving⟩ := acc
  simp only [prepareBatchEntry]
  split
  · rfl
  · exact (tags_prepareUnbatched ..).trans (tags_setConnection rfl)

theorem tags_flushBatch (s : UringState) : (flushBatch env s).tags = s.tags := by
  have hprepare : ∀ (entries : List UringBatchEntry) (acc : UringState × List UringBatchServing),
      (entries.foldl (prepareBatchEntry env) acc).1.tags = acc.1.tags := by
    intro entries
    induction entries with
    | nil => exact fun _ => rfl
    | cons entry entries ih => exact fun acc => (ih _).trans (tags_prepareBatchEntry ..)
  have hanswer : ∀ (served : List (UringBatchServing × APIResponse)) (t : UringState),
      (served.foldl (answerBatchEntry env) t).tags = t.tags := by
    intro served
    induction served with
    | nil => exact fun _ => rfl
    | cons x served ih => exact fun t => (ih _).trans (tags_answerRequest ..)
  have hprepared := hprepare s.batchPending ({ s with batchPending := [] }, [])
  simp only [flushBatch]
  generalize List.foldl (prepareBatchEntry env) _ _ = acc at hprepared ⊢
  obtain ⟨s₁, serving⟩ := acc
  simp only at hprepared ⊢
  split
  · exact hprepared
  · exact (hanswer _ _).trans hprepared

/-! ## Serving -/

theorem tags_serveNextRequest (s : UringState) (slot : Slot) (buf : List UInt8) :
    (serveNextRequest env s slot buf).tags = s.tags := by
  simp only [serveNextRequest]
  split
  · rfl
  split
  · cases hkeep : keepTail env s slot buf 0 with
    | none => exact tags_sendStatusAndClose ..
    | some s₁ => exact tags_keepTail env hkeep
  · exact (tags_sendStatusAndClose ..).trans (tags_freeIn ..)
  split
  · have hflushed : (if s.batchPending.length ≥ AMMSERVER_API_MAX_BATCH then flushBatch env s
        else s).tags = s.tags := by
      split
      · exact tags_flushBatch ..
      · rfl
    generalize (if s.batchPending.length ≥ AMMSERVER_API_MAX_BATCH then flushBatch env s
      else s) = s₁ at hflushed ⊢
    split
    · exact (tags_sendStatusAndClose ..).trans hflushed
    · rename_i s₂ hkeep
      have hnoted : (s₂.setHistory slot { s₂.historyOf slot with
          batchedAt := s.offsetOf slot buf.length }).tags = s₂.tags := tags_setHistory rfl
      refine Eq.trans ?_ (hnoted.trans ((tags_keepTail env hkeep).trans hflushed))
      exact tags_setConnection rfl
  split
  · split
    · exact tags_sendStatusAndClose ..
    · rename_i hkeep
      exact (tags_of_serving (serving_queueForTicket ..)).trans (tags_keepTail env hkeep)
  rename_i hacquire
  have hacquired := tags_acquireSendTicket hacquire
  split
  · exact (tags_sendStatusAndClose ..).trans ((tags_freeIn ..).trans hacquired)
  split
  · exact (tags_sendStatusAndClose ..).trans ((tags_freeIn ..).trans hacquired)
  · exact (tags_answerRequest ..).trans hacquired

theorem tags_apiSendDeferred (s : UringState) (answer : DeferredAnswer) :
    (apiSendDeferred env s answer).tags = s.tags := by
  simp only [apiSendDeferred]
  split
  · rfl
  split
  · rfl
  split
  · rfl
  rename_i hacquire
  have hacquired := tags_acquireSendTicket hacquire
  obtain ⟨-, -, rfl⟩ := acquireSendTicket_eq_some hacquire
  set slot : Slot := (answer.ring, answer.slot)
  rename_i ticket _
  set s₁ := s.setTicket ticket { s.sendTicket ticket with busy := true, sent := 0 }
  have hset : ∀ conn : UringConnection, conn.generation = (s₁.connection slot).generation →
      (s₁.setConnection slot conn).tags = s.tags := fun conn hconn =>
    (tags_setConnection hconn).trans hacquired
  split
  · exact (tags_sendStatusAndClose ..).trans (hset _ rfl)
  split
  · exact (tags_sendStatusAndClose ..).trans (hset _ rfl)
  · exact (tags_sendResponse ..).trans (hset _ rfl)

theorem tags_serveOneWaiting (s : UringState) : (serveOneWaiting env s).tags = s.tags := by
  have htaken : (takeNextWaitingForTicket env s).2.tags = s.tags :=
    tags_of_serving (serving_takeWaitingFrom env _ s)
  simp only [serveOneWaiting]
  generalize takeNextWaitingForTicket env s = taken at htaken ⊢
  obtain ⟨first, s₁⟩ := taken
  cases first with
  | none => exact htaken
  | some waiting =>
    simp only
    split
    · exact (tags_serveNextRequest ..).trans htaken
    · exact htaken

theorem tags_goOnAfterSend (s : UringState) (slot : Slot) :
    (goOnAfterSend env s slot).tags = s.tags := by
  have hserved : (if (s.connection slot).inBuf.used > 0 then
      serveNextRequest env s slot (s.connection slot).inBuf.data else s).tags = s.tags := by
    split
    · exact tags_serveNextRequest ..
    · rfl
  simp only [goOnAfterSend]
  generalize (if (s.connection slot).inBuf.used > 0 then
    serveNextRequest env s slot (s.connection slot).inBuf.data else s) = s₁ at hserved ⊢
  split
  · exact (tags_of_unarmed (unarmed_armRecv ..)).trans hserved
  · exact hserved

theorem tags_handleSendCompletion (s : UringState) (o : OutstandingSend) (res : Int) :
    (handleSendCompletion env s o res).tags = s.tags := by
  simp only [handleSendCompletion]
  split
  · split
    · exact (tags_closeConnection ..).trans (tags_setConnection rfl)
    · rfl
  split
  · split
    · exact tags_submitSend ..
    · rfl
  refine (tags_serveOneWaiting ..).trans ?_
  split
  · split
    · exact (tags_closeConnection ..).trans (tags_setConnection rfl)
    · exact (tags_goOnAfterSend ..).trans (tags_setConnection rfl)
  · rfl

/-! ## Receiving -/

theorem tags_appendIn (s : UringState) (slot : Slot) (data : List UInt8) :
    (appendIn env s slot data).2.tags = s.tags := by
  simp only [appendIn]
  split
  · exact tags_setConnection rfl
  · rfl

theorem tags_takeBytes (s : UringState) (slot : Slot) (data : List UInt8) :
    (takeBytes env s slot data).2.tags = (s.noteReceived slot data).tags := by
  have happended := tags_appendIn env (s.noteReceived slot data) slot data
  have hrecycled : ∀ t : UringState, t.tags = (s.noteReceived slot data).tags →
      (recycleRecvBuffer env t slot.1).tags = (s.noteReceived slot data).tags := fun t ht =>
    (tags_of_unarmed (unarmed_recycleRecvBuffer env t slot.1)).trans ht
  simp only [takeBytes]
  generalize appendIn env (s.noteReceived slot data) slot data = appended at happended ⊢
  obtain ⟨fits, s₁⟩ := appended
  split
  · cases fits with
    | false => exact (tags_closeConnection ..).trans (hrecycled _ happended)
    | true => exact hrecycled _ happended
  split
  · cases fits with
    | false => exact (tags_sendStatusAndClose ..).trans (hrecycled _ happended)
    | true => exact (tags_serveNextRequest ..).trans (hrecycled _ happended)
  split
  · cases fits with
    | false => exact (tags_sendStatusAndClose ..).trans (hrecycled _ happended)
    | true => exact hrecycled _ happended
  · exact hrecycled _ (tags_serveNextRequest ..)

/-- The test with which a receive completion is found to be for a connection that is gone. -/
def Discards (s : UringState) (r : Nat) (cqe : RecvCompletion) : Prop :=
  cqe.slot ≥ env.connectionSlots r ∨ ¬ (s.connection (r, cqe.slot)).inUse = true ∨
    (s.connection (r, cqe.slot)).generation ≠ cqe.generation

theorem handleRecvCompletion_discards {s : UringState} {r : Nat} {cqe : RecvCompletion}
    (h : Discards env s r cqe) :
    handleRecvCompletion env s r cqe =
      if cqe.hasBuffer = true then recycleRecvBuffer env s r else s := by
  simp only [handleRecvCompletion]
  exact if_pos h

/-- A completion that is not discarded hands its bytes to the connection. -/
theorem tags_handleRecvCompletion {s : UringState} {r : Nat} {cqe : RecvCompletion}
    (h : ¬ Discards env s r cqe) :
    (handleRecvCompletion env s r cqe).tags = match cqe.res with
      | .ok data => if cqe.hasBuffer = true then (s.noteReceived (r, cqe.slot) data).tags else s.tags
      | .error _ => s.tags := by
  have hrecycled : ∀ t : UringState,
      (if cqe.hasBuffer = true then recycleRecvBuffer env t r else t).tags = t.tags := by
    intro t
    split
    · exact tags_of_unarmed (unarmed_recycleRecvBuffer env t r)
    · rfl
  have hnothing : (s.noteReceived (r, cqe.slot) []).tags = s.tags :=
    tags_setHistory (List.append_nil _)
  simp only [handleRecvCompletion]
  rw [if_neg (show ¬ (cqe.slot ≥ env.connectionSlots r ∨ _ ∨ _) from h)]
  have hdisarmed : (if cqe.more = true then s else s.setConnection (r, cqe.slot)
      { s.connection (r, cqe.slot) with recvArmed := false }).tags = s.tags ∧
      ∀ data, ((if cqe.more = true then s else s.setConnection (r, cqe.slot)
        { s.connection (r, cqe.slot) with recvArmed := false }).noteReceived
          (r, cqe.slot) data).tags = (s.noteReceived (r, cqe.slot) data).tags := by
    split
    · exact ⟨rfl, fun _ => rfl⟩
    · exact ⟨tags_disarm .., fun data => tags_disarm (s.noteReceived (r, cqe.slot) data) _⟩
  generalize (if cqe.more = true then s else s.setConnection (r, cqe.slot)
    { s.connection (r, cqe.slot) with recvArmed := false }) = s₁ at hdisarmed ⊢
  obtain ⟨hdisarmed, hnoted⟩ := hdisarmed
  split
  · rename_i hempty
    rw [hempty]
    refine ((tags_closeConnection ..).trans ((hrecycled s₁).trans hdisarmed)).trans ?_
    simp only [hnothing, ite_self]
  · rename_i hnobufs
    rw [hnobufs]
    refine (tags_of_unarmed (unarmed_queueForRearm ..)).trans ?_
    exact (tags_disarm ..).trans ((hrecycled s₁).trans hdisarmed)
  · rename_i hcanceled
    rw [hcanceled]
    exact (hrecycled s₁).trans hdisarmed
  · rename_i herror
    rw [herror]
    exact (tags_closeConnection ..).trans ((hrecycled s₁).trans hdisarmed)
  · rename_i data _ hdata
    rw [hdata]
    split
    · exact (tags_closeConnection ..).trans hdisarmed
    rename_i hbuffer
    simp only [not_not.mp hbuffer, if_true]
    have htaken := (tags_takeBytes env s₁ (r, cqe.slot) data).trans (hnoted data)
    generalize takeBytes env s₁ (r, cqe.slot) data = taken at htaken ⊢
    obtain ⟨goesOn, s₂⟩ := taken
    simp only at htaken ⊢
    split
    · exact (tags_of_unarmed (unarmed_armRecv ..)).trans htaken
    · exact htaken

/-! ## Counting -/

/-- The generation of a slot is the number of connections it had, in 32 bits. -/
def Counted (s : UringState) : Prop :=
  ∀ a, (s.connection a).generation = s.incarnation a % 2 ^ 32

/-- What a step can do to a slot's count. -/
def Counts (s s' : UringState) : Prop := ∀ a,
  ((s'.connection a).generation = (s.connection a).generation ∧
    s'.incarnation a = s.incarnation a) ∨
  ((s'.connection a).generation = ((s.connection a).generation + 1) % 2 ^ 32 ∧
    s'.incarnation a = s.incarnation a + 1)

theorem counts_of_tags {s s' : UringState} (h : s'.tags = s.tags) : Counts s s' := fun a =>
  .inl ⟨congrFun (congrArg Prod.fst h) a, congrFun (congrArg (fun t => t.2.1) h) a⟩

theorem Counts.of_tags {s s' s'' : UringState} (h : Counts s s') (htags : s''.tags = s'.tags) :
    Counts s s'' := fun a => by
  have hgeneration : (s''.connection a).generation = (s'.connection a).generation :=
    congrFun (congrArg Prod.fst htags) a
  have hincarnation : s''.incarnation a = s'.incarnation a :=
    congrFun (congrArg (fun t => t.2.1) htags) a
  rw [hgeneration, hincarnation]
  exact h a

theorem handleAcceptCompletion_counts (s : UringState) (r : Nat) (res : Except Errno Nat)
    (more : Bool) : Counts s (handleAcceptCompletion env s r res more) := by
  simp only [handleAcceptCompletion]
  set s₁ := if more = true then s else s.setRing r { s.ring r with acceptArmed := false } with hs₁
  have h₁ : s₁.tags = s.tags := by
    rw [hs₁]
    split <;> rfl
  have hrearm : ∀ t : UringState, Counts s t → ∀ p : Prop, [Decidable p] →
      Counts s (if p then armAccept env t r else t) := by
    intro t ht p _
    split
    · exact ht.of_tags (tags_of_unarmed (unarmed_armAccept env t r))
    · exact ht
  cases res with
  | ok slot =>
    have hmoved : ∀ t : UringState, Counts s t → ∀ p q : Prop, [Decidable p] → [Decidable q] →
        Counts s (if p then moveAcceptOn env t r else if q then armAccept env t r else t) := by
      intro t ht p q _ _
      split
      · exact ht.of_tags (tags_of_unarmed (unarmed_moveAcceptOn env t r))
      · exact hrearm t ht q
    refine hmoved _ ?_ _ _
    split
    · refine Counts.of_tags (fun a => ?_) (tags_of_unarmed (unarmed_armRecv ..))
      have hgeneration : (s₁.connection a).generation = (s.connection a).generation :=
        congrFun (congrArg Prod.fst h₁) a
      have hincarnation : s₁.incarnation a = s.incarnation a :=
        congrFun (congrArg (fun t => t.2.1) h₁) a
      rw [← hgeneration, ← hincarnation]
      simp only [UringState.setRing_connection, UringState.setHistory_connection,
        UringState.setConnection_connection, UringState.setRing_incarnation,
        UringState.setHistory_incarnation]
      by_cases ha : a = (r, slot)
      · rw [ha, Function.update_self, Function.update_self]
        exact .inr ⟨rfl, rfl⟩
      · rw [Function.update_of_ne ha, Function.update_of_ne ha]
        exact .inl ⟨rfl, rfl⟩
    · exact counts_of_tags h₁
  | error e =>
    cases e with
    | canceled => exact counts_of_tags h₁
    | mfile =>
      exact (counts_of_tags h₁).of_tags (tags_of_unarmed (unarmed_armAcceptSomewhere env s₁ _))
    | nobufs => exact hrearm _ (counts_of_tags h₁) _
    | other => exact hrearm _ (counts_of_tags h₁) _

theorem step_counts (s : UringState) (e : Event) : Counts s (step env s e) := by
  cases e with
  | accept r res more =>
    simp only [step]
    split
    · exact handleAcceptCompletion_counts env s r res more
    · exact counts_of_tags rfl
  | recv r cqe =>
    simp only [step]
    split
    · by_cases hdiscards : Discards env s r cqe
      · rw [handleRecvCompletion_discards env hdiscards]
        split
        · exact counts_of_tags (tags_of_unarmed (unarmed_recycleRecvBuffer env s r))
        · exact counts_of_tags rfl
      · have htags := tags_handleRecvCompletion env hdiscards
        have hnoted : ∀ data, Counts s (s.noteReceived (r, cqe.slot) data) :=
          fun _ _ => .inl ⟨rfl, rfl⟩
        split at htags
        · split at htags
          · exact (hnoted _).of_tags htags
          · exact counts_of_tags htags
        · exact counts_of_tags htags
    · exact counts_of_tags rfl
  | send place res =>
    simp only [step]
    split
    · exact counts_of_tags rfl
    · exact counts_of_tags (tags_handleSendCompletion ..)
  | close r =>
    simp only [step]
    split
    · simp only [handleCloseCompletion]
      split
      · exact counts_of_tags (tags_of_unarmed (unarmed_armAcceptSomewhere env s r))
      · exact counts_of_tags rfl
    · exact counts_of_tags rfl
  | flush => exact counts_of_tags (tags_flushBatch ..)
  | sendDeferred answer => exact counts_of_tags (tags_apiSendDeferred ..)
  | setHandlers api batch => exact counts_of_tags rfl

theorem Counts.counted {s s' : UringState} (h : Counts s s') (hcounted : Counted s) :
    Counted s' := fun a => by
  have hbefore := hcounted a
  rcases h a with ⟨hgeneration, hincarnation⟩ | ⟨hgeneration, hincarnation⟩
  · rw [hgeneration, hincarnation, hbefore]
  · rw [hgeneration, hincarnation, hbefore, Nat.mod_add_mod]

theorem Counts.le {s s' : UringState} (h : Counts s s') (a : Slot) :
    s.incarnation a ≤ s'.incarnation a := by
  rcases h a with ⟨-, hincarnation⟩ | ⟨-, hincarnation⟩
  · exact hincarnation.ge
  · exact (Nat.le_succ _).trans hincarnation.ge

/-- Every event may come at any time. -/
abbrev Reaches (s s' : UringState) : Prop := Run.Reaches (step env) (fun _ _ => True) s s'

theorem reaches_counted {s : UringState} (h : Reaches env (startup env) s) : Counted s := by
  refine h.invariant ?_ fun s e hcounted _ => (step_counts env s e).counted hcounted
  have htags : (startup env).tags = ringStartup.tags :=
    tags_of_unarmed (unarmed_armAcceptSomewhere env ringStartup 0)
  have hzero : Counted ringStartup := fun _ => rfl
  exact (counts_of_tags htags).counted hzero

theorem Counted.reaches {s s' : UringState} (h : Counted s) (hrun : Reaches env s s') :
    Counted s' ∧ ∀ a, s.incarnation a ≤ s'.incarnation a :=
  have hstep : ∀ t e, (Counted t ∧ ∀ a, s.incarnation a ≤ t.incarnation a) → True →
      Counted (step env t e) ∧ ∀ a, s.incarnation a ≤ (step env t e).incarnation a :=
    fun t e ht _ => ⟨(step_counts env t e).counted ht.1,
      fun a => (ht.2 a).trans ((step_counts env t e).le a)⟩
  hrun.invariant ⟨h, fun _ => le_rfl⟩ hstep

/-! ## Receive completions -/

/-- A completion of the receive that `ArmRecv` submits for the connection in `slot`. -/
def recvCompletionFor (s : UringState) (slot : Slot) (more hasBuffer : Bool)
    (res : Except Errno (List UInt8)) : RecvCompletion :=
  let ud := userData URING_OP_RECV (s.connection slot).generation slot.2
  { slot := userDataSlot ud, generation := userDataGeneration ud, more := more
    hasBuffer := hasBuffer, res := res }

/-- The completion is taken for one of the connection that has the slot, which receives its bytes. -/
def Delivers (s : UringState) (slot : Slot) (cqe : RecvCompletion) : Prop :=
  ¬ Discards env s slot.1 cqe ∧ ∀ data, cqe.res = .ok data → cqe.hasBuffer = true →
    ((handleRecvCompletion env s slot.1 cqe).history (s.idOf slot)).received =
      (s.historyOf slot).received ++ data

/-- All that is done is to give its buffer back. -/
def Drops (s : UringState) (slot : Slot) (cqe : RecvCompletion) : Prop :=
  Discards env s slot.1 cqe ∧ handleRecvCompletion env s slot.1 cqe =
    if cqe.hasBuffer = true then recycleRecvBuffer env s slot.1 else s

/-- A completion of a receive submitted in `s₁` is, in `s₂`, for the connection it was submitted for:
delivered to it while it has the slot, dropped once another has it. -/
structure ReachesIts (s₁ s₂ : UringState) (slot : Slot) (cqe : RecvCompletion) : Prop where
  its : s₂.idOf slot = s₁.idOf slot → (s₂.connection slot).inUse = true → Delivers env s₂ slot cqe
  earlier : s₂.idOf slot ≠ s₁.idOf slot → Drops env s₂ slot cqe

/-- The generation that is compared with the 24 bits of the tag fits into them, and is not what the
tag of an earlier connection says. -/
structure TagTells (s₁ s₂ : UringState) (slot : Slot) : Prop where
  its : s₂.idOf slot = s₁.idOf slot → (s₂.connection slot).inUse = true →
    (s₂.connection slot).generation < 2 ^ 24
  earlier : s₂.idOf slot ≠ s₁.idOf slot → (s₂.connection slot).inUse = true →
    (s₂.connection slot).generation ≠ (s₁.connection slot).generation % 2 ^ 24

theorem drops_iff {s : UringState} {slot : Slot} {cqe : RecvCompletion} :
    Drops env s slot cqe ↔ Discards env s slot.1 cqe :=
  ⟨And.left, fun h => ⟨h, handleRecvCompletion_discards env h⟩⟩

theorem delivers_iff {s : UringState} {slot : Slot} {cqe : RecvCompletion}
    (hslot : cqe.slot = slot.2) : Delivers env s slot cqe ↔ ¬ Discards env s slot.1 cqe := by
  refine ⟨And.left, fun h => ⟨h, fun data hdata hbuffer => ?_⟩⟩
  have htags := tags_handleRecvCompletion env h
  simp only [hdata, hbuffer, if_true, hslot] at htags
  have hreceived := congrFun (congrArg (fun t => t.2.2) htags) (s.idOf slot)
  refine hreceived.trans ?_
  change ((s.noteReceived slot data).history (s.idOf slot)).received = _
  rw [UringState.noteReceived, UringState.setHistory_history, Function.update_self]

theorem idOf_eq_iff {s₁ s₂ : UringState} {slot : Slot} :
    s₂.idOf slot = s₁.idOf slot ↔ s₂.incarnation slot = s₁.incarnation slot :=
  ⟨fun h => congrArg ConnectionId.incarnation h, fun h => by rw [UringState.idOf, h]; rfl⟩

theorem completion_reachesIts_iff {s₁ s₂ : UringState} (h₁ : Reaches env (startup env) s₁)
    (h₂ : Reaches env s₁ s₂) {slot : Slot} (hslot : slot.2 < env.connectionSlots slot.1)
    (htable : env.connectionSlots slot.1 ≤ URING_MAX_SLOTS) (more hasBuffer : Bool)
    (res : Except Errno (List UInt8)) :
    (ReachesIts env s₁ s₂ slot (recvCompletionFor s₁ slot more hasBuffer res) ↔
      TagTells s₁ s₂ slot) ∧ (s₂.incarnation slot < 2 ^ 24 → TagTells s₁ s₂ slot) := by
  have hcounted₁ := reaches_counted env h₁
  obtain ⟨hcounted₂, hmono⟩ := hcounted₁.reaches env h₂
  have hgeneration₁ := hcounted₁ slot
  have hgeneration₂ := hcounted₂ slot
  have hmono := hmono slot
  have hslot32 : slot.2 < 2 ^ 32 := (hslot.trans_le htable).trans (by decide)
  set cqe := recvCompletionFor s₁ slot more hasBuffer res with hcqe
  have hcqeSlot : cqe.slot = slot.2 := userData_slot hslot32 ..
  have hcqeGeneration : cqe.generation = (s₁.connection slot).generation % 2 ^ 24 :=
    userData_generation hslot32 ..
  have hdiscards : Discards env s₂ slot.1 cqe ↔ ((s₂.connection slot).inUse = true →
      (s₂.connection slot).generation ≠ (s₁.connection slot).generation % 2 ^ 24) := by
    rw [Discards, hcqeSlot, hcqeGeneration]
    have hinTable : ¬ slot.2 ≥ env.connectionSlots slot.1 := Nat.not_le.mpr hslot
    simp only [hinTable, false_or, Prod.mk.eta]
    exact imp_iff_not_or.symm
  refine ⟨⟨fun h => ⟨fun hid hopen => ?_, fun hid hopen => ?_⟩,
    fun h => ⟨fun hid hopen => ?_, fun hid => ?_⟩⟩, fun hfew => ⟨fun hid hopen => ?_,
      fun hid hopen => ?_⟩⟩
  · have hlive := mt hdiscards.mpr (h.its hid hopen).1
    rw [idOf_eq_iff] at hid
    have hsame : (s₂.connection slot).generation = (s₁.connection slot).generation := by
      rw [hgeneration₁, hgeneration₂, hid]
    by_contra hlarge
    exact hlive fun _ => by omega
  · exact hdiscards.mp (h.earlier hid).1 hopen
  · rw [delivers_iff env hcqeSlot, hdiscards]
    have hsmall := h.its hid hopen
    rw [idOf_eq_iff] at hid
    have hsame : (s₂.connection slot).generation = (s₁.connection slot).generation := by
      rw [hgeneration₁, hgeneration₂, hid]
    exact fun hcon => hcon hopen (by omega)
  · rw [drops_iff, hdiscards]
    exact h.earlier hid
  · rw [hgeneration₂]
    omega
  · rw [Ne, idOf_eq_iff] at hid
    rw [hgeneration₁, hgeneration₂]
    omega

/-- A connection is accepted and its receive reports bytes. -/
theorem completion_reachesIts_one :
    let s := step calm (startup calm) (.accept 0 (.ok 5) true)
    (ReachesIts calm s s (0, 5) (recvCompletionFor s (0, 5) true true (.ok (ascii "G"))) ↔
      TagTells s s (0, 5)) ∧ (s.incarnation (0, 5) < 2 ^ 24 → TagTells s s (0, 5)) :=
  completion_reachesIts_iff calm (.step _ .start trivial) .start (by decide) (by decide) true true
    (.ok (ascii "G"))

theorem handleAcceptCompletion_accepts (s : UringState) {r slot : Nat}
    (hslot : slot < env.connectionSlots r) (more : Bool) :
    ((handleAcceptCompletion env s r (.ok slot) more).connection (r, slot)).inUse = true ∧
      (handleAcceptCompletion env s r (.ok slot) more).incarnation (r, slot) =
        s.incarnation (r, slot) + 1 := by
  have hkept : ∀ t t' : UringState, t'.unarmed = t.unarmed →
      (t.connection (r, slot)).inUse = true ∧
        t.incarnation (r, slot) = s.incarnation (r, slot) + 1 →
      (t'.connection (r, slot)).inUse = true ∧
        t'.incarnation (r, slot) = s.incarnation (r, slot) + 1 := by
    intro t t' hunarmed ht
    have hincarnation : t'.incarnation = t.incarnation :=
      (congrArg UringState.incarnation hunarmed : t'.unarmed.incarnation = t.unarmed.incarnation)
    rw [inUse_of_serving_eq (serving_of_unarmed hunarmed), hincarnation]
    exact ht
  simp only [handleAcceptCompletion, if_pos hslot]
  set s₁ := if more = true then s else s.setRing r { s.ring r with acceptArmed := false } with hs₁
  have hincarnation : s₁.incarnation = s.incarnation := by
    rw [hs₁]
    split <;> rfl
  have hmoved : ∀ t : UringState, (t.connection (r, slot)).inUse = true ∧
      t.incarnation (r, slot) = s.incarnation (r, slot) + 1 → ∀ p q : Prop, [Decidable p] →
      [Decidable q] → ∀ t' : UringState,
      t' = (if p then moveAcceptOn env t r else if q then armAccept env t r else t) →
      (t'.connection (r, slot)).inUse = true ∧
        t'.incarnation (r, slot) = s.incarnation (r, slot) + 1 := by
    intro t ht p q _ _ t' rfl
    split
    · exact hkept t _ (unarmed_moveAcceptOn env t r) ht
    split
    · exact hkept t _ (unarmed_armAccept env t r) ht
    · exact ht
  refine hmoved _ (hkept _ _ (unarmed_armRecv ..) ?_) _ _ _ rfl
  simp only [UringState.setRing_connection, UringState.setHistory_connection,
    UringState.setConnection_connection, UringState.setRing_incarnation,
    UringState.setHistory_incarnation, Function.update_self, hincarnation]
  exact ⟨trivial, trivial⟩

theorem closeConnection_inUse (s : UringState) (slot : Slot) :
    ((closeConnection s slot).connection slot).inUse = false := by
  simp only [closeConnection]
  split
  · rename_i hgone
    simpa using hgone
  · have hclosed : ∀ t : UringState, t.connection = (s.setConnection slot { s.connection slot with
        inUse := false, recvArmed := false
        inBuf := partialFree (s.connection slot).inBuf }).connection →
        (t.connection slot).inUse = false := fun t ht => by
      rw [ht, UringState.setConnection_connection, Function.update_self]
    split
    · exact hclosed _ rfl
    · exact hclosed _ rfl

theorem handleRecvCompletion_shutdown {s : UringState} {r : Nat} {cqe : RecvCompletion}
    (hdiscards : ¬ Discards env s r cqe) (hres : cqe.res = .ok []) (hbuffer : cqe.hasBuffer = false) :
    ((handleRecvCompletion env s r cqe).connection (r, cqe.slot)).inUse = false ∧
      (handleRecvCompletion env s r cqe).incarnation = s.incarnation := by
  refine ⟨?_, ?_⟩
  · simp only [handleRecvCompletion]
    rw [if_neg (show ¬ (cqe.slot ≥ env.connectionSlots r ∨ _ ∨ _) from hdiscards)]
    simp only [hres]
    exact closeConnection_inUse ..
  · have htags := tags_handleRecvCompletion env hdiscards
    simp only [hres, hbuffer, Bool.false_eq_true, if_false] at htags
    exact congrArg (fun t => t.2.1) htags

theorem reaches_incarnation (n : Nat) : ∃ s, Reaches calm (startup calm) s ∧
    s.incarnation (0, 0) = n ∧ (s.connection (0, 0)).inUse = false := by
  induction n with
  | zero => exact ⟨_, .start, by decide, by decide⟩
  | succ n ih =>
    obtain ⟨s, hrun, hcount, -⟩ := ih
    set s₁ := step calm s (.accept 0 (.ok 0) true) with hs₁
    have hslot : 0 < calm.connectionSlots 0 := by decide
    obtain ⟨hopen, haccepted⟩ := handleAcceptCompletion_accepts calm s (r := 0) hslot true
    have hstep₁ : s₁ = handleAcceptCompletion calm s 0 (.ok 0) true := rfl
    rw [← hstep₁] at hopen haccepted
    set cqe : RecvCompletion := {
      slot := 0
      generation := (s₁.connection (0, 0)).generation
      more := false
      hasBuffer := false
      res := .ok [] }
    have hlive : ¬ Discards calm s₁ 0 cqe := by
      rintro (hcon | hcon | hcon)
      · exact absurd hslot (Nat.not_lt.mpr hcon)
      · exact hcon hopen
      · exact hcon rfl
    obtain ⟨hclosed, hkept⟩ := handleRecvCompletion_shutdown calm hlive rfl rfl
    refine ⟨step calm s₁ (.recv 0 cqe), .step _ (.step _ hrun trivial) trivial, ?_, hclosed⟩
    have hstep₂ : step calm s₁ (.recv 0 cqe) = handleRecvCompletion calm s₁ 0 cqe := rfl
    rw [hstep₂, hkept, haccepted, hcount]

/-- The connection that is accepted behind 2^24 - 1 others has a generation that no tag can name. -/
theorem dropsLiveConnection :
    ¬ ∀ (env : Environment) (s₁ s₂ : UringState), Reaches env (startup env) s₁ → Reaches env s₁ s₂ →
      ∀ slot : Slot, slot.2 < env.connectionSlots slot.1 →
        env.connectionSlots slot.1 ≤ URING_MAX_SLOTS → ∀ more hasBuffer res,
        ReachesIts env s₁ s₂ slot (recvCompletionFor s₁ slot more hasBuffer res) := by
  intro h
  obtain ⟨s, hrun, hcount, -⟩ := reaches_incarnation (2 ^ 24 - 1)
  have hslot : 0 < calm.connectionSlots 0 := by decide
  obtain ⟨hopen, haccepted⟩ := handleAcceptCompletion_accepts calm s (r := 0) hslot true
  set s₁ := handleAcceptCompletion calm s 0 (.ok 0) true with hs₁
  have hrun₁ : Reaches calm (startup calm) (step calm s (.accept 0 (.ok 0) true)) :=
    .step _ hrun trivial
  have hstep : step calm s (.accept 0 (.ok 0) true) = s₁ := rfl
  rw [hstep] at hrun₁
  have hlive := (h calm s₁ s₁ hrun₁ .start (0, 0) hslot (by decide) true true (.ok (ascii "G"))).its
    rfl hopen
  refine hlive.1 (.inr (.inr ?_))
  have hgeneration := reaches_counted calm hrun₁ (0, 0)
  have htag : (recvCompletionFor s₁ (0, 0) true true (.ok (ascii "G"))).generation =
      (s₁.connection (0, 0)).generation % 2 ^ 24 :=
    userData_generation (by decide) ..
  have htagSlot : (recvCompletionFor s₁ (0, 0) true true (.ok (ascii "G"))).slot = 0 :=
    userData_slot (by decide) ..
  rw [htag, htagSlot, hgeneration, haccepted, hcount]
  omega

/-! ## Deferred answers -/

/-- What `AmmServer_APISendDeferred` is called with, the token as it was handed out. -/
def DeferredAnswer.ofToken (token : Nat) (response : APIResponse) : DeferredAnswer where
  ring := deferTokenRing token
  slot := deferTokenSlot token
  generation := deferTokenGeneration token
  response := response

/-- At most one send is submitted, on the connection that has the slot, and no other is touched. -/
structure OnlyOn (slot : Slot) (s s' : UringState) : Prop where
  sends : s'.sends = s.sends ∨ ∃ ticket, s'.sends = s.sends ++ [⟨s.idOf slot, ticket⟩]
  others : ∀ id, id ≠ s.idOf slot → s'.history id = s.history id

theorem OnlyOn.of_same {slot : Slot} {s s₁ s₂ : UringState} (h : OnlyOn slot s₁ s₂)
    (hsends : s₁.sends = s.sends) (hincarnation : s₁.incarnation = s.incarnation)
    (hhistory : s₁.history = s.history) : OnlyOn slot s s₂ := by
  have hid : s₁.idOf slot = s.idOf slot := by rw [UringState.idOf, hincarnation]; rfl
  exact ⟨by rw [← hsends, ← hid]; exact h.sends,
    fun id hne => by rw [← hhistory]; exact h.others id (hid ▸ hne)⟩

theorem submitSend_onlyOn (s : UringState) (slot : Slot) (ticket : Nat) (answer : Option Answer) :
    OnlyOn slot s (submitSend env s slot ticket answer) := by
  simp only [submitSend]
  split
  · refine ⟨.inr ⟨ticket, rfl⟩, fun id hid => ?_⟩
    exact Function.update_of_ne hid ..
  · exact ⟨.inl rfl, fun _ _ => rfl⟩

theorem sendStatusAndClose_onlyOn (s : UringState) (slot : Slot) (statusCode offset : Nat) :
    OnlyOn slot s (sendStatusAndClose env s slot statusCode offset) := by
  unfold sendStatusAndClose
  split
  · refine ⟨.inl (closeConnection_sends s slot), fun id _ => ?_⟩
    simp only [closeConnection]
    split_ifs <;> rfl
  · rename_i hacquire
    obtain ⟨-, -, rfl⟩ := acquireSendTicket_eq_some hacquire
    exact (submitSend_onlyOn ..).of_same rfl rfl rfl

/-- Either nothing happens, or the connection that has the slot is waiting for a deferred answer and
has the token's generation. -/
theorem apiSendDeferred_onlyOn (s : UringState) (answer : DeferredAnswer) :
    apiSendDeferred env s answer = s ∨
      ((s.connection (answer.ring, answer.slot)).inUse = true ∧
        (s.connection (answer.ring, answer.slot)).deferred = true ∧
        (s.connection (answer.ring, answer.slot)).generation % 2 ^ 24 = answer.generation ∧
        OnlyOn (answer.ring, answer.slot) s (apiSendDeferred env s answer)) := by
  simp only [apiSendDeferred]
  split
  · exact .inl rfl
  split
  · exact .inl rfl
  rename_i htheirs
  rw [not_or, not_or, not_not, not_not, not_not] at htheirs
  split
  · exact .inl rfl
  rename_i hacquire
  obtain ⟨-, -, rfl⟩ := acquireSendTicket_eq_some hacquire
  refine .inr ⟨htheirs.1, htheirs.2.1, htheirs.2.2, ?_⟩
  split
  · exact (sendStatusAndClose_onlyOn ..).of_same rfl rfl rfl
  split
  · exact (sendStatusAndClose_onlyOn ..).of_same rfl rfl rfl
  · exact (submitSend_onlyOn ..).of_same rfl rfl rfl

/-- The handler defers every request. -/
def deferring : Environment := { calm with handler := fun _ _ => { deferred := true } }

end AmmarServer.Uring
