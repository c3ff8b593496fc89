import AmmarServer.Threads.UringTickets

/-! The queues of connections whose receive could not be armed. Serving a connection leaves them as
they are, and leaves no connection without a receive or a send that had one before. -/

namespace AmmarServer.Uring
open ApiProtocol Pipeline LinkQueue

/-- Nothing is outstanding on the connection, nor will a deferred answer come to it. -/
structure UringConnection.Stopped (conn : UringConnection) : Prop where
  inUse : conn.inUse = true
  recvArmed : conn.recvArmed = false
  sendInFlight : conn.sendInFlight = false
  deferred : conn.deferred = false

/-- The queues of all rings. -/
def UringState.rearm (s : UringState) : Table Nat Nat where
  head r := (s.ring r).rearmHead
  tail r := (s.ring r).rearmTail
  next slot := (s.connection slot).nextRearm
  queued slot := (s.connection slot).waitingForRearm

/-! ## Steps that leave the queues alone -/

/-- No connection stops but one perhaps, whatever becomes of the rest of the state. -/
structure SettlesBut (slot : Slot) (s s' : UringState) : Prop where
  rearm : s'.rearm = s.rearm
  stopped : ∀ a, a ≠ slot → (s'.connection a).Stopped → (s.connection a).Stopped

structure Settles (s s' : UringState) : Prop where
  rearm : s'.rearm = s.rearm
  stopped : ∀ a, (s'.connection a).Stopped → (s.connection a).Stopped

section
variable {s s₁ s₂ : UringState} {slot : Slot}

theorem Settles.refl (s : UringState) : Settles s s := ⟨rfl, fun _ => id⟩

theorem Settles.trans (h : Settles s s₁) (h₁ : Settles s₁ s₂) : Settles s s₂ :=
  ⟨h₁.rearm.trans h.rearm, fun a ha => h.stopped a (h₁.stopped a ha)⟩

theorem Settles.but (h : Settles s s₁) (slot : Slot) : SettlesBut slot s s₁ :=
  ⟨h.rearm, fun a _ => h.stopped a⟩

theorem SettlesBut.trans (h : SettlesBut slot s s₁) (h₁ : SettlesBut slot s₁ s₂) :
    SettlesBut slot s s₂ :=
  ⟨h₁.rearm.trans h.rearm, fun a ha hstopped => h.stopped a ha (h₁.stopped a ha hstopped)⟩

theorem SettlesBut.settles (h : SettlesBut slot s s₁) (hslot : ¬ (s₁.connection slot).Stopped) :
    Settles s s₁ := by
  refine ⟨h.rearm, fun a hstopped => h.stopped a ?_ hstopped⟩
  rintro rfl
  exact hslot hstopped

/-- Only the parts of the state differ that neither the queues nor the connections are in. -/
theorem settles_same (hconn : s₁.connection = s.connection)
    (hring : ∀ r, (s₁.ring r).rearmHead = (s.ring r).rearmHead ∧
      (s₁.ring r).rearmTail = (s.ring r).rearmTail) : Settles s s₁ := by
  refine ⟨?_, fun a => by rw [hconn]; exact id⟩
  unfold UringState.rearm
  rw [hconn, funext fun r => (hring r).1, funext fun r => (hring r).2]

theorem settles_setRing {r : Nat} {ring : UringRing} (hhead : ring.rearmHead = (s.ring r).rearmHead)
    (htail : ring.rearmTail = (s.ring r).rearmTail) : Settles s (s.setRing r ring) := by
  refine settles_same rfl fun r' => ?_
  rw [UringState.setRing_ring]
  by_cases hr : r' = r
  · subst hr
    rw [Function.update_self]
    exact ⟨hhead, htail⟩
  · rw [Function.update_of_ne hr]
    exact ⟨rfl, rfl⟩

theorem settlesBut_setConnection {conn : UringConnection}
    (hnext : conn.nextRearm = (s.connection slot).nextRearm)
    (hqueued : conn.waitingForRearm = (s.connection slot).waitingForRearm) :
    SettlesBut slot s (s.setConnection slot conn) := by
  refine ⟨?_, fun a ha hstopped => ?_⟩
  · unfold UringState.rearm
    rw [map_setConnection UringConnection.nextRearm hnext,
      map_setConnection UringConnection.waitingForRearm hqueued]
    rfl
  · rwa [UringState.setConnection_connection, Function.update_of_ne ha] at hstopped

theorem settles_setConnection {conn : UringConnection}
    (hnext : conn.nextRearm = (s.connection slot).nextRearm)
    (hqueued : conn.waitingForRearm = (s.connection slot).waitingForRearm)
    (hstopped : conn.Stopped → (s.connection slot).Stopped) :
    Settles s (s.setConnection slot conn) := by
  refine ⟨(settlesBut_setConnection hnext hqueued).rearm, fun a ha => ?_⟩
  rw [UringState.setConnection_connection] at ha
  by_cases haslot : a = slot
  · rw [haslot, Function.update_self] at ha
    exact haslot ▸ hstopped ha
  · rwa [Function.update_of_ne haslot] at ha

end

variable {env : Environment}

theorem queueForTicket_settles (s : UringState) (slot : Slot) : Settles s (queueForTicket s slot) := by
  simp only [queueForTicket]
  split
  · exact .refl s
  generalize hwaiting : s.setConnection slot _ = s₁
  have hwaits : Settles s s₁ := by
    rw [← hwaiting]
    exact settles_setConnection rfl rfl fun h => ⟨h.1, h.2, h.3, h.4⟩
  split
  · exact hwaits.trans (settles_setRing rfl rfl)
  · rename_i tail _
    have hlinked : Settles s₁ (s₁.setConnection (slot.1, tail)
        { s₁.connection (slot.1, tail) with nextWaiting := some slot.2 }) :=
      settles_setConnection rfl rfl fun h => ⟨h.1, h.2, h.3, h.4⟩
    exact (hwaits.trans hlinked).trans (settles_setRing rfl rfl)

theorem popWaiting_settles (s : UringState) (r slot : Nat) : Settles s (popWaiting s r slot) := by
  unfold popWaiting
  refine .trans (settles_setRing ?_ ?_)
    (settles_setConnection ?_ ?_ fun h => ⟨h.1, h.2, h.3, h.4⟩)
  all_goals rfl

theorem takeWaitingOf_settles (r fuel : Nat) (s : UringState) :
    Settles s (takeWaitingOf env r fuel s).2 := by
  induction fuel generalizing s with
  | zero => exact .refl s
  | succ fuel ih =>
    unfold takeWaitingOf
    split
    · exact .refl s
    · simp only
      split
      · exact (popWaiting_settles s r _).trans (settles_same rfl fun _ => ⟨rfl, rfl⟩)
      · exact (popWaiting_settles s r _).trans (ih _)

theorem takeWaitingFrom_settles (rings : List Nat) (s : UringState) :
    Settles s (takeWaitingFrom env rings s).2 := by
  induction rings generalizing s with
  | nil => exact .refl s
  | cons r rs ih =>
    have htake := @takeWaitingOf_settles env r (env.connectionSlots r + 1) s
    unfold takeWaitingFrom
    split
    · rename_i hsome
      rw [hsome] at htake
      exact htake
    · rename_i hnone
      rw [hnone] at htake
      exact htake.trans (ih _)

theorem submitSend_settles (s : UringState) (slot : Slot) (ticket : Nat) (answer : Option Answer) :
    Settles s (submitSend env s slot ticket answer) := by
  simp only [submitSend]
  split
  · have hnoted : Settles s (s.asked.noteAnswer slot answer) := settles_same rfl fun _ => ⟨rfl, rfl⟩
    have hflying : Settles (s.asked.noteAnswer slot answer)
        ((s.asked.noteAnswer slot answer).setConnection slot
          { (s.asked.noteAnswer slot answer).connection slot with sendInFlight := true }) :=
      settles_setConnection rfl rfl fun h => by cases h.sendInFlight
    exact (hnoted.trans hflying).trans (settles_same rfl fun _ => ⟨rfl, rfl⟩)
  · exact settles_same rfl fun _ => ⟨rfl, rfl⟩

theorem closeConnection_settles (s : UringState) (slot : Slot) :
    Settles s (closeConnection s slot) := by
  simp only [closeConnection]
  split
  · exact .refl s
  generalize hgone : s.setConnection slot _ = s₁
  have hcloses : Settles s s₁ := by
    rw [← hgone]
    exact settles_setConnection rfl rfl fun h => by cases h.inUse
  generalize hcounted : s₁.setRing slot.1 _ = s₂
  have hcounts : Settles s s₂ := by
    rw [← hcounted]
    exact hcloses.trans (settles_setRing rfl rfl)
  split
  · exact hcounts.trans (settles_same rfl fun _ => ⟨rfl, rfl⟩)
  · exact hcounts.trans (settles_same rfl fun _ => ⟨rfl, rfl⟩)

theorem closeConnection_not_stopped (s : UringState) (slot : Slot) :
    ¬ ((closeConnection s slot).connection slot).Stopped := by
  intro h
  have hinUse := h.inUse
  simp only [closeConnection] at hinUse
  split at hinUse
  · rename_i hgone
    exact hgone hinUse
  · split at hinUse
    · simp at hinUse
    · simp at hinUse

theorem sendResponse_settles (s : UringState) (slot : Slot) (ticket : Nat) (response : List UInt8)
    (closeWhenWritten : Bool) (answer : Answer) :
    Settles s (sendResponse env s slot ticket response closeWhenWritten answer) :=
  (settles_same rfl fun _ => ⟨rfl, rfl⟩ : Settles s (s.setTicket ticket _)).trans
    (submitSend_settles ..)

theorem acquireSendTicket_settles {s s' : UringState} {ticket : Nat}
    (h : acquireSendTicket s = some (ticket, s')) : Settles s s' := by
  obtain ⟨-, -, rfl⟩ := acquireSendTicket_eq_some h
  exact settles_same rfl fun _ => ⟨rfl, rfl⟩

theorem sendStatusAndClose_settles (s : UringState) (slot : Slot) (statusCode offset : Nat) :
    Settles s (sendStatusAndClose env s slot statusCode offset) := by
  unfold sendStatusAndClose
  split
  · exact closeConnection_settles s slot
  · rename_i ticket s' hacquire
    exact (acquireSendTicket_settles hacquire).trans (sendResponse_settles ..)

/-- Status lines find a place in the submission queue. -/
def StatusFits (env : Environment) : Prop := ∀ n, env.getSqe .status n = true

theorem sendStatusAndClose_not_stopped (hstatus : StatusFits env) (s : UringState) (slot : Slot)
    (statusCode offset : Nat) :
    ¬ ((sendStatusAndClose env s slot statusCode offset).connection slot).Stopped := by
  unfold sendStatusAndClose
  split
  · exact closeConnection_not_stopped s slot
  · intro h
    have hsent := h.sendInFlight
    have hfits : ∀ n, env.getSqe (sendOp (some ⟨offset, true⟩)) n = true := hstatus
    simp only [sendResponse, submitSend] at hsent
    rw [if_pos (hfits _)] at hsent
    simp at hsent

theorem SettlesBut.status (hstatus : StatusFits env) {s s₁ : UringState} {slot : Slot}
    (h : SettlesBut slot s s₁) (statusCode offset : Nat) :
    Settles s (sendStatusAndClose env s₁ slot statusCode offset) :=
  (h.trans ((sendStatusAndClose_settles s₁ slot statusCode offset).but slot)).settles
    (sendStatusAndClose_not_stopped hstatus s₁ slot statusCode offset)

theorem SettlesBut.close {s s₁ : UringState} {slot : Slot} (h : SettlesBut slot s s₁) :
    Settles s (closeConnection s₁ slot) :=
  (h.trans ((closeConnection_settles s₁ slot).but slot)).settles (closeConnection_not_stopped s₁ slot)

theorem releaseSendTicket_settles (s : UringState) (ticket : Nat) :
    Settles s (releaseSendTicket s ticket) :=
  settles_same rfl fun _ => ⟨rfl, rfl⟩

theorem asked_settles (s : UringState) : Settles s s.asked := settles_same rfl fun _ => ⟨rfl, rfl⟩

theorem freeIn_settles (s : UringState) (slot : Slot) : Settles s (freeIn s slot) :=
  settles_setConnection rfl rfl fun h => ⟨h.1, h.2, h.3, h.4⟩

theorem keepTail_settles {s s' : UringState} {slot : Slot} {buf : List UInt8} {consumed : Nat}
    (h : keepTail env s slot buf consumed = some s') : Settles s s' := by
  obtain ⟨kept, -, rfl⟩ := Option.map_eq_some_iff.mp h
  exact (asked_settles s).trans
    (settles_setConnection rfl rfl fun h => ⟨h.1, h.2, h.3, h.4⟩)

/-! ## Serving -/

theorem deferRequest_settles (hstatus : StatusFits env) (s : UringState) (slot : Slot) (ticket : Nat)
    (buf : List UInt8) (frame : ApiFrame) (method : TypesOfRequests) :
    Settles s (deferRequest env s slot ticket buf frame method) := by
  simp only [deferRequest]
  generalize hnoted : (releaseSendTicket s ticket).setHistory slot _ = s₁
  have h₁ : Settles s s₁ := by
    rw [← hnoted]
    exact settles_same rfl fun _ => ⟨rfl, rfl⟩
  generalize hdeferred : s₁.setConnection slot _ = s₂
  have h₂ : Settles s s₂ := by
    rw [← hdeferred]
    exact h₁.trans (settles_setConnection rfl rfl fun h => by cases h.deferred)
  split
  · rename_i s₃ hkeep
    exact h₂.trans (keepTail_settles hkeep)
  · have hasked : Settles s s₂.asked := h₂.trans (asked_settles s₂)
    have hundone : SettlesBut slot s (s₂.asked.setConnection slot
        { s₂.connection slot with deferred := false }) :=
      (hasked.but slot).trans (settlesBut_setConnection rfl rfl)
    exact hundone.status hstatus 413 _

theorem answerRequest_settles (hstatus : StatusFits env) (s : UringState) (slot : Slot)
    (ticket : Nat) (buf : List UInt8) (frame : ApiFrame) (method : TypesOfRequests)
    (res : APIResponse) : Settles s (answerRequest env s slot ticket buf frame method res) := by
  simp only [answerRequest]
  split
  · exact deferRequest_settles hstatus s slot ticket buf frame method
  · split
    · exact ((releaseSendTicket_settles s ticket).trans (freeIn_settles ..)).trans (sendStatusAndClose_settles ..)
    · split
      · exact ((asked_settles s).trans (releaseSendTicket_settles _ ticket)).trans
          (sendStatusAndClose_settles ..)
      · rename_i s₁ hkeep
        exact (keepTail_settles hkeep).trans (sendResponse_settles ..)

theorem prepareUnbatched_settles (s : UringState) (serving : List UringBatchServing) (slot : Slot) :
    Settles s (prepareUnbatched env s serving slot).1 := by
  simp only [prepareUnbatched]
  split
  · split
    · exact queueForTicket_settles s slot
    · rename_i ticket s₁ hacquire
      have hacquired := acquireSendTicket_settles hacquire
      split
      · exact ((hacquired.trans (releaseSendTicket_settles s₁ ticket)).trans
          (freeIn_settles _ slot)).trans (sendStatusAndClose_settles ..)
      · exact hacquired
  · exact closeConnection_settles s slot

theorem prepareBatch_settles (entries : List UringBatchEntry)
    (acc : UringState × List UringBatchServing) :
    Settles acc.1 (entries.foldl (prepareBatchEntry env) acc).1 := by
  induction entries generalizing acc with
  | nil => exact .refl _
  | cons entry entries ih =>
    refine Settles.trans ?_ (ih _)
    simp only [prepareBatchEntry]
    split
    · exact .refl _
    · have hunbatched : Settles acc.1 (acc.1.setConnection entry.slot
          { acc.1.connection entry.slot with batched := false }) :=
        settles_setConnection rfl rfl fun h => ⟨h.1, h.2, h.3, h.4⟩
      exact hunbatched.trans (prepareUnbatched_settles ..)

theorem answerBatch_settles (hstatus : StatusFits env)
    (served : List (UringBatchServing × APIResponse)) (s : UringState) :
    Settles s (served.foldl (answerBatchEntry env) s) := by
  induction served generalizing s with
  | nil => exact .refl s
  | cons x served ih => exact (answerRequest_settles hstatus ..).trans (ih _)

theorem flushBatch_settles (hstatus : StatusFits env) (s : UringState) :
    Settles s (flushBatch env s) := by
  have htaken : Settles s { s with batchPending := [] } := settles_same rfl fun _ => ⟨rfl, rfl⟩
  have hprepared := htaken.trans
    (@prepareBatch_settles env s.batchPending ({ s with batchPending := [] }, []))
  simp only [flushBatch]
  split
  · exact hprepared
  · refine (hprepared.trans ?_).trans (answerBatch_settles hstatus ..)
    exact settles_same rfl fun _ => ⟨rfl, rfl⟩

theorem serveNextRequest_settles (hstatus : StatusFits env) (s : UringState) (slot : Slot)
    (buf : List UInt8) : Settles s (serveNextRequest env s slot buf) := by
  simp only [serveNextRequest]
  split
  · exact .refl s
  split
  · cases hkeep : keepTail env s slot buf 0 with
    | some s₁ => exact keepTail_settles hkeep
    | none => exact (asked_settles s).trans (sendStatusAndClose_settles ..)
  · exact (freeIn_settles s slot).trans (sendStatusAndClose_settles ..)
  · split
    · generalize hflushed : (if s.batchPending.length ≥ AMMSERVER_API_MAX_BATCH then flushBatch env s
        else s) = s₁
      have h₁ : Settles s s₁ := by
        rw [← hflushed]
        split
        · exact flushBatch_settles hstatus s
        · exact .refl s
      split
      · exact (h₁.trans (asked_settles s₁)).trans (sendStatusAndClose_settles ..)
      · rename_i s₂ hkeep
        have hnoted : Settles s₂ (s₂.setHistory slot
            { s₂.historyOf slot with batchedAt := s.offsetOf slot buf.length }) :=
          settles_same rfl fun _ => ⟨rfl, rfl⟩
        generalize s₂.setHistory slot _ = s₃ at hnoted ⊢
        have hbatched : Settles s₃ (s₃.setConnection slot
            { s₃.connection slot with batched := true }) :=
          settles_setConnection rfl rfl fun h => ⟨h.1, h.2, h.3, h.4⟩
        exact (((h₁.trans (keepTail_settles hkeep)).trans hnoted).trans hbatched).trans
          (settles_same rfl fun _ => ⟨rfl, rfl⟩)
    · split
      · split
        · exact (asked_settles s).trans (sendStatusAndClose_settles ..)
        · rename_i s₁ hkeep
          exact (keepTail_settles hkeep).trans (queueForTicket_settles s₁ slot)
      · rename_i ticket s₁ hacquire
        have hacquired := acquireSendTicket_settles hacquire
        have hfreed : Settles s (freeIn (releaseSendTicket s₁ ticket) slot) :=
          (hacquired.trans (releaseSendTicket_settles s₁ ticket)).trans (freeIn_settles _ slot)
        split
        · exact hfreed.trans (sendStatusAndClose_settles ..)
        · split
          · exact hfreed.trans (sendStatusAndClose_settles ..)
          · exact (hacquired.trans (asked_settles s₁)).trans (answerRequest_settles hstatus ..)

end AmmarServer.Uring
