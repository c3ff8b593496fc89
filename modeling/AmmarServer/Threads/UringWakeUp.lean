import AmmarServer.Lib.Run
import AmmarServer.Threads.UringQuiet

/-! Connections that wait for a send ticket, and the sends whose completions wake them, over whole
runs of the ring server. -/

namespace AmmarServer.Uring
open ApiProtocol CString Pipeline

variable {env : Environment} {spare : Slot → Prop}

/-! ## Receiving -/

theorem Answerable.congr {s s' : UringState} {slot : Slot} {buf : List UInt8}
    (h : Answerable env s slot buf) (hbatch : s'.apiBatchHandler = s.apiBatchHandler)
    (hbatched : (s'.connection slot).batched = (s.connection slot).batched)
    (hdeferred : (s'.connection slot).deferred = (s.connection slot).deferred) :
    Answerable env s' slot buf :=
  ⟨h.complete, hbatch.trans h.unbatched, h.answered, hbatched.trans h.batched,
    hdeferred.trans h.deferred⟩

theorem Answerable.of_unarmed {s s' : UringState} {slot : Slot} {buf : List UInt8}
    (h : Answerable env s slot buf) (hunarmed : s'.unarmed = s.unarmed) :
    Answerable env s' slot buf := by
  have hconn : (s'.connection slot).unarmed = (s.connection slot).unarmed :=
    congrFun (congrArg UringState.connection hunarmed) slot
  exact h.congr
    (congrArg UringState.apiBatchHandler hunarmed :
      s'.unarmed.apiBatchHandler = s.unarmed.apiBatchHandler)
    (congrArg UringConnection.batched hconn :
      (s'.connection slot).unarmed.batched = (s.connection slot).unarmed.batched)
    (congrArg UringConnection.deferred hconn :
      (s'.connection slot).unarmed.deferred = (s.connection slot).unarmed.deferred)

/-- Bytes that leave a complete request do so where it is answered at once, or on a connection that
waits for nothing. -/
def Stirs (env : Environment) (s : UringState) (slot : Slot) (buf : List UInt8) : Prop :=
  Complete buf → Excused (s.connection slot) ∨ Answerable env s slot buf

/-- `data` has been stored behind what the connection holds; only this connection may have come to
wait. -/
structure Stored (env : Environment) (spare : Slot → Prop) (s : UringState) (slot : Slot)
    (data : List UInt8) (s' : UringState) : Prop where
  staffed : Staffed env [] s'
  but : QuietBut slot spare s'
  sends : s'.sends = s.sends
  apiBatchHandler : s'.apiBatchHandler = s.apiBatchHandler
  inUse : (s'.connection slot).inUse = (s.connection slot).inUse
  waitingForTicket : (s'.connection slot).waitingForTicket = (s.connection slot).waitingForTicket
  sendInFlight : (s'.connection slot).sendInFlight = (s.connection slot).sendInFlight
  batched : (s'.connection slot).batched = (s.connection slot).batched
  deferred : (s'.connection slot).deferred = (s.connection slot).deferred
  data : (s'.connection slot).inBuf.data = (s.connection slot).inBuf.data ++ data

theorem stored_of_append {s s₂ : UringState} (h : Staffed env [] s) (hquiet : Quiet spare s)
    {slot : Slot} {data : List UInt8}
    (happend : appendIn env (s.noteReceived slot data) slot data = (true, s₂)) :
    Stored env spare s slot data s₂ := by
  obtain ⟨grown, hgrown, rfl⟩ := appendIn_true env happend
  have hnoted : Works env [] s (s.noteReceived slot data) := h.setHistory ..
  have hasked : Works env [] s (s.noteReceived slot data).asked :=
    hnoted.trans (hnoted.of_unarmed rfl)
  have hset : Works env [] s ((s.noteReceived slot data).asked.setConnection slot
      { s.connection slot with inBuf := grown }) :=
    hasked.trans (hasked.setConnection rfl rfl id id)
  have hbut : QuietBut slot spare (s.noteReceived slot data).asked := hquiet.but slot
  refine ⟨hset.toStaffed, quietBut_setConnection hbut _, rfl, rfl, ?_, ?_, ?_, ?_, ?_, ?_⟩
  all_goals rw [UringState.setConnection_connection, Function.update_self]
  · rfl
  · rfl
  · rfl
  · rfl
  · rfl
  · exact hgrown

theorem Stored.of_unarmed {s s₁ s₂ : UringState} {slot : Slot} {data : List UInt8}
    (h : Stored env spare s slot data s₁) (hunarmed : s₂.unarmed = s₁.unarmed) :
    Stored env spare s slot data s₂ := by
  have hconn : (s₂.connection slot).unarmed = (s₁.connection slot).unarmed :=
    congrFun (congrArg UringState.connection hunarmed) slot
  have hfield : ∀ {β : Type} (field : UringConnection → β), (∀ c, field c.unarmed = field c) →
      field (s₂.connection slot) = field (s₁.connection slot) := fun field hfield => by
    rw [← hfield, hconn, hfield]
  exact ⟨(h.staffed.of_unarmed hunarmed).toStaffed, h.but.of_unarmed hunarmed,
    (sends_of_unarmed hunarmed).trans h.sends,
    (congrArg UringState.apiBatchHandler hunarmed :
      s₂.unarmed.apiBatchHandler = s₁.unarmed.apiBatchHandler).trans h.apiBatchHandler,
    (hfield UringConnection.inUse fun _ => rfl).trans h.inUse,
    (hfield UringConnection.waitingForTicket fun _ => rfl).trans h.waitingForTicket,
    (hfield UringConnection.sendInFlight fun _ => rfl).trans h.sendInFlight,
    (hfield UringConnection.batched fun _ => rfl).trans h.batched,
    (hfield UringConnection.deferred fun _ => rfl).trans h.deferred,
    (hfield (fun c => c.inBuf.data) fun _ => rfl).trans h.data⟩

theorem Stored.stirs {s s' : UringState} {slot : Slot} {data : List UInt8}
    (h : Stored env spare s slot data s')
    (hstirs : s.sends = [] → spare slot ∨ Stirs env s slot ((s.connection slot).inBuf.data ++ data))
    (hnone : s'.sends = []) : spare slot ∨ Stirs env s' slot (s'.connection slot).inBuf.data := by
  refine (hstirs (h.sends ▸ hnone)).imp id fun hstirs hcomplete => ?_
  rw [h.data] at hcomplete ⊢
  refine (hstirs hcomplete).imp (fun hexcused hflag hinUse => ?_)
    fun hanswerable => hanswerable.congr h.apiBatchHandler h.batched h.deferred
  rw [h.sendInFlight]
  exact hexcused (h.waitingForTicket ▸ hflag) (h.inUse ▸ hinUse)

theorem Stored.quiet {s s' : UringState} {slot : Slot} {data : List UInt8}
    (h : Stored env spare s slot data s')
    (hstirs : s.sends = [] → spare slot ∨ Stirs env s slot ((s.connection slot).inBuf.data ++ data))
    (hwait : (s.connection slot).sendInFlight = true ∨ (s.connection slot).batched = true ∨
      (s.connection slot).deferred = true) : Quiet spare s' := by
  refine Quiet.quiet h.but fun hnone hawaits => (h.stirs hstirs hnone).resolve_right fun hstirs => ?_
  rcases hstirs hawaits.complete with hexcused | hanswerable
  · exact hexcused.not_awaits hawaits
  · rcases hwait with hsending | hbatched | hdeferred
    · exact Bool.false_ne_true (hawaits.sendInFlight.symm.trans (h.sendInFlight.trans hsending))
    · exact Bool.false_ne_true (hanswerable.batched.symm.trans (h.batched.trans hbatched))
    · exact Bool.false_ne_true (hanswerable.deferred.symm.trans (h.deferred.trans hdeferred))

theorem takeBytes_works (hsend : SendsFit env) {s : UringState} (h : Staffed env [] s)
    (hquiet : Quiet spare s) {slot : Slot} (hopen : (s.connection slot).inUse = true)
    (data : List UInt8)
    (hstirs : s.sends = [] →
      spare slot ∨ Stirs env s slot ((s.connection slot).inBuf.data ++ data)) :
    Staffed env [] (takeBytes env s slot data).2 ∧ Quiet spare (takeBytes env s slot data).2 := by
  have hnoted : Works env [] s (s.noteReceived slot data) := h.setHistory ..
  have hfull : ∀ s₂, appendIn env (s.noteReceived slot data) slot data = (false, s₂) →
      Staffed env [] (recycleRecvBuffer env s₂ slot.1) ∧
        Quiet spare (recycleRecvBuffer env s₂ slot.1) := by
    intro s₂ happend
    obtain ⟨rfl, -⟩ := appendIn_false env happend
    have hquiet₁ : Quiet spare (s.noteReceived slot data).asked := hquiet
    have hunarmed := unarmed_recycleRecvBuffer env (s.noteReceived slot data).asked slot.1
    exact ⟨(hnoted.of_unarmed hunarmed).toStaffed, hquiet₁.of_unarmed hunarmed⟩
  have hstatus : ∀ s₂ offset, Staffed env [] s₂ →
      Staffed env [] (sendStatusAndClose env s₂ slot 413 offset) ∧
        Quiet spare (sendStatusAndClose env s₂ slot 413 offset) := by
    intro s₂ offset h₂
    obtain ⟨hworks, hsent⟩ := sendStatusAndClose_works hsend h₂ slot
      (by decide : 413 ∈ ownStatuses) offset
    exact ⟨hworks.toStaffed, quiet_of_sends (hsent (by decide))⟩
  have hstored : ∀ s₂, appendIn env (s.noteReceived slot data) slot data = (true, s₂) →
      Stored env spare s slot data (recycleRecvBuffer env s₂ slot.1) := fun s₂ happend =>
    (stored_of_append h hquiet happend).of_unarmed (unarmed_recycleRecvBuffer env s₂ slot.1)
  simp only [takeBytes]
  split
  · rename_i hsending
    split
    · rename_i s₂ happend
      obtain ⟨h₂, hquiet₂⟩ := hfull s₂ happend
      exact ⟨(closeConnection_works h₂ slot).toStaffed, Quiet.closeConnection (hquiet₂.but slot)⟩
    · rename_i s₂ happend
      exact ⟨(hstored s₂ happend).staffed, (hstored s₂ happend).quiet hstirs (.inl hsending)⟩
  split
  · split
    · rename_i s₂ happend
      exact hstatus _ _ (hfull s₂ happend).1
    · rename_i s₂ happend
      have hstored₂ := hstored s₂ happend
      have hserved := (serveNextRequest_served hsend hstored₂.staffed
        (hstored₂.inUse.trans hopen) hstored₂.but
        (fun hpending => hstored₂.quiet hstirs
          (.inr (by rwa [hstored₂.batched, hstored₂.deferred] at hpending)))
        fun hnone hcomplete => (hstored₂.stirs hstirs hnone).elim (fun hspare => .inl (.inl hspare))
          fun hstirs => (hstirs hcomplete).imp .inr id).1
      exact ⟨hserved.toStaffed, hserved.quiet⟩
  rename_i hempty
  have hnil : (s.connection slot).inBuf.data = [] := by
    rw [← List.length_eq_zero_iff]
    exact Nat.eq_zero_of_not_pos hempty
  split
  · rename_i hdeferred
    split
    · rename_i s₂ happend
      exact hstatus _ _ (hfull s₂ happend).1
    · rename_i s₂ happend
      exact ⟨(hstored s₂ happend).staffed,
        (hstored s₂ happend).quiet hstirs (.inr (.inr hdeferred))⟩
  · rw [hnil, List.nil_append] at hstirs
    have hquiet₁ : Quiet spare (s.noteReceived slot data) := hquiet
    have hserved := (serveNextRequest_served hsend hnoted.toStaffed hopen (hquiet₁.but slot)
      (fun _ => hquiet) fun hnone hcomplete => (hstirs hnone).elim (fun hspare => .inl (.inl hspare))
        fun hstirs => (hstirs hcomplete).imp .inr fun hanswerable => hanswerable.congr rfl rfl rfl).1
    have hunarmed := unarmed_recycleRecvBuffer env
      (serveNextRequest env (s.noteReceived slot data) slot data) slot.1
    exact ⟨(hserved.of_unarmed hunarmed).toStaffed, hserved.quiet.of_unarmed hunarmed⟩

/-- Everything is in order, and while no send is outstanding nobody waits, those in `spare` apart. -/
structure Awake (env : Environment) (spare : Slot → Prop) (s : UringState) : Prop
    extends Staffed env [] s where
  quiet : Quiet spare s

theorem Awake.of_unarmed {s s' : UringState} (h : Awake env spare s) (hunarmed : s'.unarmed = s.unarmed) :
    Awake env spare s' := ⟨(h.toStaffed.of_unarmed hunarmed).toStaffed, h.quiet.of_unarmed hunarmed⟩

theorem Awake.closeConnection {s : UringState} (h : Awake env spare s) (slot : Slot) :
    Awake env spare (closeConnection s slot) :=
  ⟨(closeConnection_works h.toStaffed slot).toStaffed, Quiet.closeConnection (h.quiet.but slot)⟩

theorem awake_of_sends {s s' : UringState} (h : Works env [] s s') (hsent : s'.sends ≠ []) :
    Awake env spare s' := ⟨h.toStaffed, quiet_of_sends hsent⟩

theorem excused_of_unarmed {s s' : UringState} (h : s'.unarmed = s.unarmed) (a : Slot) :
    Excused (s'.connection a) ↔ Excused (s.connection a) :=
  have hconn : (s'.connection a).unarmed = (s.connection a).unarmed :=
    congrFun (congrArg UringState.connection h) a
  (congrArg Excused hconn : Excused (s'.connection a).unarmed =
    Excused (s.connection a).unarmed).to_iff

theorem Awake.handleRecvCompletion (hsend : SendsFit env) {s : UringState} (h : Awake env spare s)
    (r : Nat) (cqe : RecvCompletion)
    (hstirs : s.sends = [] → ∀ data, cqe.Brings env s r data → spare (r, cqe.slot) ∨
      Stirs env s (r, cqe.slot) ((s.connection (r, cqe.slot)).inBuf.data ++ data)) :
    Awake env spare (handleRecvCompletion env s r cqe) := by
  have hrecycled : ∀ t : UringState, Awake env spare t →
      Awake env spare (if cqe.hasBuffer = true then recycleRecvBuffer env t r else t) := by
    intro t ht
    split
    · exact ht.of_unarmed (unarmed_recycleRecvBuffer env t r)
    · exact ht
  simp only [Uring.handleRecvCompletion]
  split
  · exact hrecycled s h
  rename_i hmatch
  obtain ⟨hslot, hopen, hgeneration⟩ : cqe.slot < env.connectionSlots r ∧
      (s.connection (r, cqe.slot)).inUse = true ∧
      (s.connection (r, cqe.slot)).generation = cqe.generation := by
    simpa [not_or] using hmatch
  set s₁ := if cqe.more = true then s
    else s.setConnection (r, cqe.slot) { s.connection (r, cqe.slot) with recvArmed := false }
    with hs₁
  have hunarmed₁ : s₁.unarmed = s.unarmed := by
    rw [hs₁]
    split
    · rfl
    · exact unarmed_setConnection rfl
  have h₁ : Awake env spare s₁ := h.of_unarmed hunarmed₁
  split
  · exact (hrecycled s₁ h₁).closeConnection _
  · refine (hrecycled s₁ h₁).of_unarmed ?_
    rw [unarmed_queueForRearm, unarmed_setConnection]
    rfl
  · exact hrecycled s₁ h₁
  · exact (hrecycled s₁ h₁).closeConnection _
  rename_i data hnil hres
  split
  · exact h₁.closeConnection _
  rename_i hbuffer
  have hconn : (s₁.connection (r, cqe.slot)).unarmed = (s.connection (r, cqe.slot)).unarmed :=
    congrFun (congrArg UringState.connection hunarmed₁) (r, cqe.slot)
  have hheld : (s₁.connection (r, cqe.slot)).inBuf = (s.connection (r, cqe.slot)).inBuf :=
    (congrArg UringConnection.inBuf hconn : (s₁.connection (r, cqe.slot)).unarmed.inBuf =
      (s.connection (r, cqe.slot)).unarmed.inBuf)
  have htaken := takeBytes_works hsend h₁.toStaffed h₁.quiet
    ((inUse_of_serving_eq (serving_of_unarmed hunarmed₁) _).trans hopen) data fun hnone => ?_
  · have hafter : Awake env spare (takeBytes env s₁ (r, cqe.slot) data).2 := ⟨htaken.1, htaken.2⟩
    split
    · exact hafter.of_unarmed (unarmed_armRecv env _ _)
    · exact hafter
  · rw [hheld]
    have hstirs := hstirs (sends_of_unarmed hunarmed₁ ▸ hnone) data
      ⟨hslot, hopen, hgeneration, by simpa using hbuffer, hres, hnil⟩
    exact hstirs.imp id fun hstirs hcomplete => (hstirs hcomplete).imp
      (excused_of_unarmed hunarmed₁ _).mpr fun hanswerable => hanswerable.of_unarmed hunarmed₁

theorem Awake.newConnection {s s' : UringState} {slot : Slot} {conn : UringConnection}
    (h : Awake env spare s) (hslot : slot.2 < env.connectionSlots slot.1)
    (hnext : conn.nextWaiting = (s.connection slot).nextWaiting)
    (hflag : conn.waitingForTicket = (s.connection slot).waitingForTicket)
    (hempty : conn.inBuf = {})
    (hring : s'.ring = s.ring) (hconn : s'.connection = (s.setConnection slot conn).connection)
    (hsends : s'.sends = s.sends) (hticket : s'.sendTicket = s.sendTicket)
    (hbatch : s'.batchPending = s.batchPending) : Awake env spare s' := by
  have hset := h.queues.setConnection hnext hflag fun _ => hslot
  refine ⟨⟨hset.congr (fun r => ?_) fun a => ?_, h.pool.congr hsends hticket,
    hbatch ▸ h.batch⟩, ?_⟩
  · rw [hring]
    exact ⟨rfl, rfl⟩
  · rw [hconn]
    exact ⟨rfl, rfl, hset.inUse a⟩
  · have hquiet : Quiet spare (s.setConnection slot conn) := h.quiet.setConnection fun hawaits => by
      have hcomplete := hawaits.complete
      rw [hempty] at hcomplete
      exact absurd hcomplete not_complete_nil
    intro hnone a hawaits
    rw [hconn] at hawaits
    exact hquiet (hsends ▸ hnone) a hawaits

theorem Awake.handleAcceptCompletion {s : UringState} (h : Awake env spare s) (r : Nat)
    (res : Except Errno Nat) (more : Bool) :
    Awake env spare (handleAcceptCompletion env s r res more) := by
  simp only [Uring.handleAcceptCompletion]
  set s₁ := if more = true then s else s.setRing r { s.ring r with acceptArmed := false } with hs₁
  have h₁ : Awake env spare s₁ := by
    rw [hs₁]
    split
    · exact h
    · exact h.of_unarmed (unarmed_setRing rfl rfl)
  have hrearm : ∀ t : UringState, Awake env spare t → ∀ p : Prop, [Decidable p] →
      Awake env spare (if p then armAccept env t r else t) := by
    intro t ht p _
    split
    · exact ht.of_unarmed (unarmed_armAccept env t r)
    · exact ht
  cases res with
  | ok slot =>
    have hmoved : ∀ t : UringState, Awake env spare t → ∀ p q : Prop, [Decidable p] → [Decidable q] →
        Awake env spare (if p then moveAcceptOn env t r else if q then armAccept env t r else t) := by
      intro t ht p q _ _
      split
      · exact ht.of_unarmed (unarmed_moveAcceptOn env t r)
      · exact hrearm t ht q
    refine hmoved _ ?_ _ _
    split
    · rename_i hslot
      set conn : UringConnection := {
        generation := ((s₁.connection (r, slot)).generation + 1) % 2 ^ 32
        nextWaiting := (s₁.connection (r, slot)).nextWaiting
        nextRearm := (s₁.connection (r, slot)).nextRearm
        waitingForTicket := (s₁.connection (r, slot)).waitingForTicket
        waitingForRearm := (s₁.connection (r, slot)).waitingForRearm
        inUse := true }
      have hnext : conn.nextWaiting = (s₁.connection (r, slot)).nextWaiting := rfl
      have hflag : conn.waitingForTicket = (s₁.connection (r, slot)).waitingForTicket := rfl
      refine Awake.of_unarmed ?_ (unarmed_armRecv ..)
      refine Awake.of_unarmed ?_ (unarmed_setRing rfl rfl)
      exact h₁.newConnection hslot hnext hflag rfl rfl rfl rfl rfl rfl
    · exact h₁
  | error e =>
    cases e with
    | canceled => exact h₁
    | mfile => exact h₁.of_unarmed (unarmed_armAcceptSomewhere env s₁ _)
    | nobufs => exact hrearm _ h₁ _
    | other => exact hrearm _ h₁ _

theorem Awake.apiSendDeferred (hsend : SendsFit env) {s : UringState} (h : Awake env spare s)
    (answer : DeferredAnswer) : Awake env spare (apiSendDeferred env s answer) := by
  simp only [Uring.apiSendDeferred]
  split
  · exact h
  split
  · exact h
  split
  · exact h
  rename_i ticket s₁ hacquire
  have hacquired := h.acquire hacquire
  obtain ⟨-, -, rfl⟩ := acquireSendTicket_eq_some hacquire
  set slot : Slot := (answer.ring, answer.slot)
  set s₁ := s.setTicket ticket { s.sendTicket ticket with busy := true, sent := 0 }
  have hanswered : Works env [ticket] s
      (s₁.setConnection slot { s.connection slot with deferred := false }) :=
    hacquired.trans (hacquired.setConnection rfl rfl id id)
  have hreleased := hanswered.trans hanswered.release
  have hrefused : ∀ offset, Awake env spare (sendStatusAndClose env (releaseSendTicket
      (s₁.setConnection slot { s.connection slot with deferred := false }) ticket) slot 500
      offset) := by
    intro offset
    obtain ⟨hworks, hsent⟩ := sendStatusAndClose_works hsend hreleased.toStaffed slot
      (by decide : 500 ∈ ownStatuses) offset
    exact awake_of_sends hworks (hsent (by decide))
  split
  · exact hrefused _
  split
  · exact hrefused _
  · rename_i response hfinish
    have hflying : Works env [ticket] s (s₁.setConnection slot
        { s.connection slot with deferred := false, sendInFlight := true }) :=
      hacquired.trans (hacquired.setConnection rfl rfl id fun _ _ _ => rfl)
    obtain ⟨hworks, hsent⟩ := sendResponse_works hsend hflying.toStaffed slot
      (finish_length hfinish) (!(s.connection slot).deferredKeepAlive) ⟨(s₁.historyOf slot).deferredAt, false⟩
    exact awake_of_sends hworks hsent

end AmmarServer.Uring
