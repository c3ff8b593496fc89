import AmmarServer.Threads.UringOrder
import AmmarServer.Threads.UringParked

/-! Receive completions in the order in which the kernel posts them, and what they mean for the
connections that are queued for want of a receive buffer. -/

namespace AmmarServer.Uring
open ApiProtocol CString LinkQueue

/-! ## A receive completion -/

/-- A buffer was handed back, in the midst of steps that leave the queues alone. -/
def Recycles (env : Environment) (r : Nat) (s s' : UringState) : Prop :=
  ∃ s₁, Settles s s₁ ∧ Settles (recycleRecvBuffer env s₁ r) s'

/-- The connection that the completion is about is not there any more. -/
def RecvCompletion.Stale (env : Environment) (s : UringState) (r : Nat) (cqe : RecvCompletion) :
    Prop :=
  cqe.slot ≥ env.connectionSlots r ∨ ¬ (s.connection (r, cqe.slot)).inUse ∨
    (s.connection (r, cqe.slot)).generation ≠ cqe.generation

instance (env : Environment) (s : UringState) (r : Nat) (cqe : RecvCompletion) :
    Decidable (cqe.Stale env s r) :=
  inferInstanceAs (Decidable (_ ∨ _ ∨ _))

/-- The completion says whether the receive goes on. -/
def receiveEnds (env : Environment) (s : UringState) (r : Nat) (cqe : RecvCompletion) :
    UringState :=
  if cqe.Stale env s r ∨ cqe.more then s
  else s.setConnection (r, cqe.slot) { s.connection (r, cqe.slot) with recvArmed := false }

/-- The connections from `rearmHead` to `rearmTail`. -/
def rearmList (env : Environment) (s : UringState) (r : Nat) : List Nat :=
  walk (fun slot => (s.connection (r, slot)).nextRearm) (env.connectionSlots r)
    (s.ring r).rearmHead

variable {env : Environment}

theorem recycles_refl (s : UringState) (r : Nat) : Recycles env r s (recycleRecvBuffer env s r) :=
  ⟨s, .refl s, .refl _⟩

theorem Recycles.before {s s₁ s' : UringState} {r : Nat} (hs : Settles s s₁)
    (h : Recycles env r s₁ s') : Recycles env r s s' := by
  obtain ⟨s₂, h₂, h'⟩ := h
  exact ⟨s₂, hs.trans h₂, h'⟩

theorem Recycles.behind {s s₁ s' : UringState} {r : Nat} (h : Recycles env r s s₁)
    (hs : Settles s₁ s') : Recycles env r s s' := by
  obtain ⟨s₂, h₂, h'⟩ := h
  exact ⟨s₂, h₂, h'.trans hs⟩

theorem recycle_settles (env : Environment) (s : UringState) (r : Nat) :
    Settles s (if env.recvBuffersAreRing r then s else s.asked) := by
  split
  · exact .refl s
  · exact asked_settles s

theorem Recycles.parked (hrecv : RecvFits env) {skip : Slot → Prop} {s s' : UringState} {r : Nat}
    (h : Recycles env r s s') (hparked : ParkedBut env skip s) : ParkedBut env skip s' := by
  obtain ⟨s₁, h₁, h'⟩ := h
  have hasked := (hparked.settles h₁).settles (recycle_settles env s₁ r)
  exact (rearmOneWaitingLoop_parked hrecv r _ hasked).settles h'

theorem Recycles.others (hrecv : RecvFits env) {s s' : UringState} {r r' : Nat}
    (h : Recycles env r s s') (hr : r' ≠ r) : s'.rearm.head r' = s.rearm.head r' := by
  obtain ⟨s₁, h₁, h'⟩ := h
  rw [h'.rearm, recycleRecvBuffer, rearmOneWaiting, rearmOneWaitingLoop_others hrecv hr,
    (recycle_settles env s₁ r).rearm, h₁.rearm]

section
variable {skip : Slot → Prop} {s : UringState}

theorem ParkedBut.length_le (h : ParkedBut env skip s) {r : Nat} {l : List Nat}
    (hl : s.rearm.Holds r l) : l.length ≤ env.connectionSlots r := by
  have hsub : l ⊆ List.range (env.connectionSlots r) := fun slot hslot =>
    List.mem_range.mpr (h.inTable (r, slot) ((hl.mem_iff slot).mpr hslot))
  have hle := (List.subperm_of_subset hl.nodup hsub).length_le
  rwa [List.length_range] at hle

theorem ParkedBut.rearmList_eq (h : ParkedBut env skip s) {r : Nat} {l : List Nat}
    (hl : s.rearm.Holds r l) : rearmList env s r = l :=
  hl.walk_eq (h.length_le hl)

end

/-- When all that are queued but the last have something outstanding, one buffer is enough. -/
theorem Recycles.drains (hrecv : RecvFits env) {skip : Slot → Prop} {s s' : UringState} {r : Nat}
    (h : Recycles env r s s') (hparked : ParkedBut env skip s)
    (hgoing : ∀ slot ∈ (rearmList env s r).dropLast, ¬ (s.connection (r, slot)).Stopped) :
    s'.rearm.head r = none := by
  obtain ⟨s₁, h₁, h'⟩ := h
  obtain ⟨l, hl⟩ := hparked.queues r
  rw [hparked.rearmList_eq hl] at hgoing
  have hasked := h₁.trans (recycle_settles env s₁ r)
  rw [h'.rearm]
  refine rearmOneWaitingLoop_drains hrecv (l := l) ?_ ?_ fun slot hslot hstopped => ?_
  · rw [hasked.rearm]
    exact hl
  · exact Nat.lt_succ_of_le (hparked.length_le hl)
  · exact hgoing slot hslot (hasked.stopped _ hstopped)

theorem receiveEnds_settlesBut (s : UringState) (r : Nat) (cqe : RecvCompletion) :
    SettlesBut (r, cqe.slot) s (receiveEnds env s r cqe) := by
  unfold receiveEnds
  split
  · exact (Settles.refl s).but _
  · exact settlesBut_setConnection rfl rfl

theorem appendIn_settles {s s₁ : UringState} {slot : Slot} {data : List UInt8} {stored : Bool}
    (h : appendIn env s slot data = (stored, s₁)) : Settles s s₁ := by
  simp only [appendIn] at h
  split at h
  · obtain ⟨-, rfl⟩ := Prod.mk.inj h
    exact (asked_settles s).trans
      (settles_setConnection rfl rfl fun h => ⟨h.1, h.2, h.3, h.4⟩)
  · obtain ⟨-, rfl⟩ := Prod.mk.inj h
    exact asked_settles s

/-- The bytes are stored or served and their buffer is handed back. The connection goes on unless it
was refused or closed. -/
theorem takeBytes_recycles (hstatus : StatusFits env) (s : UringState) (slot : Slot)
    (data : List UInt8) :
    Recycles env slot.1 s (takeBytes env s slot data).2 ∧
      ((takeBytes env s slot data).1 = false →
        ¬ ((takeBytes env s slot data).2.connection slot).Stopped) := by
  have hreceived : Settles s (s.noteReceived slot data) := settles_same rfl fun _ => ⟨rfl, rfl⟩
  have hstores : ∀ {stored s₁}, appendIn env (s.noteReceived slot data) slot data = (stored, s₁) →
      Recycles env slot.1 s (recycleRecvBuffer env s₁ slot.1) := fun happend =>
    (recycles_refl _ _).before (hreceived.trans (appendIn_settles happend))
  simp only [takeBytes]
  split
  · split
    · rename_i s₁ happend
      exact ⟨(hstores happend).behind (closeConnection_settles _ slot), fun _ =>
        closeConnection_not_stopped _ slot⟩
    · rename_i s₁ happend
      exact ⟨hstores happend, fun hcon => Bool.noConfusion hcon⟩
  · split
    · split
      · rename_i s₁ happend
        exact ⟨(hstores happend).behind (sendStatusAndClose_settles _ slot ..), fun _ =>
          sendStatusAndClose_not_stopped hstatus _ slot 413 _⟩
      · rename_i s₁ happend
        exact ⟨(hstores happend).behind (serveNextRequest_settles hstatus _ slot _),
          fun hcon => Bool.noConfusion hcon⟩
    · split
      · split
        · rename_i s₁ happend
          exact ⟨(hstores happend).behind (sendStatusAndClose_settles _ slot ..), fun hcon => by
            cases hcon⟩
        · rename_i s₁ happend
          exact ⟨hstores happend, fun hcon => Bool.noConfusion hcon⟩
      · exact ⟨(recycles_refl _ _).before
          (hreceived.trans (serveNextRequest_settles hstatus _ slot data)),
          fun hcon => Bool.noConfusion hcon⟩

theorem handleRecv_stale {s : UringState} {r : Nat} {cqe : RecvCompletion}
    (hstale : cqe.Stale env s r) :
    handleRecvCompletion env s r cqe = if cqe.hasBuffer then recycleRecvBuffer env s r else s := by
  simp only [handleRecvCompletion]
  exact if_pos hstale

theorem handleRecv_eq {s : UringState} {r : Nat} {cqe : RecvCompletion}
    (hlive : ¬ cqe.Stale env s r) :
    handleRecvCompletion env s r cqe =
      let s₁ := receiveEnds env s r cqe
      let recycled := if cqe.hasBuffer then recycleRecvBuffer env s₁ r else s₁
      match cqe.res with
      | .ok [] => closeConnection recycled (r, cqe.slot)
      | .error .nobufs =>
        queueForRearm (recycled.setConnection (r, cqe.slot)
          { recycled.connection (r, cqe.slot) with recvArmed := false }) (r, cqe.slot)
      | .error .canceled => recycled
      | .error _ => closeConnection recycled (r, cqe.slot)
      | .ok data =>
        if ¬ cqe.hasBuffer then closeConnection s₁ (r, cqe.slot)
        else
          let (goesOn, s₂) := takeBytes env s₁ (r, cqe.slot) data
          let conn := s₂.connection (r, cqe.slot)
          if goesOn ∧ conn.inUse ∧ ¬ conn.recvArmed ∧ ¬ conn.deferred then
            armRecv env s₂ (r, cqe.slot)
          else s₂ := by
  have hends : (if cqe.more then s else s.setConnection (r, cqe.slot)
      { s.connection (r, cqe.slot) with recvArmed := false }) = receiveEnds env s r cqe := by
    cases hmore : cqe.more with
    | false => simp [receiveEnds, hlive, hmore]
    | true => simp [receiveEnds, hmore]
  rw [← hends]
  simp only [handleRecvCompletion]
  exact if_neg hlive

theorem handleRecv_nobufs {s : UringState} {r : Nat} {cqe : RecvCompletion}
    (hlive : ¬ cqe.Stale env s r) (hres : cqe.res = .error .nobufs) (hbare : cqe.hasBuffer = false) :
    ∃ s₁, SettlesBut (r, cqe.slot) s s₁ ∧
      handleRecvCompletion env s r cqe = queueForRearm s₁ (r, cqe.slot) := by
  have hends := @receiveEnds_settlesBut env s r cqe
  rw [handleRecv_eq hlive, hres, hbare]
  generalize receiveEnds env s r cqe = s₁ at hends ⊢
  have hunarmed : SettlesBut (r, cqe.slot) s₁ (s₁.setConnection (r, cqe.slot)
      { s₁.connection (r, cqe.slot) with recvArmed := false }) := settlesBut_setConnection rfl rfl
  exact ⟨_, hends.trans hunarmed, rfl⟩

/-- Any other completion of a connection that is there leaves it with something outstanding. -/
theorem handleRecv_live (hrecv : RecvFits env) (hstatus : StatusFits env) {s : UringState} {r : Nat}
    {cqe : RecvCompletion} (hlive : ¬ cqe.Stale env s r) (hnobufs : cqe.res ≠ .error .nobufs)
    (hcanceled : cqe.res ≠ .error .canceled) :
    (cqe.hasBuffer = true →
        Recycles env r (receiveEnds env s r cqe) (handleRecvCompletion env s r cqe)) ∧
      (cqe.hasBuffer = false →
        Settles (receiveEnds env s r cqe) (handleRecvCompletion env s r cqe)) ∧
      ¬ ((handleRecvCompletion env s r cqe).connection (r, cqe.slot)).Stopped := by
  rw [handleRecv_eq hlive]
  simp only
  generalize receiveEnds env s r cqe = s₁
  have hcloses : ∀ t, Settles t (closeConnection t (r, cqe.slot)) := fun t =>
    closeConnection_settles t _
  have hclosed : ∀ t, ¬ ((closeConnection t (r, cqe.slot)).connection (r, cqe.slot)).Stopped :=
    fun t => closeConnection_not_stopped t _
  have hrecycled : ∀ hbuffer : cqe.hasBuffer = true, Recycles env r s₁ (closeConnection
      (if cqe.hasBuffer then recycleRecvBuffer env s₁ r else s₁) (r, cqe.slot)) := fun hbuffer => by
    rw [if_pos hbuffer]
    exact (recycles_refl s₁ r).behind (hcloses _)
  have hbare : ∀ hbare : cqe.hasBuffer = false, Settles s₁ (closeConnection
      (if cqe.hasBuffer then recycleRecvBuffer env s₁ r else s₁) (r, cqe.slot)) := fun hbare => by
    rw [if_neg (Bool.eq_false_iff.mp hbare)]
    exact hcloses s₁
  split
  · exact ⟨hrecycled, hbare, hclosed _⟩
  · exact absurd (by assumption) hnobufs
  · exact absurd (by assumption) hcanceled
  · exact ⟨hrecycled, hbare, hclosed _⟩
  · rename_i data _ _
    cases hbuffer : cqe.hasBuffer with
    | false =>
      rw [if_pos Bool.false_ne_true]
      exact ⟨fun hcon => Bool.noConfusion hcon, fun _ => hcloses s₁, hclosed s₁⟩
    | true =>
      obtain ⟨htakes, hrefuses⟩ := takeBytes_recycles hstatus s₁ (r, cqe.slot) data
      rw [if_neg fun hcon => hcon rfl]
      generalize takeBytes env s₁ (r, cqe.slot) data = taken at htakes hrefuses ⊢
      obtain ⟨goesOn, s₂⟩ := taken
      simp only at htakes hrefuses ⊢
      split
      · exact ⟨fun _ => htakes.behind (armRecv_settles hrecv s₂ _),
          fun hcon => Bool.noConfusion hcon, armRecv_not_stopped hrecv s₂ _⟩
      · rename_i hgoes
        refine ⟨fun _ => htakes, fun hcon => Bool.noConfusion hcon, fun hstopped => ?_⟩
        cases goesOn with
        | false => exact hrefuses rfl hstopped
        | true =>
          refine hgoes ⟨rfl, hstopped.inUse, ?_, ?_⟩
          · rw [hstopped.recvArmed]
            decide
          · rw [hstopped.deferred]
            decide

/-- A completion that queues nobody hands its buffer back, if it has one, and leaves the queues alone
otherwise. -/
theorem handleRecv_moves (hrecv : RecvFits env) (hstatus : StatusFits env) {s : UringState} {r : Nat}
    {cqe : RecvCompletion} (hnobufs : cqe.res = .error .nobufs → cqe.Stale env s r)
    (hcanceled : cqe.res = .error .canceled → cqe.Stale env s r) :
    (cqe.hasBuffer = true →
        Recycles env r (receiveEnds env s r cqe) (handleRecvCompletion env s r cqe)) ∧
      (cqe.hasBuffer = false →
        Settles (receiveEnds env s r cqe) (handleRecvCompletion env s r cqe)) := by
  by_cases hstale : cqe.Stale env s r
  · have hends : receiveEnds env s r cqe = s := if_pos (.inl hstale)
    rw [handleRecv_stale hstale, hends]
    refine ⟨fun hbuffer => ?_, fun hbuffer => ?_⟩
    · rw [if_pos hbuffer]
      exact recycles_refl s r
    · rw [if_neg (Bool.eq_false_iff.mp hbuffer)]
      exact .refl s
  · obtain ⟨hrecycles, hsettles, -⟩ := handleRecv_live hrecv hstatus hstale
      (fun hres => hstale (hnobufs hres)) (fun hres => hstale (hcanceled hres))
    exact ⟨hrecycles, hsettles⟩

theorem handleRecv_parked (hrecv : RecvFits env) (hstatus : StatusFits env) {s : UringState}
    {r : Nat} {cqe : RecvCompletion} (hbare : cqe.res = .error .nobufs → cqe.hasBuffer = false)
    (hcanceled : cqe.res = .error .canceled → cqe.Stale env s r) (h : Parked env s) :
    Parked env (handleRecvCompletion env s r cqe) := by
  by_cases hstale : cqe.Stale env s r
  · rw [handleRecv_stale hstale]
    split
    · exact (recycles_refl s r).parked hrecv h
    · exact h
  have hbut : ParkedBut env (fun a => a = (r, cqe.slot)) s := h.mono fun _ => False.elim
  by_cases hnobufs : cqe.res = .error .nobufs
  · obtain ⟨s₁, hends, heq⟩ := handleRecv_nobufs hstale hnobufs (hbare hnobufs)
    rw [heq]
    exact queueForRearm_parked (hbut.settlesBut hends rfl) (Nat.lt_of_not_le fun hcon =>
      hstale (.inl hcon))
  · obtain ⟨hrecycles, hsettles, hgoes⟩ := handleRecv_live hrecv hstatus hstale hnobufs
      fun hres => hstale (hcanceled hres)
    have hends : ParkedBut env (fun a => a = (r, cqe.slot)) (receiveEnds env s r cqe) :=
      hbut.settlesBut (receiveEnds_settlesBut s r cqe) rfl
    have hafter : ParkedBut env (fun a => a = (r, cqe.slot)) (handleRecvCompletion env s r cqe) := by
      cases hbuffer : cqe.hasBuffer with
      | true => exact (hrecycles hbuffer).parked hrecv hends
      | false => exact hends.settles (hsettles hbuffer)
    exact ParkedBut.restrict (hafter.mono fun _ => .inr) hgoes

theorem handleRecv_others (hrecv : RecvFits env) (hstatus : StatusFits env) {s : UringState}
    {r r' : Nat} {cqe : RecvCompletion} (hbare : cqe.res = .error .nobufs → cqe.hasBuffer = false)
    (hcanceled : cqe.res = .error .canceled → cqe.Stale env s r) (hr : r' ≠ r) :
    (handleRecvCompletion env s r cqe).rearm.head r' = s.rearm.head r' := by
  by_cases hnobufs : cqe.res = .error .nobufs ∧ ¬ cqe.Stale env s r
  · obtain ⟨s₁, hends, heq⟩ := handleRecv_nobufs hnobufs.2 hnobufs.1 (hbare hnobufs.1)
    rw [heq, queueForRearm_rearm, Table.push_head_of_ne _ hr, hends.rearm]
  · obtain ⟨hrecycles, hsettles⟩ := handleRecv_moves hrecv hstatus
      (fun hres => by_contra fun hlive => hnobufs ⟨hres, hlive⟩) hcanceled
    have hends := (@receiveEnds_settlesBut env s r cqe).rearm
    rw [← hends]
    cases hbuffer : cqe.hasBuffer with
    | true => exact (hrecycles hbuffer).others hrecv hr
    | false => rw [(hsettles hbuffer).rearm]

/-- No completion behind this one holds a buffer, and yet nobody is left waiting for one: the
completion queues nobody, and its own buffer, if it has one, is enough for all that are queued. -/
structure LastBuffer (env : Environment) (s : UringState) (r : Nat) (cqe : RecvCompletion) :
    Prop where
  queuesNobody : cqe.res = .error .nobufs → cqe.Stale env s r
  enough : cqe.hasBuffer = true → ∀ slot ∈ (rearmList env s r).dropLast,
    ¬ ((receiveEnds env s r cqe).connection (r, slot)).Stopped

theorem handleRecv_drains (hrecv : RecvFits env) (hstatus : StatusFits env) {s : UringState}
    {r : Nat} {cqe : RecvCompletion} (h : Parked env s)
    (hcanceled : cqe.res = .error .canceled → cqe.Stale env s r) (hlast : LastBuffer env s r cqe)
    (hempty : cqe.hasBuffer = false → s.rearm.head r = none) :
    (handleRecvCompletion env s r cqe).rearm.head r = none := by
  obtain ⟨hrecycles, hsettles⟩ := handleRecv_moves hrecv hstatus hlast.queuesNobody hcanceled
  have hends := @receiveEnds_settlesBut env s r cqe
  have hbut : ParkedBut env (fun a => a = (r, cqe.slot)) (receiveEnds env s r cqe) :=
    (h.mono fun _ => False.elim).settlesBut hends rfl
  cases hbuffer : cqe.hasBuffer with
  | false =>
    rw [(hsettles hbuffer).rearm, hends.rearm]
    exact hempty hbuffer
  | true =>
    refine (hrecycles hbuffer).drains hrecv hbut ?_
    obtain ⟨l, hl⟩ := h.queues r
    have hl' : (receiveEnds env s r cqe).rearm.Holds r l := by
      rw [hends.rearm]
      exact hl
    rw [hbut.rearmList_eq hl', ← h.rearmList_eq hl]
    exact hlast.enough hbuffer

/-! ## Completions in their order -/

/-- The server, and the receive completions of each ring that it has not come to yet. -/
structure PostedState where
  server : UringState
  posted : Nat → List RecvCompletion

/-- How many of a ring's receive buffers hold bytes that have not been consumed. -/
def PostedState.heldBuffers (s : PostedState) (r : Nat) : Nat :=
  (s.posted r).countP (·.hasBuffer)

def Event.isRecv : Event → Bool
  | .recv .. => true
  | _ => false

inductive Turn
  /-- the kernel -/
  | posts (r : Nat) (cqe : RecvCompletion)
  /-- the oldest receive completion of a ring -/
  | handles (r : Nat)
  | other (e : Event)

def turn (env : Environment) (s : PostedState) : Turn → PostedState
  | .posts r cqe => { s with posted := Function.update s.posted r (s.posted r ++ [cqe]) }
  | .handles r =>
    match s.posted r with
    | [] => s
    | cqe :: rest => {
      server := step env s.server (.recv r cqe)
      posted := Function.update s.posted r rest }
  | .other e => { s with server := step env s.server e }

def ringThread (env : Environment) : PostedState := ⟨startup env, fun _ => []⟩

/-- The kernel has as many buffers to give as it was given, and stops a receive when it has none left.
A receive is canceled only by the close of its connection. -/
def Delivered (env : Environment) (recvBufferCount : Nat → Nat) (s : PostedState) : Turn → Prop
  | .posts r cqe =>
    if cqe.hasBuffer then cqe.res ≠ .error .nobufs ∧ s.heldBuffers r < recvBufferCount r
    else cqe.res = .error .nobufs → env.recvBuffersAreRing r →
      s.heldBuffers r = recvBufferCount r
  | .handles r => r < env.ringCount ∧ ∀ cqe ∈ (s.posted r).head?,
    cqe.res = .error .canceled → cqe.Stale env s.server r
  | .other e => e.isRecv = false

/-- The queue of a ring is not left behind when the last buffer that is out comes back. -/
def Timely (env : Environment) (s : PostedState) : Turn → Prop
  | .handles r => ∀ cqe ∈ (s.posted r).head?,
    (∃ later ∈ (s.posted r).tail, later.hasBuffer = true) ∨ LastBuffer env s.server r cqe
  | _ => True

instance (conn : UringConnection) : Decidable conn.Stopped :=
  decidable_of_iff (conn.inUse = true ∧ conn.recvArmed = false ∧ conn.sendInFlight = false ∧
      conn.deferred = false)
    ⟨fun h => ⟨h.1, h.2.1, h.2.2.1, h.2.2.2⟩, fun h => ⟨h.1, h.2, h.3, h.4⟩⟩

instance (env : Environment) (s : UringState) (r : Nat) (cqe : RecvCompletion) :
    Decidable (LastBuffer env s r cqe) :=
  decidable_of_iff ((cqe.res = .error .nobufs → cqe.Stale env s r) ∧
      (cqe.hasBuffer = true → ∀ slot ∈ (rearmList env s r).dropLast,
        ¬ ((receiveEnds env s r cqe).connection (r, slot)).Stopped))
    ⟨fun h => ⟨h.1, h.2⟩, fun h => ⟨h.1, h.2⟩⟩

instance (env : Environment) (recvBufferCount : Nat → Nat) (s : PostedState) :
    ∀ t, Decidable (Delivered env recvBufferCount s t)
  | .posts r cqe => inferInstanceAs (Decidable (if cqe.hasBuffer then
      cqe.res ≠ .error .nobufs ∧ s.heldBuffers r < recvBufferCount r
    else cqe.res = .error .nobufs → env.recvBuffersAreRing r →
      s.heldBuffers r = recvBufferCount r))
  | .handles _ => inferInstanceAs (Decidable (_ ∧ _))
  | .other _ => inferInstanceAs (Decidable (_ = _))

instance (env : Environment) (s : PostedState) : ∀ t, Decidable (Timely env s t)
  | .posts .. => isTrue trivial
  | .handles _ => inferInstanceAs (Decidable (∀ _ ∈ _, _))
  | .other _ => isTrue trivial

/-- Whoever has stopped is queued, and whoever is queued will be met by a buffer. -/
structure ReceivesRearmed (env : Environment) (s : PostedState) : Prop where
  queued : ∀ r slot, (s.server.connection (r, slot)).inUse = true →
    (s.server.connection (r, slot)).deferred = false →
    (s.server.connection (r, slot)).batched = false →
    (s.server.connection (r, slot)).sendInFlight = false →
    (s.server.connection (r, slot)).waitingForTicket = false →
    (s.server.connection (r, slot)).recvArmed = false → slot ∈ rearmList env s.server r
  recycling : ∀ r, (s.server.ring r).rearmHead ≠ none →
    ∃ cqe ∈ s.posted r, cqe.hasBuffer = true

/-- What holds behind every turn. -/
structure Rearming (env : Environment) (s : PostedState) : Prop where
  parked : Parked env s.server
  bare : ∀ r, ∀ cqe ∈ s.posted r, cqe.res = .error .nobufs → cqe.hasBuffer = false
  recycling : ∀ r, s.server.rearm.head r ≠ none → ∃ cqe ∈ s.posted r, cqe.hasBuffer = true

theorem Rearming.receivesRearmed {s : PostedState} (h : Rearming env s) :
    ReceivesRearmed env s where
  queued r slot hinUse hdeferred _ hsend _ harmed := by
    obtain ⟨l, hl⟩ := h.parked.queues r
    rw [h.parked.rearmList_eq hl]
    exact (hl.mem_iff slot).mp (h.parked.stopped (r, slot) id ⟨hinUse, harmed, hsend, hdeferred⟩)
  recycling := h.recycling

theorem Rearming.ringThread (env : Environment) : Rearming env (ringThread env) where
  parked := by
    have hstarted : Parked env ringStartup :=
      ⟨fun r => ⟨[], represents_nil fun _ => rfl⟩, fun _ hcon => Bool.noConfusion hcon,
        fun a _ h => by cases h.inUse⟩
    exact hstarted.settles (armAcceptSomewhere_settles ringStartup 0)
  bare := fun _ _ hcqe => absurd hcqe List.not_mem_nil
  recycling r hhead := by
    have hstarted := (@armAcceptSomewhere_settles env ringStartup 0).rearm
    refine absurd ?_ hhead
    exact congrFun (congrArg Table.head hstarted) r

theorem Rearming.posts {recvBufferCount : Nat → Nat} {s : PostedState} (h : Rearming env s) {r : Nat}
    {cqe : RecvCompletion} (hposts : Delivered env recvBufferCount s (.posts r cqe)) :
    Rearming env (turn env s (.posts r cqe)) := by
  have hposted : ∀ r', (turn env s (.posts r cqe)).posted r' =
      if r' = r then s.posted r ++ [cqe] else s.posted r' := fun r' => by
    simp only [turn, Function.update_apply]
  refine ⟨h.parked, fun r' => ?_, fun r' hhead => ?_⟩
  · rw [hposted]
    split
    · intro cqe' hcqe' hnobufs
      rcases List.mem_append.mp hcqe' with hbefore | hnew
      · exact h.bare r cqe' hbefore hnobufs
      · rw [List.mem_singleton.mp hnew] at hnobufs ⊢
        by_contra hbuffer
        rw [Bool.not_eq_false] at hbuffer
        simp only [Delivered, if_pos hbuffer] at hposts
        exact hposts.1 hnobufs
    · exact h.bare r'
  · obtain ⟨cqe', hcqe', hbuffer⟩ := h.recycling r' hhead
    refine ⟨cqe', ?_, hbuffer⟩
    rw [hposted]
    split
    · rename_i hr
      exact List.mem_append_left _ (hr ▸ hcqe')
    · exact hcqe'

theorem Rearming.handles (hrecv : RecvFits env) (hstatus : StatusFits env)
    {recvBufferCount : Nat → Nat} {s : PostedState} (h : Rearming env s) {r : Nat}
    (hhandles : Delivered env recvBufferCount s (.handles r)) (htimely : Timely env s (.handles r)) :
    Rearming env (turn env s (.handles r)) := by
  obtain ⟨hr, hcanceled⟩ := hhandles
  simp only [Timely] at htimely
  cases hposted : s.posted r with
  | nil =>
    simp only [turn, hposted]
    exact h
  | cons cqe rest =>
    rw [hposted] at hcanceled htimely
    have hcanceled := hcanceled cqe rfl
    have hbare := h.bare r cqe (by rw [hposted]; exact List.mem_cons_self ..)
    have hstep : step env s.server (.recv r cqe) = handleRecvCompletion env s.server r cqe :=
      if_pos hr
    simp only [turn, hposted, hstep]
    refine ⟨handleRecv_parked hrecv hstatus hbare hcanceled h.parked,
      fun r' => ?_, fun r' hhead => ?_⟩
    · by_cases hrr : r' = r
      · rw [hrr]
        simp only [Function.update_self]
        intro cqe' hcqe'
        refine h.bare r cqe' ?_
        rw [hposted]
        exact List.mem_cons_of_mem _ hcqe'
      · simp only [Function.update_of_ne hrr]
        exact h.bare r'
    · by_cases hrr : r' = r
      · subst hrr
        simp only [Function.update_self]
        by_contra hnone
        rcases htimely cqe rfl with hlater | hlast
        · exact hnone hlater
        refine hhead (handleRecv_drains hrecv hstatus h.parked hcanceled hlast
          fun hbuffer => ?_)
        -- with no buffer out there was nobody in the queue before
        by_contra hqueued
        obtain ⟨cqe', hcqe', hbuffer'⟩ := h.recycling r' hqueued
        rw [hposted] at hcqe'
        rcases List.mem_cons.mp hcqe' with rfl | hrest
        · rw [hbuffer] at hbuffer'
          cases hbuffer'
        · exact hnone ⟨cqe', hrest, hbuffer'⟩
      · simp only [Function.update_of_ne hrr]
        simp only [handleRecv_others hrecv hstatus hbare hcanceled hrr] at hhead
        exact h.recycling r' hhead

theorem Rearming.other (hrecv : RecvFits env) (hstatus : StatusFits env) {s : PostedState}
    (h : Rearming env s) {e : Event} (he : e.isRecv = false) :
    Rearming env (turn env s (.other e)) := by
  have hother : ∀ r cqe, e ≠ .recv r cqe := by
    rintro r cqe rfl
    cases he
  have hsettles := step_settles hrecv hstatus s.server hother
  refine ⟨h.parked.settles hsettles, h.bare, fun r hhead => h.recycling r ?_⟩
  simp only [turn, hsettles.rearm] at hhead
  exact hhead

theorem reaches_receivesRearmed (env : Environment) (recvBufferCount : Nat → Nat)
    (hrecv : RecvFits env) (hstatus : StatusFits env) {s : PostedState}
    (h : Run.Reaches (turn env) (fun s t => Delivered env recvBufferCount s t ∧ Timely env s t)
      (ringThread env) s) : ReceivesRearmed env s := by
  have hrearming : Rearming env s := by
    refine h.invariant (.ringThread env) fun s t hbefore hturn => ?_
    cases t with
    | posts r cqe => exact hbefore.posts hturn.1
    | handles r => exact hbefore.handles hrecv hstatus hturn.1 hturn.2
    | other e => exact hbefore.other hrecv hstatus hturn.1
  exact hrearming.receivesRearmed

/-- With one buffer in all, the second connection finds none left and is armed again. -/
theorem reaches_receivesRearmed_two :
    let stopped : RecvCompletion := ⟨1, 1, false, false, .error .nobufs⟩
    let bytes : RecvCompletion := ⟨0, 1, true, true, .ok (ascii "G")⟩
    ReceivesRearmed calm ([.other (.accept 0 (.ok 0) true), .other (.accept 0 (.ok 1) true),
      .posts 0 bytes, .posts 0 stopped, .handles 0, .posts 0 bytes, .handles 0, .handles 0].foldl
        (turn calm) (ringThread calm)) :=
  reaches_receivesRearmed calm (fun _ => 1) (fun _ => rfl) (fun _ => rfl)
    (.allowed _ .start (by decide))

/-- A connection has the 128 buffers of its ring when another one finds none left; it closes before
the ring thread comes to what it sent. -/
def lastTurns : List Turn :=
  let bytes : RecvCompletion := ⟨0, 1, true, true, .ok (ascii "G\n\n")⟩
  [.other (.accept 0 (.ok 0) true), .other (.accept 0 (.ok 1) true), .posts 0 bytes, .handles 0] ++
    List.replicate 128 (.posts 0 bytes) ++
    [.posts 0 ⟨1, 1, false, false, .error .nobufs⟩, .other (.send 0 (-104))] ++
    List.replicate 129 (.handles 0) ++ [.other .flush]

theorem lastTurns_leaveOneQueued :
    ¬ ∀ (env : Environment) (recvBufferCount : Nat → Nat) (s : PostedState),
      Run.Reaches (turn env) (Delivered env recvBufferCount) (ringThread env) s →
        ReceivesRearmed env s := by
  intro h
  have hrun : Run.Reaches (turn calm) (Delivered calm fun _ => 128) (ringThread calm)
      (lastTurns.foldl (turn calm) (ringThread calm)) := .allowed _ .start (by decide +kernel)
  obtain ⟨cqe, hcqe, -⟩ := (h calm _ _ hrun).recycling 0 (by decide +kernel)
  exact absurd (List.ne_nil_of_mem hcqe) (by decide +kernel)

end AmmarServer.Uring
