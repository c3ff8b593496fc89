import AmmarServer.Threads.UringRearm

/-! What each completion does to the queues of connections without a receive. Only a receive
completion changes them: one that ended for want of a buffer lengthens its ring's queue, and one that
hands a buffer back shortens it. -/

namespace AmmarServer.Uring
open ApiProtocol LinkQueue

variable {env : Environment}

/-- Receives find a place in the submission queue. -/
def RecvFits (env : Environment) : Prop := ∀ n, env.getSqe .recv n = true

/-! ## Arming -/

theorem armRecv_settles (hrecv : RecvFits env) (s : UringState) (slot : Slot) :
    Settles s (armRecv env s slot) := by
  simp only [armRecv]
  split
  · rename_i hdeferred
    refine settles_setConnection rfl rfl fun h => ?_
    have hnot : (s.connection slot).deferred = false := h.deferred
    rw [hdeferred] at hnot
    cases hnot
  · rw [if_pos (hrecv _)]
    exact (asked_settles s).trans (settles_setConnection rfl rfl fun h => by cases h.recvArmed)

theorem armRecv_not_stopped (hrecv : RecvFits env) (s : UringState) (slot : Slot) :
    ¬ ((armRecv env s slot).connection slot).Stopped := by
  intro h
  simp only [armRecv] at h
  split at h
  · rename_i hdeferred
    have hnot := h.deferred
    simp [hdeferred] at hnot
  · rw [if_pos (hrecv _)] at h
    have harmed := h.recvArmed
    simp at harmed

theorem SettlesBut.arm (hrecv : RecvFits env) {s s₁ : UringState} {slot : Slot}
    (h : SettlesBut slot s s₁) : Settles s (armRecv env s₁ slot) :=
  (h.trans ((armRecv_settles hrecv s₁ slot).but slot)).settles (armRecv_not_stopped hrecv s₁ slot)

/-! ## Completions that leave the queues alone -/

theorem armAccept_settles (s : UringState) (r : Nat) : Settles s (armAccept env s r) := by
  unfold armAccept
  split
  · exact .refl s
  · split
    · have harmed : Settles s.asked (s.asked.setRing r { s.ring r with acceptArmed := true }) :=
        settles_setRing rfl rfl
      exact ((asked_settles s).trans harmed).trans (settles_same rfl fun _ => ⟨rfl, rfl⟩)
    · exact asked_settles s

theorem armAcceptSomewhere_settles (s : UringState) (startAt : Nat) :
    Settles s (armAcceptSomewhere env s startAt) := by
  simp only [armAcceptSomewhere]
  split
  · rename_i r _
    have hmoved : Settles s { s with acceptRing := r } := settles_same rfl fun _ => ⟨rfl, rfl⟩
    exact hmoved.trans (armAccept_settles _ r)
  · exact settles_same rfl fun _ => ⟨rfl, rfl⟩

theorem moveAcceptOn_settles (s : UringState) (leaving : Nat) :
    Settles s (moveAcceptOn env s leaving) := by
  have hmoved := @armAcceptSomewhere_settles env s (leaving + 1)
  simp only [moveAcceptOn]
  split
  · refine hmoved.trans ?_
    unfold cancelAccept
    split
    · exact asked_settles _
    · exact .refl _
  · exact hmoved

theorem handleAcceptCompletion_settles (hrecv : RecvFits env) (s : UringState) (r : Nat)
    (res : Except Errno Nat) (more : Bool) :
    Settles s (handleAcceptCompletion env s r res more) := by
  simp only [handleAcceptCompletion]
  generalize hcounted : (if more then s else s.setRing r _) = s₁
  have h₁ : Settles s s₁ := by
    rw [← hcounted]
    split
    · exact .refl s
    · exact settles_setRing rfl rfl
  have hrearm : ∀ t : UringState,
      Settles t (if ¬ more ∧ t.acceptRing = r ∧ ¬ t.acceptStalled then armAccept env t r else t) := by
    intro t
    split
    · exact armAccept_settles t r
    · exact .refl t
  split
  · rename_i slot
    generalize hopened : (if slot < env.connectionSlots r then _ else s₁) = s₂
    have h₂ : Settles s s₂ := by
      rw [← hopened]
      split
      · refine SettlesBut.arm hrecv ((h₁.but (r, slot)).trans ?_)
        generalize hfresh : s₁.setConnection (r, slot) _ = s₃
        have hreset : SettlesBut (r, slot) s₁ s₃ := by
          rw [← hfresh]
          exact settlesBut_setConnection rfl rfl
        generalize hcleared : UringState.setHistory _ (r, slot) {} = s₄
        have hclear : Settles s₃ s₄ := by
          rw [← hcleared]
          exact settles_same rfl fun _ => ⟨rfl, rfl⟩
        have hopen : Settles s₄ (s₄.setRing r
            { s₄.ring r with connectionsOpen := (s₄.ring r).connectionsOpen + 1 }) :=
          settles_setRing rfl rfl
        exact hreset.trans ((hclear.trans hopen).but _)
      · exact h₁
    split
    · exact h₂.trans (moveAcceptOn_settles s₂ r)
    · exact h₂.trans (hrearm s₂)
  · exact h₁
  · exact h₁.trans (armAcceptSomewhere_settles s₁ (r + 1))
  · exact h₁.trans (hrearm s₁)

theorem goOnAfterSend_settles (hrecv : RecvFits env) (hstatus : StatusFits env) {s s₁ : UringState}
    {slot : Slot} (h : SettlesBut slot s s₁) : Settles s (goOnAfterSend env s₁ slot) := by
  simp only [goOnAfterSend]
  generalize hserved : (if (s₁.connection slot).inBuf.used > 0 then _ else s₁) = s₂
  have h₂ : SettlesBut slot s s₂ := by
    rw [← hserved]
    split
    · exact h.trans ((serveNextRequest_settles hstatus s₁ slot _).but slot)
    · exact h
  split
  · exact h₂.arm hrecv
  · rename_i hnot
    refine h₂.settles fun hstopped => hnot ⟨hstopped.inUse, ?_, ?_, ?_⟩
    · rw [hstopped.recvArmed]
      decide
    · rw [hstopped.sendInFlight]
      decide
    · rw [hstopped.deferred]
      decide

theorem serveOneWaiting_settles (hstatus : StatusFits env) (s : UringState) :
    Settles s (serveOneWaiting env s) := by
  have htaken := @takeWaitingFrom_settles env (ringsFrom env s.ticketCursor) s
  unfold serveOneWaiting takeNextWaitingForTicket
  split
  · rename_i hnone
    rw [hnone] at htaken
    exact htaken
  · rename_i waiting s₁ hsome
    rw [hsome] at htaken
    simp only
    split
    · exact htaken.trans (serveNextRequest_settles hstatus s₁ waiting _)
    · exact htaken

theorem handleSendCompletion_settles (hrecv : RecvFits env) (hstatus : StatusFits env)
    (s : UringState) (send : OutstandingSend) (res : Int) :
    Settles s (handleSendCompletion env s send res) := by
  have hreleased := releaseSendTicket_settles s send.ticket
  simp only [handleSendCompletion]
  split
  · split
    · exact SettlesBut.close ((hreleased.but _).trans (settlesBut_setConnection rfl rfl))
    · exact hreleased
  generalize hwritten : s.setTicket send.ticket _ = s₁
  have h₁ : Settles s s₁ := by
    rw [← hwritten]
    exact settles_same rfl fun _ => ⟨rfl, rfl⟩
  have h₂ := h₁.trans (releaseSendTicket_settles s₁ send.ticket)
  split
  · split
    · exact h₁.trans (submitSend_settles ..)
    · exact h₂
  · refine Settles.trans ?_ (serveOneWaiting_settles hstatus _)
    split
    · have hended : SettlesBut send.id.slot s ((releaseSendTicket s₁ send.ticket).setConnection
          send.id.slot { s.connection send.id.slot with sendInFlight := false }) := by
        refine (h₂.but _).trans (settlesBut_setConnection ?_ ?_)
        · rw [← hwritten]
          rfl
        · rw [← hwritten]
          rfl
      split
      · exact hended.close
      · exact goOnAfterSend_settles hrecv hstatus hended
    · exact h₂

theorem apiSendDeferred_settles (hstatus : StatusFits env) (s : UringState)
    (answer : DeferredAnswer) : Settles s (apiSendDeferred env s answer) := by
  simp only [apiSendDeferred]
  split
  · exact .refl s
  split
  · exact .refl s
  split
  · exact .refl s
  rename_i ticket s₁ hacquire
  have h₁ := acquireSendTicket_settles hacquire
  generalize hslot : (answer.ring, answer.slot) = slot
  have hconn : s₁.connection slot = s.connection slot := by
    obtain ⟨-, -, rfl⟩ := acquireSendTicket_eq_some hacquire
    rfl
  have hrefused : SettlesBut slot s (releaseSendTicket (s₁.setConnection slot
      { s.connection slot with deferred := false }) ticket) := by
    refine ((h₁.but slot).trans (settlesBut_setConnection ?_ ?_)).trans
      ((releaseSendTicket_settles _ ticket).but slot)
    · rw [hconn]
    · rw [hconn]
  split
  · exact hrefused.status hstatus 500 _
  · split
    · exact hrefused.status hstatus 500 _
    · have hsending : Settles s₁ (s₁.setConnection slot
          { s.connection slot with deferred := false, sendInFlight := true }) := by
        refine settles_setConnection ?_ ?_ fun h => by cases h.sendInFlight
        · rw [hconn]
        · rw [hconn]
      exact (h₁.trans hsending).trans (sendResponse_settles ..)

/-- Whatever is handled but a receive completion leaves the queues alone. -/
theorem step_settles (hrecv : RecvFits env) (hstatus : StatusFits env) (s : UringState) {e : Event}
    (he : ∀ r cqe, e ≠ .recv r cqe) : Settles s (step env s e) := by
  cases e with
  | recv r cqe => exact absurd rfl (he r cqe)
  | accept r res more =>
    simp only [step]
    split
    · exact handleAcceptCompletion_settles hrecv s r res more
    · exact .refl s
  | send place res =>
    simp only [step]
    split
    · exact .refl s
    · rename_i send _
      have hended : Settles s { s with sends := s.sends.eraseIdx place } :=
        settles_same rfl fun _ => ⟨rfl, rfl⟩
      exact hended.trans (handleSendCompletion_settles hrecv hstatus _ send res)
  | close r =>
    simp only [step, handleCloseCompletion]
    split
    · split
      · exact armAcceptSomewhere_settles s r
      · exact .refl s
    · exact .refl s
  | flush => exact flushBatch_settles hstatus s
  | sendDeferred answer => exact apiSendDeferred_settles hstatus s answer
  | setHandlers api batch => exact settles_same rfl fun _ => ⟨rfl, rfl⟩

/-! ## The queues and who is in them -/

/-- Each connection that has stopped is in its ring's queue, those in `skip` perhaps not. -/
structure ParkedBut (env : Environment) (skip : Slot → Prop) (s : UringState) : Prop where
  queues : ∀ r, ∃ l, s.rearm.Holds r l
  inTable : ∀ a, s.rearm.queued a = true → a.2 < env.connectionSlots a.1
  stopped : ∀ a, ¬ skip a → (s.connection a).Stopped → s.rearm.queued a = true

/-- Each connection that has stopped is in its ring's queue. -/
def Parked (env : Environment) (s : UringState) : Prop := ParkedBut env (fun _ => False) s

section
variable {skip : Slot → Prop} {s s₁ : UringState} {slot : Slot}

theorem ParkedBut.settlesBut (h : ParkedBut env skip s) (hs : SettlesBut slot s s₁)
    (hskip : skip slot) : ParkedBut env skip s₁ := by
  refine ⟨?_, ?_, fun a ha hstopped => ?_⟩
  · rw [hs.rearm]
    exact h.queues
  · rw [hs.rearm]
    exact h.inTable
  · have hne : a ≠ slot := fun hcon => ha (hcon ▸ hskip)
    rw [hs.rearm]
    exact h.stopped a ha (hs.stopped a hne hstopped)

theorem ParkedBut.settles (h : ParkedBut env skip s) (hs : Settles s s₁) :
    ParkedBut env skip s₁ := by
  refine ⟨?_, ?_, fun a ha hstopped => ?_⟩
  · rw [hs.rearm]
    exact h.queues
  · rw [hs.rearm]
    exact h.inTable
  · rw [hs.rearm]
    exact h.stopped a ha (hs.stopped a hstopped)

theorem ParkedBut.mono {skip' : Slot → Prop} (h : ParkedBut env skip s)
    (hskip : ∀ a, skip a → skip' a) : ParkedBut env skip' s :=
  ⟨h.queues, h.inTable, fun a ha => h.stopped a fun hcon => ha (hskip a hcon)⟩

theorem ParkedBut.restrict (h : ParkedBut env (fun a => skip a ∨ a = slot) s)
    (hslot : ¬ (s.connection slot).Stopped) : ParkedBut env skip s := by
  refine ⟨h.queues, h.inTable, fun a ha hstopped => h.stopped a ?_ hstopped⟩
  rintro (hskip | rfl)
  · exact ha hskip
  · exact hslot hstopped

end

/-! ## A connection is queued -/

theorem queueForRearm_rearm (s : UringState) (slot : Slot) :
    (queueForRearm s slot).rearm = s.rearm.push slot := by
  simp only [queueForRearm, Table.push]
  have hqueued : s.rearm.queued slot = (s.connection slot).waitingForRearm := rfl
  rw [hqueued]
  split
  · rfl
  have htail : s.rearm.tail slot.1 = (s.ring slot.1).rearmTail := rfl
  rw [htail, UringState.setConnection_ring]
  cases hlast : (s.ring slot.1).rearmTail with
  | none =>
    refine Table.ext ?_ ?_ ?_ ?_
    · exact Function.comp_update UringRing.rearmHead ..
    · exact Function.comp_update UringRing.rearmTail ..
    · exact Function.comp_update UringConnection.nextRearm ..
    · exact Function.comp_update UringConnection.waitingForRearm ..
  | some last =>
    refine Table.ext ?_ ?_ ?_ ?_
    · refine (Function.comp_update UringRing.rearmHead ..).trans (Function.update_eq_self ..)
    · exact Function.comp_update UringRing.rearmTail ..
    · refine (Function.comp_update UringConnection.nextRearm ..).trans ?_
      exact congrArg (fun f => Function.update f (slot.1, last) (some slot.2))
        (Function.comp_update UringConnection.nextRearm ..)
    · refine (Function.comp_update UringConnection.waitingForRearm ..).trans ?_
      refine (Function.update_eq_self ..).trans ?_
      exact Function.comp_update UringConnection.waitingForRearm ..

theorem queueForRearm_stopped (s : UringState) (slot a : Slot) :
    ((queueForRearm s slot).connection a).Stopped ↔ (s.connection a).Stopped := by
  have hmarked : ∀ (t : UringState) (b : Slot) (conn : UringConnection),
      (conn.Stopped ↔ (t.connection b).Stopped) →
      (((t.setConnection b conn).connection a).Stopped ↔ (t.connection a).Stopped) := by
    intro t b conn hconn
    rw [UringState.setConnection_connection]
    by_cases hab : a = b
    · rw [hab, Function.update_self]
      exact hconn
    · rw [Function.update_of_ne hab]
  have hsame : ∀ (conn : UringConnection) (next : Option Nat) (queued : Bool),
      UringConnection.Stopped { conn with nextRearm := next, waitingForRearm := queued } ↔
        conn.Stopped :=
    fun conn next queued => ⟨fun h => ⟨h.1, h.2, h.3, h.4⟩, fun h => ⟨h.1, h.2, h.3, h.4⟩⟩
  simp only [queueForRearm]
  split
  · rfl
  · split
    · exact hmarked s slot _ (hsame ..)
    · exact (hmarked _ _ _ (hsame ..)).trans (hmarked s slot _ (hsame ..))

theorem queueForRearm_parked {s : UringState} {slot : Slot}
    (h : ParkedBut env (fun a => a = slot) s) (hslot : slot.2 < env.connectionSlots slot.1) :
    Parked env (queueForRearm s slot) := by
  have hqueued : (queueForRearm s slot).rearm.queued = Function.update s.rearm.queued slot true := by
    rw [queueForRearm_rearm, Table.push_queued]
  refine ⟨?_, fun a ha => ?_, fun a _ hstopped => ?_⟩
  · rw [queueForRearm_rearm]
    exact Table.push_holds h.queues slot
  · rw [hqueued] at ha
    by_cases haslot : a = slot
    · rw [haslot]
      exact hslot
    · rw [Function.update_of_ne haslot] at ha
      exact h.inTable a ha
  · rw [hqueued]
    by_cases haslot : a = slot
    · rw [haslot, Function.update_self]
    · rw [Function.update_of_ne haslot]
      exact h.stopped a haslot ((queueForRearm_stopped s slot a).mp hstopped)

/-! ## A buffer is handed back -/

/-- The head of a ring's queue comes off it. -/
def popRearm (s : UringState) (r slot : Nat) : UringState :=
  (s.setRing r { s.ring r with
    rearmHead := (s.connection (r, slot)).nextRearm
    rearmTail := if (s.connection (r, slot)).nextRearm = none then none
      else (s.ring r).rearmTail }).setConnection
    (r, slot) { s.connection (r, slot) with nextRearm := none, waitingForRearm := false }

theorem popRearm_rearm (s : UringState) (r slot : Nat) :
    (popRearm s r slot).rearm = s.rearm.pop (r, slot) := by
  refine Table.ext ?_ ?_ ?_ ?_
  · exact Function.comp_update UringRing.rearmHead ..
  · exact Function.comp_update UringRing.rearmTail ..
  · exact Function.comp_update UringConnection.nextRearm ..
  · exact Function.comp_update UringConnection.waitingForRearm ..

theorem popRearm_stopped (s : UringState) (r slot : Nat) (a : Slot) :
    ((popRearm s r slot).connection a).Stopped ↔ (s.connection a).Stopped := by
  unfold popRearm
  rw [UringState.setConnection_connection]
  by_cases ha : a = (r, slot)
  · rw [ha, Function.update_self]
    exact ⟨fun h => ⟨h.1, h.2, h.3, h.4⟩, fun h => ⟨h.1, h.2, h.3, h.4⟩⟩
  · rw [Function.update_of_ne ha]
    rfl

theorem rearmOneWaitingLoop_some {s : UringState} {r slot : Nat} (fuel : Nat)
    (hhead : s.rearm.head r = some slot) :
    (rearmOneWaitingLoop env r (fuel + 1) s = armRecv env (popRearm s r slot) (r, slot) ∧
        (s.connection (r, slot)).Stopped) ∨
      (rearmOneWaitingLoop env r (fuel + 1) s =
          rearmOneWaitingLoop env r fuel (popRearm s r slot) ∧
        ¬ (s.connection (r, slot)).Stopped) := by
  have hhead' : (s.ring r).rearmHead = some slot := hhead
  by_cases hstopped : (s.connection (r, slot)).Stopped
  · refine .inl ⟨?_, hstopped⟩
    rw [rearmOneWaitingLoop, hhead']
    refine if_pos ⟨hstopped.inUse, ?_, ?_, ?_⟩
    · rw [hstopped.recvArmed]
      decide
    · rw [hstopped.sendInFlight]
      decide
    · rw [hstopped.deferred]
      decide
  · refine .inr ⟨?_, hstopped⟩
    rw [rearmOneWaitingLoop, hhead']
    refine if_neg fun h => hstopped ⟨h.1, ?_, ?_, ?_⟩
    · exact Bool.eq_false_iff.mpr h.2.1
    · exact Bool.eq_false_iff.mpr h.2.2.1
    · exact Bool.eq_false_iff.mpr h.2.2.2

theorem rearmOneWaitingLoop_none {s : UringState} {r : Nat} (fuel : Nat)
    (hhead : s.rearm.head r = none) : rearmOneWaitingLoop env r fuel s = s := by
  have hhead' : (s.ring r).rearmHead = none := hhead
  cases fuel with
  | zero => rfl
  | succ fuel => rw [rearmOneWaitingLoop, hhead']

theorem ParkedBut.pop {skip : Slot → Prop} {s : UringState} {r slot : Nat}
    (h : ParkedBut env skip s) (hhead : s.rearm.head r = some slot) :
    ParkedBut env (fun a => skip a ∨ a = (r, slot)) (popRearm s r slot) := by
  refine ⟨?_, fun a ha => ?_, fun a ha hstopped => ?_⟩
  · rw [popRearm_rearm]
    exact Table.pop_holds h.queues hhead
  · rw [popRearm_rearm] at ha
    by_cases haslot : a = (r, slot)
    · simp [Table.pop, haslot] at ha
    · simp only [Table.pop, Function.update_of_ne haslot] at ha
      exact h.inTable a ha
  · rw [not_or] at ha
    rw [popRearm_rearm]
    simp only [Table.pop, Function.update_of_ne ha.2]
    exact h.stopped a ha.1 ((popRearm_stopped s r slot a).mp hstopped)

theorem rearmOneWaitingLoop_parked (hrecv : RecvFits env) {skip : Slot → Prop} (r fuel : Nat)
    {s : UringState} (h : ParkedBut env skip s) :
    ParkedBut env skip (rearmOneWaitingLoop env r fuel s) := by
  induction fuel generalizing s with
  | zero => exact h
  | succ fuel ih =>
    cases hhead : s.rearm.head r with
    | none =>
      rw [rearmOneWaitingLoop_none _ hhead]
      exact h
    | some slot =>
      have hpopped := h.pop hhead
      rcases @rearmOneWaitingLoop_some env s r slot fuel hhead with ⟨heq, -⟩ | ⟨heq, hgoing⟩
      · rw [heq]
        exact (hpopped.settles (armRecv_settles hrecv _ (r, slot))).restrict
          (armRecv_not_stopped hrecv _ (r, slot))
      · rw [heq]
        exact ih (hpopped.restrict fun hstopped =>
          hgoing ((popRearm_stopped s r slot (r, slot)).mp hstopped))

theorem rearmOneWaitingLoop_others (hrecv : RecvFits env) {r r' : Nat} (hr : r' ≠ r) (fuel : Nat)
    (s : UringState) :
    (rearmOneWaitingLoop env r fuel s).rearm.head r' = s.rearm.head r' := by
  induction fuel generalizing s with
  | zero => rfl
  | succ fuel ih =>
    cases hhead : s.rearm.head r with
    | none => rw [rearmOneWaitingLoop_none _ hhead]
    | some slot =>
      have hpopped : (popRearm s r slot).rearm.head r' = s.rearm.head r' := by
        rw [popRearm_rearm]
        exact Function.update_of_ne hr ..
      rcases @rearmOneWaitingLoop_some env s r slot fuel hhead with ⟨heq, -⟩ | ⟨heq, -⟩
      · rw [heq, (armRecv_settles hrecv _ (r, slot)).rearm, hpopped]
      · rw [heq, ih, hpopped]

/-- When all that are queued but the last have something outstanding, the queue is empty after one
buffer. -/
theorem rearmOneWaitingLoop_drains (hrecv : RecvFits env) {r fuel : Nat} {s : UringState}
    {l : List Nat} (hl : s.rearm.Holds r l) (hfuel : l.length < fuel)
    (hgoing : ∀ slot ∈ l.dropLast, ¬ (s.connection (r, slot)).Stopped) :
    (rearmOneWaitingLoop env r fuel s).rearm.head r = none := by
  induction l generalizing fuel s with
  | nil =>
    have hhead : s.rearm.head r = none := hl.head_eq_none_iff.mpr rfl
    rw [rearmOneWaitingLoop_none _ hhead]
    exact hhead
  | cons slot l ih =>
    obtain ⟨fuel, rfl⟩ : ∃ n, fuel = n + 1 := Nat.exists_eq_succ_of_ne_zero (Nat.ne_zero_of_lt hfuel)
    have hhead : s.rearm.head r = some slot := hl.head_eq
    obtain ⟨l', hcons, hpopped⟩ := @Table.Holds.pop Nat _ Nat _ s.rearm (r, slot) _ hl hhead
    obtain rfl : l = l' := (List.cons.inj hcons).2
    rw [← popRearm_rearm] at hpopped
    rcases @rearmOneWaitingLoop_some env s r slot fuel hhead with ⟨heq, hstopped⟩ | ⟨heq, -⟩
    · -- the one that is armed was the last
      have hnil : l = [] := by
        by_contra hne
        refine hgoing slot ?_ hstopped
        rw [List.dropLast_cons_of_ne_nil hne]
        exact List.mem_cons_self ..
      rw [heq, (armRecv_settles hrecv _ (r, slot)).rearm]
      exact hpopped.head_eq_none_iff.mpr hnil
    · rw [heq]
      refine ih hpopped (Nat.lt_of_succ_lt_succ hfuel) fun slot' hslot' hstopped => ?_
      have hne : l ≠ [] := by
        rintro rfl
        cases hslot'
      refine hgoing slot' ?_ ((popRearm_stopped s r slot (r, slot')).mp hstopped)
      rw [List.dropLast_cons_of_ne_nil hne]
      exact List.mem_cons_of_mem _ hslot'

end AmmarServer.Uring
