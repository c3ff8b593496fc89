import AmmarServer.Threads.ApiStream
import AmmarServer.Threads.UringAPIServer

/-! A connection of the ring server seen as a pipeline, and what the operations on one slot do to it and
leave alone. -/

namespace AmmarServer.Uring
open ApiProtocol Pipeline

/-! ## The view of a connection -/

def sendsOf (s : UringState) (id : ConnectionId) : List Bool :=
  (s.sends.filter fun o => o.id = id).map fun o => (s.sendTicket o.ticket).closeWhenWritten

/-- A connection in use, with its history and the sends on their way. -/
def openView (conn : UringConnection) (h : History) (sends : List Bool) : Connection UInt8 :=
  { isOpen := true, received := h.received, held := conn.inBuf.data, answered := h.answered
    sends := sends, inFlight := conn.sendInFlight, batched := conn.batched
    batchedAt := h.batchedAt, deferred := conn.deferred, deferredAt := h.deferredAt }

def goneView (h : History) (sends : List Bool) : Connection UInt8 :=
  { received := h.received, answered := h.answered, sends := sends, batchedAt := h.batchedAt
    deferredAt := h.deferredAt }

def view (s : UringState) (id : ConnectionId) : Connection UInt8 :=
  if (s.connection id.slot).inUse = true ∧ s.idOf id.slot = id then
    openView (s.connection id.slot) (s.history id) (sendsOf s id)
  else goneView (s.history id) (sendsOf s id)

/-! ## What only concerns receives, queues and accepts -/

/-- A connection without its part in receives. -/
def UringConnection.unarmed (conn : UringConnection) : UringConnection :=
  { conn with recvArmed := false, nextRearm := none, waitingForRearm := false }

/-- A state without what receives and accepts are about. -/
def UringState.unarmed (s : UringState) : UringState :=
  { s with
    ring := fun r => { waitingHead := (s.ring r).waitingHead, waitingTail := (s.ring r).waitingTail }
    connection := fun slot => (s.connection slot).unarmed
    acceptRing := 0, acceptStalled := false, calls := 0 }

/-- A connection without its part in receives and queues. -/
def UringConnection.serving (conn : UringConnection) : UringConnection :=
  { conn.unarmed with nextWaiting := none, waitingForTicket := false }

/-- A state without what receives, queues and accepts are about. -/
def UringState.serving (s : UringState) : UringState :=
  { s.unarmed with
    ring := fun _ => {}, connection := fun slot => (s.connection slot).serving, ticketCursor := 0 }

theorem serving_of_unarmed {s s' : UringState} (h : s'.unarmed = s.unarmed) :
    s'.serving = s.serving := by
  have hserving : ∀ t : UringState, t.serving = t.unarmed.serving := fun _ => rfl
  rw [hserving s', h, ← hserving s]

theorem map_setConnection {β : Type} {s : UringState} {slot : Slot} {conn : UringConnection}
    (part : UringConnection → β) (h : part conn = part (s.connection slot)) :
    (fun a => part ((s.setConnection slot conn).connection a)) = fun a => part (s.connection a) := by
  funext a
  rw [UringState.setConnection_connection]
  by_cases ha : a = slot
  · rw [ha, Function.update_self, h]
  · rw [Function.update_of_ne ha]

theorem unarmed_setConnection {s : UringState} {slot : Slot} {conn : UringConnection}
    (h : conn.unarmed = (s.connection slot).unarmed) :
    (s.setConnection slot conn).unarmed = s.unarmed := by
  rw [UringState.unarmed, map_setConnection UringConnection.unarmed h]
  rfl

theorem unarmed_setRing {s : UringState} {r : Nat} {ring : UringRing}
    (hhead : ring.waitingHead = (s.ring r).waitingHead)
    (htail : ring.waitingTail = (s.ring r).waitingTail) :
    (s.setRing r ring).unarmed = s.unarmed := by
  have hring : ∀ r', ((s.setRing r ring).ring r').waitingHead = (s.ring r').waitingHead ∧
      ((s.setRing r ring).ring r').waitingTail = (s.ring r').waitingTail := by
    intro r'
    rw [UringState.setRing_ring]
    by_cases hr : r' = r
    · rw [hr, Function.update_self]
      exact ⟨hhead, htail⟩
    · rw [Function.update_of_ne hr]
      exact ⟨rfl, rfl⟩
  rw [UringState.unarmed]
  simp only [hring]
  rfl

@[simp] theorem unarmed_asked (s : UringState) : s.asked.unarmed = s.unarmed := rfl

theorem serving_setConnection {s : UringState} {slot : Slot} {conn : UringConnection}
    (h : conn.serving = (s.connection slot).serving) :
    (s.setConnection slot conn).serving = s.serving := by
  rw [UringState.serving, map_setConnection UringConnection.serving h]
  rfl

@[simp] theorem serving_setRing (s : UringState) (r : Nat) (ring : UringRing) :
    (s.setRing r ring).serving = s.serving := rfl

@[simp] theorem serving_asked (s : UringState) : s.asked.serving = s.serving := rfl

variable (env : Environment)

theorem unarmed_queueForRearm (s : UringState) (slot : Slot) :
    (queueForRearm s slot).unarmed = s.unarmed := by
  simp only [queueForRearm]
  split
  · rfl
  split
  · rw [unarmed_setRing, unarmed_setConnection] <;> rfl
  · rw [unarmed_setRing, unarmed_setConnection, unarmed_setConnection] <;> rfl

theorem unarmed_armRecv (s : UringState) (slot : Slot) :
    (armRecv env s slot).unarmed = s.unarmed := by
  simp only [armRecv]
  split
  · exact unarmed_setConnection rfl
  · split
    · exact unarmed_setConnection rfl
    · rw [unarmed_queueForRearm, unarmed_asked]

theorem unarmed_rearmOneWaitingLoop (r fuel : Nat) (s : UringState) :
    (rearmOneWaitingLoop env r fuel s).unarmed = s.unarmed := by
  induction fuel generalizing s with
  | zero => rfl
  | succ fuel ih =>
    rw [rearmOneWaitingLoop]
    split
    · rfl
    · simp only
      split
      · rw [unarmed_armRecv, unarmed_setConnection, unarmed_setRing] <;> rfl
      · rw [ih, unarmed_setConnection, unarmed_setRing] <;> rfl

theorem unarmed_recycleRecvBuffer (s : UringState) (r : Nat) :
    (recycleRecvBuffer env s r).unarmed = s.unarmed := by
  rw [recycleRecvBuffer, rearmOneWaiting, unarmed_rearmOneWaitingLoop]
  split
  · rfl
  · exact unarmed_asked s

theorem unarmed_armAccept (s : UringState) (r : Nat) : (armAccept env s r).unarmed = s.unarmed := by
  unfold armAccept
  split_ifs
  · rfl
  · have hset : (s.asked.setRing r { s.ring r with acceptArmed := true }).unarmed =
        s.asked.unarmed := unarmed_setRing rfl rfl
    exact hset
  · rfl

theorem unarmed_armAcceptSomewhere (s : UringState) (startAt : Nat) :
    (armAcceptSomewhere env s startAt).unarmed = s.unarmed := by
  simp only [armAcceptSomewhere]
  split
  · rw [unarmed_armAccept]
    rfl
  · rfl

theorem unarmed_moveAcceptOn (s : UringState) (leaving : Nat) :
    (moveAcceptOn env s leaving).unarmed = s.unarmed := by
  have h := unarmed_armAcceptSomewhere env s (leaving + 1)
  simp only [moveAcceptOn, cancelAccept]
  split_ifs <;> exact h

theorem serving_queueForTicket (s : UringState) (slot : Slot) :
    (queueForTicket s slot).serving = s.serving := by
  simp only [queueForTicket]
  split
  · rfl
  split
  · exact serving_setConnection rfl
  · rw [serving_setRing, serving_setConnection, serving_setConnection] <;> rfl

theorem serving_popWaiting (s : UringState) (r slot : Nat) :
    (popWaiting s r slot).serving = s.serving := by
  rw [popWaiting, serving_setConnection, serving_setRing]
  rfl

theorem serving_takeWaitingOf (r fuel : Nat) (s : UringState) :
    (takeWaitingOf env r fuel s).2.serving = s.serving := by
  induction fuel generalizing s with
  | zero => rfl
  | succ fuel ih =>
    rw [takeWaitingOf]
    split
    · rfl
    · simp only
      split
      · exact serving_popWaiting ..
      · rw [ih, serving_popWaiting]

theorem serving_takeWaitingFrom (rings : List Nat) (s : UringState) :
    (takeWaitingFrom env rings s).2.serving = s.serving := by
  induction rings generalizing s with
  | nil => rfl
  | cons r rs ih =>
    have htake := serving_takeWaitingOf env r (env.connectionSlots r + 1) s
    rw [takeWaitingFrom]
    split
    · rename_i hsome
      rw [hsome] at htake
      exact htake
    · rename_i hnone
      rw [hnone] at htake
      rw [ih, htake]

theorem view_of_serving_eq {s s' : UringState} (h : s'.serving = s.serving) : view s' = view s := by
  have hview : ∀ t : UringState, view t = view t.serving := fun t => rfl
  rw [hview s', hview s, h]

theorem sendTicket_of_serving_eq {s s' : UringState} (h : s'.serving = s.serving) :
    s'.sendTicket = s.sendTicket :=
  (congrArg UringState.sendTicket h : s'.serving.sendTicket = s.serving.sendTicket)

theorem inUse_of_serving_eq {s s' : UringState} (h : s'.serving = s.serving) (slot : Slot) :
    (s'.connection slot).inUse = (s.connection slot).inUse := by
  have hconn : (s'.connection slot).serving = (s.connection slot).serving :=
    congrFun (congrArg UringState.connection h) slot
  exact (congrArg UringConnection.inUse hconn :
    (s'.connection slot).serving.inUse = (s.connection slot).serving.inUse)

/-! ## Tickets, and what an operation on one slot leaves alone -/

/-- Acquired, and not given to a send. -/
def Held (s : UringState) (ticket : Nat) : Prop :=
  (s.sendTicket ticket).busy = true ∧ ∀ o ∈ s.sends, o.ticket ≠ ticket

/-- Each outstanding send has a ticket of its own, and the generation kept there tells whether the
connection it was for is still the one in the slot. -/
structure TicketsOk (s : UringState) : Prop where
  nodup : (s.sends.map OutstandingSend.ticket).Nodup
  busy : ∀ o ∈ s.sends, (s.sendTicket o.ticket).busy = true
  known : ∀ o ∈ s.sends, o.id.incarnation ≤ s.incarnation o.id.slot
  theirs : ∀ o ∈ s.sends,
    (s.connection o.id.slot).generation = (s.sendTicket o.ticket).generation ↔
      o.id = s.idOf o.id.slot

/-- What an operation on the connection in `slot` leaves alone. -/
structure Elsewhere (slot : Slot) (s s' : UringState) : Prop where
  incarnation : s'.incarnation = s.incarnation
  generation : ∀ a, (s'.connection a).generation = (s.connection a).generation
  inUse : ∀ a, (s'.connection a).inUse = true → (s.connection a).inUse = true
  batched : ∀ a, (s'.connection a).inUse = true → (s.connection a).batched = true →
    (s'.connection a).batched = true
  others : ∀ id, id ≠ s.idOf slot → view s' id = view s id
  batchPending : s'.batchPending = s.batchPending
  sends : s.sends <+: s'.sends

/-- The same with the tickets; `spent` is the one that the operation uses up. -/
structure Local (slot : Slot) (spent : Option Nat) (s s' : UringState) : Prop
    extends Elsewhere slot s s' where
  tickets : TicketsOk s → (∀ t ∈ spent, Held s t) → TicketsOk s'
  held : ∀ t, t ∉ spent → Held s t → Held s' t

theorem TicketsOk.congr {s s' : UringState} (h : TicketsOk s) (hsends : s'.sends = s.sends)
    (hticket : ∀ o ∈ s.sends, (s'.sendTicket o.ticket).busy = (s.sendTicket o.ticket).busy ∧
      (s'.sendTicket o.ticket).generation = (s.sendTicket o.ticket).generation)
    (hincarnation : s'.incarnation = s.incarnation)
    (hgeneration : ∀ a, (s'.connection a).generation = (s.connection a).generation) :
    TicketsOk s' where
  nodup := hsends ▸ h.nodup
  busy o ho := by
    rw [hsends] at ho
    rw [(hticket o ho).1]
    exact h.busy o ho
  known o ho := by
    rw [hsends] at ho
    rw [hincarnation]
    exact h.known o ho
  theirs o ho := by
    rw [hsends] at ho
    rw [hgeneration, (hticket o ho).2, UringState.idOf, hincarnation]
    exact h.theirs o ho

theorem TicketsOk.free {s : UringState} (h : TicketsOk s) {ticket : Nat}
    (hfree : (s.sendTicket ticket).busy = false) : ∀ o ∈ s.sends, o.ticket ≠ ticket := by
  rintro o ho rfl
  exact absurd (hfree.symm.trans (h.busy o ho)) Bool.false_ne_true

theorem Elsewhere.refl (slot : Slot) (s : UringState) : Elsewhere slot s s :=
  ⟨rfl, fun _ => rfl, fun _ => id, fun _ _ => id, fun _ _ => rfl, rfl, List.prefix_refl _⟩

theorem Elsewhere.idOf {slot : Slot} {s s' : UringState} (h : Elsewhere slot s s') (a : Slot) :
    s'.idOf a = s.idOf a := by
  rw [UringState.idOf, h.incarnation, UringState.idOf]

theorem Elsewhere.trans {slot : Slot} {s s₁ s₂ : UringState} (h : Elsewhere slot s s₁)
    (h₁ : Elsewhere slot s₁ s₂) : Elsewhere slot s s₂ where
  incarnation := h₁.incarnation.trans h.incarnation
  generation a := (h₁.generation a).trans (h.generation a)
  inUse a ha := h.inUse a (h₁.inUse a ha)
  batched a ha hb := h₁.batched a ha (h.batched a (h₁.inUse a ha) hb)
  others id hid := (h₁.others id (by rwa [h.idOf])).trans (h.others id hid)
  batchPending := h₁.batchPending.trans h.batchPending
  sends := h.sends.trans h₁.sends

theorem Local.refl (slot : Slot) (spent : Option Nat) (s : UringState) : Local slot spent s s :=
  ⟨.refl slot s, fun h _ => h, fun _ _ => id⟩

theorem Local.trans {slot : Slot} {spent : Option Nat} {s s₁ s₂ : UringState}
    (h : Local slot none s s₁) (h₁ : Local slot spent s₁ s₂) : Local slot spent s s₂ where
  toElsewhere := h.toElsewhere.trans h₁.toElsewhere
  tickets hok hspent := h₁.tickets (h.tickets hok (by simp)) fun t ht =>
    h.held t (by simp) (hspent t ht)
  held t ht hheld := h₁.held t ht (h.held t (by simp) hheld)

theorem Local.trans_none {slot : Slot} {spent : Option Nat} {s s₁ s₂ : UringState}
    (h : Local slot spent s s₁) (h₁ : Local slot none s₁ s₂) : Local slot spent s s₂ where
  toElsewhere := h.toElsewhere.trans h₁.toElsewhere
  tickets hok hspent := h₁.tickets (h.tickets hok hspent) (by simp)
  held t ht hheld := h₁.held t (by simp) (h.held t ht hheld)

theorem Local.after_acquire {slot : Slot} {ticket : Nat} {s s₁ s₂ : UringState}
    (h : Local slot none s s₁) (hidle : (s.sendTicket ticket).busy = false) (hheld : Held s₁ ticket)
    (h₁ : Local slot (some ticket) s₁ s₂) : Local slot none s s₂ where
  toElsewhere := h.toElsewhere.trans h₁.toElsewhere
  tickets hok _ := h₁.tickets (h.tickets hok (by simp)) fun t ht => by
    obtain rfl : ticket = t := by simpa using ht
    exact hheld
  held t _ ht := by
    refine h₁.held t ?_ (h.held t (by simp) ht)
    intro hcon
    obtain rfl : ticket = t := by simpa using hcon
    exact absurd (hidle.symm.trans ht.1) Bool.false_ne_true

theorem local_of_serving_eq (slot : Slot) {s s' : UringState} (h : s'.serving = s.serving) :
    Local slot none s s' := by
  have hconn : ∀ a, s'.serving.connection a = s.serving.connection a := fun a => by rw [h]
  have hsends : s'.serving.sends = s.serving.sends := by rw [h]
  have hticket : s'.serving.sendTicket = s.serving.sendTicket := by rw [h]
  have hincarnation : s'.serving.incarnation = s.serving.incarnation := by rw [h]
  have hbatch : s'.serving.batchPending = s.serving.batchPending := by rw [h]
  have hgeneration : ∀ a, (s'.connection a).generation = (s.connection a).generation := by
    intro a
    change (s'.serving.connection a).generation = (s.serving.connection a).generation
    rw [hconn]
  change s'.sends = s.sends at hsends
  change s'.sendTicket = s.sendTicket at hticket
  refine ⟨⟨hincarnation, hgeneration, fun a ha => ?_, fun a _ hb => ?_, fun id _ => ?_, hbatch, ?_⟩,
    fun hok _ => ?_, fun t _ hheld => ?_⟩
  · change (s.serving.connection a).inUse = true
    rw [← hconn]
    exact ha
  · change (s'.serving.connection a).batched = true
    rw [hconn]
    exact hb
  · rw [view_of_serving_eq h]
  · rw [hsends]
  · exact hok.congr hsends (fun o _ => by rw [hticket]; exact ⟨rfl, rfl⟩) hincarnation hgeneration
  · unfold Held
    rw [hticket, hsends]
    exact hheld

theorem view_setConnection_of_ne {s : UringState} {slot : Slot} {conn : UringConnection}
    {id : ConnectionId} (hid : id ≠ s.idOf slot) :
    view (s.setConnection slot conn) id = view s id := by
  by_cases hslot : id.slot = slot
  · have hstale : s.idOf id.slot ≠ id := by
      rw [hslot]
      exact hid.symm
    have hstale' : (s.setConnection slot conn).idOf id.slot ≠ id := hstale
    unfold view
    simp only [hstale, hstale', and_false, if_false]
    rfl
  · unfold view
    rw [UringState.setConnection_connection, Function.update_of_ne hslot]
    rfl

theorem generation_setConnection {s : UringState} {slot : Slot} {conn : UringConnection}
    (hgeneration : conn.generation = (s.connection slot).generation) (a : Slot) :
    ((s.setConnection slot conn).connection a).generation = (s.connection a).generation := by
  by_cases ha : a = slot
  · rw [ha, UringState.setConnection_connection, Function.update_self, hgeneration]
  · rw [UringState.setConnection_connection, Function.update_of_ne ha]

theorem TicketsOk.setConnection {s : UringState} (h : TicketsOk s) {slot : Slot}
    {conn : UringConnection} (hgeneration : conn.generation = (s.connection slot).generation) :
    TicketsOk (s.setConnection slot conn) :=
  h.congr rfl (fun _ _ => ⟨rfl, rfl⟩) rfl (generation_setConnection hgeneration)

theorem local_setConnection {s : UringState} {slot : Slot} {conn : UringConnection}
    (hgeneration : conn.generation = (s.connection slot).generation)
    (hinUse : conn.inUse = true → (s.connection slot).inUse = true)
    (hbatched : conn.inUse = true → (s.connection slot).batched = true → conn.batched = true) :
    Local slot none s (s.setConnection slot conn) := by
  refine ⟨⟨rfl, generation_setConnection hgeneration, fun a => ?_, fun a => ?_, fun id hid => view_setConnection_of_ne hid, rfl,
    List.prefix_refl _⟩, fun hok _ => ?_, fun t _ hheld => hheld⟩
  · by_cases ha : a = slot
    · rw [ha, UringState.setConnection_connection, Function.update_self]
      exact hinUse
    · rw [UringState.setConnection_connection, Function.update_of_ne ha]
      exact id
  · by_cases ha : a = slot
    · rw [ha, UringState.setConnection_connection, Function.update_self]
      exact hbatched
    · rw [UringState.setConnection_connection, Function.update_of_ne ha]
      exact fun _ => id
  · exact hok.setConnection hgeneration

theorem local_setHistory (s : UringState) (slot : Slot) (h : History) :
    Local slot none s (s.setHistory slot h) := by
  refine ⟨⟨rfl, fun _ => rfl, fun _ => id, fun _ _ => id, fun id hid => ?_, rfl,
    List.prefix_refl _⟩, fun hok _ => hok.congr rfl (fun _ _ => ⟨rfl, rfl⟩) rfl fun _ => rfl,
    fun t _ hheld => hheld⟩
  unfold view
  rw [UringState.setHistory_history, Function.update_of_ne hid]
  rfl

theorem sendsOf_setTicket_of_free {s : UringState} {ticket : Nat} (send : UringSendTicket)
    (hfree : ∀ o ∈ s.sends, o.ticket ≠ ticket) (id : ConnectionId) :
    sendsOf (s.setTicket ticket send) id = sendsOf s id := by
  refine List.map_congr_left fun o ho => ?_
  rw [UringState.setTicket_sendTicket, Function.update_of_ne]
  exact hfree o (List.mem_of_mem_filter ho)

theorem view_setTicket_of_free {s : UringState} {ticket : Nat} (send : UringSendTicket)
    (hfree : ∀ o ∈ s.sends, o.ticket ≠ ticket) : view (s.setTicket ticket send) = view s := by
  funext id
  unfold view
  rw [sendsOf_setTicket_of_free send hfree]
  rfl

theorem local_setTicket {s : UringState} {slot : Slot} {ticket : Nat} (send : UringSendTicket)
    (hfree : ∀ o ∈ s.sends, o.ticket ≠ ticket) {spent : Option Nat}
    (hspent : send.busy = true ∨ spent = some ticket ∨ (s.sendTicket ticket).busy = false) :
    Local slot spent s (s.setTicket ticket send) := by
  refine ⟨⟨rfl, fun _ => rfl, fun _ => id, fun _ _ => id,
    fun id _ => by rw [view_setTicket_of_free send hfree], rfl, List.prefix_refl _⟩,
    fun hok _ => ?_, fun t ht hheld => ⟨?_, hheld.2⟩⟩
  · refine hok.congr rfl (fun o ho => ?_) rfl fun _ => rfl
    rw [UringState.setTicket_sendTicket, Function.update_of_ne (hfree o ho)]
    exact ⟨rfl, rfl⟩
  · by_cases htt : t = ticket
    · subst htt
      rw [UringState.setTicket_sendTicket, Function.update_self]
      rcases hspent with hbusy | rfl | hidle
      · exact hbusy
      · exact absurd rfl ht
      · exact absurd (hidle.symm.trans hheld.1) Bool.false_ne_true
    · rw [UringState.setTicket_sendTicket, Function.update_of_ne htt]
      exact hheld.1

theorem local_releaseSendTicket {s : UringState} (slot : Slot) {ticket : Nat}
    (hheld : Held s ticket) : Local slot (some ticket) s (releaseSendTicket s ticket) :=
  local_setTicket _ hheld.2 (.inr (.inl rfl))

theorem acquireSendTicket_eq_some {s s' : UringState} {ticket : Nat}
    (h : acquireSendTicket s = some (ticket, s')) :
    (s.sendTicket ticket).busy = false ∧ ticket < URING_SEND_TICKETS ∧
      s' = s.setTicket ticket { s.sendTicket ticket with busy := true, sent := 0 } := by
  obtain ⟨i, hi, heq⟩ := Option.map_eq_some_iff.mp h
  obtain ⟨rfl, rfl⟩ := Prod.mk.injEq .. ▸ heq
  have hfree := List.find?_some hi
  have hmem := List.mem_of_find?_eq_some hi
  exact ⟨by simpa using hfree, List.mem_range.mp hmem, rfl⟩

theorem local_acquireSendTicket {s s' : UringState} (slot : Slot) {ticket : Nat}
    (hok : TicketsOk s) (h : acquireSendTicket s = some (ticket, s')) :
    Local slot none s s' ∧ Held s' ticket ∧ view s' = view s := by
  obtain ⟨hidle, _, rfl⟩ := acquireSendTicket_eq_some h
  have hfree := hok.free hidle
  refine ⟨local_setTicket _ hfree (.inl rfl), ⟨?_, hfree⟩, view_setTicket_of_free _ hfree⟩
  rw [UringState.setTicket_sendTicket, Function.update_self]

/-! ## Operations on one connection -/

theorem view_inUse {s : UringState} {slot : Slot} (h : (s.connection slot).inUse = true) :
    view s (s.idOf slot) =
      openView (s.connection slot) (s.historyOf slot) (sendsOf s (s.idOf slot)) :=
  if_pos ⟨h, rfl⟩

theorem view_setConnection {s : UringState} {slot : Slot} {conn : UringConnection}
    (h : conn.inUse = true) :
    view (s.setConnection slot conn) (s.idOf slot) =
      openView conn (s.historyOf slot) (sendsOf s (s.idOf slot)) := by
  have hconn : (s.setConnection slot conn).connection slot = conn := Function.update_self ..
  have hopen : ((s.setConnection slot conn).connection slot).inUse = true := by rw [hconn, h]
  have hview := view_inUse hopen
  rw [hconn] at hview
  exact hview

theorem view_gone {s : UringState} {slot : Slot} (h : (s.connection slot).inUse = false) :
    view s (s.idOf slot) = goneView (s.historyOf slot) (sendsOf s (s.idOf slot)) :=
  if_neg fun hcon => Bool.false_ne_true (h.symm.trans hcon.1)

theorem sendsOf_append (s : UringState) (id : ConnectionId) (ticket : Nat) :
    sendsOf { s with sends := s.sends ++ [⟨id, ticket⟩] } id =
      sendsOf s id ++ [(s.sendTicket ticket).closeWhenWritten] := by
  simp [sendsOf, List.filter_append]

theorem sendsOf_pushSend (s : UringState) (slot : Slot) (ticket : Nat) :
    sendsOf (s.pushSend slot ticket) (s.idOf slot) =
      sendsOf s (s.idOf slot) ++ [(s.sendTicket ticket).closeWhenWritten] :=
  sendsOf_append s (s.idOf slot) ticket

theorem sendsOf_append_of_ne (s : UringState) {id id' : ConnectionId} (h : id' ≠ id)
    (ticket : Nat) :
    sendsOf { s with sends := s.sends ++ [⟨id, ticket⟩] } id' = sendsOf s id' := by
  simp [sendsOf, List.filter_append, h.symm]

theorem view_congr {s s' : UringState} {id : ConnectionId}
    (hconn : s'.connection id.slot = s.connection id.slot)
    (hincarnation : s'.incarnation id.slot = s.incarnation id.slot)
    (hhistory : s'.history id = s.history id) (hsends : sendsOf s' id = sendsOf s id) :
    view s' id = view s id := by
  unfold view
  rw [hconn, hhistory, hsends, UringState.idOf, hincarnation]
  rfl

/-- An acquired ticket is given to a send of the connection in `slot`. -/
theorem local_pushSend {s : UringState} {slot : Slot} {ticket : Nat}
    (hgeneration : (s.sendTicket ticket).generation = (s.connection slot).generation) :
    Local slot (some ticket) s (s.pushSend slot ticket) := by
  refine ⟨⟨rfl, fun _ => rfl, fun _ => id, fun _ _ => id, fun id hid => ?_, rfl,
    List.prefix_append _ _⟩, fun hok hspent => ?_, fun t ht hheld => ⟨hheld.1, ?_⟩⟩
  · exact view_congr rfl rfl rfl (sendsOf_append_of_ne s hid ticket)
  · have hheld := hspent ticket rfl
    refine ⟨?_, fun o ho => ?_, fun o ho => ?_, fun o ho => ?_⟩
    · rw [UringState.pushSend_sends, List.map_append]
      refine List.nodup_append.mpr ⟨hok.nodup, List.nodup_singleton _, ?_⟩
      rintro t ht t' ht' rfl
      obtain ⟨o, ho, rfl⟩ := List.mem_map.mp ht
      exact hheld.2 o ho (List.mem_singleton.mp ht')
    all_goals rcases List.mem_append.mp ho with ho | ho
    · exact hok.busy o ho
    · obtain rfl := List.mem_singleton.mp ho
      exact hheld.1
    · exact hok.known o ho
    · obtain rfl := List.mem_singleton.mp ho
      exact le_rfl
    · exact hok.theirs o ho
    · obtain rfl := List.mem_singleton.mp ho
      exact iff_of_true hgeneration.symm rfl
  · intro o ho
    rcases List.mem_append.mp ho with ho | ho
    · exact hheld.2 o ho
    · rintro rfl
      rw [List.mem_singleton.mp ho] at ht
      exact ht rfl

theorem submitSend_local {s : UringState} {slot : Slot} {ticket : Nat}
    (hgeneration : (s.sendTicket ticket).generation = (s.connection slot).generation)
    (answer : Option Answer) :
    Local slot (some ticket) s (submitSend env s slot ticket answer) := by
  have hasked : Local slot none s s.asked := local_of_serving_eq slot rfl
  simp only [submitSend]
  split
  · have hnoted : Local slot none s (s.asked.noteAnswer slot answer) :=
      hasked.trans (local_setHistory ..)
    have hflying : Local slot none s ((s.asked.noteAnswer slot answer).setConnection slot
        { (s.asked.noteAnswer slot answer).connection slot with sendInFlight := true }) :=
      hnoted.trans (local_setConnection rfl id fun _ => id)
    refine hflying.trans (local_pushSend ?_)
    rw [UringState.setConnection_connection, Function.update_self]
    exact hgeneration
  · exact hasked.trans (.refl ..)

theorem submitSend_view {s : UringState} {slot : Slot} (ticket : Nat)
    (hopen : (s.connection slot).inUse = true) (answer : Option Answer) :
    view (submitSend env s slot ticket answer) (s.idOf slot) =
      if env.getSqe (sendOp answer) s.calls then
        { view s (s.idOf slot) with
          answered := (view s (s.idOf slot)).answered ++ answer.toList
          sends := (view s (s.idOf slot)).sends ++ [(s.sendTicket ticket).closeWhenWritten]
          inFlight := true }
      else view s (s.idOf slot) := by
  simp only [submitSend]
  split
  swap
  · rfl
  set s₁ := s.asked.noteAnswer slot answer
  set s₂ := (s₁.setConnection slot { s₁.connection slot with sendInFlight := true }) with hs₂
  have hconn : s₂.connection slot = { s.connection slot with sendInFlight := true } := by
    rw [hs₂, UringState.setConnection_connection, Function.update_self]
    rfl
  have hhistory : s₂.historyOf slot = { s.historyOf slot with
      answered := (s.historyOf slot).answered ++ answer.toList } := Function.update_self ..
  have hopen₂ : ((s₂.pushSend slot ticket).connection slot).inUse = true := by
    rw [UringState.pushSend_connection, hconn]
    exact hopen
  have hview : view (s₂.pushSend slot ticket) (s.idOf slot) =
      openView (s₂.connection slot) (s₂.historyOf slot)
        (sendsOf (s₂.pushSend slot ticket) (s₂.idOf slot)) := view_inUse hopen₂
  rw [hview, sendsOf_pushSend, hconn, hhistory, view_inUse hopen]
  rfl

theorem closeConnection_local (s : UringState) (slot : Slot) :
    Local slot none s (closeConnection s slot) := by
  simp only [closeConnection]
  split
  · exact .refl ..
  set closed : UringConnection := { s.connection slot with
    inUse := false, recvArmed := false, inBuf := partialFree (s.connection slot).inBuf }
  have hclosed : Local slot none s (s.setConnection slot closed) :=
    local_setConnection rfl (fun h => absurd h Bool.false_ne_true) fun h =>
      absurd h Bool.false_ne_true
  split <;> exact hclosed.trans (local_of_serving_eq slot rfl)

theorem closeConnection_view {s : UringState} {slot : Slot}
    (hopen : (s.connection slot).inUse = true) :
    view (closeConnection s slot) (s.idOf slot) =
      (view s (s.idOf slot)).closed (sendsOf s (s.idOf slot)) := by
  set closed : UringConnection := { s.connection slot with
    inUse := false, recvArmed := false, inBuf := partialFree (s.connection slot).inBuf }
  have hserving : (closeConnection s slot).serving = (s.setConnection slot closed).serving := by
    simp only [closeConnection, hopen, not_true_eq_false, if_false]
    split <;> rfl
  have hgone : ((s.setConnection slot closed).connection slot).inUse = false := by
    rw [UringState.setConnection_connection, Function.update_self]
  rw [view_of_serving_eq hserving, view_inUse hopen]
  exact view_gone hgone

theorem sendResponse_local {s : UringState} {slot : Slot} {ticket : Nat} (hheld : Held s ticket)
    (response : List UInt8) (closing : Bool) (answer : Answer) :
    Local slot (some ticket) s (sendResponse env s slot ticket response closing answer) := by
  have hlaid : Local slot none s (s.setTicket ticket { s.sendTicket ticket with
      data := response, total := response.length, sent := 0, slot := some slot.2
      generation := (s.connection slot).generation, closeWhenWritten := closing }) :=
    local_setTicket _ hheld.2 (.inl hheld.1)
  refine hlaid.trans (submitSend_local env ?_ _)
  rw [UringState.setTicket_sendTicket, Function.update_self]
  rfl

theorem sendResponse_view {s : UringState} {slot : Slot} {ticket : Nat} (hheld : Held s ticket)
    (hopen : (s.connection slot).inUse = true) (response : List UInt8) (closing : Bool)
    (answer : Answer) :
    view (sendResponse env s slot ticket response closing answer) (s.idOf slot) =
      if env.getSqe (sendOp (some answer)) s.calls then
        { view s (s.idOf slot) with
          answered := (view s (s.idOf slot)).answered ++ [answer]
          sends := (view s (s.idOf slot)).sends ++ [closing]
          inFlight := true }
      else view s (s.idOf slot) := by
  set s₁ := s.setTicket ticket { s.sendTicket ticket with
    data := response, total := response.length, sent := 0, slot := some slot.2
    generation := (s.connection slot).generation, closeWhenWritten := closing } with hs₁
  have hview := submitSend_view env (s := s₁) ticket hopen (some answer)
  rw [view_setTicket_of_free _ hheld.2] at hview
  rw [UringState.setTicket_sendTicket, Function.update_self] at hview
  exact hview

theorem sendStatusAndClose_spec {s : UringState} {slot : Slot} (hok : TicketsOk s)
    (hopen : (s.connection slot).inUse = true) (hsqe : ∀ n, env.getSqe .status n = true)
    (statusCode offset : Nat) :
    Local slot none s (sendStatusAndClose env s slot statusCode offset) ∧
      (view (sendStatusAndClose env s slot statusCode offset) (s.idOf slot) =
          { view s (s.idOf slot) with
            answered := (view s (s.idOf slot)).answered ++ [⟨offset, true⟩]
            sends := (view s (s.idOf slot)).sends ++ [true]
            inFlight := true } ∨
        ∃ sends, view (sendStatusAndClose env s slot statusCode offset) (s.idOf slot) =
          (view s (s.idOf slot)).closed sends) := by
  unfold sendStatusAndClose
  split
  · exact ⟨closeConnection_local s slot, .inr ⟨_, closeConnection_view hopen⟩⟩
  · rename_i ticket s₁ hacquire
    obtain ⟨hlocal, hheld, hview⟩ := local_acquireSendTicket slot hok hacquire
    obtain ⟨hidle, _, rfl⟩ := acquireSendTicket_eq_some hacquire
    refine ⟨?_, .inl ?_⟩
    · exact hlocal.after_acquire hidle hheld (sendResponse_local env hheld ..)
    · have hsent := sendResponse_view env hheld hopen (statusOnlyResponse statusCode) true
        ⟨offset, true⟩
      rw [hview, sendOp, if_pos rfl, if_pos (hsqe _)] at hsent
      exact hsent

/-- The state a status is sent in differs from the connection served only in the held bytes. -/
theorem sendStatusAndClose_moves {s : UringState} {slot : Slot} (hok : TicketsOk s)
    (hopen : (s.connection slot).inUse = true) (hsqe : ∀ n, env.getSqe .status n = true)
    (statusCode : Nat) {v : Connection UInt8} {held : List UInt8} (hidle : v.Idle)
    (hv : view s (s.idOf slot) = { v with held := held }) :
    Moves frameLength v
      (view (sendStatusAndClose env s slot statusCode v.start) (s.idOf slot)) := by
  rcases (sendStatusAndClose_spec env hok hopen hsqe statusCode v.start).2 with h | ⟨sends, h⟩
  · rw [h, hv]
    have hmove : Move frameLength v (v.answer held ⟨v.start, true⟩ true) := .status hidle held
    rw [Connection.answer_eq hidle.deferred] at hmove
    exact .single hmove
  · rw [h, hv]
    exact .single (.close sends)

theorem keepTail_some {s s' : UringState} {slot : Slot} {buf : List UInt8} {consumed : Nat}
    (h : keepTail env s slot buf consumed = some s') :
    Local slot none s s' ∧
      ∃ kept, s'.connection slot = { s.connection slot with inBuf := kept } ∧
        s'.historyOf slot = s.historyOf slot ∧ s'.sendTicket = s.sendTicket ∧
        sendsOf s' (s.idOf slot) = sendsOf s (s.idOf slot) ∧ kept.data = buf.drop consumed := by
  obtain ⟨kept, hkept, rfl⟩ := Option.map_eq_some_iff.mp h
  have hasked : Local slot none s s.asked := local_of_serving_eq slot rfl
  refine ⟨hasked.trans (local_setConnection rfl id fun _ => id), kept, Function.update_self ..,
    rfl, rfl, rfl, partialKeepTail_data hkept⟩

theorem keepTail_view {s s' : UringState} {slot : Slot} {buf : List UInt8} {consumed : Nat}
    (h : keepTail env s slot buf consumed = some s') (hopen : (s.connection slot).inUse = true) :
    view s' (s.idOf slot) = { view s (s.idOf slot) with held := buf.drop consumed } := by
  obtain ⟨hlocal, kept, hconn, hhistory, _, hsends, hkept⟩ := keepTail_some env h
  have hopen' : (s'.connection slot).inUse = true := by
    rw [hconn]
    exact hopen
  have hview := view_inUse hopen'
  rw [hlocal.idOf, hconn, hhistory, hsends] at hview
  rw [hview, view_inUse hopen, openView, hkept]
  rfl

/-- The completion is about the connection in its slot, which the bytes are for. -/
def RecvCompletion.Brings (cqe : RecvCompletion) (s : UringState) (r : Nat) (data : List UInt8) :
    Prop :=
  cqe.slot < env.connectionSlots r ∧ (s.connection (r, cqe.slot)).inUse = true ∧
    (s.connection (r, cqe.slot)).generation = cqe.generation ∧ cqe.hasBuffer = true ∧
    cqe.res = .ok data ∧ data ≠ []

theorem appendIn_true {s s' : UringState} {slot : Slot} {data : List UInt8}
    (h : appendIn env s slot data = (true, s')) :
    ∃ grown : ApiPartialRequest, grown.data = (s.connection slot).inBuf.data ++ data ∧
      s' = s.asked.setConnection slot { s.connection slot with inBuf := grown } := by
  unfold appendIn at h
  simp only at h
  split at h
  · rename_i grown hgrown
    exact ⟨grown, partialAppend_data hgrown, (Prod.mk.inj h).2.symm⟩
  · exact absurd (Prod.mk.inj h).1 Bool.false_ne_true

theorem appendIn_false {s s' : UringState} {slot : Slot} {data : List UInt8}
    (h : appendIn env s slot data = (false, s')) :
    s' = s.asked ∧ partialAppend (s.connection slot).inBuf data (env.realloc s.calls) = none := by
  unfold appendIn at h
  simp only at h
  split at h
  · exact absurd (Prod.mk.inj h).1.symm Bool.false_ne_true
  · rename_i hnone
    exact ⟨(Prod.mk.inj h).2.symm, hnone⟩

theorem appendIn_stored {s s' : UringState} {slot : Slot} {data : List UInt8}
    (h : appendIn env s slot data = (true, s')) (hopen : (s.connection slot).inUse = true) :
    Local slot none s s' ∧
      view s' (s.idOf slot) =
        { view s (s.idOf slot) with held := (s.connection slot).inBuf.data ++ data } ∧
      ∃ inBuf, s'.connection slot = { s.connection slot with inBuf := inBuf } := by
  obtain ⟨grown, hgrown, rfl⟩ := appendIn_true env h
  have hasked : Local slot none s s.asked := local_of_serving_eq slot rfl
  refine ⟨hasked.trans (local_setConnection rfl id fun _ => id), ?_, grown,
    Function.update_self ..⟩
  have hview : view (s.asked.setConnection slot { s.connection slot with inBuf := grown })
      (s.idOf slot) = openView _ _ _ := view_setConnection hopen
  rw [hview, view_inUse hopen, openView, hgrown]
  rfl

theorem takeWaitingOf_inUse {r fuel slot : Nat} {s s' : UringState}
    (h : takeWaitingOf env r fuel s = (some slot, s')) : (s'.connection (r, slot)).inUse = true := by
  induction fuel generalizing s with
  | zero => exact absurd (Prod.mk.inj h).1 (by simp)
  | succ fuel ih =>
    rw [takeWaitingOf] at h
    split at h
    · exact absurd (Prod.mk.inj h).1 (by simp)
    · simp only at h
      split at h
      · rename_i hopen
        obtain ⟨hslot, rfl⟩ := Prod.mk.inj h
        obtain rfl := Option.some.inj hslot
        exact (inUse_of_serving_eq (serving_popWaiting ..) _).trans hopen
      · exact ih h

theorem takeWaitingFrom_inUse {rings : List Nat} {slot : Slot} {s s' : UringState}
    (h : takeWaitingFrom env rings s = (some slot, s')) : (s'.connection slot).inUse = true := by
  induction rings generalizing s with
  | nil => exact absurd (Prod.mk.inj h).1 (by simp)
  | cons r rings ih =>
    rw [takeWaitingFrom] at h
    split at h
    · rename_i hsome
      obtain ⟨hslot, rfl⟩ := Prod.mk.inj h
      obtain rfl := Option.some.inj hslot
      exact takeWaitingOf_inUse env hsome
    · exact ih h

end AmmarServer.Uring
