import AmmarServer.Lib.Run
import AmmarServer.Threads.UringParked

/-! The two queues of every ring over whole runs, where slots are closed and come back into use while
they are queued. -/

namespace AmmarServer.Uring
open ApiProtocol Pipeline LinkQueue Table Run

/-- The queues of all rings for a send ticket. -/
def UringState.tickets (s : UringState) : Table Nat Nat where
  head r := (s.ring r).waitingHead
  tail r := (s.ring r).waitingTail
  next slot := (s.connection slot).nextWaiting
  queued slot := (s.connection slot).waitingForTicket

/-- What is done to the queues, and what the rest of the server does meanwhile. -/
inductive QueueEvent
  | queueForTicket (slot : Slot)
  | takeNextWaitingForTicket
  | queueForRearm (slot : Slot)
  | rearmOneWaiting (r : Nat)
  | closeConnection (slot : Slot)
  | handleAcceptCompletion (r : Nat) (res : Except Errno Nat) (more : Bool)
  | elsewhere (s' : UringState)

variable (env : Environment)

def queueStep (s : UringState) : QueueEvent → UringState
  | .queueForTicket slot => queueForTicket s slot
  | .takeNextWaitingForTicket => (takeNextWaitingForTicket env s).2
  | .queueForRearm slot => queueForRearm s slot
  | .rearmOneWaiting r => rearmOneWaiting env s r
  | .closeConnection slot => closeConnection s slot
  | .handleAcceptCompletion r res more => handleAcceptCompletion env s r res more
  | .elsewhere s' => s'

/-- Slots are those of the table, and the rest of the server leaves the queues alone. -/
def QueueAllowed (s : UringState) : QueueEvent → Prop
  | .queueForTicket slot => slot.2 < env.connectionSlots slot.1
  | .queueForRearm slot => slot.2 < env.connectionSlots slot.1
  | .elsewhere s' => s'.tickets = s.tickets ∧ s'.rearm = s.rearm
  | _ => True

/-- The slots that are given a ticket. -/
def ticketsHanded (s : UringState) : QueueEvent → List Slot
  | .takeNextWaitingForTicket => (takeNextWaitingForTicket env s).1.toList
  | _ => []

def ticketsJoined (s : UringState) : QueueEvent → List Slot
  | .queueForTicket slot => if s.tickets.queued slot then [] else [slot]
  | _ => []

/-- Which slots may have their receive armed, and which may join. One that finds no submission
queue entry joins again. -/
def RearmsBy (s : UringState) : QueueEvent → List Slot → List Slot → Prop
  | .queueForRearm slot, handed, joined =>
    handed = [] ∧ joined = if s.rearm.queued slot then [] else [slot]
  | .rearmOneWaiting r, handed, joined =>
    (handed = [] ∧ (∀ slot, s.rearm.queued (r, slot) = true → ¬ (s.connection (r, slot)).Stopped) ∨
      ∃ slot, handed = [(r, slot)]) ∧ (joined = [] ∨ joined = handed)
  | .handleAcceptCompletion r res _, handed, joined =>
    handed = [] ∧ (joined = [] ∨
      ∃ slot, res = .ok slot ∧ s.rearm.queued (r, slot) = false ∧ joined = [(r, slot)])
  | _, handed, joined => handed = [] ∧ joined = []

/-- Each queue is a list from its head to its tail of the slots that are marked, each of them once,
and whatever happens it is left in the order it was joined. -/
structure QueuesKept (s : UringState) : Prop where
  tickets : ∀ r, ∃ l, s.tickets.Holds r l
  rearms : ∀ r, ∃ l, s.rearm.Holds r l
  served : (takeNextWaitingForTicket env s).1 = none → ∀ r < env.ringCount, ∀ slot,
    s.tickets.queued (r, slot) = true → (s.connection (r, slot)).inUse = false
  ticketsInOrder : ∀ e, QueueAllowed env s e →
    Advances (fun slot => (s.connection slot).inUse = true) s.tickets (queueStep env s e).tickets
      (ticketsHanded env s e) (ticketsJoined s e)
  rearmsInOrder : ∀ e, QueueAllowed env s e → ∃ handed joined, RearmsBy s e handed joined ∧
    Advances (fun slot => (s.connection slot).Stopped) s.rearm (queueStep env s e).rearm handed
      joined

variable {env}

/-! What leaves the queues alone. -/

theorem tickets_of_unarmed {s s' : UringState} (h : s'.unarmed = s.unarmed) :
    s'.tickets = s.tickets := by
  have htickets : ∀ t : UringState, t.tickets = t.unarmed.tickets := fun _ => rfl
  rw [htickets s', h, ← htickets s]

theorem tickets_setConnection {s : UringState} {slot : Slot} {conn : UringConnection}
    (hnext : conn.nextWaiting = (s.connection slot).nextWaiting)
    (hqueued : conn.waitingForTicket = (s.connection slot).waitingForTicket) :
    (s.setConnection slot conn).tickets = s.tickets :=
  Table.ext rfl rfl (map_setConnection UringConnection.nextWaiting hnext)
    (map_setConnection UringConnection.waitingForTicket hqueued)

theorem rearm_setConnection {s : UringState} {slot : Slot} {conn : UringConnection}
    (hnext : conn.nextRearm = (s.connection slot).nextRearm)
    (hqueued : conn.waitingForRearm = (s.connection slot).waitingForRearm) :
    (s.setConnection slot conn).rearm = s.rearm :=
  (settlesBut_setConnection hnext hqueued).rearm

theorem tickets_setRing {s : UringState} {r : Nat} {ring : UringRing}
    (hhead : ring.waitingHead = (s.ring r).waitingHead)
    (htail : ring.waitingTail = (s.ring r).waitingTail) :
    (s.setRing r ring).tickets = s.tickets :=
  tickets_of_unarmed (unarmed_setRing hhead htail)

theorem rearm_setRing {s : UringState} {r : Nat} {ring : UringRing}
    (hhead : ring.rearmHead = (s.ring r).rearmHead)
    (htail : ring.rearmTail = (s.ring r).rearmTail) : (s.setRing r ring).rearm = s.rearm :=
  (settles_setRing hhead htail).rearm

theorem closeConnection_tickets (s : UringState) (slot : Slot) :
    (closeConnection s slot).tickets = s.tickets := by
  simp only [closeConnection]
  split
  · rfl
  · generalize hgone : s.setConnection slot _ = s₁
    have hsame : s₁.tickets = s.tickets := by
      rw [← hgone]
      exact tickets_setConnection rfl rfl
    have hcounted : (s₁.setRing slot.1 { s₁.ring slot.1 with
        connectionsOpen := (s₁.ring slot.1).connectionsOpen - 1 }).tickets = s₁.tickets :=
      tickets_setRing rfl rfl
    split
    · exact hcounted.trans hsame
    · exact hcounted.trans hsame

/-! A ticket is waited for. -/

theorem queueForTicket_tickets (s : UringState) (slot : Slot) :
    (queueForTicket s slot).tickets = s.tickets.push slot := by
  simp only [queueForTicket, Table.push]
  have hqueued : s.tickets.queued slot = (s.connection slot).waitingForTicket := rfl
  rw [hqueued]
  split
  · rfl
  have htail : s.tickets.tail slot.1 = (s.ring slot.1).waitingTail := rfl
  rw [htail, UringState.setConnection_ring]
  cases hlast : (s.ring slot.1).waitingTail with
  | none =>
    refine Table.ext ?_ ?_ ?_ ?_
    · exact Function.comp_update UringRing.waitingHead ..
    · exact Function.comp_update UringRing.waitingTail ..
    · exact Function.comp_update UringConnection.nextWaiting ..
    · exact Function.comp_update UringConnection.waitingForTicket ..
  | some last =>
    refine Table.ext ?_ ?_ ?_ ?_
    · refine (Function.comp_update UringRing.waitingHead ..).trans (Function.update_eq_self ..)
    · exact Function.comp_update UringRing.waitingTail ..
    · refine (Function.comp_update UringConnection.nextWaiting ..).trans ?_
      exact congrArg (fun f => Function.update f (slot.1, last) (some slot.2))
        (Function.comp_update UringConnection.nextWaiting ..)
    · refine (Function.comp_update UringConnection.waitingForTicket ..).trans ?_
      refine (Function.update_eq_self ..).trans ?_
      exact Function.comp_update UringConnection.waitingForTicket ..

theorem popWaiting_tickets (s : UringState) (r slot : Nat) :
    (popWaiting s r slot).tickets = s.tickets.pop (r, slot) := by
  refine Table.ext ?_ ?_ ?_ ?_
  · exact Function.comp_update UringRing.waitingHead ..
  · exact Function.comp_update UringRing.waitingTail ..
  · exact Function.comp_update UringConnection.nextWaiting ..
  · exact Function.comp_update UringConnection.waitingForTicket ..

theorem takeWaitingOf_advances (live : Slot → Prop) (r fuel : Nat) (s : UringState)
    (hlive : ∀ slot, live slot ↔ (s.connection slot).inUse = true) :
    Advances live s.tickets (takeWaitingOf env r fuel s).2.tickets
      ((takeWaitingOf env r fuel s).1.toList.map (r, ·)) [] ∧
    ∀ slot, live slot ↔ ((takeWaitingOf env r fuel s).2.connection slot).inUse = true := by
  induction fuel generalizing s with
  | zero => exact ⟨.refl live _, hlive⟩
  | succ fuel ih =>
    rw [takeWaitingOf]
    cases hhead : (s.ring r).waitingHead with
    | none => exact ⟨.refl live _, hlive⟩
    | some slot =>
      have hsame : ∀ a, live a ↔ ((popWaiting s r slot).connection a).inUse = true := fun a => by
        rw [inUse_of_serving_eq (serving_popWaiting s r slot) a]
        exact hlive a
      dsimp only
      split
      · rename_i hopen
        refine ⟨?_, hsame⟩
        have hhand := Advances.hand (t := s.tickets) (a := (r, slot)) hhead ((hlive _).mpr hopen)
        rw [← popWaiting_tickets] at hhand
        exact hhand
      · rename_i hgone
        obtain ⟨hrest, hrestSame⟩ := ih (popWaiting s r slot) hsame
        rw [popWaiting_tickets] at hrest
        have hpass : Advances live s.tickets (s.tickets.pop (r, slot)) [] [] :=
          Advances.pass hhead fun hcon => hgone ((hlive _).mp hcon)
        exact ⟨hpass.trans hrest, hrestSame⟩

theorem takeWaitingFrom_advances (live : Slot → Prop) (rings : List Nat) (s : UringState)
    (hlive : ∀ slot, live slot ↔ (s.connection slot).inUse = true) :
    Advances live s.tickets (takeWaitingFrom env rings s).2.tickets
      (takeWaitingFrom env rings s).1.toList [] := by
  induction rings generalizing s with
  | nil => exact .refl live _
  | cons r rings ih =>
    obtain ⟨hring, hsame⟩ :=
      @takeWaitingOf_advances env live r (env.connectionSlots r + 1) s hlive
    rw [takeWaitingFrom]
    generalize takeWaitingOf env r (env.connectionSlots r + 1) s = taken at *
    obtain ⟨found, s₁⟩ := taken
    cases found with
    | none => exact hring.trans (ih s₁ hsame)
    | some slot => exact hring

theorem takeWaitingFrom_none (live : Slot → Prop) (rings : List Nat) {s : UringState}
    (hlive : ∀ slot, live slot ↔ (s.connection slot).inUse = true)
    (hholds : ∀ r, ∃ l, s.tickets.Holds r l ∧ l.length ≤ env.connectionSlots r)
    (hnone : (takeWaitingFrom env rings s).1 = none) :
    ∀ r ∈ rings, ∀ slot, s.tickets.queued (r, slot) = true → ¬ live (r, slot) := by
  induction rings generalizing s with
  | nil => exact fun _ hr => (by cases hr)
  | cons r rings ih =>
    obtain ⟨l, hl, hlength⟩ := hholds r
    obtain ⟨hfirst, -⟩ := takeWaitingOf_taken env hl (Nat.lt_succ_of_le hlength)
    obtain ⟨hring, hsame⟩ :=
      @takeWaitingOf_advances env live r (env.connectionSlots r + 1) s hlive
    rw [takeWaitingFrom] at hnone
    generalize takeWaitingOf env r (env.connectionSlots r + 1) s = taken at *
    obtain ⟨found, s₁⟩ := taken
    cases found with
    | some slot => cases hnone
    | none =>
      have hkept : ∀ r', ∃ l, s₁.tickets.Holds r' l ∧ l.length ≤ env.connectionSlots r' := by
        intro r'
        obtain ⟨l', hl', hlength'⟩ := hholds r'
        obtain ⟨passed, kept, rfl, -, hkept⟩ := hring.2 r' l' hl'
        refine ⟨kept ++ ofQueue r' [], hkept, ?_⟩
        rw [ofQueue_nil, List.append_nil]
        rw [List.length_append, List.length_append] at hlength'
        omega
      have hrest := ih hsame hkept hnone
      intro r' hr' slot hqueued hcon
      rcases List.mem_cons.mp hr' with rfl | hr'
      · have hslot := (hl.mem_iff slot).mp hqueued
        exact List.find?_eq_none.mp hfirst.symm slot hslot ((hlive _).mp hcon)
      · obtain ⟨l', hl', -⟩ := hholds r'
        obtain ⟨passed, kept, rfl, hpassed, hkept'⟩ := hring.2 r' l' hl'
        rcases List.mem_append.mp ((hl'.mem_iff slot).mp hqueued) with hmem | hmem
        · exact hpassed slot hmem hcon
        · refine hrest r' hr' slot ((hkept'.mem_iff slot).mpr ?_) hcon
          rw [ofQueue_nil, List.append_nil]
          exact hmem

/-! A receive is armed, or its slot joins. -/

theorem armRecv_rearm (s : UringState) (slot : Slot) :
    (armRecv env s slot).rearm = s.rearm ∨ (armRecv env s slot).rearm = s.rearm.push slot := by
  simp only [armRecv]
  split
  · exact .inl (rearm_setConnection rfl rfl)
  · split
    · exact .inl (rearm_setConnection rfl rfl)
    · exact .inr (queueForRearm_rearm s.asked slot)

theorem rearmOneWaitingLoop_advances (live : Slot → Prop) {r fuel : Nat} {s : UringState}
    {l : List Nat} (hlive : ∀ slot, live slot ↔ (s.connection slot).Stopped)
    (hl : s.rearm.Holds r l) (hfuel : l.length < fuel) :
    ∃ handed joined, (handed = [] ∧ (∀ i ∈ l, ¬ live (r, i)) ∨ ∃ slot, handed = [(r, slot)]) ∧
      (joined = [] ∨ joined = handed) ∧
      Advances live s.rearm (rearmOneWaitingLoop env r fuel s).rearm handed joined := by
  induction fuel generalizing s l with
  | zero => exact absurd hfuel (Nat.not_lt_zero _)
  | succ fuel ih =>
    cases hhead : s.rearm.head r with
    | none =>
      rw [rearmOneWaitingLoop_none _ hhead, hl.head_eq_none_iff.mp hhead]
      exact ⟨[], [], .inl ⟨rfl, fun _ hcon => (by cases hcon)⟩, .inl rfl, .refl live _⟩
    | some slot =>
      rcases @rearmOneWaitingLoop_some env s r slot fuel hhead with ⟨heq, hstopped⟩ | ⟨heq, hgoing⟩
      · have hhand := Advances.hand (t := s.rearm) (a := (r, slot)) hhead ((hlive _).mpr hstopped)
        rw [← popRearm_rearm] at hhand
        rw [heq]
        rcases @armRecv_rearm env (popRearm s r slot) (r, slot) with hsame | hjoined
        · rw [hsame]
          exact ⟨_, [], .inr ⟨slot, rfl⟩, .inl rfl, hhand⟩
        · have hunmarked : (popRearm s r slot).rearm.queued (r, slot) = false := by
            rw [popRearm_rearm]
            exact Function.update_self ..
          have hpush := hhand.push (r, slot)
          rw [hunmarked, if_neg Bool.false_ne_true] at hpush
          rw [hjoined]
          exact ⟨_, _, .inr ⟨slot, rfl⟩, .inr rfl, hpush⟩
      · have hpass : Advances live s.rearm (s.rearm.pop (r, slot)) [] [] :=
          Advances.pass hhead fun hcon => hgoing ((hlive _).mp hcon)
        obtain ⟨l', rfl, hl'⟩ := @Table.Holds.pop Nat _ Nat _ s.rearm (r, slot) _ hl hhead
        rw [← popRearm_rearm] at hpass hl'
        obtain ⟨handed, joined, hhanded, hjoined, hrest⟩ := ih
          (fun a => (hlive a).trans (popRearm_stopped s r slot a).symm) hl'
          (Nat.lt_of_succ_lt_succ hfuel)
        rw [heq]
        refine ⟨handed, joined, hhanded.imp_left fun h => ⟨h.1, ?_⟩, hjoined, hpass.trans hrest⟩
        exact List.forall_mem_cons.mpr ⟨fun hcon => hgoing ((hlive _).mp hcon), h.2⟩

/-! A slot comes back into use. -/

theorem handleAcceptCompletion_tables (s : UringState) (r : Nat) (res : Except Errno Nat)
    (more : Bool) :
    (handleAcceptCompletion env s r res more).tickets = s.tickets ∧
      ((handleAcceptCompletion env s r res more).rearm = s.rearm ∨
        ∃ slot, res = .ok slot ∧ slot < env.connectionSlots r ∧
          (handleAcceptCompletion env s r res more).rearm = s.rearm.push (r, slot)) := by
  simp only [handleAcceptCompletion]
  generalize hcounted : (if more then s else s.setRing r _) = s₁
  have h₁ : s₁.tickets = s.tickets ∧ s₁.rearm = s.rearm := by
    rw [← hcounted]
    split
    · exact ⟨rfl, rfl⟩
    · exact ⟨tickets_setRing rfl rfl, rearm_setRing rfl rfl⟩
  have hagain : ∀ t : UringState, (if ¬ more ∧ t.acceptRing = r ∧ ¬ t.acceptStalled then
      armAccept env t r else t).tickets = t.tickets ∧
      (if ¬ more ∧ t.acceptRing = r ∧ ¬ t.acceptStalled then armAccept env t r else t).rearm =
        t.rearm := by
    intro t
    split
    · exact ⟨tickets_of_unarmed (unarmed_armAccept env t r), (armAccept_settles t r).rearm⟩
    · exact ⟨rfl, rfl⟩
  split
  · rename_i slot
    generalize hopened : (if slot < env.connectionSlots r then _ else s₁) = s₂
    have h₂ : s₂.tickets = s.tickets ∧ (s₂.rearm = s.rearm ∨
        slot < env.connectionSlots r ∧ s₂.rearm = s.rearm.push (r, slot)) := by
      rw [← hopened]
      split
      · rename_i hslot
        generalize hfresh : s₁.setConnection (r, slot) _ = s₃
        have h₃ : s₃.tickets = s.tickets ∧ s₃.rearm = s.rearm := by
          rw [← hfresh, ← h₁.1, ← h₁.2]
          exact ⟨tickets_setConnection rfl rfl, rearm_setConnection rfl rfl⟩
        generalize hcleared : UringState.setHistory _ (r, slot) {} = s₄
        have h₄ : s₄.tickets = s.tickets ∧ s₄.rearm = s.rearm := by
          rw [← hcleared]
          exact h₃
        have h₅ : (s₄.setRing r { s₄.ring r with
            connectionsOpen := (s₄.ring r).connectionsOpen + 1 }).tickets = s₄.tickets :=
          tickets_setRing rfl rfl
        have h₆ : (s₄.setRing r { s₄.ring r with
            connectionsOpen := (s₄.ring r).connectionsOpen + 1 }).rearm = s₄.rearm :=
          rearm_setRing rfl rfl
        refine ⟨(tickets_of_unarmed (unarmed_armRecv env _ _)).trans (h₅.trans h₄.1), ?_⟩
        rw [← h₄.2, ← h₆]
        exact (armRecv_rearm _ _).imp_right fun heq => ⟨hslot, heq⟩
      · exact ⟨h₁.1, .inl h₁.2⟩
    have hjoined : ∀ {t : UringState}, t.tickets = s₂.tickets → t.rearm = s₂.rearm →
        t.tickets = s.tickets ∧ (t.rearm = s.rearm ∨
          ∃ slot' : Nat, (Except.ok slot : Except Errno Nat) = .ok slot' ∧
            slot' < env.connectionSlots r ∧ t.rearm = s.rearm.push (r, slot')) := by
      intro t htickets hrearm
      rw [htickets, hrearm]
      exact ⟨h₂.1, h₂.2.imp_right fun heq => ⟨slot, rfl, heq⟩⟩
    split
    · exact hjoined (tickets_of_unarmed (unarmed_moveAcceptOn env s₂ r))
        (moveAcceptOn_settles s₂ r).rearm
    · exact hjoined (hagain s₂).1 (hagain s₂).2
  · exact ⟨h₁.1, .inl h₁.2⟩
  · exact ⟨(tickets_of_unarmed (unarmed_armAcceptSomewhere env s₁ _)).trans h₁.1,
      .inl ((armAcceptSomewhere_settles s₁ (r + 1)).rearm.trans h₁.2)⟩
  · exact ⟨(hagain s₁).1.trans h₁.1, .inl ((hagain s₁).2.trans h₁.2)⟩

/-! Whole runs. -/

structure QueueInv (env : Environment) (s : UringState) : Prop where
  tickets : ∀ r, ∃ l, s.tickets.Holds r l
  rearms : ∀ r, ∃ l, s.rearm.Holds r l
  ticketsInTable : ∀ a, s.tickets.queued a = true → a.2 < env.connectionSlots a.1
  rearmsInTable : ∀ a, s.rearm.queued a = true → a.2 < env.connectionSlots a.1

theorem holds_length {t : Table Nat Nat} {r : Nat} {l : List Nat} (hl : t.Holds r l)
    (hinTable : ∀ a, t.queued a = true → a.2 < env.connectionSlots a.1) :
    l.length ≤ env.connectionSlots r := by
  have hsub : l ⊆ List.range (env.connectionSlots r) := fun slot hslot =>
    List.mem_range.mpr (hinTable (r, slot) ((hl.mem_iff slot).mpr hslot))
  have hle := (List.subperm_of_subset hl.nodup hsub).length_le
  rwa [List.length_range] at hle

theorem ticketsInOrder (s : UringState) (e : QueueEvent) (hallowed : QueueAllowed env s e) :
    Advances (fun slot => (s.connection slot).inUse = true) s.tickets (queueStep env s e).tickets
      (ticketsHanded env s e) (ticketsJoined s e) := by
  cases e with
  | queueForTicket slot =>
    show Advances _ s.tickets (queueForTicket s slot).tickets [] _
    rw [queueForTicket_tickets]
    exact (Advances.refl _ s.tickets).push slot
  | takeNextWaitingForTicket =>
    exact takeWaitingFrom_advances _ (ringsFrom env s.ticketCursor) s fun _ => Iff.rfl
  | queueForRearm slot =>
    show Advances _ s.tickets (queueForRearm s slot).tickets [] []
    rw [tickets_of_unarmed (unarmed_queueForRearm s slot)]
    exact .refl _ _
  | rearmOneWaiting r =>
    show Advances _ s.tickets (rearmOneWaiting env s r).tickets [] []
    rw [rearmOneWaiting, tickets_of_unarmed (unarmed_rearmOneWaitingLoop env r _ s)]
    exact .refl _ _
  | closeConnection slot =>
    show Advances _ s.tickets (closeConnection s slot).tickets [] []
    rw [closeConnection_tickets]
    exact .refl _ _
  | handleAcceptCompletion r res more =>
    show Advances _ s.tickets (handleAcceptCompletion env s r res more).tickets [] []
    rw [(handleAcceptCompletion_tables s r res more).1]
    exact .refl _ _
  | elsewhere s' =>
    show Advances _ s.tickets s'.tickets [] []
    rw [hallowed.1]
    exact .refl _ _

theorem QueueInv.rearmsInOrder {s : UringState} (h : QueueInv env s) (e : QueueEvent)
    (hallowed : QueueAllowed env s e) : ∃ handed joined, RearmsBy s e handed joined ∧
      (∀ a ∈ joined, a.2 < env.connectionSlots a.1) ∧
      Advances (fun slot => (s.connection slot).Stopped) s.rearm (queueStep env s e).rearm handed
        joined := by
  cases e with
  | queueForTicket slot =>
    refine ⟨[], [], ⟨rfl, rfl⟩, fun _ hcon => (by cases hcon), ?_⟩
    show Advances _ s.rearm (queueForTicket s slot).rearm [] []
    rw [(queueForTicket_settles s slot).rearm]
    exact .refl _ _
  | takeNextWaitingForTicket =>
    refine ⟨[], [], ⟨rfl, rfl⟩, fun _ hcon => (by cases hcon), ?_⟩
    show Advances _ s.rearm (takeNextWaitingForTicket env s).2.rearm [] []
    rw [takeNextWaitingForTicket, (takeWaitingFrom_settles _ s).rearm]
    exact .refl _ _
  | queueForRearm slot =>
    refine ⟨[], _, ⟨rfl, rfl⟩, fun a ha => ?_, ?_⟩
    · split_ifs at ha
      · cases ha
      · rw [List.mem_singleton.mp ha]
        exact hallowed
    · show Advances _ s.rearm (queueForRearm s slot).rearm [] _
      rw [queueForRearm_rearm]
      exact (Advances.refl _ s.rearm).push slot
  | rearmOneWaiting r =>
    obtain ⟨l, hl⟩ := h.rearms r
    obtain ⟨handed, joined, hhanded, hjoined, hadvances⟩ :=
      @rearmOneWaitingLoop_advances env (fun slot => (s.connection slot).Stopped) r
        (env.connectionSlots r + 1) s l (fun _ => Iff.rfl) hl
        (Nat.lt_succ_of_le (holds_length hl h.rearmsInTable))
    have hinTable : ∀ a ∈ handed, a.2 < env.connectionSlots a.1 := by
      intro a ha
      rcases hhanded with ⟨rfl, -⟩ | ⟨slot, rfl⟩
      · cases ha
      · obtain ⟨passed, kept, rfl, -, -⟩ := hadvances.2 r l hl
        rw [List.mem_singleton.mp ha]
        refine h.rearmsInTable (r, slot) ((hl.mem_iff slot).mpr ?_)
        refine List.mem_append_right _ (List.mem_append_left _ ?_)
        rw [show ofQueue r [(r, slot)] = [slot] from ofQueue_self (r, slot)]
        exact List.mem_singleton_self slot
    refine ⟨handed, joined, ⟨hhanded.imp_left fun hnone => ⟨hnone.1, fun slot hqueued =>
      hnone.2 slot ((hl.mem_iff slot).mp hqueued)⟩, hjoined⟩, fun a ha => ?_, hadvances⟩
    rcases hjoined with rfl | rfl
    · cases ha
    · exact hinTable a ha
  | closeConnection slot =>
    refine ⟨[], [], ⟨rfl, rfl⟩, fun _ hcon => (by cases hcon), ?_⟩
    show Advances _ s.rearm (closeConnection s slot).rearm [] []
    rw [(closeConnection_settles s slot).rearm]
    exact .refl _ _
  | handleAcceptCompletion r res more =>
    rcases (@handleAcceptCompletion_tables env s r res more).2 with
      hsame | ⟨slot, hres, hslot, hpush⟩
    · refine ⟨[], [], ⟨rfl, .inl rfl⟩, fun _ hcon => (by cases hcon), ?_⟩
      show Advances _ s.rearm (handleAcceptCompletion env s r res more).rearm [] []
      rw [hsame]
      exact .refl _ _
    · have hadvances := (Advances.refl (fun slot => (s.connection slot).Stopped) s.rearm).push
        (r, slot)
      rw [← hpush] at hadvances
      cases hqueued : s.rearm.queued (r, slot) with
      | true =>
        rw [hqueued, if_pos rfl] at hadvances
        exact ⟨[], [], ⟨rfl, .inl rfl⟩, fun _ hcon => (by cases hcon), hadvances⟩
      | false =>
        rw [hqueued, if_neg Bool.false_ne_true] at hadvances
        refine ⟨[], _, ⟨rfl, .inr ⟨slot, hres, hqueued, rfl⟩⟩, fun a ha => ?_, hadvances⟩
        rw [List.mem_singleton.mp ha]
        exact hslot
  | elsewhere s' =>
    refine ⟨[], [], ⟨rfl, rfl⟩, fun _ hcon => (by cases hcon), ?_⟩
    show Advances _ s.rearm s'.rearm [] []
    rw [hallowed.2]
    exact .refl _ _

theorem QueueInv.step {s : UringState} (h : QueueInv env s) {e : QueueEvent}
    (hallowed : QueueAllowed env s e) : QueueInv env (queueStep env s e) := by
  have htickets := ticketsInOrder s e hallowed
  obtain ⟨handed, joined, -, hjoined, hrearms⟩ := h.rearmsInOrder e hallowed
  refine ⟨htickets.holds h.tickets, hrearms.holds h.rearms, fun a ha => ?_, fun a ha => ?_⟩
  · rcases htickets.queued_or h.tickets ha with hbefore | hnew
    · exact h.ticketsInTable a hbefore
    · cases e with
      | queueForTicket slot =>
        have hnew : a ∈ if s.tickets.queued slot then [] else [slot] := hnew
        split_ifs at hnew
        · cases hnew
        · rw [List.mem_singleton.mp hnew]
          exact hallowed
      | _ => cases hnew
  · rcases hrearms.queued_or h.rearms ha with hbefore | hnew
    · exact h.rearmsInTable a hbefore
    · exact hjoined a hnew

theorem queueInv_startup : QueueInv env (startup env) := by
  have htickets : (startup env).tickets = ringStartup.tickets :=
    tickets_of_unarmed (unarmed_armAcceptSomewhere env ringStartup 0)
  have hrearm : (startup env).rearm = ringStartup.rearm :=
    (armAcceptSomewhere_settles ringStartup 0).rearm
  refine ⟨fun r => ⟨[], ?_⟩, fun r => ⟨[], ?_⟩, fun a ha => ?_, fun a ha => ?_⟩
  · rw [htickets]
    exact represents_nil fun _ => rfl
  · rw [hrearm]
    exact represents_nil fun _ => rfl
  · rw [htickets] at ha
    cases ha
  · rw [hrearm] at ha
    cases ha

theorem mem_ringsFrom (cursor : Nat) {r : Nat} (hr : r < env.ringCount) :
    r ∈ ringsFrom env cursor := by
  refine List.mem_map.mpr ⟨(r + (env.ringCount - cursor % env.ringCount)) % env.ringCount,
    List.mem_range.mpr (Nat.mod_lt _ env.ringCount_pos), ?_⟩
  have hlt := Nat.mod_lt cursor env.ringCount_pos
  have hdiv := Nat.div_add_mod cursor env.ringCount
  have hround : cursor + (r + (env.ringCount - cursor % env.ringCount)) =
      r + env.ringCount * (cursor / env.ringCount + 1) := by
    rw [Nat.mul_succ]
    omega
  rw [Nat.add_mod_mod, hround, Nat.add_mul_mod_self_left, Nat.mod_eq_of_lt hr]

/-- The rings keep their queues in every run, whatever the kernel and the rest of the server do. -/
theorem reaches_queuesKept {s : UringState}
    (h : Reaches (queueStep env) (QueueAllowed env) (startup env) s) : QueuesKept env s := by
  have hinv : QueueInv env s :=
    h.invariant queueInv_startup fun _ _ hinv hallowed => hinv.step hallowed
  refine ⟨hinv.tickets, hinv.rearms, fun hnone r hr slot hqueued => ?_,
    fun e hallowed => ticketsInOrder s e hallowed, fun e hallowed => ?_⟩
  · have hholds : ∀ r, ∃ l, s.tickets.Holds r l ∧ l.length ≤ env.connectionSlots r := by
      intro r
      obtain ⟨l, hl⟩ := hinv.tickets r
      exact ⟨l, hl, holds_length hl hinv.ticketsInTable⟩
    exact Bool.eq_false_iff.mpr (takeWaitingFrom_none (fun slot => (s.connection slot).inUse = true)
      _ (fun _ => Iff.rfl) hholds hnone r (mem_ringsFrom s.ticketCursor hr) slot hqueued)
  · obtain ⟨handed, joined, hby, -, hadvances⟩ := hinv.rearmsInOrder e hallowed
    exact ⟨handed, joined, hby, hadvances⟩

/-- A slot waits for a ticket, is closed and comes back into use while it is queued. -/
theorem reused_queuesKept :
    ∃ env : Environment, 3 < env.connectionSlots 0 ∧
      QueuesKept env (queueStep env (queueStep env (queueStep env (startup env)
        (.queueForTicket (0, 3))) (.closeConnection (0, 3)))
          (.handleAcceptCompletion 0 (.ok 3) true)) := by
  let env : Environment :=
    { ringCount := 2
      connectionSlots := fun _ => 8
      recvBuffersAreRing := fun _ => true
      responseBodySize := 100
      getSqe := fun _ _ => true
      realloc := fun _ => true
      handler := fun _ _ => {}
      batchHandler := fun _ _ _ => {}
      ringCount_pos := by decide }
  have hslot : 3 < env.connectionSlots 0 := by decide
  have hallowed : QueueAllowed env (startup env) (.queueForTicket (0, 3)) := hslot
  have hqueued := (@Reaches.start _ _ (queueStep env) _ _).step _ hallowed
  have hclosed := hqueued.step (.closeConnection (0, 3)) (by exact trivial)
  exact ⟨env, hslot, reaches_queuesKept
    (hclosed.step (.handleAcceptCompletion 0 (.ok 3) true) (by exact trivial))⟩

end AmmarServer.Uring
