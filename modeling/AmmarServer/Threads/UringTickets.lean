import AmmarServer.Lib.LinkQueue
import AmmarServer.Threads.UringView

/-! The send tickets and the queues of connections that wait for one. -/

namespace AmmarServer.Uring
open ApiProtocol Pipeline LinkQueue

variable (env : Environment)

/-! ## The queues -/

/-- The connections from `waitingHead` to `waitingTail`. -/
def waitingList (s : UringState) (r : Nat) : List Nat :=
  walk (fun slot => (s.connection (r, slot)).nextWaiting) (env.connectionSlots r)
    (s.ring r).waitingHead

/-- The queue of a ring holds the slots in `l`. -/
def QueueIs (s : UringState) (r : Nat) (l : List Nat) : Prop :=
  Represents (s.ring r).waitingHead (s.ring r).waitingTail
    (fun slot => (s.connection (r, slot)).nextWaiting)
    (fun slot => (s.connection (r, slot)).waitingForTicket) l

structure Queues (s : UringState) : Prop where
  exist : ∀ r, ∃ l, QueueIs s r l
  inTable : ∀ a, (s.connection a).waitingForTicket = true → a.2 < env.connectionSlots a.1
  inUse : ∀ a, (s.connection a).inUse = true → a.2 < env.connectionSlots a.1

variable {env}

theorem Queues.length_le {s : UringState} (h : Queues env s) {r : Nat} {l : List Nat}
    (hl : QueueIs s r l) : l.length ≤ env.connectionSlots r := by
  have hsub : l ⊆ List.range (env.connectionSlots r) := fun slot hslot =>
    List.mem_range.mpr (h.inTable (r, slot) ((hl.mem_iff slot).mpr hslot))
  simpa using (List.subperm_of_subset hl.nodup hsub).length_le

theorem Queues.waitingList_eq {s : UringState} (h : Queues env s) {r : Nat} {l : List Nat}
    (hl : QueueIs s r l) : waitingList env s r = l :=
  hl.walk_eq (h.length_le hl)

theorem Queues.mem_waitingList {s : UringState} (h : Queues env s) (r slot : Nat) :
    slot ∈ waitingList env s r ↔ (s.connection (r, slot)).waitingForTicket = true := by
  obtain ⟨l, hl⟩ := h.exist r
  rw [h.waitingList_eq hl, hl.mem_iff slot]

theorem field_setConnection {β : Type} (s : UringState) (r slot : Nat) (conn : UringConnection)
    (field : UringConnection → β) :
    (fun i => field ((s.setConnection (r, slot) conn).connection (r, i))) =
      Function.update (fun i => field (s.connection (r, i))) slot (field conn) := by
  funext i
  rw [UringState.setConnection_connection]
  by_cases hi : i = slot
  · rw [hi, Function.update_self, Function.update_self]
  · rw [Function.update_of_ne hi, Function.update_of_ne (fun hcon => hi (congrArg Prod.snd hcon))]

theorem Queues.congr {s s' : UringState} (h : Queues env s)
    (hring : ∀ r, (s'.ring r).waitingHead = (s.ring r).waitingHead ∧
      (s'.ring r).waitingTail = (s.ring r).waitingTail)
    (hconn : ∀ a, (s'.connection a).nextWaiting = (s.connection a).nextWaiting ∧
      (s'.connection a).waitingForTicket = (s.connection a).waitingForTicket ∧
      ((s'.connection a).inUse = true → a.2 < env.connectionSlots a.1)) : Queues env s' where
  exist r := by
    obtain ⟨l, hl⟩ := h.exist r
    refine ⟨l, ?_⟩
    rw [QueueIs, (hring r).1, (hring r).2, funext fun slot => (hconn (r, slot)).1,
      funext fun slot => (hconn (r, slot)).2.1]
    exact hl
  inTable a ha := h.inTable a ((hconn a).2.1 ▸ ha)
  inUse a ha := (hconn a).2.2 ha

theorem Queues.of_unarmed_eq {s s' : UringState} (h : Queues env s)
    (hunarmed : s'.unarmed = s.unarmed) : Queues env s' := by
  have hring : ∀ r, s'.unarmed.ring r = s.unarmed.ring r := fun r => by rw [hunarmed]
  have hconn : ∀ a, s'.unarmed.connection a = s.unarmed.connection a := fun a => by rw [hunarmed]
  refine h.congr (fun r => ?_) fun a => ?_
  · change (s'.unarmed.ring r).waitingHead = _ ∧ (s'.unarmed.ring r).waitingTail = _
    rw [hring]
    exact ⟨rfl, rfl⟩
  · change (s'.unarmed.connection a).nextWaiting = _ ∧
      (s'.unarmed.connection a).waitingForTicket = _ ∧
      ((s'.unarmed.connection a).inUse = true → _)
    rw [hconn]
    exact ⟨rfl, rfl, h.inUse a⟩

theorem Queues.setConnection {s : UringState} (h : Queues env s) {slot : Slot}
    {conn : UringConnection} (hnext : conn.nextWaiting = (s.connection slot).nextWaiting)
    (hflag : conn.waitingForTicket = (s.connection slot).waitingForTicket)
    (hinUse : conn.inUse = true → slot.2 < env.connectionSlots slot.1) :
    Queues env (s.setConnection slot conn) := by
  refine h.congr (fun _ => ⟨rfl, rfl⟩) fun a => ?_
  rw [UringState.setConnection_connection]
  by_cases ha : a = slot
  · rw [ha, Function.update_self]
    exact ⟨hnext, hflag, hinUse⟩
  · rw [Function.update_of_ne ha]
    exact ⟨rfl, rfl, h.inUse a⟩

theorem queueIs_setRing {s : UringState} {r r' : Nat} (hr : r' ≠ r) (ring : UringRing)
    (l : List Nat) : QueueIs (s.setRing r ring) r' l ↔ QueueIs s r' l := by
  rw [QueueIs, UringState.setRing_ring, Function.update_of_ne hr]
  rfl

theorem queueIs_setConnection {s : UringState} {r r' : Nat} (hr : r' ≠ r) (slot : Nat)
    (conn : UringConnection) (l : List Nat) :
    QueueIs (s.setConnection (r, slot) conn) r' l ↔ QueueIs s r' l := by
  have hconn : ∀ i, (s.setConnection (r, slot) conn).connection (r', i) = s.connection (r', i) :=
    fun i => Function.update_of_ne (fun hcon => hr (congrArg Prod.fst hcon)) ..
  rw [QueueIs]
  simp only [hconn]
  rfl

theorem Queues.of_queueIs {s s' : UringState} (h : Queues env s) (s₁ : UringState) {r i : Nat}
    {l : List Nat} (hl : QueueIs s' r l) (helse : ∀ r' l', r' ≠ r → QueueIs s r' l' → QueueIs s' r' l')
    (hslot : i < env.connectionSlots r)
    (hflag : ∀ a, (s'.connection a).waitingForTicket = (s₁.connection a).waitingForTicket)
    (hinUse : ∀ a, (s'.connection a).inUse = (s.connection a).inUse)
    (hflag₁ : ∀ a, a ≠ (r, i) →
      (s₁.connection a).waitingForTicket = (s.connection a).waitingForTicket) :
    Queues env s' where
  exist r' := by
    by_cases hr : r' = r
    · exact ⟨l, hr ▸ hl⟩
    · obtain ⟨l', hl'⟩ := h.exist r'
      exact ⟨l', helse r' l' hr hl'⟩
  inTable a ha := by
    by_cases haslot : a = (r, i)
    · rw [haslot]
      exact hslot
    · rw [hflag, hflag₁ a haslot] at ha
      exact h.inTable a ha
  inUse a ha := h.inUse a (hinUse a ▸ ha)

theorem Queues.push {s : UringState} (h : Queues env s) {slot : Slot}
    (hslot : slot.2 < env.connectionSlots slot.1) : Queues env (queueForTicket s slot) := by
  obtain ⟨r, i⟩ := slot
  obtain ⟨l, hl⟩ := h.exist r
  simp only [queueForTicket]
  split
  · exact h
  rename_i hnot
  rw [Bool.not_eq_true] at hnot
  set conn : UringConnection :=
    { s.connection (r, i) with waitingForTicket := true, nextWaiting := none }
  set s₁ := s.setConnection (r, i) conn with hs₁
  have hnext₁ : (fun j => (s₁.connection (r, j)).nextWaiting) =
      Function.update (fun j => (s.connection (r, j)).nextWaiting) i none :=
    field_setConnection s r i conn UringConnection.nextWaiting
  have hflag₁ : (fun j => (s₁.connection (r, j)).waitingForTicket) =
      Function.update (fun j => (s.connection (r, j)).waitingForTicket) i true :=
    field_setConnection s r i conn UringConnection.waitingForTicket
  have hinUse₁ : (fun a => (s₁.connection a).inUse) = fun a => (s.connection a).inUse :=
    map_setConnection UringConnection.inUse rfl
  have helse₁ : ∀ a, a ≠ (r, i) →
      (s₁.connection a).waitingForTicket = (s.connection a).waitingForTicket := fun a ha => by
    rw [hs₁, UringState.setConnection_connection, Function.update_of_ne ha]
  split
  · rename_i htail
    refine h.of_queueIs s₁ (l := l ++ [i]) ?_ (fun r' l' hr hl' => ?_) hslot
      (fun _ => rfl) (fun a => congrFun hinUse₁ a) helse₁
    · have hpush := hl.push_nil htail i
      rw [← hnext₁, ← hflag₁] at hpush
      rw [QueueIs, UringState.setRing_ring, Function.update_self]
      exact hpush
    · exact (queueIs_setRing hr _ l').mpr ((queueIs_setConnection hr i conn l').mpr hl')
  · rename_i tail htail
    set s₂ := s₁.setConnection (r, tail) { s₁.connection (r, tail) with nextWaiting := some i }
      with hs₂
    have hnext₂ : (fun j => (s₂.connection (r, j)).nextWaiting) =
        Function.update (fun j => (s₁.connection (r, j)).nextWaiting) tail (some i) :=
      field_setConnection s₁ r tail _ UringConnection.nextWaiting
    have hflag₂ : (fun a => (s₂.connection a).waitingForTicket) =
        fun a => (s₁.connection a).waitingForTicket :=
      map_setConnection UringConnection.waitingForTicket rfl
    have hinUse₂ : (fun a => (s₂.connection a).inUse) = fun a => (s₁.connection a).inUse :=
      map_setConnection UringConnection.inUse rfl
    refine h.of_queueIs s₁ (l := l ++ [i]) ?_ (fun r' l' hr hl' => ?_) hslot
      (fun a => congrFun hflag₂ a) (fun a => congrFun (hinUse₂.trans hinUse₁) a) helse₁
    · have hpush := hl.push htail hnot
      have hflagRing : (fun j => (s₂.connection (r, j)).waitingForTicket) =
          fun j => (s₁.connection (r, j)).waitingForTicket :=
        funext fun j => congrFun hflag₂ (r, j)
      rw [← hnext₁, ← hflag₁, ← hnext₂, ← hflagRing] at hpush
      rw [QueueIs, UringState.setRing_ring, Function.update_self]
      exact hpush
    · refine (queueIs_setRing hr _ l').mpr ((queueIs_setConnection hr tail _ l').mpr ?_)
      exact (queueIs_setConnection hr i conn l').mpr hl'

/-! ## Taking one that waits -/

/-- Ring `r` has lost the front of its queue. -/
structure Taken (r : Nat) (s s' : UringState) : Prop where
  serving : s'.serving = s.serving
  flags : ∀ a, (s'.connection a).waitingForTicket = true → (s.connection a).waitingForTicket = true
  queue : ∀ r', r' ≠ r → ∀ l, QueueIs s r' l → QueueIs s' r' l

theorem Taken.refl (r : Nat) (s : UringState) : Taken r s s :=
  ⟨rfl, fun _ => id, fun _ _ _ => id⟩

theorem Taken.trans {r : Nat} {s s₁ s₂ : UringState} (h : Taken r s s₁) (h₁ : Taken r s₁ s₂) :
    Taken r s s₂ :=
  ⟨h₁.serving.trans h.serving, fun a ha => h.flags a (h₁.flags a ha),
    fun r' hr l hl => h₁.queue r' hr l (h.queue r' hr l hl)⟩

theorem popWaiting_taken {s : UringState} {r slot : Nat} {l : List Nat} (hl : QueueIs s r l)
    (hhead : (s.ring r).waitingHead = some slot) :
    Taken r s (popWaiting s r slot) ∧
      ∃ l', l = slot :: l' ∧ QueueIs (popWaiting s r slot) r l' := by
  set conn : UringConnection :=
    { s.connection (r, slot) with nextWaiting := none, waitingForTicket := false }
  refine ⟨⟨?_, fun a => ?_, fun r' hr l' hl' => ?_⟩, ?_⟩
  · rw [popWaiting, serving_setConnection, serving_setRing]
    rfl
  · by_cases ha : a = (r, slot)
    · rw [ha, popWaiting, UringState.setConnection_connection, Function.update_self]
      exact fun hcon => absurd hcon Bool.false_ne_true
    · rw [popWaiting, UringState.setConnection_connection, Function.update_of_ne ha]
      exact id
  · exact (queueIs_setConnection hr slot conn l').mpr ((queueIs_setRing hr _ l').mpr hl')
  · obtain ⟨l', hcons, hpop⟩ := hl.pop hhead
    refine ⟨l', hcons, ?_⟩
    rw [← field_setConnection s r slot conn UringConnection.nextWaiting,
      ← field_setConnection s r slot conn UringConnection.waitingForTicket] at hpop
    have hring : (popWaiting s r slot).ring r = { s.ring r with
      waitingHead := (s.connection (r, slot)).nextWaiting
      waitingTail := if (s.connection (r, slot)).nextWaiting = none then none
        else (s.ring r).waitingTail } := Function.update_self ..
    rw [QueueIs, hring]
    exact hpop

theorem takeWaitingOf_taken (env : Environment) {r fuel : Nat} {s : UringState} {l : List Nat} (hl : QueueIs s r l)
    (hfuel : l.length < fuel) :
    (takeWaitingOf env r fuel s).1 = l.find? (fun slot => (s.connection (r, slot)).inUse) ∧
      Taken r s (takeWaitingOf env r fuel s).2 ∧
      (∃ l', QueueIs (takeWaitingOf env r fuel s).2 r l' ∧
        ((takeWaitingOf env r fuel s).1 = none → l' = [])) ∧
      ∀ slot, (takeWaitingOf env r fuel s).1 = some slot →
        ((takeWaitingOf env r fuel s).2.connection (r, slot)).waitingForTicket = false := by
  induction fuel generalizing s l with
  | zero => exact absurd hfuel (Nat.not_lt_zero _)
  | succ fuel ih =>
    rw [takeWaitingOf]
    split
    · rename_i hnone
      obtain rfl := hl.head_eq_none_iff.mp hnone
      exact ⟨rfl, .refl r s, ⟨[], hl, fun _ => rfl⟩, fun slot hcon => by cases hcon⟩
    rename_i slot hhead
    obtain ⟨htaken, l', rfl, hl'⟩ := popWaiting_taken hl hhead
    have hflag : ((popWaiting s r slot).connection (r, slot)).waitingForTicket = false := by
      rw [popWaiting, UringState.setConnection_connection, Function.update_self]
    simp only
    split
    · rename_i hopen
      refine ⟨?_, ⟨htaken.serving, htaken.flags, htaken.queue⟩, ⟨l', hl', fun hcon => by cases hcon⟩,
        fun slot' hslot' => ?_⟩
      · simp only [List.find?_cons, hopen]
      · obtain rfl := Option.some.inj hslot'
        exact hflag
    · rename_i hgone
      obtain ⟨hfound, htaken', hqueue, hunflagged⟩ := ih hl' (Nat.lt_of_succ_lt_succ hfuel)
      refine ⟨?_, htaken.trans htaken', hqueue, hunflagged⟩
      rw [Bool.not_eq_true] at hgone
      simp only [hfound, List.find?_cons, hgone]
      exact congrArg (fun p => List.find? p l')
        (funext fun i => inUse_of_serving_eq htaken.serving (r, i))

/-- The connection that `TakeNextWaitingForTicket` comes upon first: the rings are tried from the
cursor on, and in each queue whoever is not there any more is passed over. -/
def firstWaiting (env : Environment) (s : UringState) : Option Slot :=
  (ringsFrom env s.ticketCursor).findSome? fun r =>
    ((waitingList env s r).find? fun slot => (s.connection (r, slot)).inUse).map (r, ·)

/-- What is left once a connection was taken from the queues. -/
structure TakenFirst (s : UringState) (first : Option Slot) (s' : UringState) : Prop where
  serving : s'.serving = s.serving
  flags : ∀ a, (s'.connection a).waitingForTicket = true → (s.connection a).waitingForTicket = true
  unflagged : ∀ a, first = some a → (s'.connection a).waitingForTicket = false

theorem Taken.queues {s s' : UringState} {r : Nat} (h : Queues env s) (htaken : Taken r s s')
    {l : List Nat} (hl : QueueIs s' r l) : Queues env s' where
  exist r' := by
    by_cases hr : r' = r
    · exact ⟨l, hr ▸ hl⟩
    · obtain ⟨l', hl'⟩ := h.exist r'
      exact ⟨l', htaken.queue r' hr l' hl'⟩
  inTable a ha := h.inTable a (htaken.flags a ha)
  inUse a ha := h.inUse a (inUse_of_serving_eq htaken.serving a ▸ ha)

theorem takeWaitingFrom_taken {s : UringState} (h : Queues env s) (rings : List Nat) :
    (takeWaitingFrom env rings s).1 = (rings.findSome? fun r =>
        ((waitingList env s r).find? fun slot => (s.connection (r, slot)).inUse).map (r, ·)) ∧
      Queues env (takeWaitingFrom env rings s).2 ∧
      TakenFirst s (takeWaitingFrom env rings s).1 (takeWaitingFrom env rings s).2 := by
  induction rings generalizing s with
  | nil => exact ⟨rfl, h, rfl, fun _ => id, fun a ha => by cases ha⟩
  | cons r rings ih =>
    obtain ⟨l, hl⟩ := h.exist r
    obtain ⟨hfound, htaken, ⟨l', hl', hempty⟩, hunflagged⟩ :=
      takeWaitingOf_taken env hl (Nat.lt_succ_of_le (h.length_le hl))
    rw [← h.waitingList_eq hl] at hfound
    have hqueues := htaken.queues h hl'
    rw [takeWaitingFrom]
    simp only [List.findSome?_cons, ← hfound]
    generalize htake : takeWaitingOf env r (env.connectionSlots r + 1) s = taken at *
    obtain ⟨first, s₁⟩ := taken
    cases first with
    | some slot =>
      refine ⟨rfl, hqueues, htaken.serving, htaken.flags, fun a ha => ?_⟩
      obtain rfl := Option.some.inj ha
      exact hunflagged slot rfl
    | none =>
      obtain ⟨hrest, hqueues₂, hserving₂, hflags₂, hunflagged₂⟩ := ih hqueues
      refine ⟨?_, hqueues₂, hserving₂.trans htaken.serving,
        fun a ha => htaken.flags a (hflags₂ a ha), hunflagged₂⟩
      refine hrest.trans (congrArg (fun f => List.findSome? f rings) (funext fun r' => ?_))
      refine congrArg (Option.map (r', ·)) ?_
      have hinUse : (fun slot => (s₁.connection (r', slot)).inUse) =
          fun slot => (s.connection (r', slot)).inUse :=
        funext fun slot => inUse_of_serving_eq htaken.serving (r', slot)
      rw [hinUse]
      by_cases hr : r' = r
      · obtain rfl := hempty rfl
        rw [hr, hqueues.waitingList_eq hl']
        exact hfound
      · obtain ⟨m, hm⟩ := h.exist r'
        rw [h.waitingList_eq hm, hqueues.waitingList_eq (htaken.queue r' hr m hm)]

theorem firstWaiting_eq_find (env : Environment) (s : UringState) :
    firstWaiting env s = ((ringsFrom env s.ticketCursor).flatMap fun r =>
      (waitingList env s r).map (r, ·)).find? fun a => (s.connection a).inUse := by
  rw [List.find?_flatMap, firstWaiting]
  refine congrArg (fun f => List.findSome? f _) (funext fun r => ?_)
  rw [List.find?_map]
  rfl

theorem find?_of_imp {α : Type} {p q : α → Bool} {l : List α} {a : α} (h : l.find? p = some a)
    (hq : ∀ b, q b = true → p b = true) (ha : q a = true) : l.find? q = some a := by
  induction l with
  | nil => cases h
  | cons b l ih =>
    by_cases hb : p b = true
    · rw [List.find?_cons_of_pos hb] at h
      obtain rfl := Option.some.inj h
      exact List.find?_cons_of_pos ha
    · rw [List.find?_cons_of_neg hb] at h
      rw [List.find?_cons_of_neg fun hcon => hb (hq b hcon)]
      exact ih h

/-! ## The tickets in use -/

/-- What is still to be sent lies in the ticket's own buffer, and is not nothing. -/
structure Laid (env : Environment) (send : UringSendTicket) : Prop where
  total : send.total = send.data.length
  sent : send.sent < send.total
  fits : send.total ≤ API_RESPONSE_HEADER_RESERVE + env.responseBodySize

/-- The tickets in use are those in `held` and those of the outstanding sends. -/
structure Pool (env : Environment) (held : List Nat) (s : UringState) : Prop where
  nodup : (held ++ s.sends.map OutstandingSend.ticket).Nodup
  busy : ∀ t, (s.sendTicket t).busy = true ↔ t ∈ held ++ s.sends.map OutstandingSend.ticket
  known : ∀ t ∈ held ++ s.sends.map OutstandingSend.ticket, t < URING_SEND_TICKETS
  laid : ∀ o ∈ s.sends, Laid env (s.sendTicket o.ticket)

theorem Pool.perm {held held' : List Nat} {s : UringState} (h : Pool env held s)
    (hperm : held'.Perm held) : Pool env held' s :=
  ⟨(hperm.append_right _).nodup_iff.mpr h.nodup,
    fun t => (h.busy t).trans (hperm.append_right _).mem_iff.symm,
    fun t ht => h.known t ((hperm.append_right _).mem_iff.mp ht), h.laid⟩

theorem Pool.congr {held : List Nat} {s s' : UringState} (h : Pool env held s)
    (hsends : s'.sends = s.sends) (hticket : s'.sendTicket = s.sendTicket) : Pool env held s' :=
  ⟨hsends ▸ h.nodup, fun t => by rw [hticket, hsends]; exact h.busy t, hsends ▸ h.known,
    fun o ho => by rw [hticket]; exact h.laid o (hsends ▸ ho)⟩

theorem Pool.ne_ticket {held : List Nat} {s : UringState} {ticket : Nat}
    (h : Pool env (ticket :: held) s) {o : OutstandingSend} (ho : o ∈ s.sends) :
    o.ticket ≠ ticket := fun hcon =>
  (List.nodup_cons.mp h.nodup).1 (List.mem_append_right _ (hcon ▸ List.mem_map_of_mem ho))

theorem Pool.acquire {held : List Nat} {s s' : UringState} {ticket : Nat} (h : Pool env held s)
    (hacquire : acquireSendTicket s = some (ticket, s')) : Pool env (ticket :: held) s' := by
  obtain ⟨hfree, hknown, rfl⟩ := acquireSendTicket_eq_some hacquire
  have hnot : ticket ∉ held ++ s.sends.map OutstandingSend.ticket := fun hcon =>
    Bool.false_ne_true (hfree.symm.trans ((h.busy ticket).mpr hcon))
  refine ⟨List.nodup_cons.mpr ⟨hnot, h.nodup⟩, fun t => ?_,
    List.forall_mem_cons.mpr ⟨hknown, h.known⟩, fun o ho => ?_⟩
  · rw [UringState.setTicket_sendTicket, List.cons_append, List.mem_cons]
    by_cases ht : t = ticket
    · rw [ht, Function.update_self]
      exact iff_of_true rfl (.inl rfl)
    · rw [Function.update_of_ne ht, h.busy t]
      exact (or_iff_right ht).symm
  · rw [UringState.setTicket_sendTicket, Function.update_of_ne]
    · exact h.laid o ho
    · exact fun hcon => hnot (List.mem_append_right _ (hcon ▸ List.mem_map_of_mem ho))

theorem Pool.acquire_isSome {held : List Nat} {s : UringState} (h : Pool env held s)
    (hroom : (held ++ s.sends.map OutstandingSend.ticket).length < URING_SEND_TICKETS) :
    ∃ ticket s', acquireSendTicket s = some (ticket, s') := by
  by_contra hcon
  have hnone : acquireSendTicket s = none := by
    cases hacquire : acquireSendTicket s with
    | none => rfl
    | some acquired => exact absurd ⟨acquired.1, acquired.2, hacquire⟩ hcon
  rw [acquireSendTicket, Option.map_eq_none_iff, List.find?_eq_none] at hnone
  have hsub : List.range URING_SEND_TICKETS ⊆ held ++ s.sends.map OutstandingSend.ticket :=
    fun t ht => (h.busy t).mp (by simpa using hnone t ht)
  have hle := (List.subperm_of_subset List.nodup_range hsub).length_le
  rw [List.length_range] at hle
  exact absurd (hle.trans_lt hroom) (Nat.lt_irrefl _)

theorem Pool.setTicket {held : List Nat} {s : UringState} {ticket : Nat}
    (h : Pool env (ticket :: held) s) {send : UringSendTicket}
    (hbusy : send.busy = (s.sendTicket ticket).busy) :
    Pool env (ticket :: held) (s.setTicket ticket send) := by
  refine ⟨h.nodup, fun t => ?_, h.known, fun o ho => ?_⟩
  · refine Iff.trans ?_ (h.busy t)
    rw [UringState.setTicket_sendTicket]
    by_cases ht : t = ticket
    · rw [ht, Function.update_self, hbusy]
    · rw [Function.update_of_ne ht]
  · rw [UringState.setTicket_sendTicket, Function.update_of_ne (h.ne_ticket ho)]
    exact h.laid o ho

theorem Pool.release {held : List Nat} {s : UringState} {ticket : Nat}
    (h : Pool env (ticket :: held) s) : Pool env held (releaseSendTicket s ticket) := by
  obtain ⟨hnot, hnodup⟩ := List.nodup_cons.mp h.nodup
  refine ⟨hnodup, fun t => ?_, fun t ht => h.known t (List.mem_cons_of_mem _ ht),
    fun o ho => ?_⟩
  · rw [releaseSendTicket, UringState.setTicket_sendTicket]
    by_cases ht : t = ticket
    · rw [ht, Function.update_self]
      exact iff_of_false Bool.false_ne_true hnot
    · rw [Function.update_of_ne ht, h.busy t, List.cons_append, List.mem_cons]
      exact or_iff_right ht
  · rw [releaseSendTicket, UringState.setTicket_sendTicket,
      Function.update_of_ne (h.ne_ticket ho)]
    exact h.laid o ho

theorem Pool.push {held : List Nat} {s : UringState} {ticket : Nat}
    (h : Pool env (ticket :: held) s) (slot : Slot) (hlaid : Laid env (s.sendTicket ticket)) :
    Pool env held (s.pushSend slot ticket) := by
  have hperm : (held ++ (s.pushSend slot ticket).sends.map OutstandingSend.ticket).Perm
      (ticket :: held ++ s.sends.map OutstandingSend.ticket) := by
    rw [UringState.pushSend_sends, List.map_append, ← List.append_assoc]
    exact List.perm_append_singleton ..
  refine ⟨hperm.nodup_iff.mpr h.nodup, fun t => (h.busy t).trans hperm.mem_iff.symm,
    fun t ht => h.known t (hperm.mem_iff.mp ht), fun o ho => ?_⟩
  rcases List.mem_append.mp ho with hbefore | hnew
  · exact h.laid o hbefore
  · rw [List.mem_singleton.mp hnew]
    exact hlaid

end AmmarServer.Uring
