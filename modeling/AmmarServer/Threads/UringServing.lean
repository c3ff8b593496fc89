import AmmarServer.Threads.UringView

/-! What serving a request does to the connections of the ring server: out of a buffer, at once or
together with others. -/

namespace AmmarServer.Uring
open ApiProtocol Pipeline

variable (env : Environment)

/-! ## Answering one request -/

/-- The connection in `slot` with `buf` held, as it is while `buf` is being served. -/
def servingView (s : UringState) (slot : Slot) (buf : List UInt8) : Connection UInt8 :=
  { view s (s.idOf slot) with held := buf }

theorem servingView_start (s : UringState) (slot : Slot) (buf : List UInt8) :
    (servingView s slot buf).start = s.offsetOf slot buf.length := by
  have hreceived : (view s (s.idOf slot)).received = (s.historyOf slot).received := by
    unfold view
    split <;> rfl
  unfold Connection.start servingView UringState.offsetOf
  rw [hreceived]

theorem inUse_of_isOpen {s : UringState} {slot : Slot}
    (h : (view s (s.idOf slot)).isOpen = true) : (s.connection slot).inUse = true := by
  by_contra hcon
  rw [view_gone (by simpa using hcon)] at h
  exact Bool.false_ne_true h

/-- A request is served out of `buf`: nothing else is touched, and the connection makes moves that
answer it or set it aside. -/
structure Serves (slot : Slot) (spent : Option Nat) (buf : List UInt8) (s s' : UringState) : Prop
    extends Local slot spent s s' where
  moves : Moves frameLength (servingView s slot buf) (view s' (s.idOf slot))

theorem frameLength_of_ready {buf : List UInt8} {frame : ApiFrame}
    (h : nextFrame buf 0 = (.ready, frame)) : frameLength buf = some frame.totalLength := by
  rw [frameLength, h]

theorem servingView_eq {s : UringState} {slot : Slot} (hopen : (s.connection slot).inUse = true)
    (buf : List UInt8) :
    servingView s slot buf =
      { openView (s.connection slot) (s.historyOf slot) (sendsOf s (s.idOf slot)) with
        held := buf } := by
  rw [servingView, view_inUse hopen]

theorem deferRequest_serves {s : UringState} {slot : Slot} {ticket : Nat} {buf : List UInt8}
    {frame : ApiFrame} (hok : TicketsOk s) (hheld : Held s ticket)
    (hidle : (servingView s slot buf).Idle) (hready : nextFrame buf 0 = (.ready, frame))
    (hsqe : ∀ n, env.getSqe .status n = true) (method : TypesOfRequests) :
    Serves slot (some ticket) buf s (deferRequest env s slot ticket buf frame method) := by
  have hopen := inUse_of_isOpen hidle.isOpen
  have hdefer : Moves frameLength (servingView s slot buf) _ :=
    .single (.defer hidle (frameLength_of_ready hready))
  simp only [deferRequest, ← servingView_start]
  generalize (servingView s slot buf).start = offset at hdefer ⊢
  rw [servingView_eq hopen] at hdefer
  set s₁ := releaseSendTicket s ticket
  have hsends : sendsOf s₁ (s.idOf slot) = sendsOf s (s.idOf slot) :=
    sendsOf_setTicket_of_free _ hheld.2 _
  set h : History := { s₁.historyOf slot with deferredAt := offset }
  set s₂ := s₁.setHistory slot h
  have hhistory : s₂.historyOf slot = h := Function.update_self ..
  set conn : UringConnection := { s₂.connection slot with
    deferred := true, deferredKeepAlive := frame.keepAlive, deferredMethod := method }
  set s₃ := s₂.setConnection slot conn
  have hconn : s₃.connection slot = conn := Function.update_self ..
  have hlocal₂ : Local slot none s₁ s₂ := local_setHistory ..
  have hlocal₃ : Local slot none s₂ s₃ := local_setConnection rfl id fun _ => id
  have h₃ : Local slot (some ticket) s s₃ :=
    (local_releaseSendTicket slot hheld).trans_none (hlocal₂.trans hlocal₃)
  have hopen₃ : (s₃.connection slot).inUse = true := hconn ▸ hopen
  have hview₃ : view s₃ (s.idOf slot) = openView conn h (sendsOf s (s.idOf slot)) := by
    rw [← hhistory, ← hsends]
    exact view_setConnection hopen
  cases hkeep : keepTail env s₃ slot buf frame.totalLength with
  | some s₄ =>
    have hview₄ := keepTail_view env hkeep hopen₃
    rw [h₃.idOf, hview₃] at hview₄
    refine ⟨h₃.trans_none (keepTail_some env hkeep).1, ?_⟩
    simp only [hview₄, servingView_eq hopen]
    exact hdefer
  | none =>
    set s₄ := s₃.asked.setConnection slot { s₃.connection slot with deferred := false } with hs₄
    have hasked : Local slot none s₃ s₃.asked := local_of_serving_eq slot rfl
    have hlocal₄ : Local slot none s₃.asked s₄ := local_setConnection rfl id fun _ => id
    have h₄ := h₃.trans_none (hasked.trans hlocal₄)
    have hok₄ : TicketsOk s₄ := h₄.tickets hok fun t ht => by
      obtain rfl : ticket = t := by simpa using ht
      exact hheld
    have hopen₄ : (s₄.connection slot).inUse = true := by
      rw [hs₄, UringState.setConnection_connection, Function.update_self]
      exact hopen₃
    have hview₄ : view s₄ (s.idOf slot) =
        openView { conn with deferred := false } h (sendsOf s (s.idOf slot)) := by
      rw [hs₄, hconn, ← hhistory, ← hsends]
      exact view_setConnection hopen
    obtain ⟨hlocal₅, hview₅⟩ := sendStatusAndClose_spec env hok₄ hopen₄ hsqe 413 offset
    rw [h₄.idOf, hview₄] at hview₅
    refine ⟨h₄.trans_none hlocal₅, ?_⟩
    rw [servingView_eq hopen]
    rcases hview₅ with hview₅ | ⟨sends, hview₅⟩
    · simp only [hview₅]
      exact hdefer.tail (.statusDeferred rfl rfl conn.inBuf.data)
    · simp only [hview₅]
      exact hdefer.tail (.close sends)

theorem refuse_serves {s s₁ : UringState} {slot : Slot} {spent : Option Nat} {buf held : List UInt8}
    (hok : TicketsOk s) (hspent : ∀ t ∈ spent, Held s t) (hidle : (servingView s slot buf).Idle)
    (hsqe : ∀ n, env.getSqe .status n = true) (h : Local slot spent s s₁)
    (hview : view s₁ (s.idOf slot) = { servingView s slot buf with held := held })
    (statusCode : Nat) :
    Serves slot spent buf s
      (sendStatusAndClose env s₁ slot statusCode (s.offsetOf slot buf.length)) := by
  have hok₁ := h.tickets hok hspent
  rw [← h.idOf] at hview
  have hopen₁ : (s₁.connection slot).inUse = true := by
    refine inUse_of_isOpen ?_
    rw [hview]
    exact hidle.isOpen
  have hmoves := sendStatusAndClose_moves env hok₁ hopen₁ hsqe statusCode hidle hview
  rw [h.idOf, servingView_start] at hmoves
  exact ⟨h.trans_none (sendStatusAndClose_spec env hok₁ hopen₁ hsqe statusCode _).1, hmoves⟩

theorem local_freeIn (s : UringState) (slot : Slot) : Local slot none s (freeIn s slot) :=
  local_setConnection rfl id fun _ => id

theorem freeIn_view {s : UringState} {slot : Slot} (hopen : (s.connection slot).inUse = true) :
    view (freeIn s slot) (s.idOf slot) = { view s (s.idOf slot) with held := [] } := by
  have hfreed : view (freeIn s slot) (s.idOf slot) = openView _ _ _ := view_setConnection hopen
  rw [hfreed, view_inUse hopen]
  rfl

theorem answerRequest_serves {s : UringState} {slot : Slot} {ticket : Nat} {buf : List UInt8}
    {frame : ApiFrame} (hok : TicketsOk s) (hheld : Held s ticket)
    (hidle : (servingView s slot buf).Idle) (hready : nextFrame buf 0 = (.ready, frame))
    (hsqe : ∀ n, env.getSqe .status n = true) (method : TypesOfRequests) (res : APIResponse) :
    Serves slot (some ticket) buf s
      (answerRequest env s slot ticket buf frame method res) := by
  have hopen := inUse_of_isOpen hidle.isOpen
  have hspent : ∀ t ∈ some ticket, Held s t := fun t ht => by
    obtain rfl : ticket = t := by simpa using ht
    exact hheld
  simp only [answerRequest]
  split
  · exact deferRequest_serves env hok hheld hidle hready hsqe method
  cases finish frame.keepAlive env.responseBodySize method res with
  | none =>
    have hreleased := local_releaseSendTicket slot hheld
    have hview : view (releaseSendTicket s ticket) = view s := view_setTicket_of_free _ hheld.2
    have hfreed : view (freeIn (releaseSendTicket s ticket) slot) (s.idOf slot) =
        { view (releaseSendTicket s ticket) (s.idOf slot) with held := [] } := freeIn_view hopen
    rw [hview] at hfreed
    exact refuse_serves env hok hspent hidle hsqe (hreleased.trans_none (local_freeIn _ slot))
      hfreed 500
  | some response =>
    cases hkeep : keepTail env s slot buf frame.totalLength with
    | none =>
      have hasked : Local slot none s s.asked := local_of_serving_eq slot rfl
      have hheld' : Held s.asked ticket := hheld
      have hview : view (releaseSendTicket s.asked ticket) = view s :=
        view_setTicket_of_free _ hheld.2
      exact refuse_serves env hok hspent hidle hsqe
        (hasked.trans (local_releaseSendTicket slot hheld'))
        (congrFun hview (s.idOf slot)) 413
    | some s₁ =>
      obtain ⟨hlocal, kept, hconn, _⟩ := keepTail_some env hkeep
      have hview₁ := keepTail_view env hkeep hopen
      have hheld₁ := hlocal.held ticket (by simp) hheld
      have hopen₁ : (s₁.connection slot).inUse = true := by
        rw [hconn]
        exact hopen
      have hview := sendResponse_view env hheld₁ hopen₁ response (!frame.keepAlive)
        ⟨s.offsetOf slot buf.length, false⟩
      rw [hlocal.idOf, hview₁, ← servingView_start] at hview
      refine ⟨hlocal.trans (sendResponse_local env hheld₁ ..), ?_⟩
      simp only [← servingView_start, hview]
      have hframe := frameLength_of_ready hready
      split
      · have hmove : Move frameLength (servingView s slot buf)
            ((servingView s slot buf).answer (buf.drop frame.totalLength)
              ⟨(servingView s slot buf).start, false⟩ (!frame.keepAlive)) :=
          .respond hidle hframe (!frame.keepAlive)
        rw [Connection.answer_eq hidle.deferred] at hmove
        exact .single hmove
      · exact .single (.respondLost hidle hframe)

/-- The ticket is handed back before the status is sent. -/
theorem refuse_acquired {s s₁ : UringState} {slot : Slot} {ticket : Nat} {buf : List UInt8}
    (hok : TicketsOk s) (hacquire : acquireSendTicket s = some (ticket, s₁))
    (hidle : (servingView s slot buf).Idle) (hsqe : ∀ n, env.getSqe .status n = true)
    (statusCode : Nat) :
    Serves slot none buf s
      (sendStatusAndClose env (freeIn (releaseSendTicket s₁ ticket) slot) slot statusCode
        (s.offsetOf slot buf.length)) := by
  obtain ⟨hlocal, hheld, hview⟩ := local_acquireSendTicket slot hok hacquire
  obtain ⟨hfree, -, -⟩ := acquireSendTicket_eq_some hacquire
  have hview₁ : view s₁ (s₁.idOf slot) = view s (s.idOf slot) := by rw [hlocal.idOf, hview]
  have hopen₁ : (s₁.connection slot).inUse = true := inUse_of_isOpen (hview₁ ▸ hidle.isOpen)
  have hreleased := local_releaseSendTicket slot hheld
  have hfreed : view (freeIn (releaseSendTicket s₁ ticket) slot) (s₁.idOf slot) =
      { view (releaseSendTicket s₁ ticket) (s₁.idOf slot) with held := [] } := freeIn_view hopen₁
  rw [releaseSendTicket, view_setTicket_of_free _ hheld.2, hview₁, hlocal.idOf] at hfreed
  exact refuse_serves env hok (by simp) hidle hsqe
    (hlocal.after_acquire hfree hheld (hreleased.trans_none (local_freeIn _ slot))) hfreed statusCode

/-! ## The batch -/

/-- The entry is about the connection that is in its slot now. -/
def UringBatchEntry.Live (entry : UringBatchEntry) (s : UringState) : Prop :=
  (s.connection entry.slot).inUse = true ∧
    (s.connection entry.slot).generation = entry.generation

structure BatchOk (s : UringState) : Prop where
  nodup : s.batchPending.Nodup
  batched : ∀ entry ∈ s.batchPending, entry.Live s → (s.connection entry.slot).batched = true

theorem BatchOk.of_nil {s : UringState} (h : s.batchPending = []) : BatchOk s :=
  ⟨h ▸ List.nodup_nil, fun _ hentry => absurd (h ▸ hentry) List.not_mem_nil⟩

theorem Elsewhere.live {slot : Slot} {s s' : UringState} (h : Elsewhere slot s s')
    {entry : UringBatchEntry} (hlive : entry.Live s') : entry.Live s :=
  ⟨h.inUse _ hlive.1, (h.generation _).symm.trans hlive.2⟩

theorem Elsewhere.batchOk {slot : Slot} {s s' : UringState} (h : Elsewhere slot s s')
    (hok : BatchOk s) : BatchOk s' := by
  refine ⟨h.batchPending ▸ hok.nodup, fun entry hentry hlive => ?_⟩
  rw [h.batchPending] at hentry
  exact h.batched _ hlive.1 (hok.batched entry hentry (h.live hlive))

/-- What answering a batch does: only batched connections move. -/
structure Flushes (s s' : UringState) : Prop where
  incarnation : s'.incarnation = s.incarnation
  moves : ∀ id, Moves frameLength (view s id) (view s' id)
  unbatched : ∀ id, (view s id).batched = false → view s' id = view s id

theorem Flushes.refl (s : UringState) : Flushes s s :=
  ⟨rfl, fun _ => .refl, fun _ _ => rfl⟩

theorem Flushes.idOf {s s' : UringState} (h : Flushes s s') (a : Slot) : s'.idOf a = s.idOf a := by
  rw [UringState.idOf, h.incarnation, UringState.idOf]

theorem Flushes.of_elsewhere {s s₁ s₂ : UringState} {slot : Slot} (h : Flushes s s₁)
    (hincarnation : s₂.incarnation = s₁.incarnation)
    (hothers : ∀ id, id ≠ s₁.idOf slot → view s₂ id = view s₁ id)
    (hbatched : (view s (s.idOf slot)).batched = true)
    (hmoves : Moves frameLength (view s₁ (s₁.idOf slot)) (view s₂ (s₁.idOf slot))) :
    Flushes s s₂ where
  incarnation := hincarnation.trans h.incarnation
  moves id := by
    by_cases hid : id = s₁.idOf slot
    · rw [hid]
      exact (h.moves _).trans hmoves
    · rw [hothers id hid]
      exact h.moves id
  unbatched id hun := by
    have hid : id ≠ s₁.idOf slot := by
      rintro rfl
      rw [h.idOf] at hun
      exact Bool.false_ne_true (hun.symm.trans hbatched)
    rw [hothers id hid]
    exact h.unbatched id hun

/-- A request that has its ticket and waits for the responses of the batch. -/
structure Prepared (s : UringState) (x : UringBatchServing) : Prop where
  held : Held s x.ticket
  idle : (view s (s.idOf x.slot)).Idle
  ready : nextFrame (view s (s.idOf x.slot)).held 0 = (.ready, x.frame)

theorem Local.prepared {slot : Slot} {spent : Option Nat} {s s' : UringState}
    (h : Local slot spent s s') {x : UringBatchServing} (hslot : x.slot ≠ slot)
    (hticket : x.ticket ∉ spent) (hx : Prepared s x) : Prepared s' x := by
  have hid : s.idOf x.slot ≠ s.idOf slot := fun hcon => hslot (congrArg ConnectionId.slot hcon)
  have hview : view s' (s'.idOf x.slot) = view s (s.idOf x.slot) := by
    rw [h.idOf]
    exact h.others _ hid
  exact ⟨h.held _ hticket hx.held, hview ▸ hx.idle, hview ▸ hx.ready⟩

theorem view_held {s : UringState} {slot : Slot} (hopen : (s.connection slot).inUse = true) :
    (view s (s.idOf slot)).held = (s.connection slot).inBuf.data := by
  rw [view_inUse hopen]
  rfl

theorem servingView_data {s : UringState} {slot : Slot}
    (hopen : (s.connection slot).inUse = true) :
    servingView s slot (s.connection slot).inBuf.data = view s (s.idOf slot) := by
  rw [servingView_eq hopen, view_inUse hopen]
  rfl

theorem prepareUnbatched_local {s : UringState} {slot : Slot} (serving : List UringBatchServing)
    (hok : TicketsOk s) (hidle : (view s (s.idOf slot)).Idle)
    (hsqe : ∀ n, env.getSqe .status n = true) :
    let after := prepareUnbatched env s serving slot
    Local slot none s after.1 ∧
      Moves frameLength (view s (s.idOf slot)) (view after.1 (s.idOf slot)) ∧
      (after.2 = serving ∨ ∃ x, after.2 = serving ++ [x] ∧ x.slot = slot ∧
        Prepared after.1 x ∧ (s.sendTicket x.ticket).busy = false) := by
  have hopen := inUse_of_isOpen hidle.isOpen
  have hserving := servingView_data hopen
  simp only [prepareUnbatched]
  split
  · rename_i frame hframe
    split
    · have hqueued := serving_queueForTicket s slot
      refine ⟨local_of_serving_eq slot hqueued, ?_, .inl rfl⟩
      rw [view_of_serving_eq hqueued]
      exact .refl
    rename_i ticket s₁ hacquire
    obtain ⟨hlocal, hheld, hview⟩ := local_acquireSendTicket slot hok hacquire
    obtain ⟨hfree, -, -⟩ := acquireSendTicket_eq_some hacquire
    have hview₁ : view s₁ (s₁.idOf slot) = view s (s.idOf slot) := by rw [hlocal.idOf, hview]
    split
    · have hserves := refuse_acquired env hok hacquire (hserving.symm ▸ hidle) hsqe 400
      exact ⟨hserves.toLocal, hserving ▸ hserves.moves, .inl rfl⟩
    · refine ⟨hlocal, by rw [hview]; exact .refl, .inr ⟨_, rfl, rfl, ⟨hheld, ?_, ?_⟩, hfree⟩⟩
      · rw [hview₁]
        exact hidle
      · rw [hview₁, view_held hopen]
        exact hframe
  · exact ⟨closeConnection_local s slot, closeConnection_view hopen ▸ .single (.close _), .inl rfl⟩

/-- The invariant of the first loop, with `rest` still to come. -/
structure Preparing (s₀ : UringState) (rest : List UringBatchEntry)
    (acc : UringState × List UringBatchServing) : Prop where
  tickets : TicketsOk acc.1
  batchPending : acc.1.batchPending = []
  flushes : Flushes s₀ acc.1
  nodup : rest.Nodup
  waiting : ∀ entry ∈ rest, entry.Live acc.1 → (acc.1.connection entry.slot).batched = true
  prepared : ∀ x ∈ acc.2, Prepared acc.1 x
  wasBatched : ∀ x ∈ acc.2, (view s₀ (s₀.idOf x.slot)).batched = true
  distinct : acc.2.Pairwise fun x y => x.slot ≠ y.slot ∧ x.ticket ≠ y.ticket

theorem Flushes.batched {s s' : UringState} (h : Flushes s s') {id : ConnectionId}
    (hbatched : (view s' id).batched = true) : (view s id).batched = true := by
  by_contra hcon
  rw [h.unbatched id (by simpa using hcon)] at hbatched
  exact hcon hbatched

theorem prepareBatchEntry_preparing {s₀ : UringState} {entry : UringBatchEntry}
    {rest : List UringBatchEntry} {acc : UringState × List UringBatchServing}
    (hinv : ∀ id, (view s₀ id).batched = true → Inv frameLength (view s₀ id))
    (hsqe : ∀ n, env.getSqe .status n = true) (h : Preparing s₀ (entry :: rest) acc) :
    Preparing s₀ rest (prepareBatchEntry env acc entry) := by
  obtain ⟨s, serving⟩ := acc
  obtain ⟨hnotin, hrest⟩ := List.nodup_cons.mp h.nodup
  simp only [prepareBatchEntry]
  split
  · exact ⟨h.tickets, h.batchPending, h.flushes, hrest,
      fun e he => h.waiting e (List.mem_cons_of_mem _ he), h.prepared, h.wasBatched, h.distinct⟩
  rename_i hlive
  replace hlive : entry.Live s := by
    rw [not_or, not_not, not_not] at hlive
    exact hlive
  set conn : UringConnection := { s.connection entry.slot with batched := false }
  set s₁ := s.setConnection entry.slot conn
  have hconn : s₁.connection entry.slot = conn := Function.update_self ..
  have hview := view_inUse hlive.1
  have hbatched : (view s (s.idOf entry.slot)).batched = true := by
    rw [hview]
    exact h.waiting entry List.mem_cons_self hlive
  have hbatched₀ := h.flushes.batched hbatched
  have hinv₁ := (h.flushes.moves _).inv framing (hinv _ hbatched₀)
  have hview₁ : view s₁ (s.idOf entry.slot) =
      { view s (s.idOf entry.slot) with batched := false } := by
    rw [hview]
    exact view_setConnection hlive.1
  have hidle : (view s₁ (s₁.idOf entry.slot)).Idle := by
    change (view s₁ (s.idOf entry.slot)).Idle
    rw [hview₁]
    exact hinv₁.unbatched_idle (by rw [hview]; rfl) hbatched
  have htickets₁ : TicketsOk s₁ := h.tickets.setConnection rfl
  obtain ⟨hlocal, hmoves, hserving⟩ := prepareUnbatched_local env serving htickets₁ hidle hsqe
  have hothers : ∀ id, id ≠ s.idOf entry.slot → view s₁ id = view s id :=
    fun id hid => view_setConnection_of_ne hid
  have hflushes₁ : Flushes s₀ s₁ := by
    refine h.flushes.of_elsewhere rfl hothers ?_ ?_
    · rwa [h.flushes.idOf] at hbatched₀
    · rw [hview₁]
      exact .single .unbatch
  rw [h.flushes.idOf] at hbatched₀
  have hprepared₁ : ∀ x ∈ serving, x.slot ≠ entry.slot ∧ Prepared s₁ x := by
    intro x hx
    obtain ⟨hheld, hxidle, hready⟩ := h.prepared x hx
    have hslot : x.slot ≠ entry.slot := by
      intro hcon
      rw [hcon] at hxidle
      exact Bool.false_ne_true (hxidle.batched.symm.trans hbatched)
    have hviewx : view s₁ (s₁.idOf x.slot) = view s (s.idOf x.slot) :=
      hothers _ fun hcon => hslot (congrArg ConnectionId.slot hcon)
    exact ⟨hslot, hheld, hviewx ▸ hxidle, hviewx ▸ hready⟩
  have hold : ∀ x ∈ serving, Prepared (prepareUnbatched env s₁ serving entry.slot).1 x :=
    fun x hx => hlocal.prepared (hprepared₁ x hx).1 (by simp) (hprepared₁ x hx).2
  have hwaiting : ∀ e ∈ rest, e.Live (prepareUnbatched env s₁ serving entry.slot).1 →
      ((prepareUnbatched env s₁ serving entry.slot).1.connection e.slot).batched = true := by
    intro e he hafter
    have helive := hlocal.live hafter
    have hslot : e.slot ≠ entry.slot := by
      intro hcon
      have hgeneration : e.generation = entry.generation := by
        rw [← helive.2, hcon, hconn]
        exact hlive.2
      obtain rfl : e = entry := by
        cases e
        cases entry
        simp_all
      exact hnotin he
    have hconn' : s₁.connection e.slot = s.connection e.slot := Function.update_of_ne hslot ..
    have hbefore : e.Live s := ⟨hconn' ▸ helive.1, hconn' ▸ helive.2⟩
    refine hlocal.batched _ hafter.1 ?_
    rw [hconn']
    exact h.waiting e (List.mem_cons_of_mem _ he) hbefore
  suffices hserved : (∀ x ∈ (prepareUnbatched env s₁ serving entry.slot).2,
      Prepared (prepareUnbatched env s₁ serving entry.slot).1 x ∧
        (view s₀ (s₀.idOf x.slot)).batched = true) ∧
      (prepareUnbatched env s₁ serving entry.slot).2.Pairwise fun x y =>
        x.slot ≠ y.slot ∧ x.ticket ≠ y.ticket from
    ⟨hlocal.tickets htickets₁ (by simp), hlocal.batchPending.trans h.batchPending,
      hflushes₁.of_elsewhere hlocal.incarnation hlocal.others hbatched₀ hmoves, hrest, hwaiting,
      fun x hx => (hserved.1 x hx).1, fun x hx => (hserved.1 x hx).2, hserved.2⟩
  rcases hserving with hsame | ⟨x, hadded, hslot, hx, hfree⟩
  · rw [hsame]
    exact ⟨fun x hx => ⟨hold x hx, h.wasBatched x hx⟩, h.distinct⟩
  · rw [hadded]
    refine ⟨List.forall_mem_append.mpr ⟨fun y hy => ⟨hold y hy, h.wasBatched y hy⟩,
      List.forall_mem_singleton.mpr ⟨hx, hslot ▸ hbatched₀⟩⟩,
      List.pairwise_append.mpr ⟨h.distinct, List.pairwise_singleton .., ?_⟩⟩
    intro y hy z hz
    obtain rfl := List.mem_singleton.mp hz
    refine ⟨hslot ▸ (hprepared₁ y hy).1, ?_⟩
    intro hcon
    have hbusy := (hprepared₁ y hy).2.held.1
    rw [hcon, hfree] at hbusy
    exact Bool.false_ne_true hbusy

theorem preparing_foldl {s₀ : UringState} {rest : List UringBatchEntry}
    {acc : UringState × List UringBatchServing}
    (hinv : ∀ id, (view s₀ id).batched = true → Inv frameLength (view s₀ id))
    (hsqe : ∀ n, env.getSqe .status n = true) (h : Preparing s₀ rest acc) :
    Preparing s₀ [] (rest.foldl (prepareBatchEntry env) acc) := by
  induction rest generalizing acc with
  | nil => exact h
  | cons entry rest ih => exact ih (prepareBatchEntry_preparing env hinv hsqe h)

/-- The invariant of the last loop, with `rest` still to be answered. -/
structure Answering (s₀ : UringState) (rest : List (UringBatchServing × APIResponse))
    (s : UringState) : Prop where
  tickets : TicketsOk s
  batchPending : s.batchPending = []
  flushes : Flushes s₀ s
  prepared : ∀ x ∈ rest, Prepared s x.1
  wasBatched : ∀ x ∈ rest, (view s₀ (s₀.idOf x.1.slot)).batched = true
  distinct : rest.Pairwise fun x y => x.1.slot ≠ y.1.slot ∧ x.1.ticket ≠ y.1.ticket

theorem answerBatchEntry_answering {s₀ s : UringState} {x : UringBatchServing × APIResponse}
    {rest : List (UringBatchServing × APIResponse)} (hsqe : ∀ n, env.getSqe .status n = true)
    (h : Answering s₀ (x :: rest) s) : Answering s₀ rest (answerBatchEntry env s x) := by
  obtain ⟨hheld, hidle, hready⟩ := h.prepared x List.mem_cons_self
  obtain ⟨hdistinct, hrest⟩ := List.pairwise_cons.mp h.distinct
  have hopen := inUse_of_isOpen hidle.isOpen
  have hdata := servingView_data hopen
  rw [view_held hopen] at hready
  rw [← hdata] at hidle
  have hserves := answerRequest_serves env h.tickets hheld hidle hready hsqe
    x.1.request.method x.2
  have hmoves := hserves.moves
  rw [hdata] at hmoves
  refine ⟨hserves.tickets h.tickets fun t ht => ?_, hserves.batchPending.trans h.batchPending,
    h.flushes.of_elsewhere hserves.incarnation hserves.others
      (h.wasBatched x List.mem_cons_self) hmoves, fun y hy => ?_,
    fun y hy => h.wasBatched y (List.mem_cons_of_mem _ hy), hrest⟩
  · obtain rfl : x.1.ticket = t := by simpa using ht
    exact hheld
  · refine hserves.prepared (hdistinct y hy).1.symm ?_ (h.prepared y (List.mem_cons_of_mem _ hy))
    simpa using (hdistinct y hy).2

theorem answering_foldl {s₀ s : UringState} {rest : List (UringBatchServing × APIResponse)}
    (hsqe : ∀ n, env.getSqe .status n = true) (h : Answering s₀ rest s) :
    Answering s₀ [] (rest.foldl (answerBatchEntry env) s) := by
  induction rest generalizing s with
  | nil => exact h
  | cons x rest ih => exact ih (answerBatchEntry_answering env hsqe h)

theorem flushBatch_flushes {s : UringState} (hok : TicketsOk s) (hbatch : BatchOk s)
    (hinv : ∀ id, (view s id).batched = true → Inv frameLength (view s id))
    (hsqe : ∀ n, env.getSqe .status n = true) :
    TicketsOk (flushBatch env s) ∧ (flushBatch env s).batchPending = [] ∧
      Flushes s (flushBatch env s) := by
  have hcleared : TicketsOk { s with batchPending := [] } :=
    hok.congr rfl (fun _ _ => ⟨rfl, rfl⟩) rfl fun _ => rfl
  have hstart : Preparing s s.batchPending ({ s with batchPending := [] }, []) :=
    ⟨hcleared, rfl, ⟨rfl, fun _ => .refl, fun _ _ => rfl⟩, hbatch.nodup, hbatch.batched, by simp, by simp, .nil⟩
  have hprepared := preparing_foldl env hinv hsqe hstart
  simp only [flushBatch]
  generalize List.foldl (prepareBatchEntry env) _ _ = acc at hprepared ⊢
  obtain ⟨s₁, serving⟩ := acc
  simp only
  split
  · exact ⟨hprepared.tickets, hprepared.batchPending, hprepared.flushes⟩
  set s₂ := { s₁ with calls := s₁.calls + (serving.map UringBatchServing.request).length }
  have hasked : Local (0, 0) none s₁ s₂ := local_of_serving_eq (0, 0) rfl
  have hlength : ∀ response : Nat → APIRequest → APIResponse,
      serving.length ≤ ((serving.map UringBatchServing.request).mapIdx response).length := by
    simp
  have hanswering : ∀ response : Nat → APIRequest → APIResponse,
      Answering s (serving.zip ((serving.map UringBatchServing.request).mapIdx response)) s₂ := by
    intro response
    refine ⟨hasked.tickets hprepared.tickets (by simp), hprepared.batchPending,
      ⟨hprepared.flushes.incarnation, hprepared.flushes.moves, hprepared.flushes.unbatched⟩,
      fun x hx => ?_, fun x hx => ?_, ?_⟩
    · obtain ⟨hheld, hidle, hready⟩ := hprepared.prepared _ (List.of_mem_zip hx).1
      exact ⟨hheld, hidle, hready⟩
    · exact hprepared.wasBatched _ (List.of_mem_zip hx).1
    · have hdistinct := hprepared.distinct
      rw [← List.map_fst_zip (hlength response), List.pairwise_map] at hdistinct
      exact hdistinct
  have hdone := fun response => answering_foldl env hsqe (hanswering response)
  exact ⟨(hdone _).tickets, (hdone _).batchPending, (hdone _).flushes⟩

/-! ## Serving out of a buffer -/

/-- The connection in `slot` goes on from `v`, and every other one from where it was. -/
structure Proceeds (slot : Slot) (v : Connection UInt8) (s s' : UringState) : Prop where
  tickets : TicketsOk s'
  batch : BatchOk s'
  incarnation : s'.incarnation = s.incarnation
  moves : Moves frameLength v (view s' (s.idOf slot))
  others : ∀ id, id ≠ s.idOf slot → Moves frameLength (view s id) (view s' id)

theorem Local.proceeds {slot : Slot} {s s' : UringState} {v : Connection UInt8}
    (h : Local slot none s s') (hok : TicketsOk s) (hbatch : BatchOk s)
    (hmoves : Moves frameLength v (view s' (s.idOf slot))) : Proceeds slot v s s' where
  tickets := h.tickets hok (by simp)
  batch := h.batchOk hbatch
  incarnation := h.incarnation
  moves := hmoves
  others id hid := h.others id hid ▸ .refl

theorem Serves.proceeds {slot : Slot} {buf : List UInt8} {s s' : UringState}
    (h : Serves slot none buf s s') (hok : TicketsOk s) (hbatch : BatchOk s) :
    Proceeds slot (servingView s slot buf) s s' :=
  h.toLocal.proceeds hok hbatch h.moves

theorem ready_ne_nil {buf : List UInt8} {frame : ApiFrame}
    (h : nextFrame buf 0 = (.ready, frame)) : buf ≠ [] := by
  rintro rfl
  have hle := framing.le (frameLength_of_ready h)
  have hpos := framing.pos (frameLength_of_ready h)
  exact absurd (hpos.trans_le hle) (by simp)

theorem keepTail_proceeds {s s₁ : UringState} {slot : Slot} {buf : List UInt8}
    (hkeep : keepTail env s slot buf 0 = some s₁) (hopen : (s.connection slot).inUse = true) :
    Local slot none s s₁ ∧ view s₁ (s.idOf slot) = servingView s slot buf := by
  refine ⟨(keepTail_some env hkeep).1, ?_⟩
  rw [keepTail_view env hkeep hopen, List.drop_zero]
  rfl

theorem enqueue_proceeds {s s₁ : UringState} {slot : Slot} {buf : List UInt8} {frame : ApiFrame}
    (hok : TicketsOk s) (hbatch : BatchOk s) (hidle : (servingView s slot buf).Idle)
    (hready : nextFrame buf 0 = (.ready, frame)) (hkeep : keepTail env s slot buf 0 = some s₁) :
    let s₂ := s₁.setHistory slot
      { s₁.historyOf slot with batchedAt := s.offsetOf slot buf.length }
    Proceeds slot (servingView s slot buf) s
      { s₂.setConnection slot { s₂.connection slot with batched := true } with
        batchPending := s₂.batchPending ++ [⟨slot, (s₂.connection slot).generation⟩] } := by
  intro s₂
  have hopen := inUse_of_isOpen hidle.isOpen
  obtain ⟨hlocal, hview⟩ := keepTail_proceeds env hkeep hopen
  have hview₁ : view s₁ (s₁.idOf slot) = servingView s slot buf := by rw [hlocal.idOf, hview]
  have hopen₁ : (s₁.connection slot).inUse = true := inUse_of_isOpen (hview₁ ▸ hidle.isOpen)
  have hlocal₂ : Local slot none s s₂ := hlocal.trans (local_setHistory ..)
  have hbatch₂ := hlocal₂.batchOk hbatch
  have hnot : (s₂.connection slot).batched = false := by
    have hidle₁ := hidle.batched
    rw [← hview₁, view_inUse hopen₁] at hidle₁
    exact hidle₁
  set s₃ := s₂.setConnection slot { s₂.connection slot with batched := true } with hs₃
  have hlocal₃ : Local slot none s₂ s₃ := local_setConnection rfl id fun _ _ => rfl
  have hconn : s₃.connection slot = { s₂.connection slot with batched := true } :=
    Function.update_self ..
  have hboth := hlocal₂.trans hlocal₃
  refine ⟨(hboth.tickets hok (by simp)).congr rfl (fun _ _ => ⟨rfl, rfl⟩) rfl fun _ => rfl,
    ⟨?_, fun entry hentry hlive => ?_⟩, hboth.incarnation, ?_, fun id hid => ?_⟩
  · refine List.nodup_append.mpr ⟨hbatch₂.nodup, List.nodup_singleton _, ?_⟩
    rintro entry hentry entry' hentry' rfl
    obtain rfl := List.mem_singleton.mp hentry'
    exact Bool.false_ne_true (hnot.symm.trans (hbatch₂.batched _ hentry ⟨hopen₁, rfl⟩))
  · rcases List.mem_append.mp hentry with hentry | hentry
    · exact (hlocal₃.batchOk hbatch₂).batched entry hentry hlive
    · obtain rfl := List.mem_singleton.mp hentry
      change (s₃.connection slot).batched = true
      rw [hconn]
  · have hhistory : s₂.historyOf slot =
        { s₁.historyOf slot with batchedAt := s.offsetOf slot buf.length } :=
      Function.update_self ..
    have hview₃ : view s₃ (s₂.idOf slot) =
        openView { s₂.connection slot with batched := true } (s₂.historyOf slot)
          (sendsOf s₂ (s₂.idOf slot)) := view_setConnection hopen₁
    rw [hhistory, hlocal₂.idOf] at hview₃
    change Moves frameLength _ (view s₃ (s.idOf slot))
    have hmove : Move frameLength (servingView s slot buf) _ :=
      .batch hidle (ready_ne_nil hready)
    rw [servingView_start, ← hview₁, view_inUse hopen₁, hlocal.idOf] at hmove
    rw [hview₃, ← hview₁, view_inUse hopen₁, hlocal.idOf]
    exact .single hmove
  · change Moves frameLength _ (view s₃ id)
    rw [hboth.others id hid]
    exact .refl

theorem refuse_unkept {s : UringState} {slot : Slot} {buf : List UInt8} (hok : TicketsOk s)
    (hidle : (servingView s slot buf).Idle) (hsqe : ∀ n, env.getSqe .status n = true)
    (statusCode : Nat) :
    Serves slot none buf s
      (sendStatusAndClose env s.asked slot statusCode (s.offsetOf slot buf.length)) := by
  have hasked : Local slot none s s.asked := local_of_serving_eq slot rfl
  exact refuse_serves env hok (by simp) hidle hsqe hasked
    (rfl : view s.asked (s.idOf slot) =
      { servingView s slot buf with held := (view s (s.idOf slot)).held }) statusCode

theorem Flushes.proceeds {s s₁ s₂ : UringState} {slot : Slot} {buf : List UInt8}
    (h : Flushes s s₁) (hidle : (servingView s slot buf).Idle)
    (h₁ : Proceeds slot (servingView s₁ slot buf) s₁ s₂) :
    Proceeds slot (servingView s slot buf) s s₂ := by
  have hview := h.unbatched (s.idOf slot) hidle.batched
  have hserving : servingView s₁ slot buf = servingView s slot buf := by
    rw [servingView, h.idOf, hview, servingView]
  refine ⟨h₁.tickets, h₁.batch, h₁.incarnation.trans h.incarnation, ?_, fun id hid => ?_⟩
  · rw [← hserving, ← h.idOf]
    exact h₁.moves
  · rw [← h.idOf] at hid
    exact (h.moves id).trans (h₁.others id hid)

theorem serveInBatch_proceeds {s s₁ : UringState} {slot : Slot} {buf : List UInt8}
    {frame : ApiFrame} (hok : TicketsOk s₁) (hbatch : BatchOk s₁) (hflushes : Flushes s s₁)
    (hidle : (servingView s slot buf).Idle) (hready : nextFrame buf 0 = (.ready, frame))
    (hsqe : ∀ n, env.getSqe .status n = true) :
    Proceeds slot (servingView s slot buf) s
      (match keepTail env s₁ slot buf 0 with
      | none => sendStatusAndClose env s₁.asked slot 413 (s.offsetOf slot buf.length)
      | some s₂ =>
        let s₂ := s₂.setHistory slot
          { s₂.historyOf slot with batchedAt := s.offsetOf slot buf.length }
        { s₂.setConnection slot { s₂.connection slot with batched := true } with
          batchPending := s₂.batchPending ++ [⟨slot, (s₂.connection slot).generation⟩] }) := by
  have hview := hflushes.unbatched (s.idOf slot) hidle.batched
  have hserving : servingView s₁ slot buf = servingView s slot buf := by
    rw [servingView, hflushes.idOf, hview, servingView]
  have hidle₁ : (servingView s₁ slot buf).Idle := hserving ▸ hidle
  have hoffset : s.offsetOf slot buf.length = s₁.offsetOf slot buf.length := by
    rw [← servingView_start, ← servingView_start, hserving]
  refine hflushes.proceeds hidle ?_
  split
  · rw [hoffset]
    exact (refuse_unkept env hok hidle₁ hsqe 413).proceeds hok hbatch
  · rename_i s₂ hkeep
    rw [hoffset]
    exact enqueue_proceeds env hok hbatch hidle₁ hready hkeep

theorem serveNextRequest_proceeds {s : UringState} {slot : Slot} {buf : List UInt8}
    (hok : TicketsOk s) (hbatch : BatchOk s)
    (hinv : ∀ id, (view s id).batched = true → Inv frameLength (view s id))
    (hidle : (servingView s slot buf).Idle) (hsqe : ∀ n, env.getSqe .status n = true) :
    Proceeds slot (servingView s slot buf) s (serveNextRequest env s slot buf) := by
  have hopen := inUse_of_isOpen hidle.isOpen
  have hfree : ¬ ((s.connection slot).batched = true ∨ (s.connection slot).deferred = true) := by
    have hb := hidle.batched
    have hd := hidle.deferred
    rw [servingView_eq hopen] at hb hd
    rintro (hcon | hcon)
    · exact Bool.false_ne_true (hb.symm.trans hcon)
    · exact Bool.false_ne_true (hd.symm.trans hcon)
  simp only [serveNextRequest, if_neg hfree]
  split
  · -- the request is not complete yet
    cases hkeep : keepTail env s slot buf 0 with
    | none => exact (refuse_unkept env hok hidle hsqe 413).proceeds hok hbatch
    | some s₁ =>
      obtain ⟨hlocal, hview⟩ := keepTail_proceeds env hkeep hopen
      exact hlocal.proceeds hok hbatch (by rw [hview]; exact .refl)
  · -- it is refused
    have hfreed : view (freeIn s slot) (s.idOf slot) =
        { servingView s slot buf with held := [] } := freeIn_view hopen
    exact (refuse_serves env hok (by simp) hidle hsqe (local_freeIn s slot) hfreed _).proceeds
      hok hbatch
  rename_i frame hready
  split
  · refine serveInBatch_proceeds env ?_ ?_ ?_ hidle hready hsqe
    all_goals
      have hflush := flushBatch_flushes env hok hbatch hinv hsqe
      split
    · exact hflush.1
    · exact hok
    · exact .of_nil hflush.2.1
    · exact hbatch
    · exact hflush.2.2
    · exact .refl s
  split
  · cases hkeep : keepTail env s slot buf 0 with
    | none => exact (refuse_unkept env hok hidle hsqe 413).proceeds hok hbatch
    | some s₁ =>
      obtain ⟨hlocal, hview⟩ := keepTail_proceeds env hkeep hopen
      have hqueued := serving_queueForTicket s₁ slot
      refine (hlocal.trans (local_of_serving_eq slot hqueued)).proceeds hok hbatch ?_
      rw [view_of_serving_eq hqueued, hview]
      exact .refl
  rename_i ticket s₁ hacquire
  split
  · exact (refuse_acquired env hok hacquire hidle hsqe 400).proceeds hok hbatch
  split
  · exact (refuse_acquired env hok hacquire hidle hsqe 500).proceeds hok hbatch
  rename_i request _ _
  obtain ⟨hlocal, hheld, hview⟩ := local_acquireSendTicket slot hok hacquire
  obtain ⟨hunused, -, -⟩ := acquireSendTicket_eq_some hacquire
  have hasked : Local slot none s s₁.asked := hlocal.trans (local_of_serving_eq slot rfl)
  have hserving : servingView s₁.asked slot buf = servingView s slot buf := by
    have hviews : view s₁.asked = view s := hview
    rw [servingView, hasked.idOf, hviews, servingView]
  have hserves := answerRequest_serves env (hasked.tickets hok (by simp)) hheld
    (hserving ▸ hidle) hready hsqe request.method (env.handler s₁.calls request)
  refine (hasked.after_acquire hunused hheld hserves.toLocal).proceeds hok hbatch ?_
  have hmoves := hserves.moves
  rwa [hserving, hasked.idOf] at hmoves

end AmmarServer.Uring
