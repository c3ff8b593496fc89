import AmmarServer.Lib.Run
import AmmarServer.Threads.UringServing

/-! The order of the answers in io_uring API mode, over whole runs of the ring server. -/

namespace AmmarServer.Uring
open ApiProtocol CString Pipeline

variable (env : Environment)

structure Good (s : UringState) : Prop where
  tickets : TicketsOk s
  batch : BatchOk s
  inv : ∀ id, Inv frameLength (view s id)

theorem Good.of_moves {s s' : UringState} (h : Good s) (htickets : TicketsOk s')
    (hbatch : BatchOk s') (hmoves : ∀ id, Moves frameLength (view s id) (view s' id)) : Good s' :=
  ⟨htickets, hbatch, fun id => (hmoves id).inv framing (h.inv id)⟩

theorem Good.proceeds {s s' : UringState} {slot : Slot} {v : Connection UInt8}
    (h : ∀ id, id ≠ s.idOf slot → Inv frameLength (view s id)) (hv : Inv frameLength v)
    (hproceeds : Proceeds slot v s s') : Good s' := by
  refine ⟨hproceeds.tickets, hproceeds.batch, fun id => ?_⟩
  by_cases hid : id = s.idOf slot
  · rw [hid]
    exact hproceeds.moves.inv framing hv
  · exact (hproceeds.others id hid).inv framing (h id hid)

theorem Good.local {s s' : UringState} {slot : Slot} (h : Good s) (hlocal : Local slot none s s')
    (hmoves : Moves frameLength (view s (s.idOf slot)) (view s' (s.idOf slot))) : Good s' :=
  .proceeds (fun id _ => h.inv id) (h.inv _) (hlocal.proceeds h.tickets h.batch hmoves)

theorem Good.of_serving_eq {s s' : UringState} (h : Good s) (hserving : s'.serving = s.serving) :
    Good s' :=
  h.local (local_of_serving_eq (0, 0) hserving) (view_of_serving_eq hserving ▸ .refl)

theorem Good.closeConnection {s : UringState} (h : Good s) (slot : Slot) :
    Good (closeConnection s slot) := by
  by_cases hopen : (s.connection slot).inUse = true
  · exact h.local (closeConnection_local s slot) (closeConnection_view hopen ▸ .single (.close _))
  · have hsame : Uring.closeConnection s slot = s := if_pos hopen
    rwa [hsame]

theorem Good.serveNextRequest {s : UringState} {slot : Slot} {buf : List UInt8}
    (hok : TicketsOk s) (hbatch : BatchOk s)
    (hinv : ∀ id, id ≠ s.idOf slot → Inv frameLength (view s id))
    (hown : (view s (s.idOf slot)).batched = false)
    (hv : Inv frameLength (servingView s slot buf)) (hidle : (servingView s slot buf).Idle)
    (hsqe : ∀ n, env.getSqe .status n = true) : Good (serveNextRequest env s slot buf) := by
  refine .proceeds hinv hv (serveNextRequest_proceeds env hok hbatch (fun id hid => ?_) hidle hsqe)
  refine hinv id ?_
  rintro rfl
  exact Bool.false_ne_true (hown.symm.trans hid)

/-- An open connection that is neither batched nor deferred and has no send in flight is idle. -/
theorem Good.idle {s : UringState} (h : Good s) {slot : Slot}
    (hopen : (s.connection slot).inUse = true) (hsend : (s.connection slot).sendInFlight = false)
    (hbatched : (s.connection slot).batched = false)
    (hdeferred : (s.connection slot).deferred = false) : (view s (s.idOf slot)).Idle := by
  have hview := view_inUse hopen
  have hisOpen : (view s (s.idOf slot)).isOpen = true := by
    rw [hview]
    rfl
  have hinFlight : (view s (s.idOf slot)).inFlight = false := by
    rw [hview]
    exact hsend
  refine ⟨hisOpen, hinFlight, (h.inv _).sends_nil hisOpen hinFlight, ?_, ?_⟩
  · rw [hview]
    exact hbatched
  · rw [hview]
    exact hdeferred

theorem Good.serveHeld {s : UringState} (h : Good s) {slot : Slot}
    (hopen : (s.connection slot).inUse = true) (hsend : (s.connection slot).sendInFlight = false)
    (hsqe : ∀ n, env.getSqe .status n = true) :
    Good (Uring.serveNextRequest env s slot (s.connection slot).inBuf.data) := by
  by_cases hskip : (s.connection slot).batched = true ∨ (s.connection slot).deferred = true
  · simpa only [Uring.serveNextRequest, if_pos hskip] using h
  rw [not_or, Bool.not_eq_true, Bool.not_eq_true] at hskip
  have hidle := h.idle hopen hsend hskip.1 hskip.2
  have hdata := servingView_data hopen
  exact .serveNextRequest env h.tickets h.batch (fun id _ => h.inv id) hidle.batched
    (hdata ▸ h.inv _) (hdata ▸ hidle) hsqe

/-! ## Accepting -/

def nextGeneration (s : UringState) (slot : Slot) : Nat :=
  ((s.connection slot).generation + 1) % 2 ^ 32

/-- No send on its way and no entry of the batch was made for a connection in the slot that had the
generation which a new one gets. -/
def FreshGeneration (s : UringState) (slot : Slot) : Prop :=
  (∀ o ∈ s.sends, o.id.slot = slot →
    (s.sendTicket o.ticket).generation ≠ nextGeneration s slot) ∧
  ∀ entry ∈ s.batchPending, entry.slot = slot → entry.generation ≠ nextGeneration s slot

theorem Good.newConnection {s s' : UringState} {slot : Slot} {conn : UringConnection} (h : Good s)
    (hfresh : FreshGeneration s slot)
    (hconn : conn.serving = { generation := nextGeneration s slot, inUse := true })
    (hs' : s' = ({ s.setConnection slot conn with
      incarnation := Function.update s.incarnation slot (s.incarnation slot + 1) }).setHistory
        slot {}) : Good s' := by
  have hinUse : conn.inUse = true := congrArg UringConnection.inUse hconn
  have hgeneration : conn.generation = nextGeneration s slot :=
    congrArg UringConnection.generation hconn
  have hslot : s'.connection slot = conn := by rw [hs']; exact Function.update_self ..
  have helse : ∀ a, a ≠ slot → s'.connection a = s.connection a := fun a ha => by
    rw [hs']; exact Function.update_of_ne ha ..
  have hincarnation : s'.incarnation =
      Function.update s.incarnation slot (s.incarnation slot + 1) := by rw [hs']; rfl
  have hid : s'.idOf slot = ⟨slot, s.incarnation slot + 1⟩ := by
    rw [UringState.idOf, hincarnation, Function.update_self]
  have hidelse : ∀ a, a ≠ slot → s'.idOf a = s.idOf a := fun a ha => by
    rw [UringState.idOf, hincarnation, Function.update_of_ne ha, UringState.idOf]
  have hsends : ∀ id, sendsOf s' id = sendsOf s id := fun id => by rw [hs']; rfl
  have hhistory : s'.history = Function.update s.history ⟨slot, s.incarnation slot + 1⟩ {} := by
    rw [← hid, hs']
    rfl
  refine h.of_moves ⟨?_, ?_, ?_, ?_⟩ ⟨?_, ?_⟩ fun id => ?_
  · rw [hs']; exact h.tickets.nodup
  · rw [hs']; exact h.tickets.busy
  · intro o ho
    have hknown := h.tickets.known o (by rwa [hs'] at ho)
    rw [hincarnation]
    by_cases hoslot : o.id.slot = slot
    · rw [hoslot] at hknown ⊢
      rw [Function.update_self]
      exact hknown.trans (Nat.le_succ _)
    · rwa [Function.update_of_ne hoslot]
  · intro o ho
    have ho' : o ∈ s.sends := by rwa [hs'] at ho
    have hticket : s'.sendTicket = s.sendTicket := by rw [hs']; rfl
    rw [hticket]
    by_cases hoslot : o.id.slot = slot
    · rw [hoslot, hslot, hid, hgeneration]
      refine iff_of_false (hfresh.1 o ho' hoslot).symm fun hcon => ?_
      have hknown := h.tickets.known o ho'
      rw [hcon] at hknown
      exact absurd hknown (Nat.not_succ_le_self _)
    · rw [helse _ hoslot, hidelse _ hoslot]
      exact h.tickets.theirs o ho'
  · rw [hs']; exact h.batch.nodup
  · intro entry hentry hlive
    have hentry' : entry ∈ s.batchPending := by rwa [hs'] at hentry
    have hentrySlot : entry.slot ≠ slot := by
      intro hcon
      refine hfresh.2 entry hentry' hcon ?_
      rw [← hlive.2, hcon, hslot, hgeneration]
    rw [helse _ hentrySlot]
    exact h.batch.batched entry hentry'
      ⟨helse _ hentrySlot ▸ hlive.1, helse _ hentrySlot ▸ hlive.2⟩
  by_cases hnew : id = ⟨slot, s.incarnation slot + 1⟩
  · -- the new connection
    have hnone : sendsOf s id = [] := by
      rw [sendsOf, List.map_eq_nil_iff, List.filter_eq_nil_iff]
      intro o ho hcon
      have hknown := h.tickets.known o ho
      rw [of_decide_eq_true hcon, hnew] at hknown
      exact absurd hknown (Nat.not_succ_le_self _)
    have hbefore : view s id = goneView (s.history id) [] := by
      rw [← hnone]
      refine if_neg fun hcon => ?_
      rw [hnew] at hcon
      have := congrArg ConnectionId.incarnation hcon.2
      exact absurd this.symm (Nat.succ_ne_self _)
    have hopen : (s'.connection slot).inUse = true := hslot ▸ hinUse
    have hafter := view_inUse hopen
    have hown : s'.historyOf slot = {} := by
      rw [UringState.historyOf, hhistory, hid, Function.update_self]
    rw [hown, hid, ← hnew, hsends, hnone, hslot] at hafter
    have hblank : openView conn {} [] = { isOpen := true } := by
      change openView conn.serving {} [] = _
      rw [hconn]
      rfl
    rw [hafter, hblank, hbefore]
    exact .single (.accept rfl rfl)
  have hsame : s'.history id = s.history id := by rw [hhistory, Function.update_of_ne hnew]
  by_cases hidslot : id.slot = slot
  · -- whoever had the slot before
    have hafter : view s' id = goneView (s.history id) (sendsOf s id) := by
      rw [← hsame, ← hsends]
      refine if_neg fun hcon => hnew ?_
      rw [← hcon.2, hidslot, hid]
    have hclosed : goneView (s.history id) (sendsOf s id) = (view s id).closed (sendsOf s id) := by
      unfold view
      split <;> rfl
    rw [hafter, hclosed]
    exact .single (.close _)
  · have hincarnationElse : s'.incarnation id.slot = s.incarnation id.slot := by
      rw [hincarnation, Function.update_of_ne hidslot]
    rw [view_congr (helse _ hidslot) hincarnationElse hsame (hsends id)]
    exact .refl

theorem Good.handleAcceptCompletion {s : UringState} (h : Good s) (r : Nat)
    (res : Except Errno Nat) (more : Bool)
    (hfresh : ∀ slot, res = .ok slot → FreshGeneration s (r, slot)) :
    Good (handleAcceptCompletion env s r res more) := by
  simp only [Uring.handleAcceptCompletion]
  set s₁ := if more = true then s else s.setRing r { s.ring r with acceptArmed := false } with hs₁
  have hserving₁ : s₁.serving = s.serving := by
    rw [hs₁]
    split <;> rfl
  have h₁ : Good s₁ := h.of_serving_eq hserving₁
  have hrearm : ∀ t : UringState, Good t → ∀ p : Prop, [Decidable p] →
      Good (if p then armAccept env t r else t) := by
    intro t ht p _
    split
    · exact ht.of_serving_eq (serving_of_unarmed (unarmed_armAccept env t r))
    · exact ht
  cases res with
  | ok slot =>
    simp only
    have hserved : ∀ t : UringState, Good t → ∀ p q : Prop, [Decidable p] → [Decidable q] →
        Good (if p then moveAcceptOn env t r else if q then armAccept env t r else t) := by
      intro t ht p q _ _
      split
      · exact ht.of_serving_eq (serving_of_unarmed (unarmed_moveAcceptOn env t r))
      · exact hrearm t ht q
    refine hserved _ ?_ _ _
    split
    · set conn : UringConnection := {
        generation := ((s₁.connection (r, slot)).generation + 1) % 2 ^ 32
        nextWaiting := (s₁.connection (r, slot)).nextWaiting
        nextRearm := (s₁.connection (r, slot)).nextRearm
        waitingForTicket := (s₁.connection (r, slot)).waitingForTicket
        waitingForRearm := (s₁.connection (r, slot)).waitingForRearm
        inUse := true }
      have hfresh₁ : FreshGeneration s₁ (r, slot) := by
        have := hfresh slot rfl
        rw [hs₁]
        split <;> exact this
      have hconn : conn.serving =
          { generation := nextGeneration s₁ (r, slot), inUse := true } := rfl
      refine (h₁.newConnection hfresh₁ hconn rfl).of_serving_eq ?_
      rw [serving_of_unarmed (unarmed_armRecv ..), serving_setRing]
    · exact h₁
  | error e =>
    cases e with
    | canceled => exact h₁
    | mfile => exact h₁.of_serving_eq (serving_of_unarmed (unarmed_armAcceptSomewhere env s₁ _))
    | nobufs => exact hrearm _ h₁ _
    | other => exact hrearm _ h₁ _

/-! ## Receiving -/

/-- Bytes that cannot be stored behind a request which is batched or deferred, so that a 413 is sent
while that request has no answer yet. -/
def Overflows (s : UringState) (slot : Slot) (data : List UInt8) : Prop :=
  ((s.connection slot).batched = true ∨ (s.connection slot).deferred = true) ∧
    (s.connection slot).sendInFlight = false ∧
    partialAppend (s.connection slot).inBuf data (env.realloc s.calls) = none ∧
    (acquireSendTicket s).isSome

theorem acquireSendTicket_congr {s s' : UringState} (h : s'.sendTicket = s.sendTicket) :
    (acquireSendTicket s').isSome = (acquireSendTicket s).isSome := by
  rw [acquireSendTicket, acquireSendTicket, h, Option.isSome_map, Option.isSome_map]

theorem Overflows.congr {s s' : UringState} {slot : Slot} {data : List UInt8}
    (h : Overflows env s' slot data) (hserving : s'.serving = s.serving)
    (hcalls : s'.calls = s.calls) : Overflows env s slot data := by
  have hconn : (s'.connection slot).serving = (s.connection slot).serving :=
    congrFun (congrArg UringState.connection hserving) slot
  obtain ⟨hpending, hsend, hfull, hfree⟩ := h
  rw [acquireSendTicket_congr (sendTicket_of_serving_eq hserving)] at hfree
  rw [hcalls] at hfull
  refine ⟨?_, ?_, ?_, hfree⟩
  · change (s.connection slot).serving.batched = true ∨ (s.connection slot).serving.deferred = true
    rw [← hconn]
    exact hpending
  · change (s.connection slot).serving.sendInFlight = false
    rw [← hconn]
    exact hsend
  · change partialAppend (s.connection slot).serving.inBuf data _ = none
    rw [← hconn]
    exact hfull

/-- Bytes arrive: the connection as the stream sees it, with the bytes behind those it holds. -/
def receivedView (s : UringState) (slot : Slot) (data : List UInt8) : Connection UInt8 :=
  { view s (s.idOf slot) with
    received := (view s (s.idOf slot)).received ++ data
    held := (view s (s.idOf slot)).held ++ data }

theorem noteReceived_view {s : UringState} {slot : Slot} (hopen : (s.connection slot).inUse = true)
    (data : List UInt8) :
    view (s.noteReceived slot data) (s.idOf slot) =
      { receivedView s slot data with held := (s.connection slot).inBuf.data } := by
  have hopen' : ((s.noteReceived slot data).connection slot).inUse = true := hopen
  have hhistory : (s.noteReceived slot data).historyOf slot =
      { s.historyOf slot with received := (s.historyOf slot).received ++ data } :=
    Function.update_self ..
  have hview := view_inUse hopen'
  rw [hhistory] at hview
  rw [receivedView, view_inUse hopen]
  exact hview

theorem receive_move {s : UringState} {slot : Slot} (hopen : (s.connection slot).inUse = true)
    (data : List UInt8) : Move frameLength (view s (s.idOf slot)) (receivedView s slot data) :=
  .receive data (by rw [view_inUse hopen]; rfl)

/-- The bytes could not be stored and the connection is closed. -/
theorem Good.closeReceived {s s₂ : UringState} (h : Good s) {slot : Slot} {data : List UInt8}
    (hopen : (s.connection slot).inUse = true)
    (hserving : s₂.serving = (s.noteReceived slot data).serving) :
    Good (Uring.closeConnection s₂ slot) := by
  have hlocal₁ : Local slot none s (s.noteReceived slot data) := local_setHistory ..
  have hlocal₂ := hlocal₁.trans (local_of_serving_eq slot hserving)
  have hview₂ := noteReceived_view hopen data
  rw [← view_of_serving_eq hserving, ← hlocal₂.idOf] at hview₂
  have hopen₂ : (s₂.connection slot).inUse = true :=
    inUse_of_isOpen (by rw [hview₂, receivedView, view_inUse hopen]; rfl)
  refine h.local (hlocal₂.trans (closeConnection_local s₂ slot)) ?_
  have hclosed := closeConnection_view hopen₂
  rw [hview₂, hlocal₂.idOf] at hclosed
  rw [hclosed]
  exact (Relation.ReflTransGen.single (receive_move hopen data)).tail (.close _)

/-- The bytes could not be stored and a 413 is due. -/
theorem Good.overflow {s s₂ : UringState} (h : Good s) {slot : Slot} {data : List UInt8}
    (hopen : (s.connection slot).inUse = true) (hsend : (s.connection slot).sendInFlight = false)
    (hroom : ¬ Overflows env s slot data)
    (hfull : partialAppend (s.connection slot).inBuf data (env.realloc s.calls) = none)
    (hserving : s₂.serving = (s.noteReceived slot data).serving)
    (hsqe : ∀ n, env.getSqe .status n = true) :
    Good (sendStatusAndClose env s₂ slot 413
      (s.offsetOf slot (s.connection slot).inBuf.used)) := by
  have hlocal₁ : Local slot none s (s.noteReceived slot data) := local_setHistory ..
  have hlocal₂ := hlocal₁.trans (local_of_serving_eq slot hserving)
  by_cases hpending :
      (s.connection slot).batched = true ∨ (s.connection slot).deferred = true
  · -- the guard leaves only the case without a free ticket
    have hnone : acquireSendTicket s₂ = none := by
      rw [← Option.not_isSome_iff_eq_none]
      have hticket : s₂.sendTicket = s.sendTicket := (sendTicket_of_serving_eq hserving).trans rfl
      rw [acquireSendTicket_congr hticket]
      exact fun hfree => hroom ⟨hpending, hsend, hfull, hfree⟩
    have hclose : sendStatusAndClose env s₂ slot 413
        (s.offsetOf slot (s.connection slot).inBuf.used) = Uring.closeConnection s₂ slot := by
      rw [sendStatusAndClose, hnone]
    rw [hclose]
    exact h.closeReceived hopen hserving
  rw [not_or, Bool.not_eq_true, Bool.not_eq_true] at hpending
  have hidle := h.idle hopen hsend hpending.1 hpending.2
  have hview₂ := noteReceived_view hopen data
  rw [← view_of_serving_eq hserving, ← hlocal₂.idOf] at hview₂
  have hopen₂ : (s₂.connection slot).inUse = true :=
    inUse_of_isOpen (by rw [hview₂, receivedView, view_inUse hopen]; rfl)
  have hstart : (receivedView s slot data).start =
      s.offsetOf slot (s.connection slot).inBuf.used := by
    rw [ApiPartialRequest.used, ← servingView_start, servingView_data hopen]
    simp only [receivedView, Connection.start, List.length_append, Nat.add_sub_add_right]
  have hidle' : (receivedView s slot data).Idle :=
    ⟨hidle.isOpen, hidle.inFlight, hidle.sends, hidle.batched, hidle.deferred⟩
  have hok₂ := hlocal₂.tickets h.tickets (by simp)
  have hmoves := sendStatusAndClose_moves env hok₂ hopen₂ hsqe 413 hidle' hview₂
  rw [hlocal₂.idOf, hstart] at hmoves
  exact h.local (hlocal₂.trans (sendStatusAndClose_spec env hok₂ hopen₂ hsqe 413 _).1)
    ((Relation.ReflTransGen.single (receive_move hopen data)).trans hmoves)

theorem Good.takeBytes {s : UringState} (h : Good s) {slot : Slot}
    (hopen : (s.connection slot).inUse = true) (data : List UInt8)
    (hroom : ¬ Overflows env s slot data) (hsqe : ∀ n, env.getSqe .status n = true) :
    Good (takeBytes env s slot data).2 := by
  have hlocal₁ : Local slot none s (s.noteReceived slot data) := local_setHistory ..
  have hview₁ := noteReceived_view hopen data
  have hreceive := receive_move hopen data
  -- once the bytes are stored, the connection is as the stream sees it
  have hstored : ∀ s₂, appendIn env (s.noteReceived slot data) slot data = (true, s₂) →
      Good s₂ ∧ (s₂.connection slot).inUse = true ∧
        (s₂.connection slot).sendInFlight = (s.connection slot).sendInFlight := by
    intro s₂ happend
    obtain ⟨hlocal₂, hview₂, inBuf, hconn⟩ := appendIn_stored env happend hopen
    have hid : (s.noteReceived slot data).idOf slot = s.idOf slot := rfl
    rw [hid, hview₁] at hview₂
    refine ⟨h.local (hlocal₁.trans hlocal₂) (.single ?_), ?_, ?_⟩
    · rw [hview₂]
      rw [receivedView, view_held hopen] at hreceive
      exact hreceive
    · rw [hconn]
      exact hopen
    · rw [hconn]
      rfl
  have hrecycled : ∀ s₂ : UringState, Good s₂ → Good (recycleRecvBuffer env s₂ slot.1) :=
    fun s₂ h₂ => h₂.of_serving_eq (serving_of_unarmed (unarmed_recycleRecvBuffer env s₂ slot.1))
  simp only [Uring.takeBytes]
  split
  · split
    · rename_i s₂ happend
      have hserving : (recycleRecvBuffer env s₂ slot.1).serving =
          (s.noteReceived slot data).serving := by
        rw [serving_of_unarmed (unarmed_recycleRecvBuffer ..), (appendIn_false env happend).1]
        rfl
      exact h.closeReceived hopen hserving
    · rename_i s₂ happend
      exact hrecycled _ (hstored _ happend).1
  rename_i hsend
  rw [Bool.not_eq_true] at hsend
  have hfull : ∀ s₂, appendIn env (s.noteReceived slot data) slot data = (false, s₂) →
      Good (sendStatusAndClose env (recycleRecvBuffer env s₂ slot.1) slot 413
        (s.offsetOf slot (s.connection slot).inBuf.used)) := by
    intro s₂ happend
    obtain ⟨rfl, hnone⟩ := appendIn_false env happend
    refine h.overflow env hopen hsend hroom hnone ?_ hsqe
    rw [serving_of_unarmed (unarmed_recycleRecvBuffer ..)]
    rfl
  split
  · split
    · rename_i s₂ happend
      exact hfull s₂ happend
    · rename_i s₂ happend
      obtain ⟨h₂, hopen₂, hsend₂⟩ := hstored _ happend
      have hconn : ((recycleRecvBuffer env s₂ slot.1).connection slot).serving =
          (s₂.connection slot).serving :=
        congrFun (congrArg UringState.connection (serving_of_unarmed (unarmed_recycleRecvBuffer env s₂ slot.1))) slot
      refine (hrecycled s₂ h₂).serveHeld env ?_ ?_ hsqe
      · exact (congrArg UringConnection.inUse hconn).trans hopen₂
      · exact (congrArg UringConnection.sendInFlight hconn).trans (hsend₂.trans hsend)
  rename_i hempty
  have hnil : (s.connection slot).inBuf.data = [] := by
    rw [← List.length_eq_zero_iff]
    exact Nat.eq_zero_of_not_pos hempty
  split
  · split
    · rename_i s₂ happend
      exact hfull s₂ happend
    · rename_i s₂ happend
      exact hrecycled _ (hstored _ happend).1
  rename_i hdeferred
  rw [Bool.not_eq_true] at hdeferred
  have hinv := h.inv (s.idOf slot)
  have hbatched : (s.connection slot).batched = false := by
    by_contra hcon
    refine hinv.batchedHolds ?_ ?_
    · rw [view_inUse hopen]
      exact Bool.eq_true_of_not_eq_false hcon
    · rw [view_held hopen, hnil]
  have hidle := h.idle hopen hsend hbatched hdeferred
  have hserving : servingView (s.noteReceived slot data) slot data = receivedView s slot data := by
    have hid : (s.noteReceived slot data).idOf slot = s.idOf slot := rfl
    rw [servingView, hid, hview₁, receivedView, view_held hopen, hnil]
    rfl
  refine hrecycled _ (.serveNextRequest env (hlocal₁.tickets h.tickets (by simp))
    (hlocal₁.batchOk h.batch) (fun id hid => ?_) ?_ ?_ ?_ hsqe)
  · rw [hlocal₁.others id hid]
    exact h.inv id
  · change (view (s.noteReceived slot data) (s.idOf slot)).batched = false
    rw [hview₁]
    exact hidle.batched
  · rw [hserving]
    exact (receive_move hopen data).inv framing hinv
  · rw [hserving]
    exact ⟨hidle.isOpen, hidle.inFlight, hidle.sends, hidle.batched, hidle.deferred⟩

theorem Good.handleRecvCompletion {s : UringState} (h : Good s) (r : Nat) (cqe : RecvCompletion)
    (hroom : ∀ data, cqe.Brings env s r data → ¬ Overflows env s (r, cqe.slot) data)
    (hsqe : ∀ n, env.getSqe .status n = true) :
    Good (handleRecvCompletion env s r cqe) := by
  have hrecycled : ∀ t : UringState, Good t →
      Good (if cqe.hasBuffer = true then recycleRecvBuffer env t r else t) := by
    intro t ht
    split
    · exact ht.of_serving_eq (serving_of_unarmed (unarmed_recycleRecvBuffer env t r))
    · exact ht
  simp only [Uring.handleRecvCompletion]
  split
  · exact hrecycled s h
  rename_i hmatch
  obtain ⟨hslot, hopen, hgeneration⟩ : cqe.slot < env.connectionSlots r ∧
      (s.connection (r, cqe.slot)).inUse = true ∧
      (s.connection (r, cqe.slot)).generation = cqe.generation := by
    simpa [not_or] using hmatch
  set s₁ := if cqe.more = true then s
    else s.setConnection (r, cqe.slot) { s.connection (r, cqe.slot) with recvArmed := false }
    with hs₁
  have hserving₁ : s₁.serving = s.serving := by
    rw [hs₁]
    split
    · rfl
    · exact serving_setConnection rfl
  have h₁ : Good s₁ := h.of_serving_eq hserving₁
  split
  · exact (hrecycled s₁ h₁).closeConnection _
  · refine (hrecycled s₁ h₁).of_serving_eq ?_
    rw [serving_of_unarmed (unarmed_queueForRearm ..), serving_setConnection]
    rfl
  · exact hrecycled s₁ h₁
  · exact (hrecycled s₁ h₁).closeConnection _
  rename_i data hnil hres
  split
  · exact h₁.closeConnection _
  rename_i hbuffer
  have hroom₁ : ¬ Overflows env s₁ (r, cqe.slot) data := by
    have hroom := hroom data ⟨hslot, hopen, hgeneration, by simpa using hbuffer, hres, hnil⟩
    have hcalls : s₁.calls = s.calls := by
      rw [hs₁]
      split <;> rfl
    exact fun hcon => hroom (hcon.congr env hserving₁ hcalls)
  have htaken := h₁.takeBytes env ((inUse_of_serving_eq hserving₁ _).trans hopen) data hroom₁ hsqe
  split
  · exact htaken.of_serving_eq (serving_of_unarmed (unarmed_armRecv env _ _))
  · exact htaken

/-! ## The completion of a send -/

theorem Good.serveOneWaiting {s : UringState} (h : Good s)
    (hsqe : ∀ n, env.getSqe .status n = true) : Good (serveOneWaiting env s) := by
  have hserving := serving_takeWaitingFrom env (ringsFrom env s.ticketCursor) s
  unfold Uring.serveOneWaiting takeNextWaitingForTicket
  split
  · rename_i s₁ hnone
    rw [hnone] at hserving
    exact h.of_serving_eq hserving
  · rename_i waiting s₁ hsome
    rw [hsome] at hserving
    have h₁ : Good s₁ := h.of_serving_eq hserving
    simp only
    split
    · rename_i hserve
      exact h₁.serveHeld env (takeWaitingFrom_inUse env hsome) (by simpa using hserve.1) hsqe
    · exact h₁

theorem Good.goOnAfterSend {s : UringState} (h : Good s) {slot : Slot}
    (hopen : (s.connection slot).inUse = true) (hsend : (s.connection slot).sendInFlight = false)
    (hsqe : ∀ n, env.getSqe .status n = true) : Good (goOnAfterSend env s slot) := by
  have hserved : Good (if (s.connection slot).inBuf.used > 0 then
      Uring.serveNextRequest env s slot (s.connection slot).inBuf.data else s) := by
    split
    · exact h.serveHeld env hopen hsend hsqe
    · exact h
  have harmed : ∀ t : UringState, Good t → Good (
      if (t.connection slot).inUse ∧ ¬ (t.connection slot).recvArmed ∧
        ¬ (t.connection slot).sendInFlight ∧ ¬ (t.connection slot).deferred then armRecv env t slot
      else t) := by
    intro t ht
    split
    · exact ht.of_serving_eq (serving_of_unarmed (unarmed_armRecv env t slot))
    · exact ht
  exact harmed _ hserved

/-- A state in which a send has been completed: `o` is not among the sends any more, and nothing has
been done about it yet. -/
structure Completed (o : OutstandingSend) (s s₁ : UringState) : Prop where
  tickets : TicketsOk s₁
  batch : BatchOk s₁
  held : Held s₁ o.ticket
  idOf : ∀ a, s₁.idOf a = s.idOf a
  others : ∀ id, id ≠ o.id → view s₁ id = view s id
  gone : (view s o.id).isOpen = false → ∃ sends, view s₁ o.id = (view s o.id).closed sends
  own : (view s o.id).isOpen = true →
    (view s o.id).sends = [(s₁.sendTicket o.ticket).closeWhenWritten] ∧
      view s₁ o.id = { view s o.id with sends := [] }

theorem view_sends (s : UringState) (id : ConnectionId) : (view s id).sends = sendsOf s id := by
  unfold view
  split <;> rfl

theorem Good.completed {s : UringState} (h : Good s) {place : Nat} {o : OutstandingSend}
    (ho : s.sends[place]? = some o) :
    Completed o s { s with sends := s.sends.eraseIdx place } := by
  obtain ⟨hplace, hget⟩ := List.getElem?_eq_some_iff.mp ho
  have hsplit : s.sends = s.sends.take place ++ o :: s.sends.drop (place + 1) := by
    rw [← hget, List.cons_getElem_drop_succ, List.take_append_drop]
  have herase : s.sends.eraseIdx place = s.sends.take place ++ s.sends.drop (place + 1) :=
    List.eraseIdx_eq_take_drop_succ ..
  set before := s.sends.take place
  set behind := s.sends.drop (place + 1)
  have hmem : ∀ x ∈ s.sends.eraseIdx place, x ∈ s.sends := fun x hx => List.mem_of_mem_eraseIdx hx
  have hnodup := h.tickets.nodup
  rw [hsplit, List.map_append, List.map_cons, List.nodup_middle, List.nodup_cons,
    ← List.map_append, ← herase] at hnodup
  have hsends : ∀ id, sendsOf s id =
      (before.filter fun x => x.id = id).map (fun x => (s.sendTicket x.ticket).closeWhenWritten) ++
        ([o].filter fun x => x.id = id).map (fun x => (s.sendTicket x.ticket).closeWhenWritten) ++
        (behind.filter fun x => x.id = id).map
          fun x => (s.sendTicket x.ticket).closeWhenWritten := by
    intro id
    rw [sendsOf, hsplit, ← List.map_append, ← List.map_append, ← List.filter_append,
      ← List.filter_append, List.append_assoc, List.singleton_append]
  have hsends₁ : ∀ id, sendsOf { s with sends := s.sends.eraseIdx place } id =
      (before.filter fun x => x.id = id).map (fun x => (s.sendTicket x.ticket).closeWhenWritten) ++
        (behind.filter fun x => x.id = id).map
          fun x => (s.sendTicket x.ticket).closeWhenWritten := by
    intro id
    rw [sendsOf, herase, List.filter_append, List.map_append]
  refine ⟨⟨hnodup.2, fun x hx => h.tickets.busy x (hmem x hx),
      fun x hx => h.tickets.known x (hmem x hx), fun x hx => h.tickets.theirs x (hmem x hx)⟩,
    ⟨h.batch.nodup, h.batch.batched⟩,
    ⟨h.tickets.busy o (List.mem_of_getElem? ho), fun x hx hcon => hnodup.1 ?_⟩,
    fun _ => rfl, fun id hid => ?_, fun hgone => ?_, fun hopen => ?_⟩
  · exact hcon ▸ List.mem_map_of_mem hx
  · refine view_congr rfl rfl rfl ?_
    rw [hsends, hsends₁, List.filter_cons_of_neg (by simpa using hid.symm), List.filter_nil,
      List.map_nil, List.append_nil]
  · refine ⟨sendsOf { s with sends := s.sends.eraseIdx place } o.id, ?_⟩
    by_cases hcurrent : (s.connection o.id.slot).inUse = true ∧ s.idOf o.id.slot = o.id
    · rw [view, if_pos hcurrent] at hgone
      exact absurd hgone.symm Bool.false_ne_true
    · have hsame : view s o.id = goneView _ _ := if_neg hcurrent
      rw [hsame]
      exact if_neg hcurrent
  · have hone := (h.inv o.id).oneSend hopen
    rw [view_sends, hsends] at hone ⊢
    rw [List.filter_cons_of_pos (by simp), List.filter_nil, List.map_singleton] at hone ⊢
    rw [List.length_append, List.length_append, List.length_singleton] at hone
    have hbefore := List.eq_nil_of_length_eq_zero (Nat.eq_zero_of_le_zero (by omega :
      ((before.filter fun x => x.id = o.id).map
        fun x => (s.sendTicket x.ticket).closeWhenWritten).length ≤ 0))
    have hbehind := List.eq_nil_of_length_eq_zero (Nat.eq_zero_of_le_zero (by omega :
      ((behind.filter fun x => x.id = o.id).map
        fun x => (s.sendTicket x.ticket).closeWhenWritten).length ≤ 0))
    have hnone := hsends₁ o.id
    rw [hbefore, hbehind] at hnone ⊢
    refine ⟨rfl, ?_⟩
    by_cases hcurrent : (s.connection o.id.slot).inUse = true ∧ s.idOf o.id.slot = o.id
    · have hopened : view s o.id = openView _ _ _ := if_pos hcurrent
      have hafter : view { s with sends := s.sends.eraseIdx place } o.id = openView _ _ _ :=
        if_pos hcurrent
      rw [hafter, hopened, hnone]
      rfl
    · rw [view, if_neg hcurrent] at hopen
      exact absurd hopen Bool.false_ne_true

theorem Completed.good {o : OutstandingSend} {s s₁ s₂ : UringState} (hdone : Completed o s s₁)
    (h : Good s) (htickets : TicketsOk s₂) (hbatch : BatchOk s₂)
    (hothers : ∀ id, id ≠ o.id → view s₂ id = view s₁ id)
    (hmoves : Moves frameLength (view s o.id) (view s₂ o.id)) : Good s₂ := by
  refine h.of_moves htickets hbatch fun id => ?_
  by_cases hid : id = o.id
  · rw [hid]
    exact hmoves
  · rw [hothers id hid, hdone.others id hid]
    exact .refl

/-- The connection is gone, so only the ticket is put back. -/
theorem Completed.released {o : OutstandingSend} {s s₁ s₂ : UringState} (hdone : Completed o s s₁)
    (h : Good s) (hgone : (view s o.id).isOpen = false) (hlocal : Local (0, 0) (some o.ticket) s₁ s₂)
    (hview : view s₂ = view s₁) : Good s₂ := by
  refine hdone.good h (hlocal.tickets hdone.tickets fun t ht => ?_) (hlocal.batchOk hdone.batch)
    (fun id _ => by rw [hview]) ?_
  · obtain rfl : o.ticket = t := by simpa using ht
    exact hdone.held
  · obtain ⟨sends, hsends⟩ := hdone.gone hgone
    rw [hview, hsends]
    exact .single (.close sends)

theorem Good.stillTheirs {s : UringState} (h : Good s) {o : OutstandingSend} (ho : o ∈ s.sends) :
    (view s o.id).isOpen = true ↔ (s.connection o.id.slot).inUse = true ∧
      (s.connection o.id.slot).generation = (s.sendTicket o.ticket).generation := by
  rw [h.tickets.theirs o ho, @eq_comm _ o.id]
  unfold view
  split
  · rename_i hcurrent
    exact iff_of_true rfl hcurrent
  · rename_i hcurrent
    exact iff_of_false Bool.false_ne_true hcurrent

/-- The ticket is put back and the connection may send again. -/
def afterSend (s : UringState) (o : OutstandingSend) : UringState :=
  (releaseSendTicket s o.ticket).setConnection o.id.slot
    { s.connection o.id.slot with sendInFlight := false }

theorem Completed.afterSend {o : OutstandingSend} {s s₁ s₂ : UringState}
    (hdone : Completed o s s₁) (hopen : (view s o.id).isOpen = true)
    (hlocal : Local o.id.slot none s₁ s₂) (hview : view s₂ = view s₁)
    (hid : s₁.idOf o.id.slot = o.id) (hinUse : (s₂.connection o.id.slot).inUse = true) :
    Local o.id.slot (some o.ticket) s₁ (afterSend s₂ o) ∧
      view (Uring.afterSend s₂ o) o.id =
        { view s o.id with sends := [], inFlight := false } := by
  have hheld := hlocal.held o.ticket (by simp) hdone.held
  have hreleased := local_releaseSendTicket o.id.slot hheld
  have hconn : Local o.id.slot none (releaseSendTicket s₂ o.ticket) (Uring.afterSend s₂ o) :=
    local_setConnection rfl id fun _ => id
  refine ⟨hlocal.trans (hreleased.trans_none hconn), ?_⟩
  have hid₂ : s₂.idOf o.id.slot = o.id := by rw [hlocal.idOf, hid]
  have hafter : view (Uring.afterSend s₂ o) (s₂.idOf o.id.slot) =
      { view (releaseSendTicket s₂ o.ticket) (s₂.idOf o.id.slot) with inFlight := false } := by
    have hset : view (Uring.afterSend s₂ o) (s₂.idOf o.id.slot) = openView _ _ _ :=
      view_setConnection hinUse
    have hbefore : view (releaseSendTicket s₂ o.ticket) (s₂.idOf o.id.slot) = openView _ _ _ :=
      view_inUse hinUse
    rw [hset, hbefore]
    rfl
  have hsame : view (releaseSendTicket s₂ o.ticket) = view s₂ := view_setTicket_of_free _ hheld.2
  rw [hid₂, hsame, hview, (hdone.own hopen).2] at hafter
  exact hafter

theorem Completed.good_local {o : OutstandingSend} {s s₁ s₂ : UringState}
    (hdone : Completed o s s₁) (h : Good s) (hid : s₁.idOf o.id.slot = o.id)
    (hlocal : Local o.id.slot (some o.ticket) s₁ s₂)
    (hmoves : Moves frameLength (view s o.id) (view s₂ o.id)) : Good s₂ := by
  refine hdone.good h (hlocal.tickets hdone.tickets fun t ht => ?_) (hlocal.batchOk hdone.batch)
    (fun id hne => hlocal.others id (by rwa [hid])) hmoves
  obtain rfl : o.ticket = t := by simpa using ht
  exact hdone.held

theorem Completed.close {o : OutstandingSend} {s s₁ s₂ : UringState} (hdone : Completed o s s₁)
    (h : Good s) (hopen : (view s o.id).isOpen = true) (hlocal : Local o.id.slot none s₁ s₂)
    (hview : view s₂ = view s₁) (hid : s₁.idOf o.id.slot = o.id)
    (hinUse : (s₂.connection o.id.slot).inUse = true) :
    Good (closeConnection (Uring.afterSend s₂ o) o.id.slot) := by
  obtain ⟨hafter, hviewAfter⟩ := hdone.afterSend hopen hlocal hview hid hinUse
  have hopened : ((Uring.afterSend s₂ o).connection o.id.slot).inUse = true := by
    refine inUse_of_isOpen ?_
    rw [hafter.idOf, hid, hviewAfter]
    exact hopen
  refine hdone.good_local h hid (hafter.trans_none (closeConnection_local _ _)) ?_
  have hclosed := closeConnection_view hopened
  rw [hafter.idOf, hid, hviewAfter] at hclosed
  rw [hclosed]
  exact .single (.close _)

theorem Completed.sent {o : OutstandingSend} {s s₁ s₂ : UringState} (hdone : Completed o s s₁)
    (h : Good s) (hopen : (view s o.id).isOpen = true) (hlocal : Local o.id.slot none s₁ s₂)
    (hview : view s₂ = view s₁) (hid : s₁.idOf o.id.slot = o.id)
    (hinUse : (s₂.connection o.id.slot).inUse = true)
    (hkeep : (s₁.sendTicket o.ticket).closeWhenWritten = false) :
    Good (Uring.afterSend s₂ o) := by
  obtain ⟨hafter, hviewAfter⟩ := hdone.afterSend hopen hlocal hview hid hinUse
  refine hdone.good_local h hid hafter ?_
  rw [hviewAfter]
  exact .single (.sent (hkeep ▸ (hdone.own hopen).1))

/-- The rest of the response is sent, or cannot be submitted. -/
theorem Completed.rest {o : OutstandingSend} {s s₁ : UringState} (hdone : Completed o s s₁)
    (h : Good s) (hopen : (view s o.id).isOpen = true) (hid : s₁.idOf o.id.slot = o.id)
    (hinUse : (s₁.connection o.id.slot).inUse = true)
    (hgeneration : (s₁.sendTicket o.ticket).generation =
      (s₁.connection o.id.slot).generation) (sent : Nat) :
    Good (submitSend env (s₁.setTicket o.ticket { s₁.sendTicket o.ticket with sent := sent })
      o.id.slot o.ticket none) := by
  set s₂ := s₁.setTicket o.ticket { s₁.sendTicket o.ticket with sent := sent } with hs₂
  have hlocal : Local o.id.slot none s₁ s₂ :=
    local_setTicket _ hdone.held.2 (.inl hdone.held.1)
  have hview : view s₂ = view s₁ := view_setTicket_of_free _ hdone.held.2
  have hticket : s₂.sendTicket o.ticket = { s₁.sendTicket o.ticket with sent := sent } :=
    Function.update_self ..
  have hgeneration₂ : (s₂.sendTicket o.ticket).generation =
      (s₂.connection o.id.slot).generation := by
    rw [hticket]
    exact hgeneration
  refine hdone.good_local h hid (hlocal.trans (submitSend_local env hgeneration₂ none)) ?_
  have hsubmit := submitSend_view env (s := s₂) o.ticket hinUse none
  have hown := hdone.own hopen
  rw [hlocal.idOf, hid, hview, hown.2, hticket] at hsubmit
  have hflying := (h.inv o.id).flying hopen (by rw [hown.1]; simp)
  rw [hsubmit]
  split
  · have hsame : ({ view s o.id with
        answered := (view s o.id).answered ++ (none : Option Answer).toList
        sends := [] ++ [(s₁.sendTicket o.ticket).closeWhenWritten]
        inFlight := true } : Connection UInt8) = view s o.id := by
      rw [List.nil_append, ← hown.1, ← hflying, Option.toList_none, List.append_nil]
    exact (congrArg (Moves frameLength (view s o.id)) hsame).mpr .refl
  · exact .single .restLost

theorem Good.handleSendCompletion {s : UringState} (h : Good s) {place : Nat} {o : OutstandingSend}
    (ho : s.sends[place]? = some o) (res : Int) (hsqe : ∀ n, env.getSqe .status n = true) :
    Good (handleSendCompletion env { s with sends := s.sends.eraseIdx place } o res) := by
  have hdone := h.completed ho
  have htheirs := h.stillTheirs (List.mem_of_getElem? ho)
  set s₁ := { s with sends := s.sends.eraseIdx place }
  have htheirs₁ : (view s o.id).isOpen = true ↔ (s₁.connection o.id.slot).inUse = true ∧
      (s₁.connection o.id.slot).generation = (s₁.sendTicket o.ticket).generation := htheirs
  simp only [Uring.handleSendCompletion, ← htheirs₁]
  have hheld := hdone.held
  set s₂ := s₁.setTicket o.ticket
    { s₁.sendTicket o.ticket with sent := (s₁.sendTicket o.ticket).sent + res.toNat } with hs₂
  have hview₂ : view s₂ = view s₁ := view_setTicket_of_free _ hheld.2
  have hlocal₂ : ∀ slot, Local slot none s₁ s₂ :=
    fun slot => local_setTicket _ hheld.2 (.inl hheld.1)
  have hheld₂ := (hlocal₂ (0, 0)).held o.ticket (by simp) hheld
  by_cases hopen : (view s o.id).isOpen = true
  · -- the connection is still there
    obtain ⟨hinUse, hgeneration⟩ := htheirs₁.mp hopen
    have hid : s₁.idOf o.id.slot = o.id :=
      ((h.tickets.theirs o (List.mem_of_getElem? ho)).mp hgeneration).symm
    simp only [hopen, if_true]
    split
    · exact hdone.close h hopen (.refl ..) rfl hid hinUse
    split
    · exact hdone.rest env h hopen hid hinUse hgeneration.symm _
    refine Good.serveOneWaiting env ?_ hsqe
    split
    · exact hdone.close h hopen (hlocal₂ _) hview₂ hid hinUse
    rename_i hkeep
    obtain ⟨hafter, hviewAfter⟩ := hdone.afterSend hopen (hlocal₂ _) hview₂ hid hinUse
    have hgood := hdone.sent h hopen (hlocal₂ _) hview₂ hid hinUse (by simpa using hkeep)
    have hconn : (afterSend s₂ o).connection o.id.slot =
        { s₂.connection o.id.slot with sendInFlight := false } := Function.update_self ..
    refine hgood.goOnAfterSend env ?_ ?_ hsqe
    · rw [hconn]
      exact hinUse
    · rw [hconn]
  · -- another connection has its slot, or none
    have hgone : (view s o.id).isOpen = false := by simpa using hopen
    have hreleased : Good (releaseSendTicket s₁ o.ticket) :=
      hdone.released h hgone (local_releaseSendTicket _ hheld) (view_setTicket_of_free _ hheld.2)
    have hreleased₂ : Good (releaseSendTicket s₂ o.ticket) := by
      refine hdone.released h hgone ((hlocal₂ _).trans (local_releaseSendTicket _ hheld₂)) ?_
      rw [← hview₂]
      exact view_setTicket_of_free _ hheld₂.2
    simp only [hopen]
    split
    · exact hreleased
    split
    · exact hreleased₂
    · exact hreleased₂.serveOneWaiting env hsqe

/-! ## A deferred answer -/

theorem deferredAt_view {s : UringState} {slot : Slot} :
    (view s (s.idOf slot)).deferredAt = (s.historyOf slot).deferredAt := by
  unfold view
  split <;> rfl

theorem Good.refuseDeferred {s s₁ : UringState} {slot : Slot} {ticket : Nat} (h : Good s)
    (hopen : (s.connection slot).inUse = true) (hdeferred : (s.connection slot).deferred = true)
    (hacquire : acquireSendTicket s = some (ticket, s₁)) (hsqe : ∀ n, env.getSqe .status n = true)
    (statusCode : Nat) :
    Good (sendStatusAndClose env
      (releaseSendTicket (s₁.setConnection slot { s.connection slot with deferred := false }) ticket)
      slot statusCode (s₁.historyOf slot).deferredAt) := by
  obtain ⟨hlocal, hheld, hview⟩ := local_acquireSendTicket slot h.tickets hacquire
  obtain ⟨hunused, -, rfl⟩ := acquireSendTicket_eq_some hacquire
  set s₁ := s.setTicket ticket { s.sendTicket ticket with busy := true, sent := 0 }
  set conn : UringConnection := { s.connection slot with deferred := false }
  set s₂ := s₁.setConnection slot conn
  have hset : Local slot none s₁ s₂ := local_setConnection rfl id fun _ => id
  have hheld₂ : Held s₂ ticket := hset.held ticket (by simp) hheld
  have hlocal₂ := hlocal.after_acquire hunused hheld
    (hset.trans (local_releaseSendTicket slot hheld₂))
  have hview₂ : view (releaseSendTicket s₂ ticket) (s.idOf slot) =
      { view s (s.idOf slot) with deferred := false } := by
    have hsame : view (releaseSendTicket s₂ ticket) = view s₂ := view_setTicket_of_free _ hheld₂.2
    have hconn : view s₂ (s₁.idOf slot) = openView _ _ _ := view_setConnection hopen
    have hbefore : view s₁ (s₁.idOf slot) = openView _ _ _ := view_inUse hopen
    rw [hsame, ← hview]
    change view s₂ (s₁.idOf slot) = { view s₁ (s₁.idOf slot) with deferred := false }
    rw [hconn, hbefore]
    rfl
  have hok₂ := hlocal₂.tickets h.tickets (by simp)
  have hopen₂ : ((releaseSendTicket s₂ ticket).connection slot).inUse = true := by
    refine inUse_of_isOpen ?_
    rw [hlocal₂.idOf, hview₂, view_inUse hopen]
    rfl
  obtain ⟨hsent, hmoved⟩ := sendStatusAndClose_spec env hok₂ hopen₂ hsqe statusCode
    (s₁.historyOf slot).deferredAt
  refine h.local (hlocal₂.trans hsent) ?_
  rw [hlocal₂.idOf, hview₂] at hmoved
  have hisOpen : (view s (s.idOf slot)).isOpen = true := by
    rw [view_inUse hopen]
    rfl
  have hisDeferred : (view s (s.idOf slot)).deferred = true := by
    rw [view_inUse hopen]
    exact hdeferred
  rcases hmoved with hmoved | ⟨sends, hmoved⟩
  · rw [hmoved]
    have hmove : Move frameLength (view s (s.idOf slot)) _ :=
      .statusDeferred hisOpen hisDeferred (view s (s.idOf slot)).held
    rw [deferredAt_view] at hmove
    exact .single hmove
  · rw [hmoved]
    exact .single (.close sends)

theorem Good.answerDeferred {s s₁ : UringState} {slot : Slot} {ticket : Nat} (h : Good s)
    (hopen : (s.connection slot).inUse = true) (hdeferred : (s.connection slot).deferred = true)
    (hacquire : acquireSendTicket s = some (ticket, s₁)) (response : List UInt8) (closing : Bool) :
    Good (sendResponse env (s₁.setConnection slot
        { s.connection slot with deferred := false, sendInFlight := true }) slot ticket response
      closing ⟨(s₁.historyOf slot).deferredAt, false⟩) := by
  obtain ⟨hlocal, hheld, hview⟩ := local_acquireSendTicket slot h.tickets hacquire
  obtain ⟨hunused, -, rfl⟩ := acquireSendTicket_eq_some hacquire
  set s₁ := s.setTicket ticket { s.sendTicket ticket with busy := true, sent := 0 }
  set conn : UringConnection := { s.connection slot with deferred := false, sendInFlight := true }
  set s₂ := s₁.setConnection slot conn with hs₂
  have hset : Local slot none s₁ s₂ := local_setConnection rfl id fun _ => id
  have hheld₂ : Held s₂ ticket := hset.held ticket (by simp) hheld
  have hconn : s₂.connection slot = conn := Function.update_self ..
  have hopen₂ : (s₂.connection slot).inUse = true := by
    rw [hconn]
    exact hopen
  have hview₂ : view s₂ (s.idOf slot) =
      { view s (s.idOf slot) with deferred := false, inFlight := true } := by
    have hafter : view s₂ (s₁.idOf slot) = openView _ _ _ := view_setConnection hopen
    have hbefore : view s₁ (s₁.idOf slot) = openView _ _ _ := view_inUse hopen
    rw [← hview]
    change view s₂ (s₁.idOf slot) =
      { view s₁ (s₁.idOf slot) with deferred := false, inFlight := true }
    rw [hafter, hbefore]
    rfl
  have hsent := sendResponse_view env hheld₂ hopen₂ response closing
    ⟨(s₁.historyOf slot).deferredAt, false⟩
  refine h.local (hlocal.after_acquire hunused hheld
    (hset.trans (sendResponse_local env hheld₂ ..))) ?_
  have hid₂ : s₂.idOf slot = s.idOf slot := rfl
  rw [hid₂, hview₂] at hsent
  have hisOpen : (view s (s.idOf slot)).isOpen = true := by
    rw [view_inUse hopen]
    rfl
  have hisDeferred : (view s (s.idOf slot)).deferred = true := by
    rw [view_inUse hopen]
    exact hdeferred
  rw [hsent]
  split
  · have hmove : Move frameLength (view s (s.idOf slot)) _ :=
      .respondDeferred hisOpen hisDeferred closing
    rw [deferredAt_view] at hmove
    exact .single hmove
  · exact .single (.respondDeferredLost hisOpen hisDeferred)

theorem Good.apiSendDeferred {s : UringState} (h : Good s) (answer : DeferredAnswer)
    (hsqe : ∀ n, env.getSqe .status n = true) : Good (apiSendDeferred env s answer) := by
  simp only [Uring.apiSendDeferred]
  split
  · exact h
  split
  · exact h
  rename_i hmatch
  obtain ⟨hopen, hdeferred, -⟩ : (s.connection (answer.ring, answer.slot)).inUse = true ∧
      (s.connection (answer.ring, answer.slot)).deferred = true ∧ _ := by
    simpa only [not_or, not_not] using hmatch
  split
  · exact h
  rename_i ticket s₁ hacquire
  split
  · exact h.refuseDeferred env hopen hdeferred hacquire hsqe 500
  split
  · exact h.refuseDeferred env hopen hdeferred hacquire hsqe 500
  · exact h.answerDeferred env hopen hdeferred hacquire _ _

/-! ## Runs -/

theorem Good.flushBatch {s : UringState} (h : Good s) (hsqe : ∀ n, env.getSqe .status n = true) :
    Good (flushBatch env s) := by
  obtain ⟨htickets, hnil, hflushes⟩ :=
    flushBatch_flushes env h.tickets h.batch (fun id _ => h.inv id) hsqe
  exact h.of_moves htickets (.of_nil hnil) hflushes.moves

/-- Each event keeps the answers in order: a receive completion whose bytes overflow behind a request
that has no answer yet is excluded, and an accept whose generation is still in use. -/
def KeepsOrder (s : UringState) : Event → Prop
  | .accept r res _ => ∀ slot, res = .ok slot → FreshGeneration s (r, slot)
  | .recv r cqe => ∀ data, cqe.Brings env s r data → ¬ Overflows env s (r, cqe.slot) data
  | _ => True

theorem Good.step {s : UringState} (h : Good s) (event : Event) (hallowed : KeepsOrder env s event)
    (hsqe : ∀ n, env.getSqe .status n = true) : Good (step env s event) := by
  cases event with
  | accept r res more =>
    simp only [Uring.step]
    split
    · exact h.handleAcceptCompletion env r res more hallowed
    · exact h
  | recv r cqe =>
    simp only [Uring.step]
    split
    · exact h.handleRecvCompletion env r cqe hallowed hsqe
    · exact h
  | send place res =>
    simp only [Uring.step]
    split
    · exact h
    · rename_i o ho
      exact h.handleSendCompletion env ho res hsqe
  | close r =>
    simp only [Uring.step, handleCloseCompletion]
    split_ifs
    · exact h.of_serving_eq (serving_of_unarmed (unarmed_armAcceptSomewhere env s r))
    · exact h
    · exact h
  | flush => exact h.flushBatch env hsqe
  | sendDeferred answer => exact h.apiSendDeferred env answer hsqe
  | setHandlers api batch =>
    exact ⟨h.tickets.congr rfl (fun _ _ => ⟨rfl, rfl⟩) rfl fun _ => rfl,
      ⟨h.batch.nodup, h.batch.batched⟩, h.inv⟩

theorem Good.startup : Good (startup env) := by
  have hstart : Good ringStartup := by
    refine ⟨⟨List.nodup_nil, ?_, ?_, ?_⟩, .of_nil rfl, fun id => ?_⟩
    · exact fun o ho => absurd ho List.not_mem_nil
    · exact fun o ho => absurd ho List.not_mem_nil
    · exact fun o ho => absurd ho List.not_mem_nil
    · exact Inv.new.closed []
  exact hstart.of_serving_eq (serving_of_unarmed (unarmed_armAcceptSomewhere env ringStartup 0))

/-- Each connection is answered in order, one response at a time, and not behind a request that is
batched or deferred and has no answer yet. -/
structure AnswersInOrder (s : UringState) : Prop where
  oneSend : ∀ slot, (s.connection slot).inUse = true →
    (s.sends.filter fun o => o.id = s.idOf slot).length ≤ 1
  ascending : ∀ id, (s.history id).answered.Pairwise fun a b => a.offset < b.offset
  requests : ∀ id, ∀ a ∈ (s.history id).answered,
    RequestStart frameLength (s.history id).received a.offset
  beforeBatched : ∀ slot, (s.connection slot).inUse = true → (s.connection slot).batched = true →
    ∀ a ∈ (s.historyOf slot).answered, a.offset < (s.historyOf slot).batchedAt
  beforeDeferred : ∀ slot, (s.connection slot).inUse = true →
    (s.connection slot).deferred = true →
    ∀ a ∈ (s.historyOf slot).answered, a.offset < (s.historyOf slot).deferredAt

theorem view_history (s : UringState) (id : ConnectionId) :
    (view s id).answered = (s.history id).answered ∧
      (view s id).received = (s.history id).received := by
  unfold view
  split <;> exact ⟨rfl, rfl⟩

theorem Good.answersInOrder {s : UringState} (h : Good s) : AnswersInOrder s where
  oneSend slot hopen := by
    have hone := (h.inv (s.idOf slot)).oneSend (by rw [view_inUse hopen]; rfl)
    rwa [view_sends, sendsOf, List.length_map] at hone
  ascending id := (view_history s id).1 ▸ (h.inv id).inOrder
  requests id a ha := by
    obtain ⟨hanswered, hreceived⟩ := view_history s id
    exact hreceived ▸ (h.inv id).requests a (hanswered ▸ ha)
  beforeBatched slot hopen hbatched := by
    have hfirst := (h.inv (s.idOf slot)).batchedFirst
    rw [view_inUse hopen] at hfirst
    exact hfirst hbatched
  beforeDeferred slot hopen hdeferred := by
    have hinv := h.inv (s.idOf slot)
    have hisOpen : (view s (s.idOf slot)).isOpen = true := by
      rw [view_inUse hopen]
      rfl
    have hisDeferred : (view s (s.idOf slot)).deferred = true := by
      rw [view_inUse hopen]
      exact hdeferred
    have hstep := hinv.inStep hisOpen (hinv.deferredAlone hisDeferred)
    have hbehind := (hstep.deferred hisDeferred).2.2
    rw [view_inUse hopen] at hbehind
    exact hbehind

/-- A ring of a hundred slots for which all goes well. -/
def calm : Environment where
  ringCount := 1
  connectionSlots := fun _ => 100
  recvBuffersAreRing := fun _ => true
  responseBodySize := 65536
  getSqe := fun _ _ => true
  realloc := fun _ => true
  handler := fun _ _ => {}
  batchHandler := fun _ _ _ => {}
  ringCount_pos := Nat.one_pos

/-- Bytes for the first connection in a slot. -/
def receive (slot : Nat) (data : List UInt8) : Event :=
  .recv 0 { slot := slot, generation := 1, more := true, hasBuffer := true, res := .ok data }

/-- A request joins the batch and more is received than can be stored behind it: a 413 is sent and
then the answer of the batch. -/
def overflowRun : List Event :=
  [.setHandlers true true, .accept 0 (.ok 0) true, receive 0 (ascii "G\n\n")] ++
    List.replicate 16 (receive 0 (List.replicate 2048 0)) ++ [.flush]

end AmmarServer.Uring
