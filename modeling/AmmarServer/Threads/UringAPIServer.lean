import AmmarServer.Lib.Pipeline
import AmmarServer.Threads.ApiServe
import Mathlib.Logic.Function.Basic
import Mathlib.Tactic.Simps.Basic

/-! The ring server of `threads/uringAPIServer.c`: connections, send tickets, the batch and the
handlers of the completions. The kernel, the memory allocator and the request handlers are an
`Environment`; what it answers may differ from call to call. -/

namespace AmmarServer.Uring
open ApiProtocol CString Pipeline

def URING_SEND_TICKETS : Nat := 32
def URING_ACCEPT_RESERVE : Nat := 64
def AMMSERVER_API_MAX_BATCH : Nat := 32

/-! ## State -/

/-- A slot of a ring's connection table: the ring's index and the slot. -/
abbrev Slot := Nat × Nat

/-- `none` in a link is URING_NO_SLOT. -/
structure UringConnection where
  inBuf : ApiPartialRequest := {}
  generation : Nat := 0
  nextWaiting : Option Nat := none
  nextRearm : Option Nat := none
  inUse : Bool := false
  recvArmed : Bool := false
  sendInFlight : Bool := false
  waitingForTicket : Bool := false
  waitingForRearm : Bool := false
  batched : Bool := false
  deferred : Bool := false
  deferredKeepAlive : Bool := false
  deferredMethod : TypesOfRequests := .NONE

structure UringSendTicket where
  data : List UInt8 := []
  total : Nat := 0
  sent : Nat := 0
  slot : Option Nat := none
  generation : Nat := 0
  busy : Bool := false
  closeWhenWritten : Bool := false

structure UringRing where
  waitingHead : Option Nat := none
  waitingTail : Option Nat := none
  rearmHead : Option Nat := none
  rearmTail : Option Nat := none
  connectionsOpen : Nat := 0
  acceptArmed : Bool := false

structure UringBatchEntry where
  slot : Slot
  generation : Nat

/-- Which submission a queue entry is asked for. A send carries a status line only, a response, or
the rest of a response that was sent in part. -/
inductive SqeOp
  | accept | recv | cancel | close | provide | status | response | rest
  deriving DecidableEq

/-- One connection, among all that ever had its slot. -/
structure ConnectionId where
  slot : Slot
  incarnation : Nat
  deriving DecidableEq

/-- A submitted send whose completion has not been handled. -/
structure OutstandingSend where
  id : ConnectionId
  ticket : Nat

/-- What a connection has received, the answers submitted on it and where the request is that was
set aside for the batch or for a deferred answer. Only `deferredAt` is ever read, to say which request
a deferred answer is about. -/
structure History where
  received : List UInt8 := []
  answered : List Answer := []
  batchedAt : Nat := 0
  deferredAt : Nat := 0

structure UringState where
  ring : Nat → UringRing
  connection : Slot → UringConnection
  sendTicket : Nat → UringSendTicket
  ticketCursor : Nat
  batchPending : List UringBatchEntry
  acceptRing : Nat
  acceptStalled : Bool
  apiHandler : Bool
  apiBatchHandler : Bool
  /-- how many answers the environment has given -/
  calls : Nat
  sends : List OutstandingSend
  incarnation : Slot → Nat
  history : ConnectionId → History

structure Environment where
  ringCount : Nat
  connectionSlots : Nat → Nat
  recvBuffersAreRing : Nat → Bool
  responseBodySize : Nat
  /-- does `GetSqe` find an entry -/
  getSqe : SqeOp → Nat → Bool
  realloc : Nat → Bool
  handler : Nat → APIRequest → APIResponse
  /-- the response to one of the requests handed over together -/
  batchHandler : Nat → List APIRequest → Nat → APIResponse
  ringCount_pos : 0 < ringCount

namespace UringState

@[simps] def asked (s : UringState) : UringState := { s with calls := s.calls + 1 }

@[simps] def setConnection (s : UringState) (slot : Slot) (conn : UringConnection) : UringState :=
  { s with connection := Function.update s.connection slot conn }

@[simps] def setRing (s : UringState) (r : Nat) (ring : UringRing) : UringState :=
  { s with ring := Function.update s.ring r ring }

@[simps] def setTicket (s : UringState) (ticket : Nat) (send : UringSendTicket) : UringState :=
  { s with sendTicket := Function.update s.sendTicket ticket send }

/-- The connection that has the slot. -/
def idOf (s : UringState) (slot : Slot) : ConnectionId := ⟨slot, s.incarnation slot⟩

def historyOf (s : UringState) (slot : Slot) : History := s.history (s.idOf slot)

@[simps] def setHistory (s : UringState) (slot : Slot) (h : History) : UringState :=
  { s with history := Function.update s.history (s.idOf slot) h }

/-- An answer begins. -/
def noteAnswer (s : UringState) (slot : Slot) (answer : Option Answer) : UringState :=
  s.setHistory slot { s.historyOf slot with
    answered := (s.historyOf slot).answered ++ answer.toList }

/-- Bytes arrive. -/
def noteReceived (s : UringState) (slot : Slot) (data : List UInt8) : UringState :=
  s.setHistory slot { s.historyOf slot with received := (s.historyOf slot).received ++ data }

@[simps] def pushSend (s : UringState) (slot : Slot) (ticket : Nat) : UringState :=
  { s with sends := s.sends ++ [⟨s.idOf slot, ticket⟩] }

/-- Where the last `used` bytes received on a connection begin. -/
def offsetOf (s : UringState) (slot : Slot) (used : Nat) : Nat :=
  (s.historyOf slot).received.length - used

end UringState

open UringState

variable (env : Environment)

/-! ## Provided receive buffers -/

def queueForRearm (s : UringState) (slot : Slot) : UringState :=
  let conn := s.connection slot
  if conn.waitingForRearm then s
  else
    let s := s.setConnection slot { conn with waitingForRearm := true, nextRearm := none }
    let ring := s.ring slot.1
    match ring.rearmTail with
    | none => s.setRing slot.1 { ring with rearmHead := some slot.2, rearmTail := some slot.2 }
    | some tail =>
      (s.setConnection (slot.1, tail)
        { s.connection (slot.1, tail) with nextRearm := some slot.2 }).setRing slot.1
          { ring with rearmTail := some slot.2 }

def armRecv (s : UringState) (slot : Slot) : UringState :=
  let conn := s.connection slot
  if conn.deferred then s.setConnection slot { conn with recvArmed := false }
  else if env.getSqe .recv s.calls then
    s.asked.setConnection slot { conn with recvArmed := true }
  else queueForRearm s.asked slot

/-- The loop of `RearmOneWaiting`; a ring's queue is no longer than its table. -/
def rearmOneWaitingLoop (r : Nat) : Nat → UringState → UringState
  | 0, s => s
  | fuel + 1, s =>
    match (s.ring r).rearmHead with
    | none => s
    | some slot =>
      let conn := s.connection (r, slot)
      let ring := s.ring r
      let s := (s.setRing r { ring with
          rearmHead := conn.nextRearm
          rearmTail := if conn.nextRearm = none then none else ring.rearmTail }).setConnection
        (r, slot) { conn with nextRearm := none, waitingForRearm := false }
      if conn.inUse ∧ ¬ conn.recvArmed ∧ ¬ conn.sendInFlight ∧ ¬ conn.deferred then
        armRecv env s (r, slot)
      else rearmOneWaitingLoop r fuel s

def rearmOneWaiting (s : UringState) (r : Nat) : UringState :=
  rearmOneWaitingLoop env r (env.connectionSlots r + 1) s

/-- The buffer itself goes back to the kernel; in the mapped buffer ring without asking. -/
def recycleRecvBuffer (s : UringState) (r : Nat) : UringState :=
  rearmOneWaiting env (if env.recvBuffersAreRing r then s else s.asked) r

/-! ## Send tickets -/

def acquireSendTicket (s : UringState) : Option (Nat × UringState) :=
  ((List.range URING_SEND_TICKETS).find? fun i => !(s.sendTicket i).busy).map fun i =>
    (i, s.setTicket i { s.sendTicket i with busy := true, sent := 0 })

def releaseSendTicket (s : UringState) (ticket : Nat) : UringState :=
  s.setTicket ticket { s.sendTicket ticket with
    busy := false, data := [], total := 0, sent := 0, slot := none }

def queueForTicket (s : UringState) (slot : Slot) : UringState :=
  let conn := s.connection slot
  if conn.waitingForTicket then s
  else
    let s := s.setConnection slot { conn with waitingForTicket := true, nextWaiting := none }
    let ring := s.ring slot.1
    match ring.waitingTail with
    | none => s.setRing slot.1 { ring with waitingHead := some slot.2, waitingTail := some slot.2 }
    | some tail =>
      (s.setConnection (slot.1, tail)
        { s.connection (slot.1, tail) with nextWaiting := some slot.2 }).setRing slot.1
          { ring with waitingTail := some slot.2 }

/-- The head of a ring's queue comes off it. -/
def popWaiting (s : UringState) (r slot : Nat) : UringState :=
  let conn := s.connection (r, slot)
  let ring := s.ring r
  (s.setRing r { ring with
    waitingHead := conn.nextWaiting
    waitingTail := if conn.nextWaiting = none then none else ring.waitingTail }).setConnection
      (r, slot) { conn with nextWaiting := none, waitingForTicket := false }

/-- The inner loop of `TakeNextWaitingForTicket`, over one ring's queue. -/
def takeWaitingOf (r : Nat) : Nat → UringState → Option Nat × UringState
  | 0, s => (none, s)
  | fuel + 1, s =>
    match (s.ring r).waitingHead with
    | none => (none, s)
    | some slot =>
      let inUse := (s.connection (r, slot)).inUse
      let s := popWaiting s r slot
      if inUse then (some slot, { s with ticketCursor := (r + 1) % env.ringCount })
      else takeWaitingOf r fuel s

/-- The outer loop, over the rings still to be tried. -/
def takeWaitingFrom : List Nat → UringState → Option Slot × UringState
  | [], s => (none, s)
  | r :: rs, s =>
    match takeWaitingOf env r (env.connectionSlots r + 1) s with
    | (some slot, s) => (some (r, slot), s)
    | (none, s) => takeWaitingFrom rs s

def ringsFrom (cursor : Nat) : List Nat :=
  (List.range env.ringCount).map fun tried => (cursor + tried) % env.ringCount

def takeNextWaitingForTicket (s : UringState) : Option Slot × UringState :=
  takeWaitingFrom env (ringsFrom env s.ticketCursor) s

/-! ## Operations -/

def freeSlots (s : UringState) (r : Nat) : Nat := env.connectionSlots r - (s.ring r).connectionsOpen

def armAccept (s : UringState) (r : Nat) : UringState :=
  if (s.ring r).acceptArmed then s
  else if env.getSqe .accept s.calls then
    { s.asked.setRing r { s.ring r with acceptArmed := true } with acceptStalled := false }
  else s.asked

def cancelAccept (s : UringState) (r : Nat) : UringState :=
  if (s.ring r).acceptArmed then s.asked else s

def armAcceptSomewhere (s : UringState) (startAt : Nat) : UringState :=
  let rings := ringsFrom env startAt
  match (rings.find? fun r => freeSlots env s r > URING_ACCEPT_RESERVE) <|>
      (rings.find? fun r => freeSlots env s r > 0) with
  | some r => armAccept env { s with acceptRing := r } r
  | none => { s with acceptStalled := true }

def moveAcceptOn (s : UringState) (leaving : Nat) : UringState :=
  let s := armAcceptSomewhere env s (leaving + 1)
  if ¬ s.acceptStalled ∧ s.acceptRing ≠ leaving then cancelAccept s leaving else s

def sendOp : Option Answer → SqeOp
  | none => .rest
  | some answer => if answer.statusOnly then .status else .response

/-- `SubmitSend`. `answer` is the answer that begins with this send, and nothing for the rest of
one. -/
def submitSend (s : UringState) (slot : Slot) (ticket : Nat) (answer : Option Answer) :
    UringState :=
  if env.getSqe (sendOp answer) s.calls then
    let s := s.asked.noteAnswer slot answer
    (s.setConnection slot { s.connection slot with sendInFlight := true }).pushSend slot ticket
  else s.asked

def closeConnection (s : UringState) (slot : Slot) : UringState :=
  let conn := s.connection slot
  if ¬ conn.inUse then s
  else
    let s := s.setConnection slot { conn with
      inUse := false, recvArmed := false, inBuf := partialFree conn.inBuf }
    let s := s.setRing slot.1 { s.ring slot.1 with
      connectionsOpen := (s.ring slot.1).connectionsOpen - 1 }
    -- the cancel of the armed receive and the close
    if conn.recvArmed then s.asked.asked else s.asked

/-- Lay a response out in an acquired ticket and submit it. -/
def sendResponse (s : UringState) (slot : Slot) (ticket : Nat) (response : List UInt8)
    (closeWhenWritten : Bool) (answer : Answer) : UringState :=
  submitSend env (s.setTicket ticket { s.sendTicket ticket with
    data := response, total := response.length, sent := 0, slot := some slot.2
    generation := (s.connection slot).generation, closeWhenWritten := closeWhenWritten })
    slot ticket (some answer)

/-- `SendStatusAndClose`, about the request at `offset`. -/
def sendStatusAndClose (s : UringState) (slot : Slot) (statusCode offset : Nat) : UringState :=
  match acquireSendTicket s with
  | none => closeConnection s slot
  | some (ticket, s) =>
    sendResponse env s slot ticket (statusOnlyResponse statusCode) true ⟨offset, true⟩

def freeIn (s : UringState) (slot : Slot) : UringState :=
  let conn := s.connection slot
  s.setConnection slot { conn with inBuf := partialFree conn.inBuf }

/-- `ApiProtocol_PartialKeepTail` on a connection's buffer. -/
def keepTail (s : UringState) (slot : Slot) (buf : List UInt8) (consumed : Nat) :
    Option UringState :=
  let conn := s.connection slot
  (partialKeepTail conn.inBuf buf consumed (env.realloc s.calls)).map
    fun kept => s.asked.setConnection slot { conn with inBuf := kept }

/-! ## The batch -/

structure UringBatchServing where
  slot : Slot
  ticket : Nat
  frame : ApiFrame
  request : APIRequest

/-- What one round of the first loop of `FlushBatch` does for a connection that is still there. -/
def prepareUnbatched (s : UringState) (serving : List UringBatchServing) (slot : Slot) :
    UringState × List UringBatchServing :=
  let conn := s.connection slot
  match nextFrame conn.inBuf.data 0 with
  | (.ready, frame) =>
    match acquireSendTicket s with
    | none => (queueForTicket s slot, serving)
    | some (ticket, s') =>
      match prepare conn.inBuf.data frame with
      | none =>
        (sendStatusAndClose env (freeIn (releaseSendTicket s' ticket) slot) slot 400
          (s.offsetOf slot conn.inBuf.data.length), serving)
      | some request => (s', serving ++ [⟨slot, ticket, frame, request⟩])
  | _ => (closeConnection s slot, serving)

/-- One round of the first loop of `FlushBatch`. -/
def prepareBatchEntry (acc : UringState × List UringBatchServing) (entry : UringBatchEntry) :
    UringState × List UringBatchServing :=
  let (s, serving) := acc
  let conn := s.connection entry.slot
  if ¬ conn.inUse ∨ conn.generation ≠ entry.generation then (s, serving)
  else
    prepareUnbatched env (s.setConnection entry.slot { conn with batched := false }) serving
      entry.slot

/-- Hand a deferred request's ticket back and keep what arrived behind it. -/
def deferRequest (s : UringState) (slot : Slot) (ticket : Nat) (buf : List UInt8) (frame : ApiFrame)
    (method : TypesOfRequests) : UringState :=
  let offset := s.offsetOf slot buf.length
  let s := releaseSendTicket s ticket
  let s := s.setHistory slot { s.historyOf slot with deferredAt := offset }
  let s := s.setConnection slot { s.connection slot with
    deferred := true, deferredKeepAlive := frame.keepAlive, deferredMethod := method }
  match keepTail env s slot buf frame.totalLength with
  | some s => s
  | none =>
    sendStatusAndClose env
      (s.asked.setConnection slot { s.connection slot with deferred := false }) slot 413 offset

/-- What follows a handler's response, in `ServeNextRequest` and in `FlushBatch` alike. -/
def answerRequest (s : UringState) (slot : Slot) (ticket : Nat) (buf : List UInt8)
    (frame : ApiFrame) (method : TypesOfRequests) (res : APIResponse) : UringState :=
  if res.deferred then deferRequest env s slot ticket buf frame method
  else
    let offset := s.offsetOf slot buf.length
    match finish frame.keepAlive env.responseBodySize method res with
    | none => sendStatusAndClose env (freeIn (releaseSendTicket s ticket) slot) slot 500 offset
    | some response =>
      match keepTail env s slot buf frame.totalLength with
      | none => sendStatusAndClose env (releaseSendTicket s.asked ticket) slot 413 offset
      | some s => sendResponse env s slot ticket response (!frame.keepAlive) ⟨offset, false⟩

/-- One round of the last loop of `FlushBatch`. -/
def answerBatchEntry (s : UringState) (served : UringBatchServing × APIResponse) : UringState :=
  let slot := served.1.slot
  answerRequest env s slot served.1.ticket (s.connection slot).inBuf.data served.1.frame
    served.1.request.method served.2

def flushBatch (s : UringState) : UringState :=
  let taken := s.batchPending
  let (s, serving) := taken.foldl (prepareBatchEntry env) ({ s with batchPending := [] }, [])
  if serving = [] then s
  else
    let requests := serving.map (·.request)
    -- without a batch handler each request is answered on its own
    let response := fun i request =>
      if s.apiBatchHandler then env.batchHandler s.calls requests i
      else env.handler (s.calls + i) request
    let responses := requests.mapIdx response
    let s := { s with calls := s.calls + requests.length }
    (serving.zip responses).foldl (answerBatchEntry env) s

/-! ## Serving -/

def serveNextRequest (s : UringState) (slot : Slot) (buf : List UInt8) : UringState :=
  let conn := s.connection slot
  if conn.batched ∨ conn.deferred then s
  else
    let offset := s.offsetOf slot buf.length
    match nextFrame buf 0 with
    | (.incomplete, _) =>
      (keepTail env s slot buf 0).getD (sendStatusAndClose env s.asked slot 413 offset)
    | (.refused, frame) => sendStatusAndClose env (freeIn s slot) slot frame.refuseStatus offset
    | (.ready, frame) =>
      if s.apiBatchHandler then
        let s := if s.batchPending.length ≥ AMMSERVER_API_MAX_BATCH then flushBatch env s else s
        match keepTail env s slot buf 0 with
        | none => sendStatusAndClose env s.asked slot 413 offset
        | some s =>
          let s := s.setHistory slot { s.historyOf slot with batchedAt := offset }
          { s.setConnection slot { s.connection slot with batched := true } with
            batchPending := s.batchPending ++ [⟨slot, (s.connection slot).generation⟩] }
      else
        match acquireSendTicket s with
        | none =>
          match keepTail env s slot buf 0 with
          | none => sendStatusAndClose env s.asked slot 413 offset
          | some s => queueForTicket s slot
        | some (ticket, s) =>
          match prepare buf frame with
          | none =>
            sendStatusAndClose env (freeIn (releaseSendTicket s ticket) slot) slot 400 offset
          | some request =>
            if ¬ s.apiHandler then
              sendStatusAndClose env (freeIn (releaseSendTicket s ticket) slot) slot 500 offset
            else
              answerRequest env s.asked slot ticket buf frame request.method
                (env.handler s.calls request)

/-- What `AmmServer_APISendDeferred` is called with; the token is in its decoded form. -/
structure DeferredAnswer where
  ring : Nat
  slot : Nat
  generation : Nat
  response : APIResponse

/-- The state behind the call. Without a free ticket nothing happens and the caller tries again. -/
def apiSendDeferred (s : UringState) (answer : DeferredAnswer) : UringState :=
  let slot := (answer.ring, answer.slot)
  let conn := s.connection slot
  if answer.ring ≥ env.ringCount ∨ answer.slot ≥ env.connectionSlots answer.ring then s
  else if ¬ conn.inUse ∨ ¬ conn.deferred ∨ conn.generation % 2 ^ 24 ≠ answer.generation then s
  else
    match acquireSendTicket s with
    | none => s
    | some (ticket, s) =>
      let offset := (s.historyOf slot).deferredAt
      let res := { answer.response with
        contentType := some (answer.response.contentType.getD (ascii "application/json")) }
      let answered := s.setConnection slot { conn with deferred := false }
      if res.body.length > env.responseBodySize then
        sendStatusAndClose env (releaseSendTicket answered ticket) slot 500 offset
      else
        match finish conn.deferredKeepAlive env.responseBodySize conn.deferredMethod res with
        | none => sendStatusAndClose env (releaseSendTicket answered ticket) slot 500 offset
        | some response =>
          sendResponse env
            (s.setConnection slot { conn with deferred := false, sendInFlight := true })
            slot ticket response (!conn.deferredKeepAlive) ⟨offset, false⟩

/-! ## Completions -/

inductive Errno
  | nobufs | canceled | mfile | other
  deriving DecidableEq

/-- Slots are handed out by the kernel. Behind the counting and the reset of the connection come its
receive and the decision where to accept next. -/
def handleAcceptCompletion (s : UringState) (r : Nat) (res : Except Errno Nat) (more : Bool) :
    UringState :=
  let s := if more then s else s.setRing r { s.ring r with acceptArmed := false }
  let rearm := fun (s : UringState) =>
    if ¬ more ∧ s.acceptRing = r ∧ ¬ s.acceptStalled then armAccept env s r else s
  match res with
  | .ok slot =>
    let s :=
      if slot < env.connectionSlots r then
        let conn := s.connection (r, slot)
        -- the place in a queue belongs to the queue and survives the reuse of the slot
        let fresh : UringConnection := {
          generation := (conn.generation + 1) % 2 ^ 32
          nextWaiting := conn.nextWaiting
          nextRearm := conn.nextRearm
          waitingForTicket := conn.waitingForTicket
          waitingForRearm := conn.waitingForRearm
          inUse := true }
        let s := { s.setConnection (r, slot) fresh with
          incarnation := Function.update s.incarnation (r, slot) (s.incarnation (r, slot) + 1) }
        let s := s.setHistory (r, slot) {}
        let s := s.setRing r { s.ring r with
          connectionsOpen := (s.ring r).connectionsOpen + 1 }
        armRecv env s (r, slot)
      else s
    if env.ringCount > 1 ∧ s.acceptRing = r ∧ freeSlots env s r ≤ URING_ACCEPT_RESERVE then
      moveAcceptOn env s r
    else rearm s
  | .error .canceled => s
  | .error .mfile => armAcceptSomewhere env s (r + 1)
  | .error _ => rearm s

/-- A receive completion: the slot and the 24 bits of the generation in its user data, whether the
receive goes on, whether a provided buffer came with it, and the bytes (none at a shutdown). -/
structure RecvCompletion where
  slot : Nat
  generation : Nat
  more : Bool
  hasBuffer : Bool
  res : Except Errno (List UInt8)

/-- `ApiProtocol_PartialAppend` on a connection's buffer. -/
def appendIn (s : UringState) (slot : Slot) (data : List UInt8) : Bool × UringState :=
  let conn := s.connection slot
  match partialAppend conn.inBuf data (env.realloc s.calls) with
  | some grown => (true, s.asked.setConnection slot { conn with inBuf := grown })
  | none => (false, s.asked)

/-- The part of `HandleRecvCompletion` that stores or serves the bytes, and whether the handler goes
on behind it. -/
def takeBytes (s : UringState) (slot : Slot) (data : List UInt8) : Bool × UringState :=
  let conn := s.connection slot
  let before := s.offsetOf slot conn.inBuf.used
  let received := s.noteReceived slot data
  if conn.sendInFlight then
    match appendIn env received slot data with
    | (false, s) => (false, closeConnection (recycleRecvBuffer env s slot.1) slot)
    | (true, s) => (true, recycleRecvBuffer env s slot.1)
  else if conn.inBuf.used > 0 then
    match appendIn env received slot data with
    | (false, s) =>
      (false, sendStatusAndClose env (recycleRecvBuffer env s slot.1) slot 413 before)
    | (true, s) =>
      let s := recycleRecvBuffer env s slot.1
      (true, serveNextRequest env s slot (s.connection slot).inBuf.data)
  else if conn.deferred then
    match appendIn env received slot data with
    | (false, s) =>
      (true, sendStatusAndClose env (recycleRecvBuffer env s slot.1) slot 413 before)
    | (true, s) => (true, recycleRecvBuffer env s slot.1)
  else (true, recycleRecvBuffer env (serveNextRequest env received slot data) slot.1)

def handleRecvCompletion (s : UringState) (r : Nat) (cqe : RecvCompletion) : UringState :=
  let slot := (r, cqe.slot)
  let conn := s.connection slot
  let recycled := fun s => if cqe.hasBuffer then recycleRecvBuffer env s r else s
  if cqe.slot ≥ env.connectionSlots r ∨ ¬ conn.inUse ∨ conn.generation ≠ cqe.generation then
    recycled s
  else
    let s := if cqe.more then s else s.setConnection slot { conn with recvArmed := false }
    match cqe.res with
    | .ok [] => closeConnection (recycled s) slot
    | .error .nobufs =>
      let s := recycled s
      queueForRearm (s.setConnection slot { s.connection slot with recvArmed := false }) slot
    | .error .canceled => recycled s
    | .error _ => closeConnection (recycled s) slot
    | .ok data =>
      if ¬ cqe.hasBuffer then closeConnection s slot
      else
        let (goesOn, s) := takeBytes env s slot data
        let conn := s.connection slot
        if goesOn ∧ conn.inUse ∧ ¬ conn.recvArmed ∧ ¬ conn.deferred then armRecv env s slot
        else s

/-- The end of `HandleSendCompletion`: a ticket is free, so one connection that waits gets it. -/
def serveOneWaiting (s : UringState) : UringState :=
  match takeNextWaitingForTicket env s with
  | (none, s) => s
  | (some waiting, s) =>
    let conn := s.connection waiting
    if ¬ conn.sendInFlight ∧ conn.inBuf.used > 0 then
      serveNextRequest env s waiting conn.inBuf.data
    else s

/-- What follows on the connection itself once its response is sent in full. -/
def goOnAfterSend (s : UringState) (slot : Slot) : UringState :=
  let conn := s.connection slot
  let s := if conn.inBuf.used > 0 then serveNextRequest env s slot conn.inBuf.data else s
  let conn := s.connection slot
  if conn.inUse ∧ ¬ conn.recvArmed ∧ ¬ conn.sendInFlight ∧ ¬ conn.deferred then armRecv env s slot
  else s

def handleSendCompletion (s : UringState) (send : OutstandingSend) (res : Int) : UringState :=
  let slot := send.id.slot
  let ticket := s.sendTicket send.ticket
  let conn := s.connection slot
  let stillTheirs := conn.inUse ∧ conn.generation = ticket.generation
  if res ≤ 0 then
    let s := releaseSendTicket s send.ticket
    if stillTheirs then
      closeConnection (s.setConnection slot { conn with sendInFlight := false }) slot
    else s
  else
    let sent := ticket.sent + res.toNat
    let s := s.setTicket send.ticket { ticket with sent := sent }
    if sent < ticket.total then
      if stillTheirs then submitSend env s slot send.ticket none
      else releaseSendTicket s send.ticket
    else
      let s := releaseSendTicket s send.ticket
      serveOneWaiting env <|
        if stillTheirs then
          let s := s.setConnection slot { conn with sendInFlight := false }
          if ticket.closeWhenWritten then closeConnection s slot else goOnAfterSend env s slot
        else s

def handleCloseCompletion (s : UringState) (r : Nat) : UringState :=
  if s.acceptStalled then armAcceptSomewhere env s r else s

/-! ## The server -/

inductive Event
  | accept (r : Nat) (res : Except Errno Nat) (more : Bool)
  | recv (r : Nat) (cqe : RecvCompletion)
  /-- the completion of the send at a place among those outstanding -/
  | send (place : Nat) (res : Int)
  | close (r : Nat)
  /-- the end of a pass over the rings -/
  | flush
  | sendDeferred (answer : DeferredAnswer)
  | setHandlers (api batch : Bool)

/-- One turn of the ring thread. Completions come from a ring that is in service. -/
def step (s : UringState) : Event → UringState
  | .accept r res more => if r < env.ringCount then handleAcceptCompletion env s r res more else s
  | .recv r cqe => if r < env.ringCount then handleRecvCompletion env s r cqe else s
  | .send place res =>
    match s.sends[place]? with
    | none => s
    | some send => handleSendCompletion env { s with sends := s.sends.eraseIdx place } send res
  | .close r => if r < env.ringCount then handleCloseCompletion env s r else s
  | .flush => flushBatch env s
  | .sendDeferred answer => apiSendDeferred env s answer
  | .setHandlers api batch => { s with apiHandler := api, apiBatchHandler := batch }

/-- What `RingStartup` leaves. -/
def ringStartup : UringState where
  ring := fun _ => {}
  connection := fun _ => {}
  sendTicket := fun _ => {}
  ticketCursor := 0
  batchPending := []
  acceptRing := 0
  acceptStalled := false
  apiHandler := true
  apiBatchHandler := false
  calls := 0
  sends := []
  incarnation := fun _ => 0
  history := fun _ => {}

/-- The state in which the ring thread starts its loop. -/
def startup : UringState := armAcceptSomewhere env ringStartup 0

end AmmarServer.Uring
