import AmmarServer.Threads.ApiSegments

/-! A connection of `threads/epollAPIServer.c`. Its responses leave in the order of its requests, whatever is
read or sent at a time. -/

namespace AmmarServer.EpollAPI
open ApiProtocol Frames

/-- `out` is what is left of the response that is queued. Of the event that is handled, `sends` are the bytes
that the next calls of `send` take, none where a signal interrupts, and the call behind them fails or would
block. -/
structure ApiConnection where
  inBuf : ApiPartialRequest := {}
  out : List UInt8 := []
  closeWhenWritten : Bool := false
  isOpen : Bool := true
  sends : List ℕ := []
  sendFails : Bool := false
  memory : Bool := true
  epoll_ctl : Bool := true
  received : List UInt8 := []
  sent : List UInt8 := []

def closeApiConnection (conn : ApiConnection) : ApiConnection :=
  { conn with isOpen := false, inBuf := {}, out := [] }

/-- The loops around `send`, with what they leave of the data. -/
def sendLoop : List ℕ → List UInt8 → ApiConnection → List UInt8 × ApiConnection
  | sends, [], conn => ([], { conn with sends })
  | [], data, conn => (data, { conn with sends := [] })
  | n :: sends, data, conn => sendLoop sends (data.drop n) { conn with sent := conn.sent ++ data.take n }

/-- Whether the connection is served on, as the answer of `SendApiResponse` is. -/
def sendApiResponse (conn : ApiConnection) (data : List UInt8) (closeWhenWritten : Bool) :
    Bool × ApiConnection :=
  match sendLoop conn.sends data conn with
  | ([], conn) => if closeWhenWritten then (false, closeApiConnection conn) else (true, conn)
  | (left, conn) =>
    -- otherwise `DeferRemainingResponse`, for which memory and `epoll_ctl` are needed
    if conn.sendFails ∨ !conn.memory ∨ !conn.epoll_ctl then (false, closeApiConnection conn)
    else (false, { conn with out := left, closeWhenWritten })

/-- `ApiProtocol_PartialKeepTail`, and what its callers do where it fails. -/
def keepTail (conn : ApiConnection) (tail : List UInt8) : ApiConnection :=
  match partialKeepTail conn.inBuf tail 0 conn.memory with
  | none => closeApiConnection conn
  | some inBuf => { conn with inBuf }

/-- The handler, and the room for the body of a response. -/
structure Instance where
  apiHandler : APIRequest → APIResponse
  bodySize : ℕ

section Instance
variable (inst : Instance)

/-- The response of `ApiProtocol_Serve`, or of `SendApiStatusOnly` where it fails, and whether the connection
is closed behind it. -/
def serve (buf : List UInt8) (frame : ApiFrame) : List UInt8 × Bool :=
  match prepare buf frame with
  | none => (statusOnlyResponse 400, true)
  | some rqst =>
    match finish frame.keepAlive inst.bodySize rqst.method (inst.apiHandler rqst) with
    | none => (statusOnlyResponse 500, true)
    | some response => (response, !frame.keepAlive)

/-- The requests at the front of a buffer, with what is not consumed of it. What `ApiProtocol_Prepare` writes
lies in the request. -/
def serveBufferedApiRequests : ℕ → List UInt8 → ApiConnection → Bool × List UInt8 × ApiConnection
  | 0, buf, conn => (true, buf, conn)
  | fuel + 1, buf, conn =>
    match nextFrame buf 0 with
    | (.incomplete, _) => (true, buf, conn)
    | (.refused, frame) => (false, buf, (sendApiResponse conn (statusOnlyResponse frame.refuseStatus) true).2)
    | (.ready, frame) =>
      match sendApiResponse conn (serve inst buf frame).1 (serve inst buf frame).2 with
      | (true, conn) => serveBufferedApiRequests fuel (buf.drop frame.totalLength) conn
      | (false, conn) => (false, buf.drop frame.totalLength, conn)

/-- The requests of a buffer, and then its tail. -/
def serveBuffer (buf : List UInt8) (conn : ApiConnection) : Bool × ApiConnection :=
  match serveBufferedApiRequests inst buf.length buf conn with
  | (more, tail, conn) => (more, if conn.isOpen then keepTail conn tail else conn)

/-- The room for a read: in the shared buffer, or behind what is kept. -/
def reserve (conn : ApiConnection) : Option (ApiPartialRequest × ℕ) :=
  if conn.inBuf.data = [] then some (conn.inBuf, API_MAX_REQUEST_SIZE)
  else
    (ensurePartialCapacity conn.inBuf (min (conn.inBuf.used + API_INITIAL_BUFFER_SIZE) API_MAX_REQUEST_SIZE)
      conn.memory).map fun inBuf => (inBuf, inBuf.size - inBuf.used)

/-- `recvs` are the bytes that the next calls of `recv` have, none where a signal interrupts. The call behind
them `ends` the connection, or would block. -/
def handleApiReadable (ends : Bool) : List (List UInt8) → ApiConnection → ApiConnection
  | recvs, conn =>
    if API_MAX_REQUEST_SIZE ≤ conn.inBuf.used then (sendApiResponse conn (statusOnlyResponse 413) true).2
    else
      match reserve conn with
      | none => closeApiConnection conn
      | some (inBuf, space) =>
        match recvs with
        | [] => if ends then closeApiConnection conn else { conn with inBuf }
        | [] :: recvs => handleApiReadable ends recvs { conn with inBuf }
        | bytes :: recvs =>
          let read := bytes.take space
          let served := serveBuffer inst (inBuf.data ++ read)
            { conn with inBuf, received := conn.received ++ read }
          -- a read that fills the space may have more behind it
          if served.1 ∧ served.2.isOpen ∧ space ≤ read.length then handleApiReadable ends recvs served.2
          else served.2

def handleApiWritable (conn : ApiConnection) : ApiConnection :=
  match sendLoop conn.sends conn.out conn with
  | ([], conn) =>
    let conn := { conn with out := [] }
    if conn.closeWhenWritten ∨ !conn.epoll_ctl then closeApiConnection conn
    else if conn.inBuf.data = [] then conn
    else (serveBuffer inst conn.inBuf.data conn).2
  | (left, conn) => if conn.sendFails then closeApiConnection conn else { conn with out := left }

inductive Event
  | hangup
  | ready (readable : Bool) (recvs : List (List UInt8)) (ends : Bool) (sends : List ℕ)
    (sendFails memory epoll_ctl : Bool)

/-- `EpollAPI_HandleEvent`. There is none for a connection that has been closed. -/
def handleEvent (conn : ApiConnection) : Event → ApiConnection
  | .hangup => closeApiConnection conn
  | .ready readable recvs ends sends sendFails memory epoll_ctl =>
    let conn := { conn with sends, sendFails, memory, epoll_ctl }
    if !conn.isOpen then conn
    else if conn.out ≠ [] then handleApiWritable inst conn
    else if readable then handleApiReadable inst ends recvs conn
    else conn

/-- What becomes of a connection that has been adopted. -/
def run (events : List Event) : ApiConnection := events.foldl (handleEvent inst) {}

/-! The answers to a stream. -/

/-- The answer to a request, which ends the stream where the connection is closed behind it. -/
def answerAt (buf : List UInt8) : Option (Item (List UInt8)) :=
  match nextFrame buf 0 with
  | (.incomplete, _) => none
  | (.refused, frame) => some ⟨statusOnlyResponse frame.refuseStatus, frame.headerEnd, true⟩
  | (.ready, frame) => some ⟨(serve inst buf frame).1, frame.totalLength, (serve inst buf frame).2⟩

def answersTo (received : List UInt8) : List UInt8 :=
  ((readAll (answerAt inst) received).items.map Item.value).flatten

/-- The answer to what is too long for a request. -/
def tooLarge (received : List UInt8) : List UInt8 :=
  if API_MAX_REQUEST_SIZE ≤ (readAll (answerAt inst) received).rest.length then statusOnlyResponse 413 else []

variable {inst} {buf rest : List UInt8} {conn : ApiConnection} {i : Item (List UInt8)}

theorem serve_append {frame : ApiFrame} (hframe : nextFrame buf 0 = (.ready, frame)) (more : List UInt8) :
    serve inst (buf ++ more) frame = serve inst buf frame := by
  obtain ⟨-, htotal, hle⟩ := nextFrame_sized hframe
  have hself := (@nextFrame_drop buf 0).2
  rw [List.drop_zero, hframe] at hself
  have hrequest : frame.request = 0 := congrArg ApiFrame.request (hself fun hcon => by cases hcon)
  unfold serve prepare
  simp only [hrequest, List.drop_zero]
  rw [List.take_append_of_le_length (by omega), List.drop_append_of_le_length (by omega),
    List.take_append_of_le_length (by rw [List.length_drop]; omega)]

theorem answerAt_append (h : (nextFrame buf 0).1 ≠ .incomplete) (more : List UInt8) :
    answerAt inst (buf ++ more) = answerAt inst buf := by
  unfold answerAt
  rw [nextFrame_append h]
  rcases hframe : nextFrame buf 0 with ⟨_ | _ | _, frame⟩
  · rfl
  · simp only [serve_append hframe]
  · rfl

theorem requestAt_of_answerAt (h : answerAt inst buf = some i) :
    (nextFrame buf 0).1 ≠ .incomplete ∧ ∃ j, requestAt buf = some j ∧ j.extent = i.extent := by
  unfold answerAt at h
  unfold requestAt
  rcases hframe : nextFrame buf 0 with ⟨_ | _ | _, frame⟩ <;> rw [hframe] at h <;> cases h
  · exact ⟨fun hcon => (by cases hcon), _, rfl, rfl⟩
  · exact ⟨fun hcon => (by cases hcon), _, rfl, rfl⟩

theorem answers : Fronts (answerAt inst) where
  pos h := by
    obtain ⟨-, j, hj, hextent⟩ := requestAt_of_answerAt h
    rw [← hextent]
    exact requests.pos hj
  le h := by
    obtain ⟨-, j, hj, hextent⟩ := requestAt_of_answerAt h
    rw [← hextent]
    exact requests.le hj
  append more h := by rw [answerAt_append (requestAt_of_answerAt h).1, h]
  cut h hle := by
    obtain ⟨-, j, hj, hextent⟩ := requestAt_of_answerAt h
    have hcut := requests.cut hj (by rwa [hextent])
    rw [← h, answerAt_append]
    intro hcon
    rw [requestAt_eq_none_iff.mpr hcon] at hcut
    cases hcut

/-! What a connection has sent, and what it owes. -/

def InOrder (inst : Instance) (conn : ApiConnection) : Prop :=
  conn.sent ++ conn.out <+: answersTo inst conn.received ++ tooLarge inst conn.received

/-- All that has been received was answered but `rest`. -/
def Owes (inst : Instance) (conn : ApiConnection) (rest : List UInt8) : Prop :=
  ∃ items, (items.map Item.value).flatten = conn.sent ++ conn.out ∧
    ∀ more, readAll (answerAt inst) (conn.received ++ more) = (readAll (answerAt inst) (rest ++ more)).behind items

structure Sound (inst : Instance) (conn : ApiConnection) (rest : List UInt8) : Prop where
  inOrder : InOrder inst conn
  closing : conn.isOpen = true → conn.closeWhenWritten = true → conn.out ≠ []
  owes : conn.isOpen = true → conn.closeWhenWritten = false → Owes inst conn rest
  answered : conn.isOpen = true → conn.closeWhenWritten = false → conn.out = [] → answerAt inst rest = none

/-- Nothing is queued. -/
structure Ready (conn : ApiConnection) : Prop where
  isOpen : conn.isOpen = true
  keeps : conn.closeWhenWritten = false
  out : conn.out = []

/-- What a response on a connection becomes. -/
structure Sent (conn : ApiConnection) (data : List UInt8) (closes : Bool) (r : Bool × ApiConnection) : Prop where
  received : r.2.received = conn.received
  within : r.2.sent ++ r.2.out <+: conn.sent ++ data
  served : r.1 = true → closes = false ∧ Ready r.2 ∧ r.2.sent = conn.sent ++ data
  deferred : r.1 = false → r.2.isOpen = true →
    r.2.closeWhenWritten = closes ∧ r.2.out ≠ [] ∧ r.2.sent ++ r.2.out = conn.sent ++ data

theorem sendLoop_ok (sends : List ℕ) (data : List UInt8) (conn : ApiConnection) :
    ∃ taken left sends', taken ++ left = data ∧
      sendLoop sends data conn = (left, { conn with sent := conn.sent ++ taken, sends := sends' }) := by
  induction sends generalizing data conn with
  | nil => cases data <;> exact ⟨[], _, [], rfl, by rw [List.append_nil]; rfl⟩
  | cons n sends ih =>
    cases data with
    | nil => exact ⟨[], [], n :: sends, rfl, by rw [List.append_nil]; rfl⟩
    | cons b data =>
      obtain ⟨taken, left, sends', hsplit, hrun⟩ := ih ((b :: data).drop n)
        { conn with sent := conn.sent ++ (b :: data).take n }
      refine ⟨(b :: data).take n ++ taken, left, sends', ?_, ?_⟩
      · rw [List.append_assoc, hsplit, List.take_append_drop]
      · rw [← List.append_assoc]
        exact hrun

theorem sendApiResponse_ok (h : Ready conn) (data : List UInt8) (closes : Bool) :
    Sent conn data closes (sendApiResponse conn data closes) := by
  obtain ⟨taken, left, sends', hsplit, hrun⟩ := sendLoop_ok conn.sends data conn
  have hwithin : conn.sent ++ taken ++ [] <+: conn.sent ++ data := by
    rw [List.append_nil, ← hsplit, ← List.append_assoc]
    exact List.prefix_append _ _
  have hclosed : Sent conn data closes
      (false, closeApiConnection { conn with sent := conn.sent ++ taken, sends := sends' }) :=
    ⟨rfl, hwithin, fun hcon => (by cases hcon), fun _ hcon => (by cases hcon)⟩
  unfold sendApiResponse
  rw [hrun]
  cases left with
  | nil =>
    cases closes with
    | true => exact hclosed
    | false =>
      rw [List.append_nil] at hsplit
      subst hsplit
      refine ⟨rfl, ?_, fun _ => ⟨rfl, ⟨h.isOpen, h.keeps, h.out⟩, rfl⟩, fun hcon => (by cases hcon)⟩
      change conn.sent ++ taken ++ conn.out <+: _
      rwa [h.out]
  | cons b left =>
    simp only
    split
    · exact hclosed
    · have hall : conn.sent ++ taken ++ b :: left = conn.sent ++ data := by rw [List.append_assoc, hsplit]
      exact ⟨rfl, by rw [hall], fun hcon => (by cases hcon), fun _ _ => ⟨rfl, List.cons_ne_nil _ _, hall⟩⟩

theorem Sent.stops {data : List UInt8} {r : Bool × ApiConnection} (h : Sent conn data true r) : r.1 = false := by
  by_contra hcon
  cases (h.served (Bool.eq_true_of_not_eq_false hcon)).1

theorem Owes.answersTo_eq (h : Owes inst conn buf) (hnone : answerAt inst buf = none) :
    answersTo inst conn.received = conn.sent ++ conn.out ∧
      (readAll (answerAt inst) conn.received).rest = buf := by
  obtain ⟨items, hitems, hmore⟩ := h
  have hread := hmore []
  have hbuf : readAll (answerAt inst) buf = { rest := buf } := readFrom_none hnone
  rw [List.append_nil, List.append_nil, hbuf] at hread
  rw [answersTo, hread]
  exact ⟨by rw [Found.behind, List.append_nil, hitems], rfl⟩

theorem Owes.sound (h : Owes inst conn buf) (hready : Ready conn) (hnone : answerAt inst buf = none) :
    Sound inst conn buf := by
  refine ⟨?_, fun _ hcloses => ?_, fun _ _ => h, fun _ _ _ => hnone⟩
  · rw [InOrder, (h.answersTo_eq hnone).1]
    exact List.prefix_append _ _
  · rw [hready.keeps] at hcloses
    cases hcloses

/-- What is owed behind the next answer. -/
theorem Owes.next (h : Owes inst conn buf) (hready : Ready conn) (hanswer : answerAt inst buf = some i)
    {conn' : ApiConnection} (hreceived : conn'.received = conn.received)
    (hsent : conn'.sent ++ conn'.out = conn.sent ++ i.value) (hends : i.ends = false) :
    Owes inst conn' (buf.drop i.extent) := by
  obtain ⟨items, hitems, hmore⟩ := h
  rw [hready.out, List.append_nil] at hitems
  refine ⟨items ++ [i], by simp [hitems, hsent], fun more => ?_⟩
  rw [hreceived, hmore, answers.readAll_some (answers.append more hanswer), hends,
    List.drop_append_of_le_length (answers.le hanswer)]
  simp [Found.behind]

/-- The next answer has been sent, queued or cut off. -/
theorem Owes.sent (h : Owes inst conn buf) (hready : Ready conn) (hanswer : answerAt inst buf = some i)
    {r : Bool × ApiConnection} (hsent : Sent conn i.value i.ends r) (hr : r.1 = false)
    (hrest : i.ends = false → rest = buf.drop i.extent) : Sound inst r.2 rest := by
  refine ⟨?_, fun hopen _ => (hsent.deferred hr hopen).2.1, fun hopen hkeeps => ?_, fun hopen _ hout => ?_⟩
  · obtain ⟨items, hitems, hmore⟩ := h
    have hread := hmore []
    rw [hready.out, List.append_nil] at hitems
    rw [List.append_nil, List.append_nil, answers.readAll_some hanswer] at hread
    refine (hsent.within.trans ?_).trans (List.prefix_append _ _)
    rw [hsent.received, answersTo, hread]
    split <;> simp [Found.behind, hitems]
  · obtain ⟨hcloses, -, hbytes⟩ := hsent.deferred hr hopen
    have hends : i.ends = false := hcloses.symm.trans hkeeps
    rw [hrest hends]
    exact h.next hready hanswer hsent.received hbytes hends
  · exact absurd hout (hsent.deferred hr hopen).2.1

theorem serveBufferedApiRequests_ok {fuel : ℕ} (hready : Ready conn) (howes : Owes inst conn buf)
    (hfuel : buf.length ≤ fuel) :
    ∃ more tail conn', serveBufferedApiRequests inst fuel buf conn = (more, tail, conn') ∧
      conn'.received = conn.received ∧ Sound inst conn' tail ∧ (more = true → Ready conn') := by
  induction fuel generalizing buf conn with
  | zero =>
    obtain rfl := List.length_eq_zero_iff.mp (Nat.le_zero.mp hfuel)
    exact ⟨true, [], conn, rfl, rfl, howes.sound hready answers.nil, fun _ => hready⟩
  | succ fuel ih =>
    unfold serveBufferedApiRequests
    rcases hframe : nextFrame buf 0 with ⟨_ | _ | _, frame⟩
    · have hnone : answerAt inst buf = none := by rw [answerAt, hframe]
      exact ⟨true, buf, conn, rfl, rfl, howes.sound hready hnone, fun _ => hready⟩
    · have hanswer : answerAt inst buf =
          some ⟨(serve inst buf frame).1, frame.totalLength, (serve inst buf frame).2⟩ := by
        rw [answerAt, hframe]
      have hsent := sendApiResponse_ok hready (serve inst buf frame).1 (serve inst buf frame).2
      simp only
      rcases hsend : sendApiResponse conn (serve inst buf frame).1 (serve inst buf frame).2 with ⟨_ | _, conn'⟩
      · rw [hsend] at hsent
        exact ⟨_, _, _, rfl, hsent.received, howes.sent hready hanswer hsent rfl fun _ => rfl,
          fun hcon => (by cases hcon)⟩
      · rw [hsend] at hsent
        obtain ⟨hends, hready', hbytes⟩ := hsent.served rfl
        have hpos := answers.pos hanswer
        obtain ⟨more, tail, conn'', hrun, hreceived, hsound⟩ := ih hready'
          (howes.next hready hanswer hsent.received (by rw [hready'.out, List.append_nil, hbytes]) hends)
          (by rw [List.length_drop]; omega)
        exact ⟨more, tail, conn'', hrun, hreceived.trans hsent.received, hsound⟩
    · have hanswer : answerAt inst buf =
          some ⟨statusOnlyResponse frame.refuseStatus, frame.headerEnd, true⟩ := by
        rw [answerAt, hframe]
      have hsent := sendApiResponse_ok hready (statusOnlyResponse frame.refuseStatus) true
      exact ⟨_, _, _, rfl, hsent.received, howes.sent hready hanswer hsent hsent.stops (fun hcon => by cases hcon),
        fun hcon => (by cases hcon)⟩

theorem InOrder.close (h : InOrder inst conn) {conn' : ApiConnection} (hreceived : conn'.received = conn.received)
    (hsent : conn'.sent <+: conn.sent ++ conn.out) : Sound inst (closeApiConnection conn') rest := by
  refine ⟨?_, fun hcon => (by cases hcon), fun hcon => (by cases hcon), fun hcon => (by cases hcon)⟩
  change conn'.sent ++ [] <+: answersTo inst conn'.received ++ tooLarge inst conn'.received
  rw [List.append_nil, hreceived]
  exact hsent.trans h

theorem serveBuffer_ok (hready : Ready conn) (howes : Owes inst conn buf) :
    ∃ more conn', serveBuffer inst buf conn = (more, conn') ∧ conn'.received = conn.received ∧
      Sound inst conn' conn'.inBuf.data ∧ (more = true → conn'.isOpen = true → Ready conn') := by
  obtain ⟨more, tail, conn', hrun, hreceived, hsound, hmore⟩ :=
    serveBufferedApiRequests_ok hready howes (le_refl _)
  unfold serveBuffer
  rw [hrun]
  simp only
  split
  · unfold keepTail
    split
    · exact ⟨_, _, rfl, hreceived, hsound.inOrder.close rfl (List.prefix_append _ _), fun _ hcon => (by cases hcon)⟩
    · rename_i inBuf htail
      have hdata := partialKeepTail_data htail
      rw [List.drop_zero] at hdata
      refine ⟨_, _, rfl, hreceived, ?_, fun htrue _ => ⟨(hmore htrue).isOpen, (hmore htrue).keeps, (hmore htrue).out⟩⟩
      simp only [hdata]
      exact ⟨hsound.inOrder, hsound.closing, hsound.owes, hsound.answered⟩
  · rename_i hclosed
    exact ⟨_, _, rfl, hreceived, ⟨hsound.inOrder, fun hopen => absurd hopen hclosed,
      fun hopen => absurd hopen hclosed, fun hopen => absurd hopen hclosed⟩, fun _ hopen => absurd hopen hclosed⟩

theorem reserve_data {inBuf : ApiPartialRequest} {space : ℕ} (h : reserve conn = some (inBuf, space)) :
    inBuf.data = conn.inBuf.data := by
  unfold reserve at h
  split at h
  · cases h
    rfl
  · obtain ⟨grown, hgrown, heq⟩ := Option.map_eq_some_iff.mp h
    cases heq
    exact ensurePartialCapacity_data hgrown

theorem Sound.with_inBuf (h : Sound inst conn conn.inBuf.data) {inBuf : ApiPartialRequest}
    (hdata : inBuf.data = conn.inBuf.data) : Sound inst { conn with inBuf } inBuf.data := by
  rw [hdata]
  exact ⟨h.inOrder, h.closing, h.owes, h.answered⟩

theorem tooLarge_ok (hready : Ready conn) (h : Sound inst conn conn.inBuf.data)
    (hfull : API_MAX_REQUEST_SIZE ≤ conn.inBuf.used) :
    Sound inst (sendApiResponse conn (statusOnlyResponse 413) true).2 rest := by
  have hsent := sendApiResponse_ok hready (statusOnlyResponse 413) true
  obtain ⟨hanswers, hrest⟩ := (h.owes hready.isOpen hready.keeps).answersTo_eq
    (h.answered hready.isOpen hready.keeps hready.out)
  refine ⟨?_, fun hopen _ => (hsent.deferred hsent.stops hopen).2.1, fun hopen hkeeps => ?_,
    fun hopen _ hout => absurd hout (hsent.deferred hsent.stops hopen).2.1⟩
  · rw [InOrder, hsent.received, hanswers, hready.out, List.append_nil, tooLarge, hrest]
    exact (if_pos hfull).symm ▸ hsent.within
  · rw [(hsent.deferred hsent.stops hopen).1] at hkeeps
    cases hkeeps

theorem handleApiReadable_ok {ends : Bool} (recvs : List (List UInt8)) (hready : Ready conn)
    (h : Sound inst conn conn.inBuf.data) :
    Sound inst (handleApiReadable inst ends recvs conn) (handleApiReadable inst ends recvs conn).inBuf.data := by
  induction recvs generalizing conn with
  | nil =>
    unfold handleApiReadable
    split
    · exact tooLarge_ok hready h (by assumption)
    · split
      · exact h.inOrder.close rfl (List.prefix_append _ _)
      · rename_i inBuf space hreserve
        simp only
        split
        · exact h.inOrder.close rfl (List.prefix_append _ _)
        · exact h.with_inBuf (reserve_data hreserve)
  | cons bytes recvs ih =>
    unfold handleApiReadable
    split
    · exact tooLarge_ok hready h (by assumption)
    · split
      · exact h.inOrder.close rfl (List.prefix_append _ _)
      · rename_i inBuf space hreserve
        have hdata := reserve_data hreserve
        cases bytes with
        | nil => exact ih ⟨hready.isOpen, hready.keeps, hready.out⟩ (h.with_inBuf hdata)
        | cons b bytes =>
          have howes : Owes inst { conn with inBuf, received := conn.received ++ (b :: bytes).take space }
              (inBuf.data ++ (b :: bytes).take space) := by
            obtain ⟨items, hitems, hmore⟩ := h.owes hready.isOpen hready.keeps
            refine ⟨items, hitems, fun more => ?_⟩
            rw [hdata, List.append_assoc, List.append_assoc]
            exact hmore _
          have hready' : Ready { conn with inBuf, received := conn.received ++ (b :: bytes).take space } :=
            ⟨hready.isOpen, hready.keeps, hready.out⟩
          obtain ⟨more, conn', hrun, -, hsound, hmore⟩ := serveBuffer_ok hready' howes
          simp only [hrun]
          split
          · rename_i hnext
            exact ih (hmore hnext.1 hnext.2.1) hsound
          · exact hsound

theorem handleApiWritable_ok (hopen : conn.isOpen = true) (h : Sound inst conn conn.inBuf.data) :
    Sound inst (handleApiWritable inst conn) (handleApiWritable inst conn).inBuf.data ∧
      (handleApiWritable inst conn).received = conn.received := by
  obtain ⟨taken, left, sends', hsplit, hrun⟩ := sendLoop_ok conn.sends conn.out conn
  have hall : conn.sent ++ taken ++ left = conn.sent ++ conn.out := by rw [List.append_assoc, hsplit]
  have hwithin : conn.sent ++ taken <+: conn.sent ++ conn.out := by
    rw [← hall]
    exact List.prefix_append _ _
  have howes : ∀ conn' : ApiConnection, conn'.received = conn.received →
      conn'.sent ++ conn'.out = conn.sent ++ conn.out → conn.closeWhenWritten = false →
        Owes inst conn' conn.inBuf.data := by
    intro conn' hreceived hsent hkeeps
    rw [Owes, hreceived, hsent]
    exact h.owes hopen hkeeps
  unfold handleApiWritable
  rw [hrun]
  cases left with
  | nil =>
    simp only
    split
    · exact ⟨h.inOrder.close rfl hwithin, rfl⟩
    · rename_i hkeeps
      have hkeeps : conn.closeWhenWritten = false := by simp_all
      have hready : Ready { conn with sent := conn.sent ++ taken, sends := sends', out := [] } := ⟨hopen, hkeeps, rfl⟩
      have howes' := howes { conn with sent := conn.sent ++ taken, sends := sends', out := [] } rfl hall hkeeps
      split
      · rename_i hnil
        refine ⟨howes'.sound hready ?_, rfl⟩
        rw [hnil]
        exact answers.nil
      · obtain ⟨more, conn', hserve, hreceived, hsound, -⟩ := serveBuffer_ok hready howes'
        rw [hserve]
        exact ⟨hsound, hreceived⟩
  | cons b left =>
    simp only
    split
    · exact ⟨h.inOrder.close rfl hwithin, rfl⟩
    · refine ⟨⟨?_, fun _ _ => List.cons_ne_nil _ _, fun _ hkeeps => howes _ rfl hall hkeeps,
        fun _ _ hnil => (by cases hnil)⟩, rfl⟩
      change conn.sent ++ taken ++ b :: left <+: _
      rw [hall]
      exact h.inOrder

theorem handleEvent_ok (h : Sound inst conn conn.inBuf.data) (event : Event) :
    Sound inst (handleEvent inst conn event) (handleEvent inst conn event).inBuf.data := by
  cases event with
  | hangup => exact h.inOrder.close rfl (List.prefix_append _ _)
  | ready readable recvs ends sends sendFails memory epoll_ctl =>
    have h' : Sound inst { conn with sends, sendFails, memory, epoll_ctl } conn.inBuf.data :=
      ⟨h.inOrder, h.closing, h.owes, h.answered⟩
    simp only [handleEvent]
    split
    · exact h'
    · rename_i hopen
      have hopen : conn.isOpen = true := by simpa using hopen
      split
      · exact (@handleApiWritable_ok inst { conn with sends, sendFails, memory, epoll_ctl } hopen h').1
      · rename_i hout
        have hout : conn.out = [] := not_not.mp hout
        have hkeeps : conn.closeWhenWritten = false :=
          Bool.eq_false_iff.mpr fun hcloses => h.closing hopen hcloses hout
        split
        · exact @handleApiReadable_ok inst { conn with sends, sendFails, memory, epoll_ctl } ends recvs
            ⟨hopen, hkeeps, hout⟩ h'
        · exact h'

theorem run_ok (events : List Event) : Sound inst (run inst events) (run inst events).inBuf.data := by
  induction events using List.reverseRecOn with
  | nil =>
    have howes : Owes inst {} [] := ⟨[], rfl, fun more => rfl⟩
    exact howes.sound ⟨rfl, rfl, rfl⟩ answers.nil
  | append_singleton events event ih =>
    rw [run, List.foldl_append]
    exact handleEvent_ok ih event

/-- In every run a connection sends a beginning of the answers to what it has received, and all of them
wherever it is open with nothing queued. It reads nothing while something is queued. -/
theorem run_inOrder (inst : Instance) (events : List Event) :
    (run inst events).sent <+:
        answersTo inst (run inst events).received ++ tooLarge inst (run inst events).received ∧
      ((run inst events).isOpen = true → (run inst events).out = [] →
        (run inst events).sent = answersTo inst (run inst events).received) ∧
      ∀ event, (run inst events).out ≠ [] →
        (handleEvent inst (run inst events) event).received = (run inst events).received := by
  have h := @run_ok inst events
  refine ⟨(List.prefix_append _ _).trans h.inOrder, fun hopen hout => ?_, fun event hout => ?_⟩
  · have hkeeps := Bool.eq_false_iff.mpr fun hcloses => h.closing hopen hcloses hout
    rw [((h.owes hopen hkeeps).answersTo_eq (h.answered hopen hkeeps hout)).1, hout, List.append_nil]
  · cases event with
    | hangup => rfl
    | ready readable recvs ends sends sendFails memory epoll_ctl =>
      have h' : Sound inst { run inst events with sends, sendFails, memory, epoll_ctl }
          (run inst events).inBuf.data := ⟨h.inOrder, h.closing, h.owes, h.answered⟩
      simp only [handleEvent, if_pos hout]
      split
      · rfl
      · rename_i hopen
        exact (@handleApiWritable_ok inst { run inst events with sends, sendFails, memory, epoll_ctl }
          (by simpa using hopen) h').2

end Instance

end AmmarServer.EpollAPI
