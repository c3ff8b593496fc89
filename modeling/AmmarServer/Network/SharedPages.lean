import AmmarServer.Network.Resources
import Mathlib.Data.List.TakeDrop
import Mathlib.Logic.Function.Basic

/-! The answers of a page that all clients share, over every interleaving of its requests. The
locked part of `dynamicRequest_serveContent` is one step, and what `SendFile` sends behind it are
others. A file that a callback asks to stream is sent in one step. -/

namespace AmmarServer.Network.SharedPages
open CString HeaderAnalysis Resources Run
open Cache.DynamicRequests (RHContext Page Call Execution Served checkRequestFrequency
  executeCallback dynamicRequestServeContent)

/-- The page as it is registered. -/
structure Handler where
  filename : List UInt8
  cacheVersionETag : ℕ
  doNOTCacheRule : Bool
  resolves : List UInt8 → Bool

/-- What a client is sent. -/
inductive Sent
  | error (status : ℕ)
  | notModified
  | memory (status : ℕ) (body : List UInt8)
  | streamed (status : ℕ) (path body : List UInt8)
deriving DecidableEq, Repr

def Sent.isError : Sent → Bool
  | .error _ => true
  | _ => false

/-- A request behind its locked part. -/
structure Flight where
  request : Request
  served : Served
  /-- How much of the body is sent, once the header is, and the bytes. -/
  sending : Option (ℕ × List UInt8)
  /-- The answer of the execution that the request belongs to. -/
  expected : Option Sent

structure Machine where
  page : Page
  disk : List UInt8 → Option DiskFile
  /-- What the callback has left when it ran last. -/
  latest : Option (Execution × (List UInt8 → Option DiskFile))
  flights : ℕ → Option Flight
  /-- The answers, each with the one that was expected. -/
  finished : List (Option Sent × Sent)

inductive Event
  /-- The locked part; the callback may change files, too. -/
  | serve (client : ℕ) (request : Request) (clock : ℕ) (call : Call)
      (files : List UInt8 → Option DiskFile)
  /-- `SendFile` up to the header. -/
  | header (client : ℕ)
  /-- The socket takes more bytes of the body. -/
  | body (client count : ℕ)
  /-- The send comes back before it has taken the whole body. -/
  | cut (client : ℕ)
  | disconnect (client : ℕ)

/-- A `HEAD` has no body. -/
def bodyFor (request : Request) (body : List UInt8) : List UInt8 :=
  if request.requestType = .HEAD then [] else body

/-- `SendFile` for a file of the disk. -/
def stream (h : Handler) (disk : List UInt8 → Option DiskFile) (request : Request)
    (path : List UInt8) (dynamicResponseCode : ℕ) : Sent :=
  if h.resolves path then
    match disk path with
    | none => .error 404
    | some file =>
      let rep : Representation :=
        { bytes := file.bytes
          modificationTime := file.st_mtime
          haveModificationTime := true
          localETag := []
          file := some file }
      match replyTo request rep with
      | .preconditionFailed => .error 412
      | .rangeNotSatisfiable => .error 416
      | .notModified => .notModified
      | .whole => .streamed (responseCode dynamicResponseCode) path (bodyFor request file.bytes)
      | .partialContent s e =>
        .streamed 206 path (bodyFor request ((file.bytes.drop s).take (e - s + 1)))
  else .error 404

/-- The path that an execution asks to stream. -/
def Execution.path (e : Execution) : Option (List UInt8) :=
  if e.contentContainsPathToFileToBeStreamed then
    some ((cstring (e.memory e.content)).take (MAX_FILE_PATH - 1))
  else none

/-- The answer of an execution to a request. -/
def answer (h : Handler) (e : Execution) (disk : List UInt8 → Option DiskFile)
    (request : Request) : Sent :=
  match Execution.path e with
  | some path => stream h disk request path e.headerResponse
  | none =>
    .memory (responseCode e.headerResponse)
      (bodyFor request ((e.memory e.content).take e.contentSize))

/-- The tag of the page for a request. -/
def pageTag (h : Handler) (request : Request) : List UInt8 :=
  tag { cacheVersionETag := h.cacheVersionETag, cache := [], disk := fun _ => none }
    { filename := h.filename
      stored := none
      doNOTCacheRule := h.doNOTCacheRule
      dynamicRequest := none } request.range

/-- The bytes that are handed to `SendFile`, as they are now. -/
def bytesOf (page : Page) (served : Served) : List UInt8 :=
  (page.memory served.mem).take served.memSize

def Machine.finish (m : Machine) (client : ℕ) (flight : Flight) (sent : Sent) : Machine :=
  { m with
    flights := Function.update m.flights client none
    finished := (flight.expected, sent) :: m.finished }

def Machine.progress (m : Machine) (client : ℕ) (flight : Flight) (offset : ℕ)
    (bytes : List UInt8) : Machine :=
  { m with
    flights :=
      Function.update m.flights client (some { flight with sending := some (offset, bytes) }) }

def step (h : Handler) (m : Machine) : Event → Machine
  | .serve client request clock call files =>
    match m.flights client with
    | some _ => m
    | none =>
      let (served, page) := dynamicRequestServeContent m.page clock call
      let latest := if served.executed then some (call.callback, files) else m.latest
      { m with
        page
        disk := if served.executed then files else m.disk
        latest
        flights := Function.update m.flights client
          (some
            { request
              served
              sending := none
              expected := latest.map fun latest => answer h latest.1 latest.2 request }) }
  | .header client =>
    match m.flights client with
    | none => m
    | some flight =>
      match flight.sending with
      | some _ => m
      | none =>
        match flight.served.streamed with
        | some path =>
          m.finish client flight
            (stream h m.disk flight.request path flight.served.responseCode)
        | none =>
          if flight.served.mem = 0 ∨ flight.served.memSize = 0 then
            m.finish client flight
              (stream h m.disk flight.request h.filename flight.served.responseCode)
          else if flight.request.eTag.isSome && !h.doNOTCacheRule &&
              m.page.shared_context.callback_cooldown &&
              requestETagMatches flight.request (pageTag h flight.request) then
            m.finish client flight .notModified
          else if flight.request.requestType = .HEAD then
            m.finish client flight (.memory (responseCode flight.served.responseCode) [])
          else m.progress client flight 0 []
  | .body client count =>
    match m.flights client with
    | none => m
    | some flight =>
      match flight.sending with
      | none => m
      | some (offset, bytes) =>
        let offset' := min (offset + count) flight.served.memSize
        let bytes := bytes ++
          ((bytesOf m.page flight.served).drop offset).take (offset' - offset)
        if offset' = flight.served.memSize then
          m.finish client flight (.memory (responseCode flight.served.responseCode) bytes)
        else m.progress client flight offset' bytes
  | .cut client =>
    match m.flights client with
    | none => m
    | some flight =>
      match flight.sending with
      | none => m
      | some (_, bytes) =>
        m.finish client flight (.memory (responseCode flight.served.responseCode) bytes)
  | .disconnect client => { m with flights := Function.update m.flights client none }

def start (callback_every_x_msec content MAXcontentSize : ℕ) (memory : ℕ → List UInt8)
    (disk : List UInt8 → Option DiskFile) : Machine :=
  { page := .registered callback_every_x_msec content MAXcontentSize memory
    disk
    latest := none
    flights := fun _ => none
    finished := [] }

/-- Every answer but a 304 and a page for an error is that of the execution the request belongs to:
its own, or the latest one where it was answered in the cooldown. -/
def Whole (m : Machine) : Prop :=
  ∀ x ∈ m.finished, x.2 = .notModified ∨ x.2.isError = true ∨ x.1 = some x.2

/-! When the answers are whole. -/

def Flight.offset (flight : Flight) : ℕ := (flight.sending.map Prod.fst).getD 0

def Flight.bytes (flight : Flight) : List UInt8 := (flight.sending.map Prod.snd).getD []

/-- There is nothing that `SendFile` could take for the page. -/
def Flight.Nothing (flight : Flight) : Prop :=
  flight.served.mem = 0 ∨ flight.served.memSize = 0

/-- A callback leaves what a request has still to send. -/
structure Undisturbed (m : Machine) (call : Call) (files : List UInt8 → Option DiskFile)
    (flight : Flight) : Prop where
  file : ∀ path, flight.served.streamed = some path → files path = m.disk path
  memory : flight.served.streamed = none → ¬flight.Nothing → flight.request.requestType ≠ .HEAD →
    ((call.callback.memory flight.served.mem).take flight.served.memSize).drop flight.offset =
      (bytesOf m.page flight.served).drop flight.offset

/-- The request runs the callback of the page. -/
def Runs (page : Page) (clock : ℕ) (call : Call) : Prop :=
  page.shared_context.content ≠ 0 ∧ page.shared_context.MAXcontentSize ≠ 0 ∧
    (checkRequestFrequency page.shared_context clock).1 = .okServeFresh ∧ call.rqst = true

/-- What a callback leaves can be sent again: an ordinary 200 with its memory, or nothing. -/
def Repeatable (e : Execution) : Prop :=
  e.content = 0 ∨ e.contentSize = 0 ∨
    (e.headerResponse = 0 ∨ e.headerResponse = 200) ∧
      e.contentContainsPathToFileToBeStreamed = false

def Guard (h : Handler) (m : Machine) : Event → Prop
  | .serve _ _ clock call files =>
    (Runs m.page clock call → ∀ client flight, m.flights client = some flight →
      Undisturbed m call files flight) ∧
    ((checkRequestFrequency m.page.shared_context clock).1 = .tooFastServeCached →
      ∀ e disk, m.latest = some (e, disk) → Repeatable e)
  -- where the callback has left nothing, no file has the name of the page
  | .header client => ∀ flight, m.flights client = some flight →
      flight.served.streamed = none → flight.Nothing →
        h.resolves h.filename = false ∨ m.disk h.filename = none
  | .body _ _ => True
  | .cut client => ∀ flight, m.flights client = some flight → flight.sending = none
  | .disconnect _ => True

/-! The runs. -/

/-- A request is on its way to the answer that is expected. -/
structure FlightOk (h : Handler) (m : Machine) (flight : Flight) : Prop where
  file : ∀ path, flight.served.streamed = some path →
    flight.expected = some (stream h m.disk flight.request path flight.served.responseCode)
  memory : flight.served.streamed = none → ¬flight.Nothing →
    flight.expected = some (.memory (responseCode flight.served.responseCode)
      (bodyFor flight.request
        (flight.bytes ++ (bytesOf m.page flight.served).drop flight.offset)))
  sending : flight.sending ≠ none → flight.served.streamed = none ∧ ¬flight.Nothing ∧
    flight.request.requestType ≠ .HEAD ∧ flight.offset ≤ flight.served.memSize

/-- The page holds what its callback has left. -/
structure PageOk (page : Page) (latest : Option (Execution × (List UInt8 → Option DiskFile))) :
    Prop where
  same : SamePage page
  untouched : latest = none → page.shared_context.contentSize = 0
  content : ∀ e disk, latest = some (e, disk) → page.shared_context.content = e.content ∧
    page.shared_context.contentSize = e.contentSize ∧ page.memory = e.memory

structure Inv (h : Handler) (m : Machine) : Prop where
  page : PageOk m.page m.latest
  flights : ∀ client flight, m.flights client = some flight → FlightOk h m flight
  whole : Whole m

variable {h : Handler} {m : Machine} {flight : Flight}

theorem stream_congr {disk disk' : List UInt8 → Option DiskFile} {request : Request}
    {path : List UInt8} {code : ℕ} (heq : disk' path = disk path) :
    stream h disk' request path code = stream h disk request path code := by
  rw [stream, stream, heq]

theorem stream_nothing {disk : List UInt8 → Option DiskFile} {request : Request}
    {path : List UInt8} {code : ℕ} (hnone : h.resolves path = false ∨ disk path = none) :
    stream h disk request path code = .error 404 := by
  unfold stream
  rcases hnone with hnone | hnone
  · rw [hnone]
    rfl
  · rw [hnone]
    split <;> rfl

theorem FlightOk.undisturbed {call : Call} {files : List UInt8 → Option DiskFile} {m' : Machine}
    (hok : FlightOk h m flight) (hundisturbed : Undisturbed m call files flight)
    (hdisk : m'.disk = files) (hmemory : m'.page.memory = call.callback.memory) :
    FlightOk h m' flight where
  file path hpath := by
    rw [hok.file path hpath, hdisk, stream_congr (hundisturbed.file path hpath)]
  memory hnone hsome := by
    rw [hok.memory hnone hsome]
    by_cases hhead : flight.request.requestType = .HEAD
    · rw [bodyFor, bodyFor, if_pos hhead, if_pos hhead]
    · rw [← hundisturbed.memory hnone hsome hhead, bytesOf, hmemory]
  sending := hok.sending

theorem FlightOk.congr {m' : Machine} (hok : FlightOk h m flight) (hdisk : m'.disk = m.disk)
    (hmemory : m'.page.memory = m.page.memory) : FlightOk h m' flight where
  file path hpath := by rw [hok.file path hpath, hdisk]
  memory hnone hsome := by rw [hok.memory hnone hsome, bytesOf, bytesOf, hmemory]
  sending := hok.sending

theorem Inv.finish {client : ℕ} {sent : Sent} (hinv : Inv h m)
    (hsent : sent = .notModified ∨ sent.isError = true ∨ flight.expected = some sent) :
    Inv h (m.finish client flight sent) where
  page := hinv.page
  flights other flight' hflight := by
    have hflight : Function.update m.flights client none other = some flight' := hflight
    rw [Function.update_apply] at hflight
    split at hflight
    · cases hflight
    · exact (hinv.flights other flight' hflight).congr rfl rfl
  whole := List.forall_mem_cons.mpr ⟨hsent, hinv.whole⟩

theorem Inv.progress {client offset : ℕ} {bytes : List UInt8} (hinv : Inv h m)
    (hok : FlightOk h m { flight with sending := some (offset, bytes) }) :
    Inv h (m.progress client flight offset bytes) where
  page := hinv.page
  flights other flight' hflight := by
    have hflight : Function.update m.flights client
      (some { flight with sending := some (offset, bytes) }) other = some flight' := hflight
    rw [Function.update_apply] at hflight
    split at hflight
    · cases hflight
      exact hok.congr rfl rfl
    · exact (hinv.flights other flight' hflight).congr rfl rfl
  whole := hinv.whole

theorem Inv.disconnect {client : ℕ} (hinv : Inv h m) :
    Inv h { m with flights := Function.update m.flights client none } where
  page := hinv.page
  flights other flight' hflight := by
    have hflight : Function.update m.flights client none other = some flight' := hflight
    rw [Function.update_apply] at hflight
    split at hflight
    · cases hflight
    · exact (hinv.flights other flight' hflight).congr rfl rfl
  whole := hinv.whole

theorem Inv.header {client : ℕ} (hinv : Inv h m) (hguard : Guard h m (.header client)) :
    Inv h (step h m (.header client)) := by
  unfold step
  dsimp only
  cases hflight : m.flights client with
  | none => exact hinv
  | some flight =>
    have hok := hinv.flights client flight hflight
    dsimp only
    cases hsending : flight.sending with
    | some sending => exact hinv
    | none =>
      dsimp only
      cases hstreamed : flight.served.streamed with
      | some path => exact hinv.finish (.inr (.inr (hok.file path hstreamed)))
      | none =>
        dsimp only
        split
        · rename_i hnothing
          rw [stream_nothing (hguard flight hflight hstreamed hnothing)]
          exact hinv.finish (.inr (.inl rfl))
        · rename_i hsome
          have hexpected := hok.memory hstreamed hsome
          split
          · exact hinv.finish (.inl rfl)
          split
          · rename_i hhead
            rw [bodyFor, if_pos hhead] at hexpected
            exact hinv.finish (.inr (.inr hexpected))
          · rename_i hhead
            refine hinv.progress ⟨hok.file, fun _ _ => ?_, fun _ => ?_⟩
            · rw [hexpected, Flight.bytes, Flight.offset, hsending]
              rfl
            · exact ⟨hstreamed, hsome, hhead, Nat.zero_le _⟩

theorem append_drop_take {bytes full : List UInt8} {offset offset' : ℕ} (hle : offset ≤ offset') :
    bytes ++ (full.drop offset).take (offset' - offset) ++ full.drop offset' =
      bytes ++ full.drop offset := by
  rw [List.append_assoc]
  congr 1
  have hdrop : full.drop offset' = (full.drop offset).drop (offset' - offset) := by
    rw [List.drop_drop, Nat.add_sub_cancel' hle]
  rw [hdrop, List.take_append_drop]

theorem Inv.body {client count : ℕ} (hinv : Inv h m) : Inv h (step h m (.body client count)) := by
  unfold step
  dsimp only
  cases hflight : m.flights client with
  | none => exact hinv
  | some flight =>
    have hok := hinv.flights client flight hflight
    dsimp only
    cases hsending : flight.sending with
    | none => exact hinv
    | some sending =>
      obtain ⟨offset, bytes⟩ := sending
      have hstarted : flight.sending ≠ none := by
        rw [hsending]
        exact Option.some_ne_none _
      obtain ⟨hstreamed, hsome, hhead, hle⟩ := hok.sending hstarted
      have hexpected := hok.memory hstreamed hsome
      have hbytes : flight.bytes = bytes := by
        rw [Flight.bytes, hsending]
        rfl
      have hoffset : flight.offset = offset := by
        rw [Flight.offset, hsending]
        rfl
      rw [hoffset] at hle
      rw [hbytes, hoffset] at hexpected
      have hnext : offset ≤ min (offset + count) flight.served.memSize :=
        le_min (Nat.le_add_right _ _) hle
      rw [← append_drop_take hnext] at hexpected
      dsimp only
      split
      · rename_i hall
        have hnil : (bytesOf m.page flight.served).drop flight.served.memSize = [] := by
          rw [bytesOf, List.drop_eq_nil_iff]
          exact List.length_take_le _ _
        rw [hall] at hexpected ⊢
        rw [hnil, List.append_nil, bodyFor, if_neg hhead] at hexpected
        exact hinv.finish (.inr (.inr hexpected))
      · exact hinv.progress
          ⟨hok.file, fun _ _ => hexpected, fun _ => ⟨hstreamed, hsome, hhead, min_le_right _ _⟩⟩

theorem Inv.cut {client : ℕ} (hinv : Inv h m) (hguard : Guard h m (.cut client)) :
    Inv h (step h m (.cut client)) := by
  unfold step
  dsimp only
  cases hflight : m.flights client with
  | none => exact hinv
  | some flight =>
    dsimp only
    rw [hguard flight hflight]
    exact hinv

theorem responseCode_repeatable {code : ℕ} (hcode : code = 0 ∨ code = 200) :
    responseCode code = responseCode 0 := by
  rcases hcode with rfl | rfl <;> rfl

theorem answer_streamed {e : Execution} {disk : List UInt8 → Option DiskFile} {request : Request}
    {path : List UInt8} (hpath : Execution.path e = some path) :
    answer h e disk request = stream h disk request path e.headerResponse := by
  rw [answer, hpath]

theorem answer_memory {e : Execution} {disk : List UInt8 → Option DiskFile} {request : Request}
    (hpath : Execution.path e = none) :
    answer h e disk request = .memory (responseCode e.headerResponse)
      (bodyFor request ((e.memory e.content).take e.contentSize)) := by
  rw [answer, hpath]

/-- What a request takes from its locked part. -/
structure ServeOk (h : Handler) (m : Machine) (request : Request) (clock : ℕ) (call : Call)
    (files : List UInt8 → Option DiskFile) (served : Served) (page : Page) : Prop where
  pageOk : PageOk page (if served.executed then some (call.callback, files) else m.latest)
  flightOk : FlightOk h
    { m with page, disk := if served.executed then files else m.disk }
    { request
      served
      sending := none
      expected := (if served.executed then some (call.callback, files) else m.latest).map
        fun latest => answer h latest.1 latest.2 request }
  runs : served.executed = true → Runs m.page clock call ∧ page.memory = call.callback.memory
  quiet : served.executed = false → page.memory = m.page.memory

variable {request : Request} {clock : ℕ} {call : Call} {files : List UInt8 → Option DiskFile}

theorem ServeOk.nothing {served : Served} {page : Page} (hpage : PageOk page m.latest)
    (hmemory : page.memory = m.page.memory) (hexecuted : served.executed = false)
    (hstreamed : served.streamed = none) (hnothing : served.mem = 0 ∨ served.memSize = 0) :
    ServeOk h m request clock call files served page where
  pageOk := by
    rw [hexecuted, if_neg Bool.false_ne_true]
    exact hpage
  flightOk :=
    { file := fun path hpath => by
        have hpath : served.streamed = some path := hpath
        rw [hstreamed] at hpath
        cases hpath
      memory := fun _ hsome => absurd hnothing hsome
      sending := fun hsending => absurd rfl hsending }
  runs hyes := by
    rw [hexecuted] at hyes
    cases hyes
  quiet _ := hmemory

theorem ServeOk.cooled (hpage : PageOk m.page m.latest) {free : Bool}
    (hrepeatable : ∀ e disk, m.latest = some (e, disk) → Repeatable e) :
    ServeOk h m request clock call files
      { Served.nothing with
        mem := m.page.shared_context.content
        memSize := m.page.shared_context.contentSize
        freeContentAfterUsingIt := free }
      { m.page with shared_context := { m.page.shared_context with callback_cooldown := true } }
    where
  pageOk := ⟨⟨hpage.same.1, hpage.same.2⟩, hpage.untouched, hpage.content⟩
  flightOk :=
    { file := fun _ hpath => by cases hpath
      sending := fun hsending => absurd rfl hsending
      memory := fun _ hsome => by
        obtain ⟨hmem, hsize⟩ := not_or.mp hsome
        show m.latest.map _ = some (Sent.memory (responseCode 0) (bodyFor request
          ((m.page.memory m.page.shared_context.content).take m.page.shared_context.contentSize)))
        cases hlatest : m.latest with
        | none => exact absurd (hpage.untouched hlatest) hsize
        | some latest =>
          obtain ⟨e, disk⟩ := latest
          obtain ⟨hcontent, hcontentSize, hmemory⟩ := hpage.content e disk hlatest
          rcases hrepeatable e disk hlatest with hzero | hzero | ⟨hcode, hfile⟩
          · exact absurd (hcontent.trans hzero) hmem
          · exact absurd (hcontentSize.trans hzero) hsize
          · have hpath : Execution.path e = none := by
              rw [Execution.path, hfile]
              rfl
            rw [Option.map_some, answer_memory hpath, responseCode_repeatable hcode, hcontent,
              hcontentSize, hmemory] }
  runs hyes := by cases hyes
  quiet _ := rfl

theorem ServeOk.executed (hpage : PageOk m.page m.latest) (hruns : Runs m.page clock call)
    {now mem : ℕ} {free : Bool} :
    ServeOk h m request clock call files (executeCallback m.page now mem free call).1
      (executeCallback m.page now mem free call).2 := by
  simp only [executeCallback, hruns.2.2.2, hpage.same.needsSamePageForAllClients, if_true]
  constructor
  · refine ⟨⟨hpage.same.1, rfl⟩, (fun hnone => by cases hnone), fun e disk hlatest => ?_⟩
    cases hlatest
    exact ⟨rfl, rfl, rfl⟩
  · refine ⟨fun path hpath => ?_, fun hnone hsome => ?_, fun hsending => absurd rfl hsending⟩
    · exact congrArg some (answer_streamed hpath)
    · exact congrArg some (answer_memory hnone)
  · exact fun _ => ⟨hruns, rfl⟩
  · intro hnot
    cases hnot

theorem Inv.serveOk (hinv : Inv h m)
    (hcooled : (checkRequestFrequency m.page.shared_context clock).1 = .tooFastServeCached →
      ∀ e disk, m.latest = some (e, disk) → Repeatable e) :
    ServeOk h m request clock call files (dynamicRequestServeContent m.page clock call).1
      (dynamicRequestServeContent m.page clock call).2 := by
  have hsame := hinv.page.same
  have hdifferent := hsame.needsDifferentPageForEachClient
  rcases serveContent_cases m.page clock call with
    ⟨free, heq⟩ | ⟨mem, free, hcached, hmem, heq⟩ | ⟨now, mem, free, hfresh, hmax, hcontent, heq⟩
  · rw [heq]
    exact .nothing hinv.page rfl rfl rfl (.inl rfl)
  · rw [heq, hmem hdifferent hsame.needsSamePageForAllClients]
    exact .cooled hinv.page (hcooled hcached)
  · rw [heq]
    by_cases hrqst : call.rqst = true
    · exact .executed hinv.page
        ⟨hcontent hdifferent hsame.needsSamePageForAllClients, hmax, hfresh, hrqst⟩
    · rw [executeCallback, if_neg hrqst]
      exact .nothing ⟨⟨hsame.1, hsame.2⟩, hinv.page.untouched, hinv.page.content⟩ rfl rfl rfl
        (.inr rfl)

theorem Inv.serve {client : ℕ} (hinv : Inv h m)
    (hguard : Guard h m (.serve client request clock call files)) :
    Inv h (step h m (.serve client request clock call files)) := by
  unfold step
  dsimp only
  cases hflight : m.flights client with
  | some flight => exact hinv
  | none =>
    obtain ⟨hdisturbed, hcooled⟩ := hguard
    have hok := @Inv.serveOk h m request clock call files hinv hcooled
    generalize dynamicRequestServeContent m.page clock call = answered at hok ⊢
    obtain ⟨served, page⟩ := answered
    refine ⟨hok.pageOk, fun other flight hother => ?_, hinv.whole⟩
    have hother : Function.update m.flights client (some _) other = some flight := hother
    rw [Function.update_apply] at hother
    split at hother
    · cases hother
      exact hok.flightOk.congr rfl rfl
    · have hbefore := hinv.flights other flight hother
      cases hexecuted : served.executed with
      | true =>
        obtain ⟨hruns, hmemory⟩ := hok.runs hexecuted
        exact hbefore.undisturbed (hdisturbed hruns other flight hother) rfl hmemory
      | false => exact hbefore.congr rfl (hok.quiet hexecuted)

theorem Inv.step {event : Event} (hinv : Inv h m) (hguard : Guard h m event) :
    Inv h (step h m event) := by
  cases event with
  | serve client request clock call files => exact hinv.serve hguard
  | header client => exact hinv.header hguard
  | body client count => exact hinv.body
  | cut client => exact hinv.cut hguard
  | disconnect client => exact hinv.disconnect

variable {callback_every_x_msec content MAXcontentSize : ℕ} {memory : ℕ → List UInt8}
  {disk : List UInt8 → Option DiskFile}

theorem inv_start : Inv h (start callback_every_x_msec content MAXcontentSize memory disk) where
  page := ⟨⟨rfl, rfl⟩, fun _ => rfl, fun _ _ hlatest => by cases hlatest⟩
  flights _ _ hflight := by cases hflight
  whole _ hx := absurd hx List.not_mem_nil

/-- Where no callback disturbs what is still to send, and no request comes into the cooldown of a
status code or of a file, every answer is whole. -/
theorem whole_of_undisturbed (h : Handler) (callback_every_x_msec content MAXcontentSize : ℕ)
    (memory : ℕ → List UInt8) (disk : List UInt8 → Option DiskFile) {m : Machine}
    (hrun : Reaches (SharedPages.step h) (Guard h)
      (start callback_every_x_msec content MAXcontentSize memory disk) m) : Whole m := by
  have hinv : Inv h m := hrun.invariant inv_start fun m event hinv hguard => hinv.step hguard
  exact hinv.whole

/-- A callback that fills the buffer with two bytes. -/
def twoBytes (c : UInt8) : Call :=
  { page := 0
    rqst := true
    callback :=
      { content := 1
        contentSize := 2
        MAXcontentSize := 64
        headerResponse := 0
        contentContainsPathToFileToBeStreamed := false
        memory := fun _ => [c, c] } }

def getPage : Request :=
  { requestType := .GET
    keepalive := true
    eTag := none
    ifModifiedSince := none
    ifUnmodifiedSince := none
    range := .ignored }

def handler : Handler :=
  { filename := [112], cacheVersionETag := 7, doNOTCacheRule := false, resolves := fun _ => true }

/-- A request that runs the callback, and one in the cooldown behind it. -/
theorem twoClients_whole :
    Whole (step handler (step handler (step handler (step handler (step handler
      (start 500 1 64 (fun _ => []) fun _ => none)
      (.serve 1 getPage 1000 (twoBytes 65) fun _ => none)) (.header 1)) (.body 1 2))
      (.serve 2 getPage 1100 (twoBytes 66) fun _ => none)) (.header 2)) := by
  apply whole_of_undisturbed handler 500 1 64 (fun _ => []) fun _ => none
  refine .step _ (.step _ (.step _ (.step _ (.step _ .start ?_) ?_) trivial) ?_) ?_
  · exact ⟨fun _ client flight hflight => (by cases hflight),
      fun _ e disk hlatest => (by cases hlatest)⟩
  · exact fun _ _ _ _ => .inr rfl
  · refine ⟨fun hruns => absurd hruns.2.2.1 (by decide), fun _ e disk hlatest => ?_⟩
    cases hlatest
    exact .inr (.inr ⟨.inl rfl, rfl⟩)
  · exact fun _ _ _ _ => .inr rfl

/-- The callback of a second request overwrites what a first one has still to send. -/
theorem overwritten_not_whole :
    ¬Whole ([.serve 1 getPage 1000 (twoBytes 65) fun _ => none, .header 1, .body 1 1,
      .serve 2 getPage 2000 (twoBytes 66) fun _ => none, .body 1 1].foldl (step handler)
        (start 500 1 64 (fun _ => []) fun _ => none)) := by
  unfold Whole
  decide

end AmmarServer.Network.SharedPages
