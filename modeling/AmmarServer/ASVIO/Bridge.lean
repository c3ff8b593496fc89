import AmmarServer.Lib.LinkRemoval
import AmmarServer.Network.FileServer

/-! `ASVIO/bridge/asvio.c`: the jobs between the handlers of the server and the side that runs them.
A record is known by how many were put on the lists before it. -/

namespace AmmarServer.Asvio
open CString LinkQueue

def ASVIO_FINISHED_JOB_LIFETIME : ℤ := 600
def ASVIO_MAX_JOBS : ℕ := 4096
def ASVIO_MAX_API_LENGTH : ℕ := 255
def ASVIO_MAX_SESSION_LENGTH : ℕ := 64
def ASVIO_STATUS_SIZE : ℕ := 16
def ASVIO_SMALL_RESPONSE : ℕ := 4096
def ASVIO_MAX_FILES : ℕ := 32
def MAX_HTTP_POST_BOUNDARY_COUNT : ℕ := 32

inductive State
  | queued
  | taken
  | finished
deriving DecidableEq, Repr

/-- `none` is a null pointer. -/
structure File where
  field : Option (List UInt8)
  filename : Option (List UInt8)
  content : Option (List UInt8)
deriving DecidableEq, Repr

structure Job where
  id : List UInt8
  api : Option (List UInt8)
  session : Option (List UInt8)
  data : Option (List UInt8)
  files : List File
deriving DecidableEq, Repr

structure Record where
  job : Job
  state : State
  status : List UInt8
  seq : UInt32
  payload : Option (List UInt8)
  cancelRequested : Bool
  finishedAt : ℤ
deriving DecidableEq, Repr

/-- The variables under the lock, and the records that `asvio_next_job` has returned. -/
structure Bridge where
  record : ℕ → Record
  next : ℕ → Option ℕ
  nextQueued : ℕ → Option ℕ
  jobs : Option ℕ
  numberOfJobs : ℕ
  queueHead : Option ℕ
  queueTail : Option ℕ
  stopping : Bool
  allocated : ℕ
  handedOut : List ℕ

structure Reply where
  headerResponse : ℕ
  content : List UInt8
deriving DecidableEq, Repr

def reply (MAXcontentSize statusCode : ℕ) (json : List UInt8) : Reply :=
  { headerResponse := statusCode
    content := json.take (MAXcontentSize - 1) }

/-- `none` when `malloc` fails. -/
def copyString (memory : Bool) (text : Option (List UInt8)) : Option (List UInt8) :=
  if memory then some (text.getD []) else none

/-- `freeJobInput`. -/
def Job.free (job : Job) : Job :=
  { job with
    api := none
    session := none
    data := none
    files := [] }

namespace Bridge

def start : Bridge where
  record := fun _ =>
    { job := { id := [], api := none, session := none, data := none, files := [] }
      state := .queued
      status := []
      seq := 0
      payload := none
      cancelRequested := false
      finishedAt := 0 }
  next := fun _ => none
  nextQueued := fun _ => none
  jobs := none
  numberOfJobs := 0
  queueHead := none
  queueTail := none
  stopping := false
  allocated := 0
  handedOut := []

variable (s : Bridge)

def setRecord (i : ℕ) (record : Record) : Bridge :=
  { s with record := Function.update s.record i record }

/-- The records from `jobs` along `next`. -/
def remembered : List ℕ := walk s.next s.allocated s.jobs

def findJob (jobID : List UInt8) : Option ℕ :=
  s.remembered.find? fun i => (s.record i).job.id = jobID

/-- The condition under which `forgetOldJobs` frees a record. -/
def isOld (now : ℤ) (i : ℕ) : Bool :=
  (s.record i).state = .finished ∧ ASVIO_FINISHED_JOB_LIFETIME < now - (s.record i).finishedAt

/-- The loop of `forgetOldJobs`: `link` is the address of `jobs` or of the `next` of a record. -/
def forgetFrom (now : ℤ) : ℕ → Option ℕ → Bridge → Bridge
  | 0, _, s => s
  | fuel + 1, link, s =>
    match link.elim s.jobs s.next with
    | none => s
    | some record =>
      if s.isOld now record then
        forgetFrom now fuel link
          { s with
            jobs := if link = none then s.next record else s.jobs
            next := relink s.next link (s.next record)
            numberOfJobs := s.numberOfJobs - 1 }
      else forgetFrom now fuel (some record) s

def forgetOldJobs (now : ℤ) : Bridge := forgetFrom now (s.allocated + 1) none s

def removeFromQueue (target : ℕ) : Bridge :=
  match findPrevious s.nextQueued target s.allocated none s.queueHead with
  | none => s
  | some previous =>
    { s with
      queueHead := if previous = none then s.nextQueued target else s.queueHead
      nextQueued :=
        Function.update (relink s.nextQueued previous (s.nextQueued target)) target none
      queueTail := if s.queueTail = some target then previous else s.queueTail }

end Bridge

/-! `runCallback`. -/

/-- `%02x`. -/
def hexByte (c : UInt8) : List UInt8 :=
  let digit := fun n : ℕ => UInt8.ofNat (if n < 10 then 48 + n else 87 + n)
  [digit (c.toNat / 16), digit (c.toNat % 16)]

/-- The bytes of `getrandom`, of which there may be too few. -/
def makeJobID (random : List UInt8) : Option (List UInt8) :=
  if random.length = 16 then some (random.flatMap hexByte) else none

def isSafe (allowSlash : Bool) (c : UInt8) : Bool :=
  (97 ≤ c && c ≤ 122) || (65 ≤ c && c ≤ 90) || (48 ≤ c && c ≤ 57) || c == 95 || c == 45 ||
    (c == 47 && allowSlash)

def safeString (str : List UInt8) (maxLength : ℕ) (allowSlash : Bool) : Bool :=
  (cstring str).all (isSafe allowSlash) && (cstring str).length ≤ maxLength

structure PostItem where
  name : Option (List UInt8)
  filename : Option (List UInt8)
  value : Option (List UInt8)
deriving DecidableEq, Repr

/-- The request, and what the allocator, `getrandom` and `time` answer: `memory` by the number of
the call of `copyString`. -/
structure RunRequest where
  POSTItem : List PostItem
  calloc : Bool
  memory : ℕ → Bool
  random : List UInt8
  now : ℤ

structure Parse where
  job : Job
  outOfMemory : Bool
  calls : ℕ

def Parse.item (memory : ℕ → Bool) (p : Parse) (item : PostItem) : Parse :=
  match item.name with
  | none => p
  | some name =>
    if (item.filename.getD []).length ≠ 0 then
      if ASVIO_MAX_FILES ≤ p.job.files.length then p
      else
        let field := copyString (memory p.calls) (some name)
        let filename := copyString (memory (p.calls + 1)) item.filename
        let content := copyString (memory (p.calls + 2)) item.value
        { job := { p.job with files := p.job.files ++ [⟨field, filename, content⟩] }
          outOfMemory := p.outOfMemory || field.isNone || filename.isNone || content.isNone
          calls := p.calls + 3 }
    else if cstring name = ascii "api" ∧ p.job.api = none then
      let api := copyString (memory p.calls) item.value
      { job := { p.job with api }
        outOfMemory := p.outOfMemory || api.isNone
        calls := p.calls + 1 }
    else if cstring name = ascii "session" ∧ p.job.session = none then
      let session := copyString (memory p.calls) item.value
      { job := { p.job with session }
        outOfMemory := p.outOfMemory || session.isNone
        calls := p.calls + 1 }
    else if cstring name = ascii "data" ∧ p.job.data = none then
      let data := copyString (memory p.calls) item.value
      { job := { p.job with data }
        outOfMemory := p.outOfMemory || data.isNone
        calls := p.calls + 1 }
    else p

/-- `runCallback` before it takes the lock. -/
def parseRun (rqst : RunRequest) : Except Reply Job :=
  let outOfMemory := Except.error (reply ASVIO_SMALL_RESPONSE 500
    (ascii "\x7b\"error\":\"out of memory\"\x7d"))
  let bad := fun json => Except.error (reply ASVIO_SMALL_RESPONSE 400 json)
  if ¬rqst.calloc then outOfMemory
  else
    let p := (rqst.POSTItem.take MAX_HTTP_POST_BOUNDARY_COUNT).foldl (Parse.item rqst.memory)
      { job := { id := [], api := none, session := none, data := none, files := [] }
        outOfMemory := false
        calls := 0 }
    if p.outOfMemory then outOfMemory
    else
      match p.job.api, p.job.data with
      | some api, some _ =>
        match p.job.session.or (copyString (rqst.memory p.calls) none) with
        | none => outOfMemory
        | some session =>
          if ¬safeString api ASVIO_MAX_API_LENGTH true then
            bad (ascii "\x7b\"error\":\"bad api name\"\x7d")
          else if ¬safeString session ASVIO_MAX_SESSION_LENGTH false then
            bad (ascii "\x7b\"error\":\"bad session\"\x7d")
          else
            match makeJobID rqst.random with
            | none => .error (reply ASVIO_SMALL_RESPONSE 500
                (ascii "\x7b\"error\":\"no randomness for a job id\"\x7d"))
            | some id => .ok { p.job with id, session := some session }
      | _, _ => bad (ascii "\x7b\"error\":\"a run needs multipart api and data fields\"\x7d")

namespace Bridge
variable (s : Bridge)

/-- The new record is the first of the jobs and the last of the queue. -/
def push (job : Job) : Bridge :=
  let record := s.allocated
  { s with
    record := Function.update s.record record
      { job
        state := .queued
        status := ascii "queued"
        seq := 0
        payload := none
        cancelRequested := false
        finishedAt := 0 }
    next := Function.update s.next record s.jobs
    jobs := some record
    numberOfJobs := s.numberOfJobs + 1
    queueHead := if s.queueTail = none then some record else s.queueHead
    nextQueued := relink (Function.update s.nextQueued record none) s.queueTail (some record)
    queueTail := some record
    allocated := s.allocated + 1 }

def runCallback (rqst : RunRequest) : Reply × Bridge :=
  match parseRun rqst with
  | .error reply => (reply, s)
  | .ok job =>
    let s := s.forgetOldJobs rqst.now
    if s.stopping ∨ ASVIO_MAX_JOBS ≤ s.numberOfJobs then
      (reply ASVIO_SMALL_RESPONSE 503 (ascii "\x7b\"error\":\"server is busy\"\x7d"), s)
    else
      (reply ASVIO_SMALL_RESPONSE 200 (ascii "\x7b\"job\":\"" ++ job.id ++ ascii "\"\x7d"), s.push job)

end Bridge

/-! `pollCallback` and `cancelCallback`. -/

def Record.cancel (record : Record) (now : ℤ) : Record :=
  { record with
    job := record.job.free
    state := .finished
    finishedAt := now
    status := ascii "cancelled"
    seq := record.seq + 1 }

/-- What a poll shows of a record. -/
structure View where
  seq : UInt32
  status : List UInt8
  payload : Option (List UInt8)
deriving DecidableEq, Repr

def Record.view (record : Record) : View := ⟨record.seq, record.status, record.payload⟩

def pollHeader (id : List UInt8) (view : View) : List UInt8 :=
  ascii "\x7b\"job\":\"" ++ id ++ ascii "\",\"seq\":" ++ Network.decimal view.seq.toNat ++
    ascii ",\"status\":\"" ++ view.status ++ ascii "\",\"data\":"

def pollReply (MAXcontentSize : ℕ) (record : Record) : Reply :=
  let header := pollHeader record.job.id record.view
  let body := record.payload.getD (ascii "null")
  if MAXcontentSize < header.length + body.length + 2 then
    reply MAXcontentSize 500 (ascii
      "\x7b\"error\":\"output is larger than the poll response buffer , return big outputs as files\"\x7d")
  else { headerResponse := 200, content := header ++ body ++ ascii "\x7d" }

structure PollRequest where
  /-- `none` when `_GETcpy` fails. -/
  jobID : Option (List UInt8)
  seen : UInt32
  MAXcontentSize : ℕ
  /-- The wait before this look ended with `ETIMEDOUT`. -/
  timedOut : Bool

namespace Bridge
variable (s : Bridge)

/-- One look of `pollCallback` at the jobs, behind which it waits if there is no reply. -/
def pollCallback (rqst : PollRequest) : Option Reply :=
  match rqst.jobID with
  | none => some (reply rqst.MAXcontentSize 400 (ascii "\x7b\"error\":\"poll needs a job\"\x7d"))
  | some jobID =>
    match s.findJob jobID with
    | none => some (reply rqst.MAXcontentSize 404 (ascii "\x7b\"error\":\"unknown job\"\x7d"))
    | some i =>
      if ¬s.stopping ∧ (s.record i).state ≠ .finished ∧ (s.record i).seq ≤ rqst.seen ∧
          ¬rqst.timedOut then none
      else some (pollReply rqst.MAXcontentSize (s.record i))

def cancelCallback (jobID : Option (List UInt8)) (now : ℤ) : Reply × Bridge :=
  match jobID with
  | none =>
    (reply ASVIO_SMALL_RESPONSE 400 (ascii "\x7b\"error\":\"cancel needs a job\"\x7d"), s)
  | some jobID =>
    match s.findJob jobID with
    | none => (reply ASVIO_SMALL_RESPONSE 404 (ascii "\x7b\"error\":\"unknown job\"\x7d"), s)
    | some i =>
      let record := s.record i
      let s :=
        match record.state with
        | .queued =>
          (s.removeFromQueue i).setRecord i (record.cancel now)
        | .taken => s.setRecord i { record with cancelRequested := true }
        | .finished => s
      (reply ASVIO_SMALL_RESPONSE 200 (ascii "\x7b\"ok\":1\x7d"), s)

/-- `asvio_next_job` once it waits no more. -/
def asvioNextJob : Option ℕ × Bridge :=
  match s.queueHead with
  | none => (none, s)
  | some i =>
    if s.stopping then (none, s)
    else
      (some i, (s.removeFromQueue i).setRecord i { s.record i with state := .taken })

end Bridge

/-! `publish`. -/

structure Publication where
  jobID : Option (List UInt8)
  status : Option (List UInt8)
  payload : Option (List UInt8)
  memory : Bool
  now : ℤ

/-- Only plain lower case words are taken. -/
def newStatus (status : Option (List UInt8)) (final : Bool) : List UInt8 :=
  let plain := fun status : List UInt8 =>
    status ≠ [] ∧ status.length < ASVIO_STATUS_SIZE ∧ status.all fun c => 97 ≤ c && c ≤ 122
  (status.filter fun status => plain status).getD (ascii (if final then "done" else "running"))

def Record.publish (record : Record) (p : Publication) (final : Bool) : Record :=
  let record := { record with
    payload := p.payload.or record.payload
    status := newStatus p.status final
    seq := record.seq + 1 }
  if final then { record with state := .finished, finishedAt := p.now, job := record.job.free }
  else record

namespace Bridge
variable (s : Bridge)

def publish (p : Publication) (final : Bool) : Bool × Bridge :=
  match p.jobID with
  | none => (false, s)
  | some jobID =>
    if p.payload ≠ none ∧ ¬p.memory then (false, s)
    else
      match s.findJob jobID with
      | none => (false, s)
      | some i =>
        if (s.record i).state ≠ .taken then (false, s)
        else (true, s.setRecord i ((s.record i).publish p final))

def asvioJobUpdate (p : Publication) : Bool × Bridge := s.publish p false

def asvioJobFinish (p : Publication) : Bool × Bridge := s.publish p true

def asvioJobCancelled (jobID : Option (List UInt8)) : Bool :=
  ((jobID.bind s.findJob).map fun i => (s.record i).cancelRequested).getD false

end Bridge

/-! The critical sections, in any order. -/

inductive Event
  | run (rqst : RunRequest)
  | poll (rqst : PollRequest)
  | cancel (jobID : Option (List UInt8)) (now : ℤ)
  | nextJob
  | update (p : Publication)
  | finish (p : Publication)
  | cancelled (jobID : Option (List UInt8))
  /-- `asvio_start` and `asvio_stop` under the lock. -/
  | setStopping (stopping : Bool)

inductive Answer
  | reply (reply : Option Reply)
  | job (i : Option ℕ)
  | flag (flag : Bool)

def act (s : Bridge) : Event → Answer × Bridge
  | .run rqst => (.reply (some (s.runCallback rqst).1), (s.runCallback rqst).2)
  | .poll rqst => (.reply (s.pollCallback rqst), s)
  | .cancel jobID now =>
    (.reply (some (s.cancelCallback jobID now).1), (s.cancelCallback jobID now).2)
  | .nextJob => (.job s.asvioNextJob.1, s.asvioNextJob.2)
  | .update p => (.flag (s.asvioJobUpdate p).1, (s.asvioJobUpdate p).2)
  | .finish p => (.flag (s.asvioJobFinish p).1, (s.asvioJobFinish p).2)
  | .cancelled jobID => (.flag (s.asvioJobCancelled jobID), s)
  | .setStopping stopping => (.flag true, { s with stopping })

def Answer.handedOut : Answer → List ℕ
  | .job (some i) => [i]
  | _ => []

def step (s : Bridge) (e : Event) : Bridge :=
  { (act s e).2 with handedOut := (act s e).1.handedOut ++ s.handedOut }

/-! What the jobs are to keep. -/

/-- The queue holds the records in state `queued`, the oldest first, and the list of the jobs holds
every record that is not finished. -/
structure Sound (s : Bridge) : Prop where
  queue : ∃ l : List ℕ, Represents s.queueHead s.queueTail s.nextQueued
    (fun i => decide (i < s.allocated ∧ (s.record i).state = .queued)) l ∧ l.Pairwise (· < ·)
  handedOut : s.handedOut.Nodup
  jobs : ∃ l : List ℕ, s.jobs = l.head? ∧ Linked s.next l ∧ l.Nodup ∧ s.numberOfJobs = l.length ∧
    ∀ i < s.allocated, (s.record i).state ≠ .finished → i ∈ l
  numberOfJobs_le : s.numberOfJobs ≤ ASVIO_MAX_JOBS

/-- What an event may make of the state of a record. -/
inductive Follows : State → State → Prop
  | stay (state : State) : Follows state state
  | take : Follows .queued .taken
  | finish : Follows .taken .finished
  | cancel : Follows .queued .finished

structure Moves (s : Bridge) (e : Event) (s' : Bridge) : Prop where
  state : ∀ i < s.allocated, Follows (s.record i).state (s'.record i).state
  seq : ∀ i < s.allocated, (s'.record i).view ≠ (s.record i).view →
    (s.record i).seq < (s'.record i).seq
  payload : ∀ i < s.allocated, (s.record i).state = .finished →
    (s'.record i).payload = (s.record i).payload
  forgotten : ∀ i ∈ s.remembered, i ∉ s'.remembered → (s.record i).state = .finished ∧
    ∃ rqst, e = .run rqst ∧ ASVIO_FINISHED_JOB_LIFETIME < rqst.now - (s.record i).finishedAt

/-- No job that is published to has come to the last number of its `seq`. -/
def Counted (s : Bridge) : Event → Prop
  | .update p | .finish p => ∀ jobID i, p.jobID = some jobID → s.findJob jobID = some i →
      (s.record i).state = .taken → (s.record i).seq ≠ 2 ^ 32 - 1
  | _ => True

end AmmarServer.Asvio
