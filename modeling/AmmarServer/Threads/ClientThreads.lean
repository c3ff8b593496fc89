import AmmarServer.Lib.Run
import Mathlib.Data.List.Perm.Subperm
import Mathlib.Data.UInt

/-! What a connection takes and gives back: its socket, the thread that serves it and the counters
of `threads/freshThreads.c`, from `accept` in `threads/threadedServer.c` through
`epollFastPathServer.c`, `prespawnedThreads.c` and `clientServer.c` to its end. A thread is created
and counted in one step, and the increments of the counters are atomic. -/

namespace AmmarServer.ClientThreads
open Run

def MAX_CLIENT_THREADS : ℕ := 3000

def MAX_TRIES_TO_FIND_A_THREAD_ID : ℕ := 5

/-- The thread that serves a client. -/
inductive Worker
  | fresh (threadID : ℕ)
  | prespawned (candidate : ℕ)
deriving DecidableEq, Repr

structure Client where
  connection : ℕ
  worker : Worker
  is_ssl_connection : Bool
deriving DecidableEq, Repr

/-- An accepted connection that has not sent a byte yet. -/
structure PendingAccept where
  connection : ℕ
  is_ssl_connection : Bool
deriving DecidableEq, Repr

/-- A response of the fast path that waits for room in the socket. -/
structure PendingWrite where
  connection : ℕ
  keepalive : Bool
deriving DecidableEq, Repr

structure Server where
  MAX_CLIENT_PRESPAWNED_THREADS : ℕ
  sslAvailable : Bool
  CLIENT_THREADS_STARTED : UInt32
  CLIENT_THREADS_STOPPED : UInt32
  /-- The slots that are not zero. -/
  threads_pool : ℕ → Bool
  prespawned_busy : ℕ → Bool
  prespawn_turn_to_serve : ℕ
  accepted : ℕ
  waiting : List PendingAccept
  writing : List PendingWrite
  served : List Client
  /-- How often the socket of a connection was closed. -/
  closes : ℕ → ℕ

/-- What the system calls of `SpawnThreadToServeNewClient` answer. A `pthread_create` that fails
leaves anything in the slot. -/
structure Spawn where
  contextAllocated : Bool
  created : Bool
  leftInSlot : Bool

/-- What `EpollFastPath_TryServe` makes of a connection. -/
inductive FastPath
  /-- Nothing was served, or the connection goes on behind what was. -/
  | toWorker
  | closed
  | pendingWrite (keepalive : Bool)

/-- What `EpollFastPath_ResumeWrite` comes by. -/
inductive Resumed
  | again
  | failed
  | finished

/-- How serving a client goes: the handshake, if it is due, and the timeouts of the socket. Whatever
follows ends in one place. -/
structure Served where
  handshake : Bool
  timeouts : Bool

inductive Event
  | accept (is_ssl_connection : Bool)
  | dispatch (connection : ℕ) (fastPath : FastPath) (spawn : Spawn)
  | resumeWrite (connection : ℕ) (resumed : Resumed) (spawn : Spawn)
  | exit (connection : ℕ) (result : Served)

def Server.close (s : Server) (connection : ℕ) : Server :=
  { s with closes := fun n => if n = connection then s.closes n + 1 else s.closes n }

/-- The loop of `FindAProperThreadID`. -/
def findAProperThreadIDLoop (threads_pool : ℕ → Bool) : ℕ → ℕ → Option ℕ
  | 0, _ => none
  | tries + 1, starting_from =>
    ((List.range' starting_from (MAX_CLIENT_THREADS - starting_from)).find?
      fun i => !threads_pool i).or (findAProperThreadIDLoop threads_pool tries 0)

/-- `FindAProperThreadID`. -/
def findAProperThreadID (s : Server) : Option ℕ :=
  findAProperThreadIDLoop s.threads_pool MAX_TRIES_TO_FIND_A_THREAD_ID
    (s.CLIENT_THREADS_STARTED.toNat % MAX_CLIENT_THREADS)

/-- `UsePreSpawnedThreadToServeNewClient`; `none`: it answers 0. -/
def usePreSpawnedThread (s : Server) (connection : ℕ) (is_ssl_connection : Bool) : Option Server :=
  if s.MAX_CLIENT_PRESPAWNED_THREADS = 0 then none
  else
    let turn :=
      if s.MAX_CLIENT_PRESPAWNED_THREADS ≤ s.prespawn_turn_to_serve then 0
      else s.prespawn_turn_to_serve
    let candidate :=
      if s.prespawned_busy turn then
        (List.range s.MAX_CLIENT_PRESPAWNED_THREADS).find? fun i => !s.prespawned_busy i
      else some turn
    candidate.map fun candidate =>
      { s with
        prespawned_busy := fun i => if i = candidate then true else s.prespawned_busy i
        prespawn_turn_to_serve := (candidate + 1) % s.MAX_CLIENT_PRESPAWNED_THREADS
        served := ⟨connection, .prespawned candidate, is_ssl_connection⟩ :: s.served }

/-- `SpawnThreadToServeNewClient`: its answer, and the server behind it. -/
def spawnThreadToServeNewClient (s : Server) (connection : ℕ) (is_ssl_connection : Bool)
    (spawn : Spawn) : Bool × Server :=
  if UInt32.ofNat MAX_CLIENT_THREADS ≤ s.CLIENT_THREADS_STARTED - s.CLIENT_THREADS_STOPPED then
    (false, s)
  else
    match findAProperThreadID s with
    | none => (false, s)
    | some threadID =>
      if !spawn.contextAllocated then (false, s)
      else if !spawn.created then
        (false,
          { s with
            threads_pool := fun i => if i = threadID then spawn.leftInSlot else s.threads_pool i })
      else
        (true,
          { s with
            threads_pool := fun i => if i = threadID then true else s.threads_pool i
            CLIENT_THREADS_STARTED := s.CLIENT_THREADS_STARTED + 1
            served := ⟨connection, .fresh threadID, is_ssl_connection⟩ :: s.served })

/-- `dispatch_accepted_client` and `DispatchContinuationToWorker`. -/
def dispatchToWorker (s : Server) (connection : ℕ) (is_ssl_connection : Bool) (spawn : Spawn) :
    Server :=
  match usePreSpawnedThread s connection is_ssl_connection with
  | some s => s
  | none =>
    match spawnThreadToServeNewClient s connection is_ssl_connection spawn with
    | (true, s) => s
    | (false, s) => s.close connection

/-- `ServeClientInternal` and what comes before it in `ServeClientAfterUnpackingThreadMessage`. -/
def serveClient (s : Server) (client : Client) (result : Served) : Server :=
  if client.is_ssl_connection ∧ s.sslAvailable ∧ !result.handshake then s.close client.connection
  else if !result.timeouts then s
  else
    let s := s.close client.connection
    match client.worker with
    | .prespawned _ => s
    | .fresh threadID =>
      { s with
        threads_pool := fun i => if i = threadID then false else s.threads_pool i
        CLIENT_THREADS_STOPPED := s.CLIENT_THREADS_STOPPED + 1 }

/-- The thread is done with the client. -/
def endClient (s : Server) (client : Client) (result : Served) : Server :=
  let s := serveClient { s with served := s.served.erase client } client result
  match client.worker with
  | .fresh _ => s
  | .prespawned candidate =>
    { s with
      prespawned_busy := fun i => if i = candidate then false else s.prespawned_busy i }

def step (s : Server) : Event → Server
  | .accept is_ssl_connection =>
    { s with
      accepted := s.accepted + 1
      waiting := ⟨s.accepted, is_ssl_connection⟩ :: s.waiting }
  | .dispatch connection fastPath spawn =>
    match s.waiting.find? (·.connection = connection) with
    | none => s
    | some pending =>
      let s := { s with waiting := s.waiting.erase pending }
      if pending.is_ssl_connection then
        dispatchToWorker s connection pending.is_ssl_connection spawn
      else
        match fastPath with
        | .toWorker => dispatchToWorker s connection pending.is_ssl_connection spawn
        | .closed => s.close connection
        | .pendingWrite keepalive =>
          { s with writing := ⟨connection, keepalive⟩ :: s.writing }
  | .resumeWrite connection resumed spawn =>
    match s.writing.find? (·.connection = connection) with
    | none => s
    | some pending =>
      match resumed with
      | .again => s
      | .failed => { s with writing := s.writing.erase pending }.close connection
      | .finished =>
        let s := { s with writing := s.writing.erase pending }
        if pending.keepalive then dispatchToWorker s connection false spawn
        else s.close connection
  | .exit connection result =>
    match s.served.find? (·.connection = connection) with
    | none => s
    | some client => endClient s client result

/-- A server that has accepted nothing yet. -/
def start (prespawned : ℕ) (sslAvailable : Bool) : Server :=
  { MAX_CLIENT_PRESPAWNED_THREADS := prespawned
    sslAvailable := sslAvailable
    CLIENT_THREADS_STARTED := 0
    CLIENT_THREADS_STOPPED := 0
    threads_pool := fun _ => false
    prespawned_busy := fun _ => false
    prespawn_turn_to_serve := 0
    accepted := 0
    waiting := []
    writing := []
    served := []
    closes := fun _ => 0 }

/-! What is asked of it. -/

/-- The connections whose socket is still in somebody's hands. -/
def Server.open (s : Server) : List ℕ :=
  s.waiting.map (·.connection) ++ s.writing.map (·.connection) ++ s.served.map (·.connection)

/-- The slots of the threads that run. -/
def Server.running (s : Server) : List ℕ :=
  s.served.filterMap fun client =>
    match client.worker with
    | .fresh threadID => some threadID
    | .prespawned _ => none

/-- A fresh thread is refused because of the limit on them. -/
def Server.OverTheLimit (s : Server) : Prop :=
  UInt32.ofNat MAX_CLIENT_THREADS ≤ s.CLIENT_THREADS_STARTED - s.CLIENT_THREADS_STOPPED ∨
    findAProperThreadID s = none

/-- Everything that was taken is given back, once. -/
structure Returned (s : Server) : Prop where
  sockets : ∀ n, s.closes n = if n < s.accepted ∧ n ∉ s.open then 1 else 0
  slots : ∀ i, s.threads_pool i = true ↔ i ∈ s.running
  counters : s.CLIENT_THREADS_STARTED - s.CLIENT_THREADS_STOPPED = UInt32.ofNat s.running.length
  limit : s.running.length < MAX_CLIENT_THREADS → ¬s.OverTheLimit

/-- Nothing goes wrong in front of the loop that serves a client: a fresh thread finishes its
handshake, the timeouts of the socket can be set, and a thread that is not made leaves its slot at
zero. -/
def Fine (s : Server) : Event → Prop
  | .accept _ => True
  | .dispatch _ _ spawn => spawn.created = true ∨ spawn.leftInSlot = false
  | .resumeWrite _ _ spawn => spawn.created = true ∨ spawn.leftInSlot = false
  | .exit connection result => ∀ client ∈ s.served, client.connection = connection →
      if client.is_ssl_connection ∧ s.sslAvailable ∧ !result.handshake then
        ∃ candidate, client.worker = .prespawned candidate
      else result.timeouts = true

/-! The sockets. -/

/-- The connections of `held` have an open socket, the others that were accepted a closed one. -/
structure SocketsOk (closes : ℕ → ℕ) (accepted : ℕ) (held : List ℕ) : Prop where
  nodup : held.Nodup
  lt : ∀ n ∈ held, n < accepted
  closes : ∀ n, closes n = if n < accepted ∧ n ∉ held then 1 else 0

theorem SocketsOk.perm {closes : ℕ → ℕ} {accepted : ℕ} {held held' : List ℕ}
    (h : SocketsOk closes accepted held) (hperm : held.Perm held') :
    SocketsOk closes accepted held' := by
  refine ⟨hperm.nodup_iff.mp h.nodup, fun n hn => h.lt n (hperm.mem_iff.mpr hn), ?_⟩
  intro n
  simp only [h.closes n, hperm.mem_iff]

theorem SocketsOk.accept {closes : ℕ → ℕ} {accepted : ℕ} {held : List ℕ}
    (h : SocketsOk closes accepted held) : SocketsOk closes (accepted + 1) (accepted :: held) := by
  refine ⟨List.nodup_cons.mpr ⟨fun hin => (h.lt _ hin).false, h.nodup⟩, ?_, ?_⟩
  · intro n hn
    rcases List.mem_cons.mp hn with rfl | hn
    · exact Nat.lt_succ_self _
    · exact (h.lt n hn).trans (Nat.lt_succ_self _)
  · intro n
    rw [h.closes n]
    apply if_congr _ rfl rfl
    rw [List.mem_cons, not_or]
    constructor
    · exact fun ⟨hlt, hnot⟩ => ⟨hlt.trans (Nat.lt_succ_self _), hlt.ne, hnot⟩
    · exact fun ⟨hlt, hne, hnot⟩ => ⟨lt_of_le_of_ne (Nat.le_of_lt_succ hlt) hne, hnot⟩

theorem SocketsOk.close {s : Server} {n : ℕ} {held : List ℕ}
    (h : SocketsOk s.closes s.accepted (n :: held)) :
    SocketsOk (s.close n).closes s.accepted held := by
  obtain ⟨hnot, hnodup⟩ := List.nodup_cons.mp h.nodup
  refine ⟨hnodup, fun m hm => h.lt m (List.mem_cons_of_mem _ hm), fun m => ?_⟩
  show (if m = n then s.closes m + 1 else s.closes m) = _
  rw [h.closes m]
  by_cases hmn : m = n
  · subst hmn
    have hlt := h.lt m (List.mem_cons_self ..)
    rw [if_pos rfl, if_neg (fun h => h.2 (List.mem_cons_self ..)), if_pos ⟨hlt, hnot⟩]
  · rw [if_neg hmn]
    simp [hmn]

/-! The threads. -/

/-- The slots that are taken and the difference of the counters belong to the threads of
`running`. -/
structure ThreadsOk (threads_pool : ℕ → Bool) (started stopped : UInt32) (running : List ℕ) :
    Prop where
  slots : ∀ i, threads_pool i = true ↔ i ∈ running
  nodup : running.Nodup
  lt : ∀ i ∈ running, i < MAX_CLIENT_THREADS
  counters : started = stopped + UInt32.ofNat running.length

theorem ThreadsOk.perm {threads_pool : ℕ → Bool} {started stopped : UInt32}
    {running running' : List ℕ} (h : ThreadsOk threads_pool started stopped running)
    (hperm : running.Perm running') : ThreadsOk threads_pool started stopped running' where
  slots i := (h.slots i).trans hperm.mem_iff
  nodup := hperm.nodup_iff.mp h.nodup
  lt i hi := h.lt i (hperm.mem_iff.mpr hi)
  counters := by rw [h.counters, hperm.length_eq]

theorem ThreadsOk.spawn {threads_pool : ℕ → Bool} {started stopped : UInt32} {running : List ℕ}
    (h : ThreadsOk threads_pool started stopped running) {threadID : ℕ}
    (hfree : threads_pool threadID = false) (hlt : threadID < MAX_CLIENT_THREADS) :
    ThreadsOk (fun i => if i = threadID then true else threads_pool i) (started + 1) stopped
      (threadID :: running) where
  slots i := by
    rw [List.mem_cons, ← h.slots i]
    by_cases hi : i = threadID <;> simp [hi]
  nodup := by
    refine List.nodup_cons.mpr ⟨fun hin => ?_, h.nodup⟩
    rw [← h.slots, hfree] at hin
    exact Bool.false_ne_true hin
  lt := List.forall_mem_cons.mpr ⟨hlt, h.lt⟩
  counters := by
    rw [h.counters, List.length_cons, UInt32.ofNat_add, UInt32.add_assoc]
    rfl

theorem ThreadsOk.stop {threads_pool : ℕ → Bool} {started stopped : UInt32} {running : List ℕ}
    {threadID : ℕ} (h : ThreadsOk threads_pool started stopped (threadID :: running)) :
    ThreadsOk (fun i => if i = threadID then false else threads_pool i) started (stopped + 1)
      running where
  slots i := by
    have hslot := h.slots i
    have hnot := (List.nodup_cons.mp h.nodup).1
    by_cases hi : i = threadID
    · subst hi
      simp [hnot]
    · simpa [hi] using hslot
  nodup := (List.nodup_cons.mp h.nodup).2
  lt i hi := h.lt i (List.mem_cons_of_mem _ hi)
  counters := by
    rw [h.counters, List.length_cons, UInt32.ofNat_add, UInt32.add_assoc,
      UInt32.add_comm 1 (UInt32.ofNat running.length)]
    rfl

theorem exists_free {threads_pool : ℕ → Bool} {running : List ℕ}
    (hslots : ∀ i, threads_pool i = true ↔ i ∈ running)
    (hlength : running.length < MAX_CLIENT_THREADS) :
    ∃ i < MAX_CLIENT_THREADS, threads_pool i = false := by
  by_contra hall
  push Not at hall
  have hsubset : List.range MAX_CLIENT_THREADS ⊆ running := by
    intro i hi
    rw [← hslots]
    exact Bool.eq_true_of_not_eq_false (hall i (List.mem_range.mp hi))
  have hle := (List.nodup_range.subperm hsubset).length_le
  rw [List.length_range] at hle
  omega

theorem findAProperThreadIDLoop_some {threads_pool : ℕ → Bool} {tries starting_from i : ℕ}
    (hstart : starting_from ≤ MAX_CLIENT_THREADS)
    (h : findAProperThreadIDLoop threads_pool tries starting_from = some i) :
    i < MAX_CLIENT_THREADS ∧ threads_pool i = false := by
  induction tries generalizing starting_from with
  | zero => cases h
  | succ tries ih =>
    rw [findAProperThreadIDLoop, Option.or_eq_some_iff] at h
    rcases h with h | ⟨-, h⟩
    · have hin := List.mem_of_find?_eq_some h
      have hfree := List.find?_some h
      rw [List.mem_range'_1] at hin
      exact ⟨by omega, by simpa using hfree⟩
    · exact ih (Nat.zero_le _) h

theorem findAProperThreadIDLoop_none {threads_pool : ℕ → Bool} {tries : ℕ}
    (h : findAProperThreadIDLoop threads_pool (tries + 1) 0 = none) :
    ∀ i < MAX_CLIENT_THREADS, threads_pool i = true := by
  intro i hi
  rw [findAProperThreadIDLoop, Option.or_eq_none_iff, List.find?_eq_none] at h
  have hat := h.1 i (by rw [List.mem_range'_1]; omega)
  simpa using hat

theorem findAProperThreadID_some {s : Server} {i : ℕ} (h : findAProperThreadID s = some i) :
    i < MAX_CLIENT_THREADS ∧ s.threads_pool i = false :=
  findAProperThreadIDLoop_some (Nat.mod_lt _ (by decide)).le h

theorem findAProperThreadID_none {s : Server} (h : findAProperThreadID s = none) :
    ∀ i < MAX_CLIENT_THREADS, s.threads_pool i = true := by
  rw [findAProperThreadID, MAX_TRIES_TO_FIND_A_THREAD_ID, findAProperThreadIDLoop,
    Option.or_eq_none_iff] at h
  exact findAProperThreadIDLoop_none h.2

/-! The runs. -/

/-- `held` are the connections that a function has taken out of the lists and not disposed of. -/
structure Inv (held : List ℕ) (s : Server) : Prop where
  sockets : SocketsOk s.closes s.accepted (held ++ s.open)
  threads : ThreadsOk s.threads_pool s.CLIENT_THREADS_STARTED s.CLIENT_THREADS_STOPPED s.running

/-- The thread of a client, if it is a fresh one. -/
def Client.slot (client : Client) : Option ℕ :=
  match client.worker with
  | .fresh threadID => some threadID
  | .prespawned _ => none

theorem running_eq (s : Server) : s.running = s.served.filterMap Client.slot := rfl

theorem Inv.close {s : Server} {n : ℕ} (h : Inv [n] s) : Inv [] (s.close n) :=
  ⟨h.sockets.close, h.threads⟩

theorem SocketsOk.serve {s : Server} {client : Client}
    (h : SocketsOk s.closes s.accepted ([client.connection] ++ s.open)) :
    SocketsOk s.closes s.accepted
      ([] ++ (s.waiting.map (·.connection) ++ s.writing.map (·.connection) ++
        (client :: s.served).map (·.connection))) := by
  apply h.perm
  rw [List.map_cons]
  show (client.connection :: (s.waiting.map (·.connection) ++ s.writing.map (·.connection) ++
    s.served.map (·.connection))).Perm _
  exact List.perm_middle.symm

theorem Inv.usePreSpawnedThread {s s' : Server} {n : ℕ} {ssl : Bool} (h : Inv [n] s)
    (huse : usePreSpawnedThread s n ssl = some s') : Inv [] s' := by
  unfold ClientThreads.usePreSpawnedThread at huse
  split at huse
  · cases huse
  · obtain ⟨candidate, -, rfl⟩ := Option.map_eq_some_iff.mp huse
    exact ⟨@SocketsOk.serve s ⟨n, .prespawned candidate, ssl⟩ h.sockets, h.threads⟩

theorem Inv.spawnThread {s : Server} {n : ℕ} {ssl : Bool} {spawn : Spawn} (h : Inv [n] s)
    (hspawn : spawn.created = true ∨ spawn.leftInSlot = false) :
    (∃ s', spawnThreadToServeNewClient s n ssl spawn = (true, s') ∧ Inv [] s') ∨
      ∃ s', spawnThreadToServeNewClient s n ssl spawn = (false, s') ∧ Inv [n] s' := by
  unfold spawnThreadToServeNewClient
  split
  · exact .inr ⟨s, rfl, h⟩
  cases hfind : findAProperThreadID s with
  | none => exact .inr ⟨s, rfl, h⟩
  | some threadID =>
    obtain ⟨hlt, hfree⟩ := findAProperThreadID_some hfind
    dsimp only
    split
    · exact .inr ⟨s, rfl, h⟩
    split
    · rename_i hnot
      have hleft : spawn.leftInSlot = false := by
        rcases hspawn with hcreated | hleft
        · simp [hcreated] at hnot
        · exact hleft
      refine .inr ⟨_, rfl, h.sockets, ?_⟩
      -- the slot was free before
      have hsame : (fun i => if i = threadID then spawn.leftInSlot else s.threads_pool i) =
          s.threads_pool := by
        funext i
        split
        · rename_i hi
          rw [hi, hleft, hfree]
        · rfl
      dsimp only
      rw [hsame]
      exact h.threads
    · exact .inl ⟨_, rfl, @SocketsOk.serve s ⟨n, .fresh threadID, ssl⟩ h.sockets,
        h.threads.spawn hfree hlt⟩

theorem Inv.dispatchToWorker {s : Server} {n : ℕ} {ssl : Bool} {spawn : Spawn} (h : Inv [n] s)
    (hspawn : spawn.created = true ∨ spawn.leftInSlot = false) :
    Inv [] (dispatchToWorker s n ssl spawn) := by
  unfold ClientThreads.dispatchToWorker
  cases huse : ClientThreads.usePreSpawnedThread s n ssl with
  | some s' => exact h.usePreSpawnedThread huse
  | none =>
    rcases @Inv.spawnThread s n ssl spawn h hspawn with ⟨s', heq, hinv⟩ | ⟨s', heq, hinv⟩
    · rw [heq]
      exact hinv
    · rw [heq]
      exact hinv.close

theorem Inv.takeWaiting {s : Server} {n : ℕ} {pending : PendingAccept} (h : Inv [] s)
    (hfind : s.waiting.find? (·.connection = n) = some pending) :
    Inv [n] { s with waiting := s.waiting.erase pending } := by
  have hn : pending.connection = n := by simpa using List.find?_some hfind
  refine ⟨h.sockets.perm ?_, h.threads⟩
  have hperm := (List.perm_cons_erase (List.mem_of_find?_eq_some hfind)).map (·.connection)
  rw [List.map_cons, hn] at hperm
  exact (hperm.append_right _).append_right _

theorem Inv.takeWriting {s : Server} {n : ℕ} {pending : PendingWrite} (h : Inv [] s)
    (hfind : s.writing.find? (·.connection = n) = some pending) :
    Inv [n] { s with writing := s.writing.erase pending } := by
  have hn : pending.connection = n := by simpa using List.find?_some hfind
  refine ⟨h.sockets.perm ?_, h.threads⟩
  have hperm := (List.perm_cons_erase (List.mem_of_find?_eq_some hfind)).map (·.connection)
  rw [List.map_cons, hn] at hperm
  exact ((hperm.append_left _).trans List.perm_middle).append_right _

theorem Inv.dispatch {s : Server} {n : ℕ} {fastPath : FastPath} {spawn : Spawn} (h : Inv [] s)
    (hspawn : spawn.created = true ∨ spawn.leftInSlot = false) :
    Inv [] (step s (.dispatch n fastPath spawn)) := by
  unfold step
  dsimp only
  cases hfind : s.waiting.find? (·.connection = n) with
  | none => exact h
  | some pending =>
    have htaken := h.takeWaiting hfind
    dsimp only
    split
    · exact htaken.dispatchToWorker hspawn
    cases fastPath with
    | toWorker => exact htaken.dispatchToWorker hspawn
    | closed => exact htaken.close
    | pendingWrite keepalive =>
      refine ⟨htaken.sockets.perm ?_, htaken.threads⟩
      exact List.perm_middle.symm.append_right _

theorem Inv.resumeWrite {s : Server} {n : ℕ} {resumed : Resumed} {spawn : Spawn} (h : Inv [] s)
    (hspawn : spawn.created = true ∨ spawn.leftInSlot = false) :
    Inv [] (step s (.resumeWrite n resumed spawn)) := by
  unfold step
  dsimp only
  cases hfind : s.writing.find? (·.connection = n) with
  | none => exact h
  | some pending =>
    have htaken := h.takeWriting hfind
    cases resumed with
    | again => exact h
    | failed => exact htaken.close
    | finished =>
      dsimp only
      split
      · exact htaken.dispatchToWorker hspawn
      · exact htaken.close

theorem SocketsOk.leave {s : Server} {client : Client} (h : SocketsOk s.closes s.accepted s.open)
    (hin : client ∈ s.served) :
    SocketsOk s.closes s.accepted
      (client.connection :: Server.open { s with served := s.served.erase client }) := by
  apply h.perm
  have hmap := (List.perm_cons_erase hin).map (·.connection)
  rw [List.map_cons] at hmap
  exact (hmap.append_left _).trans List.perm_middle

theorem Inv.endFresh {s : Server} {client : Client} {result : Served} {threadID : ℕ}
    (h : Inv [] s) (hin : client ∈ s.served) (hworker : client.worker = .fresh threadID)
    (hhandshake : ¬(client.is_ssl_connection ∧ s.sslAvailable ∧ !result.handshake))
    (htimeouts : result.timeouts = true) : Inv [] (endClient s client result) := by
  have hsockets := h.sockets.leave hin
  have hslot : client.slot = some threadID := by rw [Client.slot, hworker]
  have hrunning := (List.perm_cons_erase hin).filterMap Client.slot
  rw [List.filterMap_cons_some hslot, ← running_eq] at hrunning
  have hthreads := (h.threads.perm hrunning).stop
  simp only [endClient, serveClient, hworker, if_neg hhandshake, htimeouts, Bool.not_true,
    Bool.false_eq_true, if_false]
  exact ⟨hsockets.close, hthreads⟩

theorem Inv.endPrespawned {s : Server} {client : Client} {result : Served} {candidate : ℕ}
    (h : Inv [] s) (hin : client ∈ s.served) (hworker : client.worker = .prespawned candidate)
    (hserved : client.is_ssl_connection ∧ s.sslAvailable ∧ !result.handshake ∨
      result.timeouts = true) : Inv [] (endClient s client result) := by
  have hsockets := h.sockets.leave hin
  have hslot : client.slot = none := by rw [Client.slot, hworker]
  have hrunning := (List.perm_cons_erase hin).filterMap Client.slot
  rw [List.filterMap_cons_none hslot, ← running_eq] at hrunning
  have hthreads := h.threads.perm hrunning
  simp only [endClient, serveClient, hworker]
  split
  · exact ⟨hsockets.close, hthreads⟩
  · rename_i hhandshake
    have htimeouts := hserved.resolve_left hhandshake
    simp only [htimeouts, Bool.not_true, Bool.false_eq_true, if_false]
    exact ⟨hsockets.close, hthreads⟩

theorem Inv.exit {s : Server} {n : ℕ} {result : Served} (h : Inv [] s)
    (hfine : Fine s (.exit n result)) : Inv [] (step s (.exit n result)) := by
  unfold step
  dsimp only
  cases hfind : s.served.find? (·.connection = n) with
  | none => exact h
  | some client =>
    have hin := List.mem_of_find?_eq_some hfind
    have hn : client.connection = n := by simpa using List.find?_some hfind
    have hfine := hfine client hin hn
    show Inv [] (endClient s client result)
    by_cases hhandshake : client.is_ssl_connection ∧ s.sslAvailable ∧ !result.handshake
    · rw [if_pos hhandshake] at hfine
      obtain ⟨candidate, hworker⟩ := hfine
      exact h.endPrespawned hin hworker (.inl hhandshake)
    · rw [if_neg hhandshake] at hfine
      cases hworker : client.worker with
      | fresh threadID => exact h.endFresh hin hworker hhandshake hfine
      | prespawned candidate => exact h.endPrespawned hin hworker (.inr hfine)

theorem Inv.step {s : Server} {event : Event} (h : Inv [] s) (hfine : Fine s event) :
    Inv [] (step s event) := by
  cases event with
  | accept is_ssl_connection => exact ⟨h.sockets.accept, h.threads⟩
  | dispatch connection fastPath spawn => exact h.dispatch hfine
  | resumeWrite connection resumed spawn => exact h.resumeWrite hfine
  | exit connection result => exact h.exit hfine

theorem inv_start (prespawned : ℕ) (sslAvailable : Bool) :
    Inv [] (start prespawned sslAvailable) where
  sockets := ⟨List.nodup_nil, by simp [start, Server.open], by simp [start]⟩
  threads := ⟨by simp [start, running_eq], List.nodup_nil, by simp [start, running_eq], rfl⟩

theorem Inv.counters {s : Server} (h : Inv [] s) :
    s.CLIENT_THREADS_STARTED - s.CLIENT_THREADS_STOPPED = UInt32.ofNat s.running.length := by
  rw [h.threads.counters, UInt32.add_comm, UInt32.add_sub_cancel]

theorem Inv.limit {s : Server} (h : Inv [] s) (hlength : s.running.length < MAX_CLIENT_THREADS) :
    ¬s.OverTheLimit := by
  rintro (hcounters | hnone)
  · rw [h.counters, UInt32.le_iff_toNat_le, UInt32.toNat_ofNat', UInt32.toNat_ofNat'] at hcounters
    have hMAX : MAX_CLIENT_THREADS = 3000 := rfl
    rw [Nat.mod_eq_of_lt (by omega), Nat.mod_eq_of_lt (by omega)] at hcounters
    omega
  · obtain ⟨i, hlt, hfree⟩ := exists_free h.threads.slots hlength
    rw [findAProperThreadID_none hnone i hlt] at hfree
    cases hfree

theorem Inv.returned {s : Server} (h : Inv [] s) : Returned s where
  sockets := h.sockets.closes
  slots := h.threads.slots
  counters := h.counters
  limit := h.limit

end AmmarServer.ClientThreads
