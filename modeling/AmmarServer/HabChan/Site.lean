import AmmarServer.Hashmap.HashMap
import AmmarServer.HabChan.Threads

/-! `Services/HabChan`: the boards of the site, and the two tables that lead to them and to their
threads (`board.c`, `thread.c`, `moderation.c`, `postReceiver.c`). -/

namespace AmmarServer.HabChan
open Bytes CString TextFile Hashmap Searching

def MAX_BOARDS : ℕ := 1000
def MAX_THREADS_PER_BOARD : ℕ := 1000

/-- `threads` are the first `currentThreads` of its slots. -/
structure Board where
  name : List UInt8
  maxThreads : ℕ
  threadUID : ℕ
  threads : List Thread

/-- `dirs` is the storage, by board and thread. While the site is loaded, `loading` are the boards
that are still to be added, with what `readdir` lists in them, and `opened` is the slot and the name
of the board whose threads are being added, with those that are left. -/
structure Site where
  boards : List Board
  boardHashMap : HashMap
  threadHashMap : HashMap
  dirs : List UInt8 → List UInt8 → Option Dir
  loading : List (List UInt8 × List (List UInt8))
  opened : Option (ℕ × List UInt8 × List (List UInt8))

variable (qsort : Qsort HashMapEntry.keyHash) (bsearch : Bsearch HashMapEntry.keyHash)

namespace Site
variable (s : Site)

/-- What `hashMap_GetULongPayload` says about a board. -/
def boardIndex (boardName : List UInt8) : Option ℕ × Site :=
  match hashMapGetULongPayload qsort bsearch s.boardHashMap boardName 0 with
  | ((false, _), boardHashMap) => (none, { s with boardHashMap })
  | ((true, boardID), boardHashMap) => (some boardID, { s with boardHashMap })

def threadEncoded (threadName : List UInt8) : Option ℕ × Site :=
  match hashMapGetULongPayload qsort bsearch s.threadHashMap threadName 0 with
  | ((false, _), threadHashMap) => (none, { s with threadHashMap })
  | ((true, encoded), threadHashMap) => (some encoded, { s with threadHashMap })

def setDir (boardName threadName : List UInt8) (d : Option Dir) : Site :=
  { s with
    dirs := Function.update s.dirs boardName (Function.update (s.dirs boardName) threadName d) }

/-! The start. -/

/-- The process begins `loadSite`. -/
def restart (listing : List (List UInt8 × List (List UInt8))) : Site where
  boards := []
  boardHashMap := hashMapCreate 100 100 true
  threadHashMap := hashMapCreate 10000 1000 true
  dirs := s.dirs
  loading := listing
  opened := none

/-- The beginning of `addBoardToSite`, for the next board. -/
def addBoard (heap : Heap) : Option Site :=
  match s.loading with
  | [] => some s
  | (boardName, entries) :: loading =>
    if MAX_BOARDS ≤ s.boards.length + 1 then some { s with loading }
    else
      match hashMapAddULong s.boardHashMap boardName s.boards.length heap with
      | .error _ => none
      | .ok (_, boardHashMap) =>
        some
          { s with
            boards := s.boards ++ [⟨boardName, MAX_THREADS_PER_BOARD, 1, []⟩]
            boardHashMap
            loading
            opened := some (s.boards.length, boardName, entries) }

/-- `hashMap_AddULong` of a thread, and the thread takes the next slot of its board. -/
def keepThread (boardID : ℕ) (board : Board) (threadName : List UInt8) (t : Thread) (heap : Heap) :
    Option Site :=
  match hashMapAddULong s.threadHashMap threadName
      (boardID * MAX_THREADS_PER_BOARD + board.threads.length) heap with
  | .error _ => none
  | .ok (_, threadHashMap) =>
    some
      { s with
        threadHashMap
        boards := s.boards.set boardID { board with threads := board.threads ++ [t] } }

def addThreadToBoard (boardName threadName : List UInt8) (loadHeap : LoadHeap) (heap : Heap) :
    Option Site :=
  match s.boardIndex qsort bsearch boardName with
  | (none, s) => some s
  | (some boardID, s) =>
    match s.boards[boardID]? with
    | none => some s
    | some board =>
      if board.maxThreads ≤ board.threads.length then some s
      else
        match loadThread loadHeap threadName (s.dirs board.name threadName) with
        | none => some s
        | some t => s.keepThread boardID board threadName t heap

/-- The next entry of the board that is loaded. -/
def addThread (loadHeap : LoadHeap) (heap : Heap) : Option Site :=
  match s.opened with
  | some (boardID, boardName, threadName :: entries) =>
    let s := { s with opened := some (boardID, boardName, entries) }
    if threadName = ascii "boardStatus.ini" then some s
    else s.addThreadToBoard qsort bsearch boardName threadName loadHeap heap
  | _ => some s

/-- The end of `addBoardToSite`. -/
def endBoard : Site :=
  match s.opened with
  | some (boardID, _, []) =>
    { s with
      boards := s.boards.modify boardID fun board =>
        { board with threadUID := board.threads.length + 1 }
      opened := none }
  | _ => s

/-! The visitors. -/

/-- `%09u`. -/
def threadNameOf (uid : ℕ) : List UInt8 :=
  List.replicate (9 - (decimal uid).length) 48 ++ decimal uid

/-- Which of the calls of `createThread` to the system succeed, and the times. -/
structure Creating where
  mkdir : Bool
  malloc : Bool
  heap : Heap
  writes : Writes
  now : Timestamp
  later : Timestamp
  last : Timestamp

/-- The name of the new thread, if there is one. -/
def createThread (boardName title : List UInt8) (newPost : NewPost) (c : Creating) :
    Option (Option (List UInt8) × Site) :=
  match s.boardIndex qsort bsearch boardName with
  | (none, s) => some (none, s)
  | (some boardID, s) =>
    match s.boards[boardID]? with
    | none => some (none, s)
    | some board =>
      if board.maxThreads ≤ board.threads.length then some (none, s)
      else
        let threadName := threadNameOf board.threadUID
        if !c.mkdir ∨ (s.dirs boardName threadName).isSome then some (none, s)
        else
          let s := s.setDir boardName threadName (some .empty)
          if !c.malloc then some (none, s)
          else
            match storeThread threadName title newPost c.writes c.now c.later c.last with
            | none => some (none, s)
            | some (t, d) =>
              ((s.setDir boardName threadName (some d)).keepThread boardID
                { board with threadUID := board.threadUID + 1 } threadName t c.heap).map
                  fun s => (some threadName, s)

/-- The slots of the board and the thread that `prepareThreadView` and `processDeletePost` go to. -/
def findThread (boardName threadName : List UInt8) : Option (ℕ × ℕ × Thread) × Site :=
  match s.boardIndex qsort bsearch boardName with
  | (none, s) => (none, s)
  | (some boardIndex, s) =>
    match s.threadEncoded qsort bsearch threadName with
    | (none, s) => (none, s)
    | (some encoded, s) =>
      if encoded / MAX_THREADS_PER_BOARD = boardIndex then
        match (s.boards[boardIndex]?).bind (·.threads[encoded % MAX_THREADS_PER_BOARD]?) with
        | none => (none, s)
        | some t =>
          if t.deleted = 0 then (some (boardIndex, encoded % MAX_THREADS_PER_BOARD, t), s)
          else (none, s)
      else (none, s)

/-- A thread is found and something done to it and its directory, where there is one. -/
def changeThread (boardName threadName : List UInt8)
    (change : Thread → Dir → Option (Thread × Dir)) : Site :=
  match s.findThread qsort bsearch boardName threadName with
  | (none, s) => s
  | (some (boardIndex, slot, t), s) =>
    match change t ((s.dirs boardName t.name).getD .empty) with
    | none => s
    | some (t', d) =>
      let s := s.setDir boardName t.name ((s.dirs boardName t.name).map fun _ => d)
      { s with
        boards := s.boards.modify boardIndex fun board =>
          { board with threads := board.threads.set slot t' } }

def processDeletePost (boardName threadName : List UInt8) (postIndex : ℕ) (password : List UInt8)
    (writes : Writes) : Site :=
  s.changeThread qsort bsearch boardName threadName fun t d =>
    if postIndex = 0 then deleteThread t d password writes.status
    else deleteReply t d postIndex password writes

/-- `processPostReceiver` with a reply. -/
def reply (boardName threadName : List UInt8) (newPost : NewPost) (writes : Writes)
    (now later : Timestamp) : Site :=
  s.changeThread qsort bsearch boardName threadName fun t d =>
    addPostToThread t d newPost writes now later

end Site

namespace Site

inductive Event
  | restart (listing : List (List UInt8 × List (List UInt8)))
  | addBoard (heap : Heap)
  | addThread (loadHeap : LoadHeap) (heap : Heap)
  | endBoard
  | create (boardName title : List UInt8) (newPost : NewPost) (c : Creating)
  | view (boardName threadName : List UInt8)
  | deletePost (boardName threadName : List UInt8) (postIndex : ℕ) (password : List UInt8)
      (writes : Writes)
  | reply (boardName threadName : List UInt8) (newPost : NewPost) (writes : Writes)
      (now later : Timestamp)

def act (s : Site) : Event → Option Site
  | .restart listing => some (s.restart listing)
  | .addBoard heap => if s.opened.isNone then s.addBoard heap else some s
  | .addThread loadHeap heap => s.addThread qsort bsearch loadHeap heap
  | .endBoard => some s.endBoard
  | .create boardName title newPost c =>
    (s.createThread qsort bsearch boardName title newPost c).map Prod.snd
  | .view boardName threadName => some (s.findThread qsort bsearch boardName threadName).2
  | .deletePost boardName threadName postIndex password writes =>
    some (s.processDeletePost qsort bsearch boardName threadName postIndex password writes)
  | .reply boardName threadName newPost writes now later =>
    some (s.reply qsort bsearch boardName threadName newPost writes now later)

/-- A table that cannot grow any more ends the run. -/
def step (state : Option Site) (e : Event) : Option Site :=
  state.bind fun s => s.act qsort bsearch e

/-- Before the first start, with what is in the storage. -/
def initial (dirs : List UInt8 → List UInt8 → Option Dir) : Site where
  boards := []
  boardHashMap := hashMapCreate 100 100 true
  threadHashMap := hashMapCreate 10000 1000 true
  dirs
  loading := []
  opened := none

/-! What the tables are for. -/

variable (s : Site)

def Loaded : Prop := s.loading = [] ∧ s.opened = none

/-- No other board has the hash of the name. -/
def ClearBoard (boardName : List UInt8) : Prop :=
  ∀ b ∈ s.boards, hashFunction b.name = hashFunction boardName → b.name = boardName

def ClearThread (threadName : List UInt8) : Prop :=
  ∀ b ∈ s.boards, ∀ t ∈ b.threads, hashFunction t.name = hashFunction threadName →
    t.name = threadName

def Clear (boardName threadName : List UInt8) : Prop :=
  s.ClearBoard boardName ∧ s.ClearThread threadName

/-- The threads are where they are to be, as far as `looked` goes, and there can be more. -/
structure Addressed (looked : List UInt8 → List UInt8 → Prop) : Prop where
  unique : ∀ b ∈ s.boards, (b.threads.map Thread.name).Nodup
  recorded : ∀ e ∈ s.threadHashMap.entries, ∃ b t,
    s.boards[e.payload / MAX_THREADS_PER_BOARD]? = some b ∧
      b.threads[e.payload % MAX_THREADS_PER_BOARD]? = some t ∧ t.name = e.key
  found : ∀ (i : ℕ) b (j : ℕ) t, s.boards[i]? = some b → b.threads[j]? = some t → t.deleted = 0 →
    ∀ boardName threadName, looked boardName threadName →
      ((s.findThread qsort bsearch boardName threadName).1 = some (i, j, t) ↔
        boardName = b.name ∧ threadName = t.name)
  creates : s.Loaded → ∀ b ∈ s.boards, b.threads.length < b.maxThreads →
    ∀ title newPost c, c.mkdir = true → c.malloc = true → c.heap.entries = true →
      ∃ threadName s',
        s.createThread qsort bsearch b.name title newPost c = some (some threadName, s')

/-- `readdir` lists what there is, and visitors come once the site is loaded. -/
def Ordered (s : Site) : Event → Prop
  | .restart listing =>
    (listing.map Prod.fst).Nodup ∧ ∀ l ∈ listing, l.2.Nodup ∧
      (∀ n, (s.dirs l.1 n).isSome → n ∈ l.2) ∧
        ∀ n ∈ l.2, ((s.dirs l.1 n).isSome ∨ n = ascii "boardStatus.ini") ∧
          n.length < MAX_STRING_SIZE
  | .addBoard _ | .addThread .. | .endBoard => True
  | .create .. | .view .. | .deletePost .. | .reply .. => s.Loaded

/-- No thread of any board has the name. -/
def FreshThread (threadName : List UInt8) : Prop :=
  ∀ b ∈ s.boards, ∀ t ∈ b.threads, t.name ≠ threadName

/-- Hashes tell the boards apart, no two boards have a thread of one name, the directories of a
board are numbered like its threads, and once a directory is made there is memory for its thread. -/
def Calm (s : Site) : Event → Prop
  | .restart _ => True
  | .addBoard heap => heap.key = true ∧ heap.entries = true ∧
      ∀ l ∈ s.loading.head?, ∀ b ∈ s.boards, hashFunction b.name ≠ hashFunction l.1
  | .addThread _ heap =>
    ∀ boardID boardName threadName entries,
      s.opened = some (boardID, boardName, threadName :: entries) →
        (∃ d, s.dirs boardName threadName = some d ∧ d.status.isSome) →
          heap.key = true ∧ heap.entries = true ∧ s.FreshThread threadName
  | .endBoard =>
    ∀ boardID boardName b, s.opened = some (boardID, boardName, []) → s.boards[boardID]? = some b →
      b.threads.length < b.maxThreads →
        ∀ uid, b.threads.length < uid → s.dirs boardName (threadNameOf uid) = none
  | .create boardName _ _ c =>
    s.ClearBoard boardName ∧
      ∀ b ∈ s.boards, b.name = boardName → b.threads.length < b.maxThreads → c.mkdir = true →
        c.malloc = true ∧ c.heap.key = true ∧ c.heap.entries = true ∧
          s.FreshThread (threadNameOf b.threadUID)
  | .view .. | .deletePost .. | .reply .. => True

def Starts (state : Option Site) (e : Event) : Prop := ∀ s, state = some s → Ordered s e

def Meets (state : Option Site) (e : Event) : Prop := ∀ s, state = some s → Ordered s e ∧ Calm s e

end Site

end AmmarServer.HabChan
