import AmmarServer.Hashmap.Contents

/-! The sessions of `cache/session_list.c`. A block from `malloc` is named by the next address that
has not been used yet, and the null pointer is address 0. The locks are left out: each call holds
the lock of the table while it looks at it. -/

namespace AmmarServer.Cache.Sessions
open Searching Hashmap Run

def SESSION_TOKEN_STRING_SIZE : ℕ := 64

def SESSION_VALUE_SCRATCH_SIZE : ℕ := 4096

/-- What `AmmServer_GenerateSecureToken` writes. -/
structure Token where
  text : List UInt8
  ne_nil : text ≠ []
  noNul : 0 ∉ text
  fits : text.length < SESSION_TOKEN_STRING_SIZE

/-- The settings, and the answers of `AmmServer_GenerateSecureToken` in the order of its calls. -/
structure Server where
  MAX_SESSIONS : ℤ
  SESSION_IDLE_TIMEOUT_SECONDS : ℤ
  draw : ℕ → Option Token
  never_repeats : ∀ i j t, draw i = some t → draw j = some t → i = j
  qsort : Qsort HashMapEntry.keyHash
  bsearch : Bsearch HashMapEntry.keyHash

structure SessionEntry where
  token : List UInt8
  created : ℤ
  lastSeen : ℤ
  data : HashMap

structure SessionList where
  sessionTable : HashMap
  entry : ℕ → SessionEntry
  /-- The copies of the values that the sessions store, with their NUL. -/
  value : ℕ → List UInt8
  next : ℕ
  drawn : ℕ

/-- What the allocator answers during one call. -/
structure Memory where
  entry : Bool
  data : Bool
  entries : Bool
  key : Bool
  payload : Bool
deriving DecidableEq, Repr

def Memory.heap (memory : Memory) (next : ℕ) : Heap :=
  { entries := memory.entries
    key := memory.key
    payload := if memory.payload then some next else none }

def sessionListInitialize : SessionList :=
  { sessionTable := hashMapCreate 64 64 false
    entry := fun _ => ⟨[], 0, 0, hashMapCreate 0 0 false⟩
    value := fun _ => []
    next := 1
    drawn := 0 }

variable (server : Server)

def sessionIsExpired (entry : SessionEntry) (time : ℤ) : Bool :=
  server.SESSION_IDLE_TIMEOUT_SECONDS < time - entry.lastSeen

/-- The session that has not been seen for longest among the ones so far. -/
def oldestSession (entry : ℕ → SessionEntry) (found : Option (ℤ × List UInt8)) (e : HashMapEntry) :
    Option (ℤ × List UInt8) :=
  if e.payload = 0 then found
  else
    let seen := some ((entry e.payload).lastSeen, e.key.take (SESSION_TOKEN_STRING_SIZE - 1))
    match found with
    | none => seen
    | some (oldest, _) => if (entry e.payload).lastSeen < oldest then seen else found

def evictOldestSessionIfAtCapacity (list : SessionList) : SessionList :=
  if (list.sessionTable.curNumberOfEntries : ℤ) < server.MAX_SESSIONS then list
  else
    match list.sessionTable.entries.foldl (oldestSession list.entry) none with
    | none => list
    | some (_, oldestKey) =>
      { list with sessionTable := (hashMapRemoveKey list.sessionTable oldestKey).2 }

/-- The tries left, and the draws so far. -/
def drawToken (table : HashMap) : ℕ → ℕ → Option Token × ℕ
  | 0, drawn => (none, drawn)
  | tries + 1, drawn =>
    match server.draw drawn with
    | none => (none, drawn + 1)
    | some token =>
      -- a lookup leaves a table that is not sorted as it is
      if (hashMapContainsKey server.qsort server.bsearch table token.text).1 ∧ tries ≠ 0 then
        drawToken table tries (drawn + 1)
      else (some token, drawn + 1)

def createSessionLocked (list : SessionList) (time : ℤ) (memory : Memory) :
    Except Fault (Option ℕ × SessionList) :=
  let list := evictOldestSessionIfAtCapacity server list
  if !memory.entry then .ok (none, list)
  else
    match drawToken server list.sessionTable 5 list.drawn with
    | (none, drawn) => .ok (none, { list with drawn })
    | (some token, drawn) =>
      if !memory.data then .ok (none, { list with drawn })
      else
        match hashMapAdd list.sessionTable token.text list.next 0 (memory.heap list.next) with
        | .error fault => .error fault
        | .ok (false, sessionTable) => .ok (none, { list with sessionTable, drawn })
        | .ok (true, sessionTable) =>
          let entry : SessionEntry :=
            { token := token.text
              created := time
              lastSeen := time
              data := hashMapCreate 8 8 false }
          .ok (some list.next,
            { list with
              sessionTable
              entry := Function.update list.entry list.next entry
              next := list.next + 1
              drawn })

def findSessionLocked (list : SessionList) (token : List UInt8) (time : ℤ) :
    Option ℕ × SessionList :=
  if token = [] then (none, list)
  else
    match hashMapFindIndexSerial list.sessionTable token 0 with
    | (false, _) => (none, list)
    | (true, index) =>
      let address := ((list.sessionTable.entries[index]?).map (·.payload)).getD 0
      if address = 0 then (none, list)
      else if sessionIsExpired server (list.entry address) time then
        (none, { list with sessionTable := (hashMapRemoveKey list.sessionTable token).2 })
      else (some address, list)

inductive Answer
  /-- The answer of `getSessionFromHeader`, with the token and `isNewSession`. -/
  | session (ok : Bool) (sessionTokenOut : List UInt8) (isNewSession : Bool)
  | done (ok : Bool)
  | info (value : Option (List UInt8))
deriving DecidableEq, Repr

def tokenOut (list : SessionList) (address : ℕ) : List UInt8 :=
  (list.entry address).token.take (SESSION_TOKEN_STRING_SIZE - 1)

/-- `later` is the clock once the cookie has been looked up. -/
def getSessionFromHeader (list : SessionList) (cookieValue : List UInt8) (time later : ℤ)
    (memory : Memory) : Except Fault (Answer × SessionList) :=
  match findSessionLocked server list cookieValue time with
  | (some address, list) =>
    let entry := { list.entry address with lastSeen := later }
    let list := { list with entry := Function.update list.entry address entry }
    .ok (.session true (tokenOut list address) false, list)
  | (none, list) =>
    match createSessionLocked server list later memory with
    | .error fault => .error fault
    | .ok (none, list) => .ok (.session false [] false, list)
    | .ok (some address, list) => .ok (.session true (tokenOut list address) true, list)

def sessionListDestroy (list : SessionList) (sessionToken : List UInt8) : Answer × SessionList :=
  let (ok, sessionTable) := hashMapRemoveKey list.sessionTable sessionToken
  (.done ok, { list with sessionTable })

def sessionListGetInfo (list : SessionList) (sessionToken name : List UInt8) (time : ℤ) :
    Answer × SessionList :=
  match findSessionLocked server list sessionToken time with
  | (none, list) => (.info none, list)
  | (some address, list) =>
    let data := (list.entry address).data
    match hashMapFindIndexSerial data name 0 with
    | (false, _) => (.info none, list)
    | (true, index) =>
      match data.entries[index]? with
      | none => (.info none, list)
      | some stored =>
        if stored.payload = 0 then (.info none, list)
        else
          let copyLength := min (stored.payloadLength - 1) (SESSION_VALUE_SCRATCH_SIZE - 1)
          (.info (some ((list.value stored.payload).take copyLength)), list)

def SessionList.setData (list : SessionList) (address : ℕ) (data : HashMap) : SessionList :=
  { list with entry := Function.update list.entry address { list.entry address with data } }

/-- `value` is the string before its NUL. -/
def sessionListStoreInfo (list : SessionList) (sessionToken name value : List UInt8) (time : ℤ)
    (memory : Memory) : Except Fault (Answer × SessionList) :=
  match findSessionLocked server list sessionToken time with
  | (none, list) => .ok (.done false, list)
  | (some address, list) =>
    let data := (list.entry address).data
    let data :=
      if (hashMapContainsKey server.qsort server.bsearch data name).1 then
        (hashMapRemoveKey data name).2
      else data
    -- the length is an `unsigned int`, and the string itself is kept where that is 0
    let valLength := (value.length + 1) % 2 ^ 32
    match hashMapAdd data name list.next valLength (memory.heap list.next) with
    | .error fault => .error fault
    | .ok (ok, data) =>
      .ok (.done ok,
        { list.setData address data with
          value := Function.update list.value list.next ((value ++ [0]).take valLength)
          next := list.next + 1 })

def sessionListUnsetInfo (list : SessionList) (sessionToken name : List UInt8) (time : ℤ) :
    Answer × SessionList :=
  match findSessionLocked server list sessionToken time with
  | (none, list) => (.done false, list)
  | (some address, list) =>
    let (ok, data) := hashMapRemoveKey (list.entry address).data name
    (.done ok, list.setData address data)

inductive Call
  | getSessionFromHeader (cookieValue : List UInt8) (time later : ℤ) (memory : Memory)
  | destroy (sessionToken : List UInt8)
  | getInfo (sessionToken name : List UInt8) (time : ℤ)
  | storeInfo (sessionToken name value : List UInt8) (time : ℤ) (memory : Memory)
  | unsetInfo (sessionToken name : List UInt8) (time : ℤ)

def SessionList.call (list : SessionList) : Call → Except Fault (Answer × SessionList)
  | .getSessionFromHeader cookieValue time later memory =>
    Sessions.getSessionFromHeader server list cookieValue time later memory
  | .destroy sessionToken => .ok (sessionListDestroy list sessionToken)
  | .getInfo sessionToken name time => .ok (sessionListGetInfo server list sessionToken name time)
  | .storeInfo sessionToken name value time memory =>
    sessionListStoreInfo server list sessionToken name value time memory
  | .unsetInfo sessionToken name time => .ok (sessionListUnsetInfo server list sessionToken name time)

/-- A call that faults ends the run. -/
def step (s : Except Fault SessionList) (c : Call) : Except Fault SessionList :=
  s.bind fun list => (list.call server c).map (·.2)

/-- The session that a token stands for. -/
def SessionList.session (list : SessionList) (token : List UInt8) : Option SessionEntry :=
  (list.sessionTable.payloadOf token).map list.entry

/-- What the calls keep of a table. -/
structure Inv (list : SessionList) : Prop where
  plain : Plain list.sessionTable
  address : ∀ e ∈ list.sessionTable.entries, e.payload ≠ 0 ∧ e.payload < list.next
  token : ∀ e ∈ list.sessionTable.entries, (list.entry e.payload).token = e.key
  drawn : ∀ e ∈ list.sessionTable.entries, ∃ i t, i < list.drawn ∧ server.draw i = some t ∧
    t.text = e.key
  bounded : (list.sessionTable.curNumberOfEntries : ℤ) ≤ max 1 server.MAX_SESSIONS
  next : 0 < list.next

variable {server : Server} {list list' : SessionList} {token : List UInt8} {time later : ℤ}
  {memory : Memory}

theorem inv_initialize : Inv server sessionListInitialize where
  plain := plain_create (by decide) 64
  address e he := by cases he
  token e he := by cases he
  drawn e he := by cases he
  bounded := le_max_of_le_left zero_le_one
  next := Nat.one_pos

theorem session_eq_none_iff : list.session token = none ↔
    ∀ e ∈ list.sessionTable.entries, e.key ≠ token := by
  unfold SessionList.session
  rw [Option.map_eq_none_iff, payloadOf_eq_none_iff]

namespace Inv

theorem session_of_mem (h : Inv server list) {e : HashMapEntry}
    (he : e ∈ list.sessionTable.entries) :
    list.session e.key = some (list.entry e.payload) := by
  unfold SessionList.session
  rw [h.plain.payloadOf_eq he]
  rfl

theorem exists_of_session (h : Inv server list) {entry : SessionEntry}
    (hsession : list.session token = some entry) :
    ∃ e ∈ list.sessionTable.entries, e.key = token ∧ list.entry e.payload = entry := by
  obtain ⟨v, hv, rfl⟩ := Option.map_eq_some_iff.mp hsession
  obtain ⟨e, he, hkey, rfl⟩ := h.plain.payloadOf_eq_some_iff.mp hv
  exact ⟨e, he, hkey, rfl⟩

theorem text_of_session (h : Inv server list) {e : HashMapEntry}
    (he : e ∈ list.sessionTable.entries) :
    e.key ≠ [] ∧ e.key.take (SESSION_TOKEN_STRING_SIZE - 1) = e.key := by
  obtain ⟨i, t, -, -, htext⟩ := h.drawn e he
  rw [← htext]
  exact ⟨t.ne_nil, List.take_of_length_le (Nat.le_sub_one_of_lt t.fits)⟩

end Inv

def SessionList.remove (list : SessionList) (token : List UInt8) : SessionList :=
  { list with sessionTable := (hashMapRemoveKey list.sessionTable token).2 }

theorem Inv.remove (h : Inv server list) (token : List UInt8) : Inv server (list.remove token) := by
  obtain ⟨hplain, hcases⟩ := h.plain.removeKey token
  have hsub : ∀ e ∈ (list.remove token).sessionTable.entries, e ∈ list.sessionTable.entries := by
    unfold SessionList.remove
    rcases hcases with ⟨-, hsame⟩ | ⟨removed, -, -, -, hperm⟩
    · rw [hsame]
      exact fun _ he => he
    · exact fun e he => hperm.mem_iff.mpr (List.mem_cons_of_mem _ he)
  have hlength : (list.remove token).sessionTable.curNumberOfEntries ≤
      list.sessionTable.curNumberOfEntries := by
    unfold SessionList.remove HashMap.curNumberOfEntries
    rcases hcases with ⟨-, hsame⟩ | ⟨removed, -, -, -, hperm⟩
    · rw [hsame]
    · rw [hperm.length_eq, List.length_cons]
      exact Nat.le_succ _
  exact
    { plain := hplain
      address := fun e he => h.address e (hsub e he)
      token := fun e he => h.token e (hsub e he)
      drawn := fun e he => h.drawn e (hsub e he)
      bounded := (Int.ofNat_le.mpr hlength).trans h.bounded
      next := h.next }

theorem Inv.session_remove (h : Inv server list) (token other : List UInt8) :
    (list.remove token).session other = if other = token then none else list.session other := by
  unfold SessionList.session SessionList.remove
  rw [h.plain.payloadOf_removeKey]
  split <;> rfl

theorem Inv.count_remove (h : Inv server list) (hsession : list.session token ≠ none) :
    list.sessionTable.curNumberOfEntries =
      (list.remove token).sessionTable.curNumberOfEntries + 1 := by
  obtain ⟨-, ⟨hnone, -⟩ | ⟨removed, -, -, -, hperm⟩⟩ := h.plain.removeKey token
  · unfold SessionList.session at hsession
    rw [hnone] at hsession
    exact absurd rfl hsession
  · unfold SessionList.remove HashMap.curNumberOfEntries
    rw [hperm.length_eq, List.length_cons]

/-- A session under another entry of the same token. -/
def SessionList.modify (list : SessionList) (address : ℕ) (entry : SessionEntry) : SessionList :=
  { list with entry := Function.update list.entry address entry }

theorem Inv.modify (h : Inv server list) {address : ℕ} {entry : SessionEntry}
    (htoken : entry.token = (list.entry address).token) : Inv server (list.modify address entry) where
  plain := h.plain
  address := h.address
  token e he := by
    show (Function.update list.entry address entry e.payload).token = e.key
    rw [← h.token e he, Function.update_apply]
    split
    · rename_i hsame
      rw [htoken, hsame]
    · rfl
  drawn := h.drawn
  bounded := h.bounded
  next := h.next

theorem Inv.session_modify (h : Inv server list) {address : ℕ} {entry : SessionEntry}
    (haddress : list.sessionTable.payloadOf token = some address) (other : List UInt8) :
    (list.modify address entry).session other =
      if other = token then some entry else list.session other := by
  obtain ⟨e, he, rfl, rfl⟩ := h.plain.payloadOf_eq_some_iff.mp haddress
  unfold SessionList.session SessionList.modify
  split
  · rename_i hsame
    rw [hsame, haddress]
    exact congrArg some (Function.update_self ..)
  · rename_i hother
    cases hpayload : list.sessionTable.payloadOf other with
    | none => rfl
    | some v =>
      obtain ⟨e', he', rfl, rfl⟩ := h.plain.payloadOf_eq_some_iff.mp hpayload
      refine congrArg some (Function.update_of_ne ?_ ..)
      intro hsame
      rw [← h.token e he, ← h.token e' he', hsame] at hother
      exact hother rfl

/-- A lookup finds the session of the token, unless it has expired, and then takes it out. -/
theorem Inv.findSessionLocked (h : Inv server list) (token : List UInt8) (time : ℤ) :
    (list.session token = none ∧ findSessionLocked server list token time = (none, list)) ∨
    (∃ entry, list.session token = some entry ∧ sessionIsExpired server entry time = true ∧
      findSessionLocked server list token time = (none, list.remove token)) ∨
    ∃ address, list.sessionTable.payloadOf token = some address ∧
      sessionIsExpired server (list.entry address) time = false ∧
      findSessionLocked server list token time = (some address, list) := by
  unfold Sessions.findSessionLocked
  by_cases hnil : token = []
  · refine .inl ⟨session_eq_none_iff.mpr fun e he hkey => ?_, if_pos hnil⟩
    exact (h.text_of_session he).1 (hkey.trans hnil)
  · rw [if_neg hnil]
    rcases h.plain.findIndexSerial token 0 with ⟨hmiss, hnone⟩ | ⟨i, e, hhit, he, hkey, hpayload⟩
    · rw [hmiss]
      refine .inl ⟨?_, rfl⟩
      unfold SessionList.session
      rw [hnone]
      rfl
    · have hmem := List.mem_of_getElem? he
      rw [hhit]
      simp only [he, Option.map_some, Option.getD_some, if_neg (h.address e hmem).1]
      cases hexpired : sessionIsExpired server (list.entry e.payload) time with
      | false => exact .inr (.inr ⟨e.payload, hpayload, hexpired, rfl⟩)
      | true => exact .inr (.inl ⟨_, hkey ▸ h.session_of_mem hmem, hexpired, rfl⟩)

theorem foldl_oldestSession {entry : ℕ → SessionEntry} {l : List HashMapEntry}
    (hl : ∀ e ∈ l, e.payload ≠ 0) (first : HashMapEntry) :
    ∃ e ∈ first :: l, l.foldl (oldestSession entry)
        (some ((entry first.payload).lastSeen, first.key.take (SESSION_TOKEN_STRING_SIZE - 1))) =
        some ((entry e.payload).lastSeen, e.key.take (SESSION_TOKEN_STRING_SIZE - 1)) ∧
      ∀ e' ∈ first :: l, (entry e.payload).lastSeen ≤ (entry e'.payload).lastSeen := by
  induction l generalizing first with
  | nil =>
    exact ⟨first, List.mem_singleton_self _, rfl, fun e' he' => by
      rw [List.mem_singleton.mp he']⟩
  | cons next l ih =>
    obtain ⟨hnext, hl⟩ := List.forall_mem_cons.mp hl
    rw [List.foldl_cons]
    unfold oldestSession
    rw [if_neg hnext]
    simp only
    by_cases hless : (entry next.payload).lastSeen < (entry first.payload).lastSeen
    · rw [if_pos hless]
      obtain ⟨e, he, hfold, hleast⟩ := ih hl next
      refine ⟨e, List.mem_cons_of_mem _ he, hfold, List.forall_mem_cons.mpr ⟨?_, hleast⟩⟩
      exact (hleast next (List.mem_cons_self ..)).trans hless.le
    · rw [if_neg hless]
      obtain ⟨e, he, hfold, hleast⟩ := ih hl first
      have hfirst := hleast first (List.mem_cons_self ..)
      refine ⟨e, ?_, hfold, List.forall_mem_cons.mpr ⟨hfirst, List.forall_mem_cons.mpr
        ⟨hfirst.trans (not_lt.mp hless), fun e' he' => hleast e' (List.mem_cons_of_mem _ he')⟩⟩⟩
      rcases List.mem_cons.mp he with rfl | he
      · exact List.mem_cons_self ..
      · exact List.mem_cons_of_mem _ (List.mem_cons_of_mem _ he)

/-- The eviction takes out a session that is seen longest ago, and only where there are too many. -/
theorem Inv.evict (h : Inv server list) :
    (evictOldestSessionIfAtCapacity server list = list ∧
        ((list.sessionTable.curNumberOfEntries : ℤ) < server.MAX_SESSIONS ∨
          list.sessionTable.entries = [])) ∨
      ∃ token entry, server.MAX_SESSIONS ≤ list.sessionTable.curNumberOfEntries ∧
        list.session token = some entry ∧
        (∀ other entry', list.session other = some entry' → entry.lastSeen ≤ entry'.lastSeen) ∧
        evictOldestSessionIfAtCapacity server list = list.remove token := by
  unfold evictOldestSessionIfAtCapacity
  by_cases hroom : (list.sessionTable.curNumberOfEntries : ℤ) < server.MAX_SESSIONS
  · rw [if_pos hroom]
    exact .inl ⟨rfl, .inl hroom⟩
  · rw [if_neg hroom]
    cases hentries : list.sessionTable.entries with
    | nil => exact .inl ⟨rfl, .inr rfl⟩
    | cons first l =>
      have hne : ∀ e ∈ first :: l, e.payload ≠ 0 := fun e he => (h.address e (hentries ▸ he)).1
      obtain ⟨hfirst, hl⟩ := List.forall_mem_cons.mp hne
      obtain ⟨e, he, hfold, hleast⟩ := @foldl_oldestSession list.entry l hl first
      have hmem : e ∈ list.sessionTable.entries := hentries ▸ he
      have hstart : oldestSession list.entry none first = some
          ((list.entry first.payload).lastSeen,
            first.key.take (SESSION_TOKEN_STRING_SIZE - 1)) := if_neg hfirst
      rw [List.foldl_cons, hstart, hfold]
      refine .inr ⟨e.key, list.entry e.payload, not_lt.mp hroom, h.session_of_mem hmem, ?_, ?_⟩
      · intro other entry' hother
        obtain ⟨e', he', -, rfl⟩ := h.exists_of_session hother
        exact hleast e' (hentries ▸ he')
      · simp only [(h.text_of_session hmem).2]
        rfl

theorem Inv.after_evict (h : Inv server list) :
    Inv server (evictOldestSessionIfAtCapacity server list) ∧
      ((evictOldestSessionIfAtCapacity server list).sessionTable.curNumberOfEntries + 1 : ℤ) ≤
        max 1 server.MAX_SESSIONS := by
  rcases h.evict with ⟨hsame, hfew | hnil⟩ | ⟨token, entry, -, hsession, -, hremoved⟩
  · rw [hsame]
    exact ⟨h, le_max_of_le_right (Int.add_one_le_of_lt hfew)⟩
  · rw [hsame]
    refine ⟨h, le_max_of_le_left ?_⟩
    unfold HashMap.curNumberOfEntries
    rw [hnil]
    rfl
  · rw [hremoved]
    refine ⟨h.remove token, ?_⟩
    have hcount := @Inv.count_remove _ _ token h (by rw [hsession]; exact Option.some_ne_none _)
    have hbounded := h.bounded
    rw [hcount] at hbounded
    exact_mod_cast hbounded

theorem drawToken_spec (table : HashMap) (tries drawn : ℕ) :
    drawn ≤ (drawToken server table tries drawn).2 ∧
      ∀ t, (drawToken server table tries drawn).1 = some t →
        ∃ i, drawn ≤ i ∧ i < (drawToken server table tries drawn).2 ∧ server.draw i = some t := by
  induction tries generalizing drawn with
  | zero => exact ⟨le_rfl, fun t ht => by cases ht⟩
  | succ tries ih =>
    unfold drawToken
    cases hdraw : server.draw drawn with
    | none => exact ⟨Nat.le_succ _, fun t ht => by cases ht⟩
    | some token =>
      simp only
      split
      · obtain ⟨hle, hall⟩ := ih (drawn + 1)
        refine ⟨(Nat.le_succ _).trans hle, fun t ht => ?_⟩
        obtain ⟨i, hi, hlt, hi'⟩ := hall t ht
        exact ⟨i, (Nat.le_succ _).trans hi, hlt, hi'⟩
      · refine ⟨Nat.le_succ _, fun t ht => ?_⟩
        cases ht
        exact ⟨drawn, le_rfl, Nat.lt_succ_self _, hdraw⟩

theorem drawToken_isSome {table : HashMap} {tries drawn : ℕ} (hpos : tries ≠ 0)
    (hdraws : ∀ i < tries, server.draw (drawn + i) ≠ none) :
    (drawToken server table tries drawn).1 ≠ none := by
  induction tries generalizing drawn with
  | zero => exact absurd rfl hpos
  | succ tries ih =>
    unfold drawToken
    cases hdraw : server.draw drawn with
    | none => exact absurd hdraw (hdraws 0 (Nat.succ_pos _))
    | some token =>
      simp only
      split
      · rename_i hagain
        refine ih hagain.2 fun i hi => ?_
        have := hdraws (i + 1) (Nat.succ_lt_succ hi)
        rwa [← Nat.add_assoc, Nat.add_right_comm] at this
      · exact Option.some_ne_none _

theorem Token.text_injective {t t' : Token} (h : t.text = t'.text) : t = t' := by
  cases t
  cases t'
  cases h
  rfl

/-- A token that is drawn now is the one of no session. -/
theorem Inv.fresh (h : Inv server list) {i : ℕ} {t : Token} (hi : list.drawn ≤ i)
    (hdraw : server.draw i = some t) : list.session t.text = none := by
  rw [session_eq_none_iff]
  intro e he hkey
  obtain ⟨j, t', hj, hdraw', htext⟩ := h.drawn e he
  rw [Token.text_injective (htext.trans hkey)] at hdraw'
  have := server.never_repeats i j t hdraw hdraw'
  omega

theorem Inv.draws (h : Inv server list) {drawn : ℕ} (hle : list.drawn ≤ drawn) :
    Inv server { list with drawn } where
  plain := h.plain
  address := h.address
  token := h.token
  drawn e he := by
    obtain ⟨i, t, hi, hrest⟩ := h.drawn e he
    exact ⟨i, t, hi.trans_le hle, hrest⟩
  bounded := h.bounded
  next := h.next

/-- The memory that a new session takes is there, and so are its tokens. -/
def Provided (server : Server) (list : SessionList) (memory : Memory) : Prop :=
  memory = ⟨true, true, true, true, true⟩ ∧ ∀ i < 5, server.draw (list.drawn + i) ≠ none

def newSession (t : Token) (time : ℤ) : SessionEntry :=
  { token := t.text
    created := time
    lastSeen := time
    data := hashMapCreate 8 8 false }

/-- What becomes of a table with room for one more session. -/
inductive Created (server : Server) (list : SessionList) (time : ℤ) (memory : Memory) :
    Option ℕ → SessionList → Prop
  | failed {list' : SessionList} (inv : Inv server list')
      (session : ∀ other, list'.session other = list.session other)
      (missing : ¬ Provided server list memory) : Created server list time memory none list'
  /-- The table could not grow, which its answer does not tell. -/
  | lost {list' : SessionList} {address : ℕ} (t : Token) (inv : Inv server list')
      (session : ∀ other, list'.session other = list.session other)
      (tokenOut : tokenOut list' address = t.text)
      (fresh : ∃ i, list.drawn ≤ i ∧ server.draw i = some t)
      (missing : ¬ Provided server list memory) :
      Created server list time memory (some address) list'
  | created {list' : SessionList} {address : ℕ} (t : Token) (inv : Inv server list')
      (session : ∀ other, list'.session other =
        if other = t.text then some (newSession t time) else list.session other)
      (tokenOut : tokenOut list' address = t.text)
      (fresh : ∃ i, list.drawn ≤ i ∧ server.draw i = some t) :
      Created server list time memory (some address) list'

theorem Inv.sameEntries (h : Inv server list) {table : HashMap} (hplain : Plain table)
    (hentries : table.entries = list.sessionTable.entries) {drawn : ℕ} (hle : list.drawn ≤ drawn)
    {entry : ℕ → SessionEntry} {next : ℕ} (hnext : list.next ≤ next)
    (hentry : ∀ address < list.next, entry address = list.entry address)
    {value : ℕ → List UInt8} :
    Inv server ⟨table, entry, value, next, drawn⟩ ∧
      ∀ other, SessionList.session ⟨table, entry, value, next, drawn⟩ other = list.session other := by
  have hsame : ∀ e ∈ table.entries, e ∈ list.sessionTable.entries := fun e he => hentries ▸ he
  refine ⟨?_, fun other => ?_⟩
  · exact
      { plain := hplain
        address := fun e he =>
          ⟨(h.address e (hsame e he)).1, (h.address e (hsame e he)).2.trans_le hnext⟩
        token := fun e he => by
          rw [← h.token e (hsame e he)]
          exact congrArg _ (hentry _ (h.address e (hsame e he)).2)
        drawn := fun e he => by
          obtain ⟨i, t, hi, hrest⟩ := h.drawn e (hsame e he)
          exact ⟨i, t, hi.trans_le hle, hrest⟩
        bounded := by
          unfold HashMap.curNumberOfEntries
          rw [hentries]
          exact h.bounded
        next := h.next.trans_le hnext }
  · have hpayload : table.payloadOf other = list.sessionTable.payloadOf other := by
      unfold HashMap.payloadOf
      rw [hentries]
    unfold SessionList.session
    rw [hpayload]
    cases hsome : list.sessionTable.payloadOf other with
    | none => rfl
    | some address =>
      obtain ⟨e, he, -, rfl⟩ := h.plain.payloadOf_eq_some_iff.mp hsome
      exact congrArg some (hentry _ (h.address e he).2)

theorem Inv.addSession (h : Inv server list)
    (hroom : (list.sessionTable.curNumberOfEntries + 1 : ℤ) ≤ max 1 server.MAX_SESSIONS)
    {t : Token} {i drawn : ℕ} (hi : list.drawn ≤ i) (hlt : i < drawn)
    (hdraw : server.draw i = some t) {table : HashMap} (hplain : Plain table) {heap : Heap}
    (hentries : table.entries = list.sessionTable.entries ++
      [Plain.entryFor list.sessionTable t.text list.next 0 heap])
    {value : ℕ → List UInt8} :
    let list' : SessionList := ⟨table, Function.update list.entry list.next (newSession t time),
      value, list.next + 1, drawn⟩
    Inv server list' ∧ ∀ other, list'.session other =
      if other = t.text then some (newSession t time) else list.session other := by
  have hfresh : ∀ e ∈ list.sessionTable.entries, e.payload ≠ list.next :=
    fun e he => (h.address e he).2.ne
  refine ⟨?_, fun other => ?_⟩
  · refine ⟨hplain, ?_, ?_, ?_, ?_, Nat.succ_pos _⟩
    · simp only [hentries, List.forall_mem_append, List.forall_mem_singleton]
      refine ⟨fun e he => ⟨(h.address e he).1, (h.address e he).2.trans (Nat.lt_succ_self _)⟩, ?_⟩
      exact ⟨h.next.ne', Nat.lt_succ_self _⟩
    · simp only [hentries, List.forall_mem_append, List.forall_mem_singleton]
      refine ⟨fun e he => ?_, ?_⟩
      · rw [Function.update_of_ne (hfresh e he)]
        exact h.token e he
      · show (Function.update list.entry list.next (newSession t time) list.next).token = t.text
        rw [Function.update_self]
        rfl
    · simp only [hentries, List.forall_mem_append, List.forall_mem_singleton]
      refine ⟨fun e he => ?_, ⟨i, t, hlt, hdraw, rfl⟩⟩
      obtain ⟨j, t', hj, hrest⟩ := h.drawn e he
      exact ⟨j, t', hj.trans (hi.trans_lt hlt), hrest⟩
    · show ((table.entries.length : ℕ) : ℤ) ≤ _
      rw [hentries, List.length_append]
      exact_mod_cast hroom
  · unfold SessionList.session
    rw [Plain.payloadOf_add hplain hentries]
    show Option.map _ (if other = t.text then some list.next else _) = _
    split
    · exact congrArg some (Function.update_self ..)
    · cases hsome : list.sessionTable.payloadOf other with
      | none => rfl
      | some address =>
        obtain ⟨e, he, -, rfl⟩ := h.plain.payloadOf_eq_some_iff.mp hsome
        exact congrArg some (Function.update_of_ne (hfresh e he) ..)

theorem Inv.create (h : Inv server list) {r : Option ℕ}
    (hcreate : createSessionLocked server list time memory = .ok (r, list')) :
    Created server (evictOldestSessionIfAtCapacity server list) time memory r list' := by
  obtain ⟨h₁, hroom⟩ := h.after_evict
  unfold createSessionLocked at hcreate
  simp only at hcreate
  generalize evictOldestSessionIfAtCapacity server list = list₁ at h₁ hroom hcreate ⊢
  split at hcreate
  · rename_i hentry
    cases hcreate
    exact .failed h₁ (fun _ => rfl) fun hprovided => by simp [hprovided.1] at hentry
  · obtain ⟨hle, hdraws⟩ := @drawToken_spec server list₁.sessionTable 5 list₁.drawn
    have hsome := @drawToken_isSome server list₁.sessionTable 5 list₁.drawn (by decide)
    cases hdrawn : drawToken server list₁.sessionTable 5 list₁.drawn with
    | mk answer drawn =>
      rw [hdrawn] at hcreate hle hdraws hsome
      cases answer with
      | none =>
        cases hcreate
        exact .failed (h₁.draws hle) (fun _ => rfl) fun hprovided => hsome hprovided.2 rfl
      | some t =>
        obtain ⟨i, hi, hlt, hdraw⟩ := hdraws t rfl
        simp only at hcreate
        split at hcreate
        · rename_i hdata
          cases hcreate
          exact .failed (h₁.draws hle) (fun _ => rfl) fun hprovided => by
            simp [hprovided.1] at hdata
        · have habsent : list₁.sessionTable.payloadOf t.text = none :=
            Option.map_eq_none_iff.mp (h₁.fresh hi hdraw)
          cases hadd : hashMapAdd list₁.sessionTable t.text list₁.next 0
              (memory.heap list₁.next) with
          | error fault =>
            rw [hadd] at hcreate
            cases hcreate
          | ok answer =>
            obtain ⟨stored, table⟩ := answer
            obtain ⟨hplain, hcases⟩ := h₁.plain.add habsent hadd
            have hmissing : (memory.heap list₁.next).entries = false ∨
                (memory.heap list₁.next).key = false → ¬ Provided server list₁ memory := by
              rintro hno ⟨rfl, -⟩
              rcases hno with hno | hno <;> cases hno
            have hupdate : ∀ address < list₁.next,
                Function.update list₁.entry list₁.next (newSession t time) address =
                  list₁.entry address := fun address hlt =>
              Function.update_of_ne hlt.ne ..
            have htext : tokenOut ⟨table, Function.update list₁.entry list₁.next
                (newSession t time), list₁.value, list₁.next + 1, drawn⟩ list₁.next = t.text := by
              unfold tokenOut
              simp only [Function.update_self]
              exact List.take_of_length_le (Nat.le_sub_one_of_lt t.fits)
            rw [hadd] at hcreate
            cases stored with
            | false =>
              rcases hcases with ⟨hsame, hno⟩ | ⟨-, hyes⟩
              · cases hcreate
                obtain ⟨hinv, hsession⟩ := h₁.sameEntries hplain hsame hle le_rfl (fun _ _ => rfl)
                exact .failed hinv hsession (hmissing hno)
              · cases hyes
            | true =>
              cases hcreate
              rcases hcases with ⟨hsame, hno⟩ | ⟨happended, -⟩
              · obtain ⟨hinv, hsession⟩ :=
                  h₁.sameEntries hplain hsame hle (Nat.le_succ _) hupdate
                exact .lost t hinv hsession htext ⟨i, hi, hdraw⟩ (hmissing hno)
              · obtain ⟨hinv, hsession⟩ := h₁.addSession hroom hi hlt hdraw hplain happended
                exact .created t hinv hsession htext ⟨i, hi, hdraw⟩

end AmmarServer.Cache.Sessions
