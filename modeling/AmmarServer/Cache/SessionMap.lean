import AmmarServer.Cache.SessionData

/-! What the sessions answer for a name, against the calls that were made on them. -/

namespace AmmarServer.Cache.Sessions
open Hashmap Run

/-- The sessions, and the calls so far that were made on a live session, the latest first. -/
structure Service where
  list : SessionList
  history : List Call

/-- The value that a name of a session was given last, if it has not been unset since. -/
def latest (token name : List UInt8) : List Call → Option (List UInt8)
  | [] => none
  | .storeInfo sessionToken key value _ _ :: calls =>
    if sessionToken = token ∧ key = name then some value else latest token name calls
  | .unsetInfo sessionToken key _ :: calls =>
    if sessionToken = token ∧ key = name then none else latest token name calls
  | _ :: calls => latest token name calls

def isLive (server : Server) (list : SessionList) (token : List UInt8) (time : ℤ) : Bool :=
  (list.session token).any fun entry => !sessionIsExpired server entry time

def onLive (server : Server) (list : SessionList) : Call → Bool
  | .getSessionFromHeader .. => false
  | .destroy _ => false
  | .getInfo token _ time => isLive server list token time
  | .storeInfo token _ _ time _ => isLive server list token time
  | .unsetInfo token _ time => isLive server list token time

def Service.call (server : Server) (s : Service) (c : Call) : Except Fault Service :=
  (s.list.call server c).map fun (_, list) =>
    { list, history := if onLive server s.list c then c :: s.history else s.history }

/-- A call that faults ends the run. -/
def Service.step (server : Server) (s : Except Fault Service) (c : Call) : Except Fault Service :=
  s.bind fun s => s.call server c

def Service.start : Service := ⟨sessionListInitialize, []⟩

/-- There is memory for a value, and its size and the one of its name are what `strlen` says. -/
structure Room (data : HashMap) (name value : List UInt8) (memory : Memory) : Prop where
  shortName : name.length < 2 ^ 32
  shortValue : value.length + 1 < 2 ^ 32
  key : memory.key = true
  payload : memory.payload = true
  entries : data.payloadOf name = none → data.maxNumberOfEntries ≤ data.curNumberOfEntries →
    memory.entries = true ∧ data.maxNumberOfEntries + data.entryAllocationStep < 2 ^ 32

/-- Each value that is stored in a live session has room. -/
def Roomy (server : Server) (s : Except Fault Service) (c : Call) : Prop :=
  ∀ service token name value time memory entry, s = .ok service →
    c = .storeInfo token name value time memory → service.list.session token = some entry →
    sessionIsExpired server entry time = false → Room entry.data name value memory

variable {server : Server} {list list' : SessionList} {token name : List UInt8} {time : ℤ}
  {memory : Memory}

theorem isLive_iff : isLive server list token time = true ↔
    ∃ entry, list.session token = some entry ∧ sessionIsExpired server entry time = false := by
  unfold isLive
  rw [Option.any_eq_true]
  simp only [Bool.not_eq_true']

theorem Inv.storeInfo_roomy (h : Inv server list) (hdata : DataInv list) {entry : SessionEntry}
    (hsession : list.session token = some entry)
    (hlive : sessionIsExpired server entry time = false) {value : List UInt8}
    (hroom : Room entry.data name value memory) :
    ∃ list', sessionListStoreInfo server list token name value time memory =
      .ok (.done true, list') := by
  obtain ⟨address, -, rfl, hfind⟩ := h.find_live hsession hlive
  have hcopied := hdata token _ hsession
  have hstored : ∃ answer list', sessionListStoreInfo server list token name value time memory =
      .ok (answer, list') := by
    unfold sessionListStoreInfo
    rw [hfind]
    simp only
    generalize hcleared : (if (hashMapContainsKey server.qsort server.bsearch
      (list.entry address).data name).1 = true then
        (hashMapRemoveKey (list.entry address).data name).2
      else (list.entry address).data) = cleared
    obtain ⟨hplain, -, hpayload, hstep, hfull⟩ :=
      @cleared_spec server _ hcopied.plain name _ hcleared
    have hgranted : Granted cleared ((value.length + 1) % 2 ^ 32) (memory.heap list.next) := by
      constructor
      · intro _ hnone
        obtain ⟨habsent, rfl⟩ := hfull hnone
        obtain ⟨hentries, hbound⟩ := hroom.entries habsent hnone
        exact ⟨hentries, hcopied.step, hbound⟩
      · intro _
        unfold Memory.heap
        rw [hroom.payload]
        exact Option.some_ne_none _
    have habsent : cleared.payloadOf name = none := by rw [hpayload, if_pos rfl]
    obtain ⟨r, data, hadd, -⟩ := hplain.represents.add habsent list.next hgranted
    rw [hadd]
    exact ⟨_, _, rfl⟩
  obtain ⟨answer, list', hstored⟩ := hstored
  obtain ⟨data, -, -, -, -, hvalue⟩ := h.storeInfo_live hdata hsession hlive hstored
  have hgrows : (list.entry address).data.payloadOf name = none →
      Grows (list.entry address).data memory :=
    fun hnone hfull => (hroom.entries hnone hfull).1
  rw [hstored, (hvalue hgrows hroom.key).2]
  exact ⟨list', rfl⟩

/-- The sessions hold what the calls on them say, and no call was on a token that is still to be
drawn. -/
structure Recorded (server : Server) (s : Service) : Prop where
  inv : Inv server s.list
  data : DataInv s.list
  stored : ∀ token, s.list.session token ≠ none → ∀ name,
    s.list.stored token name = latest token name s.history
  drawn : ∀ token name, latest token name s.history ≠ none →
    DrawnIn server 0 s.list.drawn token

theorem recorded_start : Recorded server .start where
  inv := inv_initialize
  data := dataInv_initialize
  stored _ h := absurd rfl h
  drawn _ _ h := absurd rfl h

theorem Recorded.keeps {s : Service} (h : Recorded server s) {history : List Call}
    (hkeeps : ∀ name, ∃ ended, Keeps server name s.list ended list')
    (hsame : ∀ token name, latest token name history = latest token name s.history) :
    Recorded server ⟨list', history⟩ := by
  obtain ⟨ended, hkept⟩ := hkeeps []
  refine ⟨hkept.inv, hkept.data, fun token hsome name => ?_, fun token name hne => ?_⟩
  · obtain ⟨ended', hkept'⟩ := hkeeps name
    have hstored := hkept'.stored token hsome
    show list'.stored token name = latest token name history
    rw [hstored, hsame]
    by_cases hnone : s.list.session token = none
    · -- the session is new, so that no call was made on it
      rw [stored_of_none hnone]
      by_contra hcalled
      exact (h.drawn token name (Ne.symm hcalled)).disjoint (hkept.new token hsome hnone)
    · exact h.stored token hnone name
  · rw [hsame] at hne
    exact (h.drawn token name hne).mono le_rfl hkept.drawn

theorem Recorded.setData {s : Service} (h : Recorded server s) {entry : SessionEntry}
    {data : HashMap} {history : List Call} (hsession : s.list.session token = some entry)
    (hinv : Inv server list') (hext : Extends s.list list') (hcopied : Copied list' data)
    (hafter : ∀ other, list'.session other =
      if other = token then some { entry with data } else s.list.session other)
    (hsame : ∀ name, list'.valueOf data name = latest token name history)
    (hother : ∀ other, other ≠ token → ∀ name,
      latest other name history = latest other name s.history) :
    Recorded server ⟨list', history⟩ := by
  have hsome : s.list.session token ≠ none := by
    rw [hsession]
    exact Option.some_ne_none _
  refine ⟨hinv, fun other entry' hentry' => ?_, fun other hne name => ?_, fun other name hne => ?_⟩
  · change list'.session other = some entry' at hentry'
    rw [hafter] at hentry'
    split at hentry'
    · cases hentry'
      exact hcopied
    · exact (h.data other entry' hentry').extends hext
  · show list'.stored other name = latest other name history
    by_cases htoken : other = token
    · subst htoken
      rw [stored_of_session ((hafter other).trans (if_pos rfl)), hsame]
    · have hsession' := (hafter other).trans (if_neg htoken)
      change list'.session other ≠ none at hne
      rw [hsession'] at hne
      obtain ⟨entry', hentry'⟩ := Option.ne_none_iff_exists'.mp hne
      rw [stored_of_session (hsession'.trans hentry'),
        (h.data other entry' hentry').valueOf_extends hext, hother other htoken,
        ← h.stored other hne, stored_of_session hentry']
  · by_cases htoken : other = token
    · subst htoken
      exact (h.inv.drawnIn hsome).mono le_rfl hext.drawn
    · change latest other name history ≠ none at hne
      rw [hother other htoken] at hne
      exact (h.drawn other name hne).mono le_rfl hext.drawn

theorem Recorded.storeInfo {s : Service} (h : Recorded server s) {entry : SessionEntry}
    (hsession : s.list.session token = some entry)
    (hlive : sessionIsExpired server entry time = false) {value : List UInt8}
    (hroom : Room entry.data name value memory) {answer : Answer}
    (hstore : sessionListStoreInfo server s.list token name value time memory =
      .ok (answer, list')) :
    Recorded server ⟨list', .storeInfo token name value time memory :: s.history⟩ := by
  obtain ⟨data, hext, hcopied, hafter, hother, hvalue⟩ :=
    h.inv.storeInfo_live h.data hsession hlive hstore
  apply h.setData hsession (h.inv.storeInfo hstore).1 hext hcopied hafter
  · intro key
    unfold latest
    by_cases hkey : key = name
    · subst hkey
      rw [if_pos ⟨rfl, rfl⟩,
        (hvalue (fun hnone hfull => (hroom.entries hnone hfull).1) hroom.key).1,
        keptBytes_dropLast hroom.shortValue]
    · rw [if_neg fun hcon => hkey hcon.2.symm, hother key hkey, ← stored_of_session hsession]
      apply h.stored
      rw [hsession]
      exact Option.some_ne_none _
  · intro other hne key
    exact if_neg fun hcon => hne hcon.1.symm

theorem Recorded.unsetInfo {s : Service} (h : Recorded server s) {entry : SessionEntry}
    (hsession : s.list.session token = some entry)
    (hlive : sessionIsExpired server entry time = false) (name : List UInt8) :
    Recorded server ⟨(sessionListUnsetInfo server s.list token name time).2,
      .unsetInfo token name time :: s.history⟩ := by
  obtain ⟨data, hext, hcopied, hafter, hvalue⟩ :=
    h.inv.unsetInfo_live h.data hsession hlive name rfl
  apply h.setData hsession (h.inv.unsetInfo token name time).1 hext hcopied hafter
  · intro key
    rw [hvalue]
    unfold latest
    by_cases hkey : key = name
    · rw [if_pos hkey, if_pos ⟨rfl, hkey.symm⟩]
    · rw [if_neg hkey, if_neg fun hcon => hkey hcon.2.symm, ← stored_of_session hsession]
      apply h.stored
      rw [hsession]
      exact Option.some_ne_none _
  · intro other hne key
    exact if_neg fun hcon => hne hcon.1.symm

theorem dead_of_not_live (h : ¬ isLive server list token time = true) :
    ∀ entry, list.session token = some entry → sessionIsExpired server entry time = true := by
  intro entry hsession
  by_contra hexpired
  exact h (isLive_iff.mpr ⟨entry, hsession, Bool.eq_false_iff.mpr hexpired⟩)

theorem Recorded.find {s : Service} (h : Recorded server s) (token : List UInt8) (time : ℤ) :
    Recorded server ⟨(Sessions.findSessionLocked server s.list token time).2, s.history⟩ :=
  h.keeps (fun _ => ⟨_, h.inv.keeps_find h.data token time⟩) fun _ _ => rfl

theorem Recorded.call {s s' : Service} (h : Recorded server s) {c : Call}
    (hroomy : Roomy server (.ok s) c) (hcall : s.call server c = .ok s') : Recorded server s' := by
  unfold Service.call at hcall
  cases hdone : s.list.call server c with
  | error fault =>
    rw [hdone] at hcall
    cases hcall
  | ok result =>
    obtain ⟨answer, list'⟩ := result
    rw [hdone] at hcall
    cases hcall
    cases c with
    | getSessionFromHeader cookieValue time later memory =>
      exact h.keeps (fun _ => ⟨_, (h.inv.keeps_header h.data hdone).1⟩) fun _ _ => rfl
    | destroy sessionToken =>
      cases hdone
      exact h.keeps (fun _ => ⟨_, h.inv.keeps_destroy h.data .loggedOut sessionToken⟩)
        fun _ _ => rfl
    | getInfo sessionToken key time =>
      have hlist := congrArg Prod.snd (Except.ok.inj hdone)
      dsimp only at hlist
      subst hlist
      refine h.keeps (fun _ => ⟨_, h.inv.keeps_getInfo h.data sessionToken key time⟩) ?_
      intro token name
      split
      · rfl
      · rfl
    | storeInfo sessionToken key value time memory =>
      by_cases hlive : isLive server s.list sessionToken time = true
      · rw [if_pos (show onLive server s.list
          (.storeInfo sessionToken key value time memory) = true from hlive)]
        obtain ⟨entry, hsession, hexpired⟩ := isLive_iff.mp hlive
        exact h.storeInfo hsession hexpired
          (hroomy s sessionToken key value time memory entry rfl rfl hsession hexpired) hdone
      · rw [if_neg (show ¬ onLive server s.list
          (.storeInfo sessionToken key value time memory) = true from hlive),
          h.inv.storeInfo_dead (dead_of_not_live hlive) hdone]
        exact h.find sessionToken time
    | unsetInfo sessionToken key time =>
      have hlist := congrArg Prod.snd (Except.ok.inj hdone)
      dsimp only at hlist
      subst hlist
      by_cases hlive : isLive server s.list sessionToken time = true
      · rw [if_pos (show onLive server s.list (.unsetInfo sessionToken key time) = true
          from hlive)]
        obtain ⟨entry, hsession, hexpired⟩ := isLive_iff.mp hlive
        exact h.unsetInfo hsession hexpired key
      · rw [if_neg (show ¬ onLive server s.list (.unsetInfo sessionToken key time) = true
          from hlive), h.inv.unsetInfo_dead (dead_of_not_live hlive)]
        exact h.find sessionToken time

theorem recorded_of_reaches {s : Except Fault Service}
    (hrun : Reaches (Service.step server) (Roomy server) (.ok .start) s) :
    ∀ service, s = .ok service → Recorded server service := by
  refine @Run.Reaches.invariant _ _ _ _ _
    (fun s => ∀ service, s = .ok service → Recorded server service) ?_ ?_ _ hrun
  · rintro service hstart
    cases hstart
    exact recorded_start
  · rintro s c h hroomy service hstep
    cases s with
    | error fault => cases hstep
    | ok before => exact (h before rfl).call hroomy hstep

/-- Behind every run whose stored values have room, the session of a token answers for each name
with the value that the name was given last, its names are distinct, and a value that has room is
stored. -/
theorem getInfo_latest {s : Except Fault Service}
    (hrun : Reaches (Service.step server) (Roomy server) (.ok .start) s) {service : Service}
    (hs : s = .ok service) {entry : SessionEntry}
    (hsession : service.list.session token = some entry) :
    (entry.data.entries.map (·.key)).Nodup ∧
      ∀ time, sessionIsExpired server entry time = false →
        (∀ name, sessionListGetInfo server service.list token name time =
          (.info ((latest token name service.history).map
            (·.take (SESSION_VALUE_SCRATCH_SIZE - 1))), service.list)) ∧
        ∀ name value memory, Room entry.data name value memory →
          ∃ list', sessionListStoreInfo server service.list token name value time memory =
            .ok (.done true, list') := by
  have h := recorded_of_reaches hrun service hs
  refine ⟨(h.data token entry hsession).plain.keys, fun time hlive => ⟨fun name => ?_, ?_⟩⟩
  · rw [h.inv.getInfo_live h.data hsession hlive, h.stored token _ name]
    rw [hsession]
    exact Option.some_ne_none _
  · intro name value memory hroom
    exact h.inv.storeInfo_roomy h.data hsession hlive hroom

/-- The value `1` under a name of one byte. -/
def put (name : UInt8) (entries : Bool) : Call :=
  .storeInfo [65] [name] [49] 1 ⟨true, true, entries, true, true⟩

def stored (calls : List Call) : Except Fault Service :=
  calls.foldl (Service.step single) (.ok .start)

/-- A name of the only session, and what it answers for it. -/
theorem put_latest :
    ∃ service entry, stored [visit 0 true, put 107 true] = .ok service ∧
      service.list.session [65] = some entry ∧ (entry.data.entries.map (·.key)).Nodup ∧
      ∃ time, sessionIsExpired single entry time = false ∧
        latest [65] [107] service.history = some [49] ∧
        sessionListGetInfo single service.list [65] [107] time =
          (.info ((latest [65] [107] service.history).map
            (·.take (SESSION_VALUE_SCRATCH_SIZE - 1))), service.list) := by
  have hvisit : Reaches (Service.step single) (Roomy single) (.ok .start)
      (stored [visit 0 true]) :=
    .step (visit 0 true) .start fun _ _ _ _ _ _ _ _ hcall => Call.noConfusion hcall
  have hput : Roomy single (stored [visit 0 true]) (put 107 true) := by
    rintro service token name value time memory entry hservice hcall hsession -
    cases hcall
    cases hservice
    cases hsession
    exact ⟨by decide, by decide, rfl, rfl, fun _ hfull => absurd hfull (by decide)⟩
  have hlatest := @getInfo_latest single [65] _ (.step (put 107 true) hvisit hput) _ rfl _ rfl
  exact ⟨_, _, rfl, rfl, hlatest.1, 1, rfl, rfl, (hlatest.2 1 rfl).1 [107]⟩

/-- A ninth name for which the map cannot grow. -/
theorem put_lost :
    ¬ ∀ (server : Server) (s : Except Fault Service),
      Reaches (Service.step server) (fun _ _ => True) (.ok .start) s →
      ∀ service, s = .ok service → ∀ token entry, service.list.session token = some entry →
        ∀ time, sessionIsExpired server entry time = false → ∀ name,
          (sessionListGetInfo server service.list token name time).1 =
            .info ((latest token name service.history).map
              (·.take (SESSION_VALUE_SCRATCH_SIZE - 1))) := by
  intro hall
  have hrun : Reaches (Service.step single) (fun _ _ => True) (.ok .start)
      (stored (visit 0 true :: ([1, 2, 3, 4, 5, 6, 7, 8].map (put · true) ++ [put 9 false]))) :=
    Reaches.foldl (fun _ _ => trivial) _ .start
  have hanswer := hall single _ hrun _ rfl [65] _ rfl 1 rfl [9]
  exact absurd hanswer (by decide)

end AmmarServer.Cache.Sessions
