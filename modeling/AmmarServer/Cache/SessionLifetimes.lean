import AmmarServer.Cache.SessionList

/-! How long a session lives: what each call does with the sessions of a table, behind every run of
calls. -/

namespace AmmarServer.Cache.Sessions
open Hashmap Run

variable {server : Server} {list list' : SessionList} {token : List UInt8} {time later : ℤ}
  {memory : Memory}

/-- The token that a call looks up, and when. -/
def Call.presents : Call → Option (List UInt8 × ℤ)
  | .getSessionFromHeader cookieValue time _ _ => some (cookieValue, time)
  | .destroy _ => none
  | .getInfo sessionToken _ time => some (sessionToken, time)
  | .storeInfo sessionToken _ _ time _ => some (sessionToken, time)
  | .unsetInfo sessionToken _ time => some (sessionToken, time)

def Expired (server : Server) (c : Call) (token : List UInt8) (entry : SessionEntry) : Prop :=
  ∃ time, c.presents = some (token, time) ∧
    server.SESSION_IDLE_TIMEOUT_SECONDS < time - entry.lastSeen

/-- A request without a session comes where there are too many, and none is seen longer ago. -/
def Evicted (server : Server) (list : SessionList) (c : Call) (entry : SessionEntry) : Prop :=
  (∃ cookieValue time later memory, c = .getSessionFromHeader cookieValue time later memory ∧
      list.session cookieValue = none) ∧
    server.MAX_SESSIONS ≤ list.sessionTable.curNumberOfEntries ∧
    ∀ other entry', list.session other = some entry' → entry.lastSeen ≤ entry'.lastSeen

structure Sound (server : Server) (list : SessionList) : Prop where
  bounded : (list.sessionTable.curNumberOfEntries : ℤ) ≤ max 1 server.MAX_SESSIONS
  token : ∀ e ∈ list.sessionTable.entries, (list.entry e.payload).token = e.key
  distinct : (list.sessionTable.entries.map (·.key)).Nodup

/-- What a call does with the sessions. -/
structure Handled (server : Server) (list : SessionList) (c : Call) (answer : Answer)
    (list' : SessionList) : Prop where
  expired : ∀ token entry, list.session token = some entry → Expired server c token entry →
    (∀ isNew, answer ≠ .session true token isNew) ∧ answer ≠ .done true ∧
      ∀ value, answer ≠ .info (some value)
  live : ∀ cookieValue time later memory entry,
    c = .getSessionFromHeader cookieValue time later memory →
    list.session cookieValue = some entry → ¬ Expired server c cookieValue entry →
    answer = .session true cookieValue false
  refreshed : ∀ token entry', list'.session token = some entry' →
    (∃ entry, list.session token = some entry ∧ entry'.lastSeen = entry.lastSeen) ∨
      ∃ cookieValue time later memory isNew,
        c = .getSessionFromHeader cookieValue time later memory ∧
          answer = .session true token isNew ∧ entry'.lastSeen = later
  kept : ∀ token entry, list.session token = some entry → list'.session token = none →
    c = .destroy token ∨ Expired server c token entry ∨ Evicted server list c entry
  created : ∀ cookieValue time later memory,
    c = .getSessionFromHeader cookieValue time later memory → Provided server list memory →
    (∀ entry, list.session cookieValue = some entry → Expired server c cookieValue entry) →
    ∃ token, answer = .session true token true ∧ list'.session token ≠ none

theorem sessionIsExpired_iff {entry : SessionEntry} : sessionIsExpired server entry time = true ↔
    server.SESSION_IDLE_TIMEOUT_SECONDS < time - entry.lastSeen := decide_eq_true_iff

theorem Inv.sound (h : Inv server list) : Sound server list where
  bounded := h.bounded
  token := h.token
  distinct := h.plain.keys

theorem evict_drawn : (evictOldestSessionIfAtCapacity server list).drawn = list.drawn := by
  unfold evictOldestSessionIfAtCapacity
  split
  · rfl
  · split <;> rfl

theorem Inv.destroy (h : Inv server list) (token : List UInt8) :
    Inv server (list.remove token) ∧
      Handled server list (.destroy token) (sessionListDestroy list token).1
        (list.remove token) := by
  refine ⟨h.remove token, ?_⟩
  constructor
  · rintro other entry - ⟨time, hpresents, -⟩
    cases hpresents
  · intro cookieValue time later memory entry hc
    cases hc
  · intro other entry' hother
    rw [h.session_remove] at hother
    split at hother
    · cases hother
    · exact .inl ⟨entry', hother, rfl⟩
  · intro other entry hsession hnone
    rw [h.session_remove] at hnone
    split at hnone
    · rename_i hsame
      exact .inl (hsame ▸ rfl)
    · rw [hsession] at hnone
      cases hnone
  · intro cookieValue time later memory hc
    cases hc

theorem handled_of_none {c : Call} {answer : Answer}
    (hpresents : c.presents = some (token, time)) (hnone : list.session token = none)
    (hnot : ∀ cookieValue time later memory,
      c ≠ .getSessionFromHeader cookieValue time later memory) :
    Handled server list c answer list := by
  constructor
  · rintro other entry hsession ⟨time', hother, -⟩
    rw [hpresents] at hother
    cases hother
    rw [hnone] at hsession
    cases hsession
  · intro cookieValue time later memory entry hc
    exact absurd hc (hnot _ _ _ _)
  · exact fun other entry' hother => .inl ⟨entry', hother, rfl⟩
  · intro other entry hsession hnone
    rw [hsession] at hnone
    cases hnone
  · intro cookieValue time later memory hc
    exact absurd hc (hnot _ _ _ _)

theorem Inv.handled_of_expired (h : Inv server list) {c : Call} {answer : Answer}
    {entry : SessionEntry} (hpresents : c.presents = some (token, time))
    (hsession : list.session token = some entry) (hexpired : sessionIsExpired server entry time = true)
    (hanswer : answer ≠ .done true ∧ (∀ value, answer ≠ .info (some value)) ∧
      ∀ ok token isNew, answer ≠ .session ok token isNew)
    (hnot : ∀ cookieValue time later memory,
      c ≠ .getSessionFromHeader cookieValue time later memory) :
    Handled server list c answer (list.remove token) := by
  constructor
  · exact fun other entry' _ _ => ⟨fun isNew => hanswer.2.2 true other isNew, hanswer.1, hanswer.2.1⟩
  · intro cookieValue time later memory entry hc
    exact absurd hc (hnot _ _ _ _)
  · intro other entry' hother
    rw [h.session_remove] at hother
    split at hother
    · cases hother
    · exact .inl ⟨entry', hother, rfl⟩
  · intro other entry' hother hnone
    rw [h.session_remove] at hnone
    split at hnone
    · rename_i hsame
      subst hsame
      rw [hsession] at hother
      cases hother
      exact .inr (.inl ⟨time, hpresents, sessionIsExpired_iff.mp hexpired⟩)
    · rw [hother] at hnone
      cases hnone
  · intro cookieValue time later memory hc
    exact absurd hc (hnot _ _ _ _)

theorem Inv.handled_of_modify (h : Inv server list) {c : Call} {answer : Answer} {address : ℕ}
    {entry' : SessionEntry} {value : ℕ → List UInt8} {next : ℕ}
    (hpresents : c.presents = some (token, time))
    (haddress : list.sessionTable.payloadOf token = some address)
    (hexpired : sessionIsExpired server (list.entry address) time = false)
    (hseen : entry'.lastSeen = (list.entry address).lastSeen)
    (hnot : ∀ cookieValue time later memory,
      c ≠ .getSessionFromHeader cookieValue time later memory) :
    Handled server list c answer { list.modify address entry' with value, next } := by
  have hsession : list.session token = some (list.entry address) := by
    unfold SessionList.session
    rw [haddress]
    rfl
  have hafter := @Inv.session_modify _ _ token h address entry' haddress
  constructor
  · rintro other entry hother ⟨time', hpresents', hlate⟩
    rw [hpresents] at hpresents'
    cases hpresents'
    rw [hsession] at hother
    cases hother
    rw [← sessionIsExpired_iff, hexpired] at hlate
    cases hlate
  · intro cookieValue time later memory entry hc
    exact absurd hc (hnot _ _ _ _)
  · intro other entry hother
    have hother := (hafter other).symm.trans hother
    split at hother
    · rename_i hsame
      cases hother
      exact .inl ⟨_, hsame ▸ hsession, hseen⟩
    · exact .inl ⟨entry, hother, rfl⟩
  · intro other entry hother hnone
    have hnone := (hafter other).symm.trans hnone
    split at hnone
    · cases hnone
    · rw [hother] at hnone
      cases hnone
  · intro cookieValue time later memory hc
    exact absurd hc (hnot _ _ _ _)

theorem Inv.getInfo (h : Inv server list) (token name : List UInt8) (time : ℤ) :
    Inv server (sessionListGetInfo server list token name time).2 ∧
      Handled server list (.getInfo token name time)
        (sessionListGetInfo server list token name time).1
        (sessionListGetInfo server list token name time).2 := by
  unfold sessionListGetInfo
  rcases h.findSessionLocked token time with
    ⟨hnone, hfind⟩ | ⟨entry, hsession, hexpired, hfind⟩ | ⟨address, haddress, hexpired, hfind⟩
  · rw [hfind]
    exact ⟨h, handled_of_none rfl hnone fun _ _ _ _ hc => Call.noConfusion hc⟩
  · rw [hfind]
    refine ⟨h.remove token, h.handled_of_expired rfl hsession hexpired ?_
      fun _ _ _ _ hc => Call.noConfusion hc⟩
    simp
  · rw [hfind]
    have hsame : ∀ answer, Handled server list (.getInfo token name time) answer list := by
      intro answer
      have hkept := @Inv.handled_of_modify _ _ token time h (.getInfo token name time) answer
        address (list.entry address) list.value list.next rfl haddress hexpired rfl
        fun _ _ _ _ hc => Call.noConfusion hc
      rwa [SessionList.modify, Function.update_eq_self] at hkept
    simp only
    split
    · exact ⟨h, hsame _⟩
    · split
      · exact ⟨h, hsame _⟩
      · split
        · exact ⟨h, hsame _⟩
        · exact ⟨h, hsame _⟩

theorem Inv.storeInfo (h : Inv server list) {name value : List UInt8} {answer : Answer}
    (hstore : sessionListStoreInfo server list token name value time memory =
      .ok (answer, list')) :
    Inv server list' ∧
      Handled server list (.storeInfo token name value time memory) answer list' := by
  unfold sessionListStoreInfo at hstore
  rcases h.findSessionLocked token time with
    ⟨hnone, hfind⟩ | ⟨entry, hsession, hexpired, hfind⟩ | ⟨address, haddress, hexpired, hfind⟩
  · rw [hfind] at hstore
    cases hstore
    exact ⟨h, handled_of_none rfl hnone fun _ _ _ _ hc => Call.noConfusion hc⟩
  · rw [hfind] at hstore
    cases hstore
    refine ⟨h.remove token, h.handled_of_expired rfl hsession hexpired ?_
      fun _ _ _ _ hc => Call.noConfusion hc⟩
    simp
  · rw [hfind] at hstore
    simp only at hstore
    generalize (if (hashMapContainsKey server.qsort server.bsearch (list.entry address).data
      name).1 = true then (hashMapRemoveKey (list.entry address).data name).2
      else (list.entry address).data) = cleared at hstore
    cases hadd : hashMapAdd cleared name list.next ((value.length + 1) % 2 ^ 32)
        (memory.heap list.next) with
    | error fault =>
      rw [hadd] at hstore
      cases hstore
    | ok result =>
      obtain ⟨ok, data⟩ := result
      rw [hadd] at hstore
      cases hstore
      have hinv := @Inv.modify _ _ h address { list.entry address with data } rfl
      refine ⟨?_, h.handled_of_modify rfl haddress hexpired rfl
        fun _ _ _ _ hc => Call.noConfusion hc⟩
      exact
        { plain := hinv.plain
          address := fun e he =>
            ⟨(h.address e he).1, (h.address e he).2.trans (Nat.lt_succ_self _)⟩
          token := hinv.token
          drawn := hinv.drawn
          bounded := hinv.bounded
          next := Nat.succ_pos _ }

theorem Inv.unsetInfo (h : Inv server list) (token name : List UInt8) (time : ℤ) :
    Inv server (sessionListUnsetInfo server list token name time).2 ∧
      Handled server list (.unsetInfo token name time)
        (sessionListUnsetInfo server list token name time).1
        (sessionListUnsetInfo server list token name time).2 := by
  unfold sessionListUnsetInfo
  rcases h.findSessionLocked token time with
    ⟨hnone, hfind⟩ | ⟨entry, hsession, hexpired, hfind⟩ | ⟨address, haddress, hexpired, hfind⟩
  · rw [hfind]
    exact ⟨h, handled_of_none rfl hnone fun _ _ _ _ hc => Call.noConfusion hc⟩
  · rw [hfind]
    refine ⟨h.remove token, h.handled_of_expired rfl hsession hexpired ?_
      fun _ _ _ _ hc => Call.noConfusion hc⟩
    simp
  · rw [hfind]
    exact ⟨h.modify rfl, h.handled_of_modify rfl haddress hexpired rfl
      fun _ _ _ _ hc => Call.noConfusion hc⟩

theorem Inv.getSession_live (h : Inv server list) {cookieValue : List UInt8} {address : ℕ}
    (haddress : list.sessionTable.payloadOf cookieValue = some address)
    (hexpired : sessionIsExpired server (list.entry address) time = false) :
    let list' := list.modify address { list.entry address with lastSeen := later }
    Inv server list' ∧
      Handled server list (.getSessionFromHeader cookieValue time later memory)
        (.session true (tokenOut list' address) false) list' := by
  have hsession : list.session cookieValue = some (list.entry address) := by
    unfold SessionList.session
    rw [haddress]
    rfl
  have hafter := @Inv.session_modify _ _ cookieValue h address
    { list.entry address with lastSeen := later } haddress
  have hnot : ∀ entry, list.session cookieValue = some entry → ¬ Expired server
      (.getSessionFromHeader cookieValue time later memory) cookieValue entry := by
    rintro entry hsome ⟨time', hpresents, hlate⟩
    cases hpresents
    rw [hsession] at hsome
    cases hsome
    rw [← sessionIsExpired_iff, hexpired] at hlate
    cases hlate
  have htext : tokenOut (list.modify address { list.entry address with lastSeen := later })
      address = cookieValue := by
    obtain ⟨e, he, rfl, rfl⟩ := h.plain.payloadOf_eq_some_iff.mp haddress
    unfold tokenOut SessionList.modify
    simp only [Function.update_self]
    rw [h.token e he]
    exact (h.text_of_session he).2
  refine ⟨h.modify rfl, ?_⟩
  rw [htext]
  constructor
  · rintro other entry hother hlate
    obtain ⟨time', hpresents, -⟩ := id hlate
    cases hpresents
    exact absurd hlate (hnot entry hother)
  · intro cookieValue' time' later' memory' entry hc _ _
    cases hc
    rfl
  · intro other entry' hother
    rw [hafter] at hother
    split at hother
    · rename_i hsame
      cases hother
      exact .inr ⟨_, _, _, _, _, rfl, by rw [hsame], rfl⟩
    · exact .inl ⟨entry', hother, rfl⟩
  · intro other entry hother hnone
    rw [hafter] at hnone
    split at hnone
    · cases hnone
    · rw [hother] at hnone
      cases hnone
  · intro cookieValue' time' later' memory' hc _ hall
    cases hc
    exact absurd (hall _ hsession) (hnot _ hsession)

def newAnswer (list : SessionList) : Option ℕ → Answer
  | none => .session false [] false
  | some address => .session true (tokenOut list address) true

theorem Inv.handled_of_created (h : Inv server list) {list₂ : SessionList} {r : Option ℕ}
    {cookieValue : List UInt8} (hcreated : Created server list₂ later memory r list')
    (hdrawn : list₂.drawn = list.drawn)
    (hsub : ∀ token entry, list₂.session token = some entry → list.session token = some entry)
    (hexpired : ∀ entry, list.session cookieValue = some entry →
      Expired server (.getSessionFromHeader cookieValue time later memory) cookieValue entry)
    (hkept : ∀ token entry, list.session token = some entry → list₂.session token = none →
      Expired server (.getSessionFromHeader cookieValue time later memory) token entry ∨
        Evicted server list (.getSessionFromHeader cookieValue time later memory) entry) :
    Handled server list (.getSessionFromHeader cookieValue time later memory) (newAnswer list' r)
      list' := by
  have hprovided : Provided server list memory → Provided server list₂ memory := by
    unfold Provided
    rw [hdrawn]
    exact id
  have hfresh : ∀ t : Token, (∃ i, list₂.drawn ≤ i ∧ server.draw i = some t) →
      list.session t.text = none := by
    rintro t ⟨i, hi, hdraw⟩
    exact h.fresh (hdrawn ▸ hi) hdraw
  have hnew : ∀ t : Token, (∃ i, list₂.drawn ≤ i ∧ server.draw i = some t) →
      ∀ token entry, list.session token = some entry → t.text ≠ token := by
    intro t ht token entry hsome hsame
    rw [← hsame, hfresh t ht] at hsome
    cases hsome
  have hlive : ∀ cookieValue' time' later' memory' entry,
      Call.getSessionFromHeader cookieValue time later memory =
        .getSessionFromHeader cookieValue' time' later' memory' →
      list.session cookieValue' = some entry →
      Expired server (.getSessionFromHeader cookieValue time later memory) cookieValue' entry := by
    intro cookieValue' time' later' memory' entry hc hsome
    cases hc
    exact hexpired entry hsome
  cases hcreated with
  | failed inv session missing =>
    constructor
    · intro token entry _ _
      simp [newAnswer]
    · exact fun _ _ _ _ entry hc hsome hnot => absurd (hlive _ _ _ _ entry hc hsome) hnot
    · intro token entry' hother
      rw [session] at hother
      exact .inl ⟨entry', hsub token entry' hother, rfl⟩
    · intro token entry hsome hnone
      rw [session] at hnone
      exact .inr (hkept token entry hsome hnone)
    · intro cookieValue' time' later' memory' hc hall _
      cases hc
      exact absurd (hprovided hall) missing
  | lost t inv session htext fresh missing =>
    unfold newAnswer
    simp only [htext]
    constructor
    · intro token entry hsome _
      refine ⟨fun isNew hsame => ?_, by simp, by simp⟩
      cases hsame
      exact hnew t fresh _ entry hsome rfl
    · exact fun _ _ _ _ entry hc hsome hnot => absurd (hlive _ _ _ _ entry hc hsome) hnot
    · intro token entry' hother
      rw [session] at hother
      exact .inl ⟨entry', hsub token entry' hother, rfl⟩
    · intro token entry hsome hnone
      rw [session] at hnone
      exact .inr (hkept token entry hsome hnone)
    · intro cookieValue' time' later' memory' hc hall _
      cases hc
      exact absurd (hprovided hall) missing
  | created t inv session htext fresh =>
    unfold newAnswer
    simp only [htext]
    constructor
    · intro token entry hsome _
      refine ⟨fun isNew hsame => ?_, by simp, by simp⟩
      cases hsame
      exact hnew t fresh _ entry hsome rfl
    · exact fun _ _ _ _ entry hc hsome hnot => absurd (hlive _ _ _ _ entry hc hsome) hnot
    · intro token entry' hother
      rw [session] at hother
      split at hother
      · rename_i hsame
        cases hother
        exact .inr ⟨_, _, _, _, _, rfl, by rw [hsame], rfl⟩
      · exact .inl ⟨entry', hsub token entry' hother, rfl⟩
    · intro token entry hsome hnone
      rw [session] at hnone
      split at hnone
      · cases hnone
      · exact .inr (hkept token entry hsome hnone)
    · intro cookieValue' time' later' memory' hc hall _
      refine ⟨t.text, rfl, ?_⟩
      rw [session, if_pos rfl]
      exact Option.some_ne_none _

theorem Created.inv {list₂ : SessionList} {r : Option ℕ}
    (h : Created server list₂ time memory r list') : Inv server list' := by
  cases h with
  | failed inv _ _ => exact inv
  | lost _ inv _ _ _ _ => exact inv
  | created _ inv _ _ _ => exact inv

theorem Inv.evict_remove (h : Inv server list) (hsession : list.session token ≠ none) :
    evictOldestSessionIfAtCapacity server (list.remove token) = list.remove token := by
  rcases (h.remove token).evict with ⟨hsame, -⟩ | ⟨oldest, entry, hmany, hsome, -, -⟩
  · exact hsame
  · obtain ⟨e, he, -⟩ := (h.remove token).exists_of_session hsome
    have hpos : 0 < (list.remove token).sessionTable.curNumberOfEntries :=
      List.length_pos_of_mem he
    have hcount := h.count_remove hsession
    have hbounded := h.bounded
    rcases max_choice 1 server.MAX_SESSIONS with hmax | hmax <;> rw [hmax] at hbounded <;> omega

/-- The answer of `getSessionFromHeader` where it makes a session. -/
def answerCreated : Except Fault (Option ℕ × SessionList) → Except Fault (Answer × SessionList)
  | .error fault => .error fault
  | .ok (none, list) => .ok (.session false [] false, list)
  | .ok (some address, list) => .ok (.session true (tokenOut list address) true, list)

theorem Inv.getSession (h : Inv server list) {cookieValue : List UInt8} {answer : Answer}
    (hget : getSessionFromHeader server list cookieValue time later memory = .ok (answer, list')) :
    Inv server list' ∧
      Handled server list (.getSessionFromHeader cookieValue time later memory) answer list' := by
  unfold getSessionFromHeader at hget
  have hcreates : ∀ list₁ : SessionList, Inv server list₁ →
      (∀ r, Created server (evictOldestSessionIfAtCapacity server list₁) later memory r list' →
        Handled server list (.getSessionFromHeader cookieValue time later memory)
          (newAnswer list' r) list') →
      answerCreated (createSessionLocked server list₁ later memory) = Except.ok (answer, list') →
      Inv server list' ∧
        Handled server list (.getSessionFromHeader cookieValue time later memory) answer list' := by
    intro list₁ h₁ hhandled hanswer
    cases hcreate : createSessionLocked server list₁ later memory with
    | error fault =>
      rw [hcreate] at hanswer
      cases hanswer
    | ok result =>
      obtain ⟨r, list₂⟩ := result
      have hcreated := h₁.create hcreate
      rw [hcreate] at hanswer
      cases r with
      | none =>
        cases hanswer
        exact ⟨hcreated.inv, hhandled none hcreated⟩
      | some address =>
        cases hanswer
        exact ⟨hcreated.inv, hhandled (some address) hcreated⟩
  rcases h.findSessionLocked cookieValue time with
    ⟨hnone, hfind⟩ | ⟨entry, hsession, hexpired, hfind⟩ | ⟨address, haddress, hexpired, hfind⟩
  · rw [hfind] at hget
    refine hcreates list h (fun r hcreated => ?_) hget
    refine h.handled_of_created hcreated evict_drawn ?_ ?_ ?_
    · intro token entry hsome
      rcases h.evict with ⟨hsame, -⟩ | ⟨oldest, oldestEntry, -, -, -, hremoved⟩
      · rwa [hsame] at hsome
      · rw [hremoved, h.session_remove] at hsome
        split at hsome
        · cases hsome
        · exact hsome
    · intro entry hsome
      rw [hnone] at hsome
      cases hsome
    · intro token entry hsome hgone
      rcases h.evict with ⟨hsame, -⟩ | ⟨oldest, oldestEntry, hmany, holdest, hleast, hremoved⟩
      · rw [hsame, hsome] at hgone
        cases hgone
      · rw [hremoved, h.session_remove] at hgone
        split at hgone
        · rename_i hsame
          rw [hsame, holdest] at hsome
          cases hsome
          exact .inr ⟨⟨_, _, _, _, rfl, hnone⟩, hmany, hleast⟩
        · rw [hsome] at hgone
          cases hgone
  · rw [hfind] at hget
    have hlate : Expired server (.getSessionFromHeader cookieValue time later memory) cookieValue
        entry := ⟨time, rfl, sessionIsExpired_iff.mp hexpired⟩
    refine hcreates (list.remove cookieValue) (h.remove _) (fun r hcreated => ?_) hget
    rw [h.evict_remove (by rw [hsession]; exact Option.some_ne_none _)] at hcreated
    refine h.handled_of_created hcreated rfl ?_ ?_ ?_
    · intro token entry hsome
      rw [h.session_remove] at hsome
      split at hsome
      · cases hsome
      · exact hsome
    · intro entry' hsome
      rw [hsession] at hsome
      cases hsome
      exact hlate
    · intro token entry' hsome hgone
      rw [h.session_remove] at hgone
      split at hgone
      · rename_i hsame
        rw [hsame, hsession] at hsome
        cases hsome
        exact .inl (hsame ▸ hlate)
      · rw [hsome] at hgone
        cases hgone
  · rw [hfind] at hget
    cases hget
    exact h.getSession_live haddress hexpired

theorem Inv.call (h : Inv server list) {c : Call} {answer : Answer}
    (hcall : list.call server c = .ok (answer, list')) :
    Inv server list' ∧ Handled server list c answer list' := by
  cases c with
  | getSessionFromHeader cookieValue time later memory => exact h.getSession hcall
  | destroy sessionToken =>
    cases hcall
    exact h.destroy sessionToken
  | getInfo sessionToken name time =>
    have hdone := h.getInfo sessionToken name time
    rw [Except.ok.inj hcall] at hdone
    exact hdone
  | storeInfo sessionToken name value time memory => exact h.storeInfo hcall
  | unsetInfo sessionToken name time =>
    have hdone := h.unsetInfo sessionToken name time
    rw [Except.ok.inj hcall] at hdone
    exact hdone

theorem inv_of_reaches {s : Except Fault SessionList}
    (hrun : Reaches (step server) (fun _ _ => True) (.ok sessionListInitialize) s) :
    ∀ list, s = .ok list → Inv server list := by
  refine @Run.Reaches.invariant _ _ _ _ _ (fun s => ∀ list, s = .ok list → Inv server list)
    ?_ ?_ _ hrun
  · rintro list hlist
    cases hlist
    exact inv_initialize
  · rintro s c h - list' hstep
    cases s with
    | error fault => cases hstep
    | ok list =>
      cases hcall : list.call server c with
      | error fault =>
        rw [step, Except.bind, hcall] at hstep
        cases hstep
      | ok result =>
        rw [step, Except.bind, hcall] at hstep
        cases hstep
        exact ((h list rfl).call hcall).1

/-- Behind every run of calls, at any times, the table is sound, and so is what the next call does
with its sessions. -/
theorem sessions_sound {s : Except Fault SessionList}
    (hrun : Reaches (step server) (fun _ _ => True) (.ok sessionListInitialize) s)
    (hs : s = .ok list) :
    Sound server list ∧ ∀ c answer list', list.call server c = .ok (answer, list') →
      Handled server list c answer list' :=
  ⟨(inv_of_reaches hrun list hs).sound,
    fun _ _ _ hcall => ((inv_of_reaches hrun list hs).call hcall).2⟩

/-- Room for one session, and a generator that gives one token. -/
def single : Server :=
  { MAX_SESSIONS := 1
    SESSION_IDLE_TIMEOUT_SECONDS := 1800
    draw := fun i => if i = 0 then some ⟨[65], by decide, by decide, by decide⟩ else none
    never_repeats := fun i j t hi hj => by
      split at hi
      · split at hj
        · omega
        · cases hj
      · cases hi
    qsort := .insertion
    bsearch := .halving }

/-- A request without a cookie. -/
def visit (time : ℤ) (entry : Bool) : Call :=
  .getSessionFromHeader [] time time ⟨entry, true, true, true, true⟩

theorem sessions_sound_single :
    ∃ list, step single (.ok sessionListInitialize) (visit 0 true) = .ok list ∧
      Sound single list ∧ ∀ c answer list', list.call single c = .ok (answer, list') →
        Handled single list c answer list' :=
  ⟨_, rfl, sessions_sound (.step (visit 0 true) .start trivial) rfl⟩

/-- A visitor for whom there is no memory takes the place of the only session. -/
theorem session_lost_without_new :
    ¬ ∀ (server : Server) (s : Except Fault SessionList),
      Reaches (step server) (fun _ _ => True) (.ok sessionListInitialize) s →
      ∀ list, s = .ok list → ∀ c answer list', list.call server c = .ok (answer, list') →
      ∀ token entry, list.session token = some entry → list'.session token = none →
        c = .destroy token ∨ Expired server c token entry ∨
          (Evicted server list c entry ∧ ∃ new, answer = .session true new true) := by
  intro hall
  have hlost := hall single _ (.step (visit 0 true) .start trivial) _ rfl (visit 1 false) _ _ rfl
    [65] ⟨[65], 0, 0, hashMapCreate 8 8 false⟩ rfl rfl
  rcases hlost with hdestroyed | ⟨time, hpresents, -⟩ | ⟨-, new, hanswer⟩
  · cases hdestroyed
  · cases hpresents
  · cases hanswer

end AmmarServer.Cache.Sessions
