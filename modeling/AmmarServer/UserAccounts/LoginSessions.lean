import AmmarServer.UserAccounts.LoginCookies

/-! Which sessions are logged in, behind every run of requests. -/

namespace AmmarServer.Logins
open CString Bytes Hashmap Cache.Sessions Cookies Run

/-- The text of no token that is still to be drawn. -/
def Unpredicted (site : Instance) (drawn : ℕ) (value : List UInt8) : Prop :=
  ∀ i t, drawn ≤ i → site.server.draw i = some t → t.text ≠ value

def Event.value : Event → List UInt8
  | .sent value => value
  | .login sessionToken _ => sessionToken
  | .ended e => e.sessionToken

/-- The sessions that are logged in are the ones of the logins that have not ended. -/
structure Tracked (site : Instance) (s : Store) : Prop where
  inv : Inv site.server s.list
  data : DataInv s.list
  past : ∀ e ∈ s.history, Unpredicted site s.list.drawn e.value
  short : ∀ token user, Event.login token user ∈ s.history → user.length < 32
  logged : ∀ token user, s.list.stored token USERNAME = some user → LoggedIn s.history token user
  kept : ∀ token user, Event.login token user ∈ s.history →
    s.list.stored token USERNAME = some user ∨ HasEnded s.history token

variable {site : Instance} {s s' : Store} {token user : List UInt8} {time later : ℤ}
  {memory : Memory} {answer : Answer}

theorem Unpredicted.mono {drawn drawn' : ℕ} {value : List UInt8} (h : Unpredicted site drawn value)
    (hle : drawn ≤ drawn') : Unpredicted site drawn' value :=
  fun i t hi => h i t (hle.trans hi)

theorem unpredicted_of_drawnIn {low high : ℕ} (h : DrawnIn site.server low high token) :
    Unpredicted site high token := by
  intro i t hi hdraw htext
  exact h.disjoint ⟨i, t, hi, Nat.lt_succ_self i, hdraw, htext⟩

theorem Unpredicted.ne {low high : ℕ} {value : List UInt8} (h : Unpredicted site low value)
    (hdrawn : DrawnIn site.server low high token) : value ≠ token := by
  obtain ⟨i, t, hi, -, hdraw, rfl⟩ := hdrawn
  exact fun hsame => h i t hi hdraw hsame.symm

theorem LoggedIn.append {history : List Event} (h : LoggedIn history token user)
    {new : List Event} (hnew : ∀ e, Event.ended e ∈ new → e.sessionToken ≠ token) :
    LoggedIn (new ++ history) token user := by
  obtain ⟨after, before, rfl, hsent, hended⟩ := h
  refine ⟨new ++ after, before, (List.append_assoc ..).symm, hsent, fun e he => ?_⟩
  rcases List.mem_append.mp he with he | he
  · exact hnew e he
  · exact hended e he

theorem LoggedIn.mem {history : List Event} (h : LoggedIn history token user) :
    Event.login token user ∈ history := by
  obtain ⟨after, before, rfl, -, -⟩ := h
  exact List.mem_append_right _ (List.mem_cons_self ..)

theorem HasEnded.mono {history history' : List Event} (h : HasEnded history token)
    (hsub : history ⊆ history') : HasEnded history' token := by
  obtain ⟨e, he, htoken⟩ := h
  exact ⟨e, hsub he, htoken⟩

theorem mem_map_ended {ended : List Ended} {event : Event} (h : event ∈ ended.map Event.ended) :
    ∃ e ∈ ended, event = .ended e := by
  obtain ⟨e, he, rfl⟩ := List.mem_map.mp h
  exact ⟨e, he, rfl⟩

theorem history_ending (s : Store) (ended : List Ended) (list : SessionList) :
    s.history ⊆ (s.ending ended list).history := List.subset_append_right _ _

theorem tracked_start : Tracked site ⟨sessionListInitialize, []⟩ where
  inv := inv_initialize
  data := dataInv_initialize
  past e he := absurd he List.not_mem_nil
  short token user h := absurd h List.not_mem_nil
  logged token user h := absurd (session_of_stored h) (by intro hne; exact hne rfl)
  kept token user h := absurd h List.not_mem_nil

namespace Tracked

theorem ending (h : Tracked site s) {ended : List Ended} {list' : SessionList}
    (hkeeps : Keeps site.server USERNAME s.list ended list') : Tracked site (s.ending ended list')
    where
  inv := hkeeps.inv
  data := hkeeps.data
  past event hevent := by
    rcases List.mem_append.mp hevent with hevent | hevent
    · obtain ⟨e, he, rfl⟩ := mem_map_ended hevent
      exact unpredicted_of_drawnIn (hkeeps.gone e he).1
    · exact (h.past event hevent).mono hkeeps.drawn
  short token user hlogin := by
    rcases List.mem_append.mp hlogin with hlogin | hlogin
    · obtain ⟨e, -, hsame⟩ := mem_map_ended hlogin
      cases hsame
    · exact h.short token user hlogin
  logged token user hstored := by
    have hsession := session_of_stored hstored
    rw [show (s.ending ended list').list = list' from rfl, hkeeps.stored token hsession] at hstored
    refine (h.logged token user hstored).append fun e he => ?_
    obtain ⟨e', he', hsame⟩ := mem_map_ended he
    cases hsame
    intro htoken
    exact hsession (htoken ▸ (hkeeps.gone e he').2)
  kept token user hlogin := by
    have hbefore : Event.login token user ∈ s.history := by
      rcases List.mem_append.mp hlogin with hlogin | hlogin
      · obtain ⟨e, -, hsame⟩ := mem_map_ended hlogin
        cases hsame
      · exact hlogin
    rcases h.kept token user hbefore with hstored | hended
    · by_cases hsession : list'.session token = none
      · obtain ⟨e, he, htoken⟩ := hkeeps.kept token (session_of_stored hstored) hsession
        exact .inr ⟨e, List.mem_append_left _ (List.mem_map_of_mem he), htoken⟩
      · exact .inl ((hkeeps.stored token hsession).trans hstored)
    · exact .inr (hended.mono (history_ending s ended list'))

theorem sent (h : Tracked site s) {value : List UInt8}
    (hvalue : Unpredicted site s.list.drawn value) : Tracked site (s.say (.sent value)) where
  inv := h.inv
  data := h.data
  past := List.forall_mem_cons.mpr ⟨hvalue, h.past⟩
  short token user hlogin := h.short token user (by
    rcases List.mem_cons.mp hlogin with hsame | hlogin
    · cases hsame
    · exact hlogin)
  logged token user hstored := by
    have hnew : ∀ e, Event.ended e ∈ [Event.sent value] → e.sessionToken ≠ token := by
      intro e he
      cases List.mem_singleton.mp he
    exact (h.logged token user hstored).append hnew
  kept token user hlogin := by
    rcases List.mem_cons.mp hlogin with hsame | hlogin
    · cases hsame
    · exact (h.kept token user hlogin).imp_right fun hended =>
        hended.mono (List.subset_cons_self ..)

theorem destroy (h : Tracked site s) (reason : Reason) (token : List UInt8) :
    Tracked site (s.destroy reason token) :=
  h.ending (h.inv.keeps_destroy h.data reason token)

theorem getInfo (h : Tracked site s) (token name : List UInt8) (time : ℤ) :
    Tracked site (s.getInfo site token name time).2 :=
  h.ending (h.inv.keeps_getInfo h.data token name time)

theorem unsetInfo (h : Tracked site s) {name : List UInt8} (hne : name ≠ USERNAME)
    (token : List UInt8) (time : ℤ) : Tracked site (s.unsetInfo site token name time).2 :=
  h.ending (h.inv.keeps_unsetInfo h.data hne.symm token time)

theorem storeInfo (h : Tracked site s) {name value : List UInt8} (hne : name ≠ USERNAME)
    (hstore : s.storeInfo site token name value time memory = .ok (answer, s')) :
    Tracked site s' ∧ s.history ⊆ s'.history := by
  unfold Store.storeInfo at hstore
  split at hstore
  · cases hstore
  · rename_i hlist
    cases hstore
    exact ⟨h.ending (h.inv.keeps_storeInfo h.data hne.symm hlist), history_ending ..⟩

theorem dropSession (h : Tracked site s) (rqst : DynamicRequest) :
    Tracked site (dropSession s rqst) := by
  unfold Logins.dropSession
  split
  · exact h.destroy .replaced rqst.sessionToken
  · exact h

/-- What a request gets from `getSessionFromHeader`. -/
theorem getSession (h : Tracked site s) {cookieValue : List UInt8}
    (hget : s.getSession site cookieValue time later memory = .ok (answer, s')) :
    Tracked site s' ∧ s.history ⊆ s'.history ∧
      (answer = .session false [] false ∨
        (answer = .session true cookieValue false ∧
          ∃ entry, s'.list.session cookieValue = some entry ∧ entry.lastSeen = later) ∨
        ∃ token, answer = .session true token true ∧
          DrawnIn site.server 0 s'.list.drawn token ∧
          (s.list.session cookieValue = none →
            Grows (evictOldestSessionIfAtCapacity site.server s.list).sessionTable memory →
            (∃ t, t.text = token ∧ s'.list.session token = some (newSession t later)) ∧
              ∀ e ∈ s'.history, e.value ≠ token)) := by
  unfold Store.getSession at hget
  split at hget
  · cases hget
  · rename_i list hlist
    cases hget
    obtain ⟨hkeeps, hanswer⟩ := h.inv.keeps_header h.data hlist
    refine ⟨h.ending hkeeps, history_ending .., ?_⟩
    rcases hanswer with hfailed | ⟨hlive, -, entry, hentry, hseen⟩ | ⟨token, hnew, hdrawn, hmade⟩
    · exact .inl hfailed
    · exact .inr (.inl ⟨hlive, entry, hentry, hseen⟩)
    · refine .inr (.inr ⟨token, hnew, hdrawn.mono (Nat.zero_le _) le_rfl, fun hnone hgrows => ?_⟩)
      obtain ⟨t, htext, hsession⟩ := hmade hnone hgrows
      refine ⟨⟨t, htext, hsession⟩, fun event hevent => ?_⟩
      rcases List.mem_append.mp hevent with hevent | hevent
      · obtain ⟨e, he, rfl⟩ := mem_map_ended hevent
        intro hsame
        have hgone := (hkeeps.gone e he).2
        rw [show e.sessionToken = token from hsame, hsession] at hgone
        cases hgone
      · exact (h.past event hevent).ne hdrawn

theorem login (h : Tracked site s) {t : Token}
    (hsession : s.list.session t.text = some (newSession t later))
    (hfresh : ∀ e ∈ s.history, e.value ≠ t.text) (hshort : user.length < 32)
    (hkey : memory.key = true)
    (hstore : ((s.say (.login t.text user)).say (.sent t.text)).storeInfo site t.text USERNAME user
      time memory = .ok (answer, s')) :
    Tracked site s' ∧ Event.login t.text user ∈ s'.history ∧ s.history ⊆ s'.history := by
  have hsome : s.list.session t.text ≠ none := by
    rw [hsession]
    exact Option.some_ne_none _
  -- the sessions behind the call, where the one of the token has the user or has expired
  have hleft : ∃ ended list', s' = ((s.say (.login t.text user)).say (.sent t.text)).ending ended
        list' ∧ Inv site.server list' ∧ DataInv list' ∧ s.list.drawn ≤ list'.drawn ∧
      (∀ token, token ≠ t.text → list'.session token ≠ none →
        list'.stored token USERNAME = s.list.stored token USERNAME) ∧
      (∀ token, s.list.session token ≠ none → list'.session token = none →
        ∃ e ∈ ended, e.sessionToken = token) ∧
      (∀ e ∈ ended, DrawnIn site.server 0 list'.drawn e.sessionToken ∧
        list'.session e.sessionToken = none) ∧
      (list'.stored t.text USERNAME = some user ∨ list'.session t.text = none) := by
    unfold Store.storeInfo at hstore
    split at hstore
    · cases hstore
    · rename_i list' hlist
      cases hstore
      rcases live_or_dead site.server s.list t.text time with ⟨entry, hentry, hlive⟩ | hdead
      · rw [hsession] at hentry
        cases hentry
        have hgrows : Grows (newSession t later).data memory := by
          intro hfull
          exact absurd (show 8 ≤ 0 from hfull) (by decide)
        obtain ⟨hstored, hiff, hother, hinv, hdata, hdrawn⟩ :=
          h.inv.stored_storeInfo h.data hsession hlive hlist hgrows hkey
        rw [keptBytes_dropLast (by omega)] at hstored
        refine ⟨_, list', rfl, hinv, hdata, hdrawn, fun token hne _ => hother token hne,
          fun token hbefore hnone => absurd ((hiff token).mp hnone) hbefore, fun e he => ?_,
          .inl hstored⟩
        rw [show ((s.say (.login t.text user)).say (.sent t.text)).list = s.list from rfl,
          endedByLookup_live hsession hlive] at he
        exact absurd he List.not_mem_nil
      · have hkeeps : Keeps site.server USERNAME s.list _ _ :=
          h.inv.keeps_find h.data t.text time
        rw [← h.inv.storeInfo_dead hdead hlist] at hkeeps
        refine ⟨_, list', rfl, hkeeps.inv, hkeeps.data, hkeeps.drawn,
          fun token _ hother => hkeeps.stored token hother, hkeeps.kept, hkeeps.gone, .inr ?_⟩
        refine (hkeeps.gone ⟨.expired, t.text⟩ ?_).2
        unfold endedByLookup
        rw [hsession]
        simp only [hdead _ hsession, if_true, List.mem_singleton]
  obtain ⟨ended, list', rfl, hinv, hdata, hdrawn, hsame, hkept, hgone, huser⟩ := hleft
  have htoken := h.inv.drawnIn hsome
  have hsub : s.history ⊆
      (((s.say (.login t.text user)).say (.sent t.text)).ending ended list').history := by
    intro e he
    exact List.mem_append_right _ (List.mem_cons_of_mem _ (List.mem_cons_of_mem _ he))
  have hlogin : Event.login t.text user ∈
      (((s.say (.login t.text user)).say (.sent t.text)).ending ended list').history :=
    List.mem_append_right _ (List.mem_cons_of_mem _ (List.mem_cons_self ..))
  -- what the events of the call are
  have hevent : ∀ e ∈ (((s.say (.login t.text user)).say (.sent t.text)).ending ended list').history,
      (∃ e' ∈ ended, e = .ended e') ∨ e = .sent t.text ∨ e = .login t.text user ∨ e ∈ s.history := by
    intro e he
    rcases List.mem_append.mp he with he | he
    · exact .inl (mem_map_ended he)
    · rcases List.mem_cons.mp he with rfl | he
      · exact .inr (.inl rfl)
      · rcases List.mem_cons.mp he with rfl | he
        · exact .inr (.inr (.inl rfl))
        · exact .inr (.inr (.inr he))
  refine ⟨⟨hinv, hdata, ?_, ?_, ?_, ?_⟩, hlogin, hsub⟩
  · intro e he
    rcases hevent e he with ⟨e', he', rfl⟩ | rfl | rfl | he
    · exact unpredicted_of_drawnIn (hgone e' he').1
    · exact (unpredicted_of_drawnIn htoken).mono hdrawn
    · exact (unpredicted_of_drawnIn htoken).mono hdrawn
    · exact (h.past e he).mono hdrawn
  · intro token' user' hmem
    rcases hevent _ hmem with ⟨e', -, hsame⟩ | hsame | hsame | he
    · cases hsame
    · cases hsame
    · cases hsame
      exact hshort
    · exact h.short token' user' he
  · intro token' user' hstored
    have hsession' := session_of_stored hstored
    have hstands : ∀ e ∈ ended, e.sessionToken ≠ token' := by
      intro e he hsame
      exact hsession' (hsame ▸ (hgone e he).2)
    by_cases hother : token' = t.text
    · subst hother
      rcases huser with huser | hnone
      · obtain rfl := Option.some.inj (huser.symm.trans hstored)
        refine ⟨ended.map .ended ++ [.sent t.text], s.history, ?_, ?_, fun e he => ?_⟩
        · rw [List.append_assoc]
          rfl
        · exact fun hin => hfresh _ hin rfl
        · rcases List.mem_append.mp he with he | he
          · obtain ⟨e', he', hsame⟩ := mem_map_ended he
            cases hsame
            exact hstands e he'
          · cases List.mem_singleton.mp he
      · exact absurd hnone hsession'
    · have hbefore := (hsame token' hother hsession').symm.trans hstored
      have happended := @LoggedIn.append _ _ _ (h.logged token' user' hbefore)
        (ended.map .ended ++ [.sent t.text, .login t.text user]) (fun e he => by
          rcases List.mem_append.mp he with he | he
          · obtain ⟨e', he', hsame⟩ := mem_map_ended he
            cases hsame
            exact hstands e he'
          · simp at he)
      rw [List.append_assoc] at happended
      exact happended
  · intro token' user' hmem
    rcases hevent _ hmem with ⟨e', -, hsame⟩ | hsame | hnew | he
    · cases hsame
    · cases hsame
    · cases hnew
      rcases huser with huser | hnone
      · exact .inl huser
      · obtain ⟨e, he, htoken⟩ := hkept t.text hsome hnone
        exact .inr ⟨e, List.mem_append_left _ (List.mem_map_of_mem he), htoken⟩
    · rcases h.kept token' user' he with hstored | hended
      · by_cases hnone : list'.session token' = none
        · obtain ⟨e, he, htoken⟩ := hkept token' (session_of_stored hstored) hnone
          exact .inr ⟨e, List.mem_append_left _ (List.mem_map_of_mem he), htoken⟩
        · have hother : token' ≠ t.text := by
            intro hsame
            rw [hsame, stored_of_session hsession] at hstored
            cases hstored
          exact .inl ((hsame token' hother hnone).trans hstored)
      · exact .inr (hended.mono hsub)

end Tracked

end AmmarServer.Logins
