import AmmarServer.UserAccounts.LoginSessions

/-! The logins of the requests of an instance, over every run of them. -/

namespace AmmarServer.Logins
open CString Bytes Hashmap Cache.Sessions Cookies Run

variable (site : Instance)

/-- A callback leaves the key of the user to the login, and knows no token before it is drawn. -/
def Fair (s : Store) : Action → Prop
  | .sessionSet name _ _ _ => name ≠ USERNAME
  | .sessionUnset name _ => name ≠ USERNAME
  | .setCookie cookie => Unpredicted site s.list.drawn cookie.value
  | _ => True

/-- A login finds room for the line of its cookie behind complete lines, for its session in the
table and for the name of the user, no later call touches its cookie, and the response is sent. -/
def Effective (s : Store) (a : Answering) : Action → Prop
  | .login call =>
    UserAccounts.uadbAuthenticateUser call.uadb call.username call.password ≠ none →
      Complete a.rqst.pendingResponseHeaders ∧
      a.rqst.pendingResponseHeaders.length + SESSION_LINE site.sslAvailable < PENDING_SIZE ∧
      Grows (evictOldestSessionIfAtCapacity site.server (dropSession s a.rqst).list).sessionTable
        call.creation ∧
      call.storing.key = true
  | .setCookie cookie => a.user ≠ none → ∀ jar : Jar,
      jar.receive (setCookie site.sslAvailable a.rqst.pendingResponseHeaders cookie).2
        SESSION_COOKIE_NAME = jar.receive a.rqst.pendingResponseHeaders SESSION_COOKIE_NAME
  | .answer _ ending => a.user ≠ none → ∃ code, ending = .sent code
  | _ => True

def Meets (s : Except Fault Web) (e : ℕ × Action) : Prop :=
  ∀ w, s = .ok w → Fair site w.store e.2 ∧
    ∀ a, w.answering e.1 = some a → Effective site w.store a e.2

variable {site} {s s' : Store} {token user : List UInt8} {time later : ℤ} {memory : Memory}
  {w w' : Web} {request : ℕ}

/-- A request that has logged a user in holds his cookie ready. -/
structure Answering.Inv (history : List Event) (a : Answering) : Prop where
  pending : a.rqst.pendingResponseHeaders.length < PENDING_SIZE
  user : ∀ user, a.user = some user → Event.login a.rqst.sessionToken user ∈ history ∧
    ∀ jar : Jar, jar.receive a.rqst.pendingResponseHeaders SESSION_COOKIE_NAME =
      some a.rqst.sessionToken

def Response.Inv (history : List Event) (r : Response) : Prop :=
  ∀ user, r.user = some user → ∃ token, Event.login token user ∈ history ∧
    ∀ jar : Jar, jar.receive r.headers SESSION_COOKIE_NAME = some token

structure Web.Inv (site : Instance) (w : Web) : Prop where
  store : Tracked site w.store
  answering : ∀ request a, w.answering request = some a → a.Inv w.store.history
  responses : ∀ r ∈ w.responses, r.Inv w.store.history

theorem Answering.Inv.mono {history history' : List Event} {a : Answering} (h : a.Inv history)
    (hsub : history ⊆ history') : a.Inv history' where
  pending := h.pending
  user user huser := ⟨hsub (h.user user huser).1, (h.user user huser).2⟩

theorem Response.Inv.mono {history history' : List Event} {r : Response} (h : r.Inv history)
    (hsub : history ⊆ history') : r.Inv history' := by
  intro user huser
  obtain ⟨token, hlogin, hjar⟩ := h user huser
  exact ⟨token, hsub hlogin, hjar⟩

theorem inv_start : Web.start.Inv site where
  store := tracked_start
  answering request a h := by cases h
  responses r hr := absurd hr List.not_mem_nil

theorem ammServerSetCookie_eq (s : Store) (rqst : DynamicRequest) (cookie : Cookie) :
    ammServerSetCookie site s rqst cookie =
      ((setCookie site.sslAvailable rqst.pendingResponseHeaders cookie).1,
        if (setCookie site.sslAvailable rqst.pendingResponseHeaders cookie).1 then
          s.say (.sent cookie.value) else s,
        { rqst with pendingResponseHeaders :=
            (setCookie site.sslAvailable rqst.pendingResponseHeaders cookie).2 }) := by
  unfold ammServerSetCookie
  split <;> rename_i heq <;> rw [heq] <;> rfl

/-- A call of `AmmServer_SetCookie` that sends no token before its time. -/
theorem setCookie_tracked (h : Tracked site s) {cookie : Cookie}
    (hvalue : Unpredicted site s.list.drawn cookie.value) (rqst : DynamicRequest) :
    Tracked site (ammServerSetCookie site s rqst cookie).2.1 ∧
      s.history ⊆ (ammServerSetCookie site s rqst cookie).2.1.history ∧
      (ammServerSetCookie site s rqst cookie).2.1.list = s.list := by
  rw [ammServerSetCookie_eq]
  dsimp only
  split
  · exact ⟨h.sent hvalue, List.subset_cons_self .., rfl⟩
  · exact ⟨h, fun _ he => he, rfl⟩

theorem startDynamicRequest_spec (h : Tracked site s) {COOKIEItem : List CookieItem}
    {rqst : DynamicRequest}
    (hstart : startDynamicRequest site s COOKIEItem time later memory = .ok (s', rqst)) :
    Tracked site s' ∧ s.history ⊆ s'.history ∧
      rqst.pendingResponseHeaders.length < PENDING_SIZE := by
  have hempty : ([] : List UInt8).length < PENDING_SIZE := by decide
  unfold startDynamicRequest at hstart
  simp only at hstart
  cases hget : s.getSession site (copyCookieValue (getPointerToCOOKIEItemValue COOKIEItem
      SESSION_COOKIE_NAME)) time later memory with
  | error fault =>
    rw [hget] at hstart
    cases hstart
  | ok result =>
    obtain ⟨answer, s₁⟩ := result
    obtain ⟨htracked, hsub, hanswer⟩ := h.getSession hget
    rw [hget] at hstart
    rcases hanswer with rfl | ⟨rfl, -⟩ | ⟨token, rfl, hdrawn, -⟩
    · cases hstart
      exact ⟨htracked, hsub, hempty⟩
    · cases hstart
      exact ⟨htracked, hsub, hempty⟩
    · have hqueued := Prod.ext_iff.mp (Except.ok.inj hstart)
      obtain ⟨rfl, rfl⟩ := hqueued
      have hvalue : Unpredicted site s₁.list.drawn (sessionCookie token).value :=
        unpredicted_of_drawnIn hdrawn
      obtain ⟨htracked', hsub', -⟩ :=
        setCookie_tracked htracked hvalue ⟨token, []⟩
      refine ⟨htracked', List.Subset.trans hsub hsub', ?_⟩
      rw [ammServerSetCookie_eq]
      exact setCookie_length hempty

theorem unpredicted_nil (site : Instance) (drawn : ℕ) : Unpredicted site drawn [] :=
  fun _ t _ _ htext => t.ne_nil htext

theorem ammServerLogout_spec (h : Tracked site s) {rqst rqst' : DynamicRequest} {ok : Bool}
    (hlogout : ammServerLogout site s rqst = (ok, s', rqst')) :
    Tracked site s' ∧ s.history ⊆ s'.history ∧
      ((ok = false ∧ rqst' = rqst) ∨ (ok = true ∧
        (rqst.pendingResponseHeaders.length < PENDING_SIZE →
          rqst'.pendingResponseHeaders.length < PENDING_SIZE))) := by
  unfold ammServerLogout at hlogout
  split at hlogout
  · cases hlogout
    exact ⟨h, fun _ he => he, .inl ⟨rfl, rfl⟩⟩
  · cases hlogout
    have hdestroyed := h.destroy .loggedOut rqst.sessionToken
    obtain ⟨htracked, hsub, -⟩ := setCookie_tracked hdestroyed
      (show Unpredicted site _ clearedCookie.value from unpredicted_nil site _) rqst
    refine ⟨htracked, fun e he => hsub (List.mem_append_right _ he), .inr ⟨rfl, fun hlength => ?_⟩⟩
    show (ammServerSetCookie site _ rqst clearedCookie).2.2.pendingResponseHeaders.length < _
    rw [ammServerSetCookie_eq]
    exact setCookie_length hlength

theorem session_nil {server : Server} {list : SessionList} (h : Cache.Sessions.Inv server list) :
    list.session [] = none :=
  session_eq_none_iff.mpr fun _ he => (h.text_of_session he).1

theorem history_dropSession (s : Store) (rqst : DynamicRequest) :
    s.history ⊆ (dropSession s rqst).history := by
  unfold dropSession
  split
  · exact history_ending ..
  · exact fun _ he => he

theorem sessionCookie_received {pending : List UInt8} (hlength : token.length = 43)
    (hall : ∀ c ∈ token, c ∈ base64url) (hcomplete : Complete pending)
    (hqueued : (setCookie site.sslAvailable pending (sessionCookie token)).1 = true) (jar : Jar) :
    jar.receive (setCookie site.sslAvailable pending (sessionCookie token)).2 SESSION_COOKIE_NAME =
      some token := by
  have hplain := sessionCookie_plain site.sslAvailable hlength hall
  have hstays : ascii "Max-Age=0" ∉ (sessionCookie token).attributes site.sslAvailable := by
    show ascii "Max-Age=0" ∉ [ascii "Path=/"] ++ [] ++ [ascii "HttpOnly"] ++
      (if site.sslAvailable then [ascii "Secure"] else []) ++ [ascii "SameSite=Lax"]
    cases site.sslAvailable <;> decide
  rw [(receive_setCookie hcomplete hplain hqueued).2 jar, if_neg hstays]
  exact Function.update_self ..

theorem loginAs_spec (h : Tracked site s) {rqst rqst' : DynamicRequest} {c : Login} {uid : ℕ}
    {ok : Bool} (hshort : c.username.length < 32)
    (hpending : rqst.pendingResponseHeaders.length < PENDING_SIZE)
    (hcomplete : Complete rqst.pendingResponseHeaders)
    (hroom : rqst.pendingResponseHeaders.length + SESSION_LINE site.sslAvailable < PENDING_SIZE)
    (hgrows : Grows (evictOldestSessionIfAtCapacity site.server
      (dropSession s rqst).list).sessionTable c.creation)
    (hkey : c.storing.key = true) (hlogin : loginAs site s rqst c uid = .ok (ok, s', rqst')) :
    Tracked site s' ∧ s.history ⊆ s'.history ∧ ((ok = false ∧ rqst' = rqst) ∨
      (ok = true ∧ rqst'.pendingResponseHeaders.length < PENDING_SIZE ∧
        Event.login rqst'.sessionToken c.username ∈ s'.history ∧
        ∀ jar : Jar, jar.receive rqst'.pendingResponseHeaders SESSION_COOKIE_NAME =
          some rqst'.sessionToken)) := by
  have hdropped := h.dropSession rqst
  have hbefore := history_dropSession s rqst
  unfold loginAs at hlogin
  cases hget : (dropSession s rqst).getSession site [] c.created c.created c.creation with
  | error fault =>
    rw [hget] at hlogin
    cases hlogin
  | ok result =>
    obtain ⟨answer, s₁⟩ := result
    obtain ⟨htracked, hsub, hanswer⟩ := hdropped.getSession hget
    rw [hget] at hlogin
    rcases hanswer with rfl | ⟨rfl, entry, hentry, -⟩ | ⟨token, rfl, -, hmade⟩
    · cases hlogin
      exact ⟨htracked, List.Subset.trans hbefore hsub, .inl ⟨rfl, rfl⟩⟩
    · rw [session_nil htracked.inv] at hentry
      cases hentry
    · obtain ⟨⟨t, rfl, hsession⟩, hfresh⟩ := hmade (session_nil hdropped.inv) hgrows
      obtain ⟨i, t', -, -, hdraw, htext⟩ := htracked.inv.drawnIn
        (by rw [hsession]; exact Option.some_ne_none _)
      obtain ⟨hlength, hall⟩ := site.encoded i t' hdraw
      rw [htext] at hlength hall
      have hqueued := sessionCookie_queued hlength hroom
      have hset := @ammServerSetCookie_eq site (s₁.say (.login t.text c.username))
        ⟨t.text, rqst.pendingResponseHeaders⟩ (sessionCookie t.text)
      rw [if_pos hqueued, hqueued] at hset
      simp only [hset] at hlogin
      split at hlogin
      · cases hlogin
      · rename_i answer₂ s₂ hstored
        obtain ⟨htracked₂, hin, hsub₂⟩ := htracked.login hsession hfresh hshort hkey hstored
        split at hlogin
        · cases hlogin
        · rename_i answer₃ s₃ huid
          cases hlogin
          obtain ⟨htracked₃, hsub₃⟩ := htracked₂.storeInfo (by decide) huid
          refine ⟨htracked₃, fun e he => hsub₃ (hsub₂ (hsub (hbefore he))), .inr ⟨rfl,
            setCookie_length hpending, hsub₃ hin, fun jar => ?_⟩⟩
          exact sessionCookie_received hlength hall hcomplete hqueued jar

theorem username_short {c : Login} {uid : ℕ}
    (h : UserAccounts.uadbAuthenticateUser c.uadb c.username c.password = some uid) :
    c.username.length < 32 := by
  obtain ⟨hlt, hmatch, -⟩ := List.findIdx?_eq_some_iff_getElem.mp h
  rw [← (of_decide_eq_true hmatch).1]
  exact c.fits _ (List.getElem_mem hlt)

theorem act_spec (h : Tracked site s) {a a' : Answering} (ha : a.Inv s.history) {action : Action}
    (hfair : Fair site s action) (heffective : Effective site s a action)
    (hact : a.act site s action = .ok (s', a')) :
    Tracked site s' ∧ s.history ⊆ s'.history ∧ a'.Inv s'.history := by
  cases action with
  | serve COOKIEItem time later memory =>
    cases hact
    exact ⟨h, fun _ he => he, ha⟩
  | login call =>
    unfold Answering.act ammServerLogin at hact
    simp only at hact
    cases hauth : UserAccounts.uadbAuthenticateUser call.uadb call.username call.password with
    | none =>
      rw [hauth] at hact
      cases hact
      exact ⟨h, fun _ he => he, ha⟩
    | some uid =>
      rw [hauth] at hact
      simp only at hact
      obtain ⟨hcomplete, hroom, hgrows, hkey⟩ :=
        heffective (by rw [hauth]; exact Option.some_ne_none _)
      cases hlogin : loginAs site s a.rqst call uid with
      | error fault =>
        rw [hlogin] at hact
        cases hact
      | ok result =>
        obtain ⟨ok, s₁, rqst⟩ := result
        obtain ⟨htracked, hsub, hdone⟩ := loginAs_spec h (username_short hauth) ha.pending
          hcomplete hroom hgrows hkey hlogin
        rw [hlogin] at hact
        cases hact
        refine ⟨htracked, hsub, ?_⟩
        rcases hdone with ⟨rfl, rfl⟩ | ⟨rfl, hpending, hin, hjar⟩
        · exact ha.mono hsub
        · refine ⟨hpending, fun user huser => ?_⟩
          cases huser
          exact ⟨hin, hjar⟩
  | logout =>
    unfold Answering.act at hact
    simp only at hact
    cases hlogout : ammServerLogout site s a.rqst with
    | mk ok rest =>
      obtain ⟨s₁, rqst⟩ := rest
      obtain ⟨htracked, hsub, hdone⟩ := ammServerLogout_spec h hlogout
      rw [hlogout] at hact
      cases hact
      refine ⟨htracked, hsub, ?_⟩
      rcases hdone with ⟨rfl, rfl⟩ | ⟨rfl, hpending⟩
      · exact ha.mono hsub
      · exact ⟨hpending ha.pending, fun user huser => by cases huser⟩
  | setCookie cookie =>
    obtain ⟨htracked, hsub, -⟩ := setCookie_tracked h hfair a.rqst
    unfold Answering.act at hact
    simp only at hact
    rw [ammServerSetCookie_eq] at htracked hsub hact
    cases hact
    refine ⟨htracked, hsub, setCookie_length ha.pending, fun user huser => ?_⟩
    obtain ⟨hin, hjar⟩ := ha.user user huser
    refine ⟨hsub hin, fun jar => ?_⟩
    have huser' : a.user ≠ none := by
      rw [show a.user = some user from huser]
      exact Option.some_ne_none _
    exact (heffective huser' jar).trans (hjar jar)
  | sessionCpy name destinationSize time =>
    have hread := h.getInfo a.rqst.sessionToken name time
    have hlist : (sessionCpy site s a.rqst name destinationSize time).2 =
        (s.getInfo site a.rqst.sessionToken name time).2 := by
      unfold sessionCpy
      split <;> rename_i heq <;> rw [heq]
    cases hact
    rw [hlist]
    exact ⟨hread, history_ending .., ha.mono (history_ending ..)⟩
  | sessionSet name value time memory =>
    unfold Answering.act at hact
    simp only at hact
    split at hact
    · cases hact
    · rename_i hstore
      cases hact
      obtain ⟨htracked, hsub⟩ := h.storeInfo hfair hstore
      exact ⟨htracked, hsub, ha.mono hsub⟩
  | sessionUnset name time =>
    cases hact
    exact ⟨h.unsetInfo hfair _ _, history_ending .., ha.mono (history_ending ..)⟩
  | answer responseTexts ending =>
    cases hact
    exact ⟨h, fun _ he => he, ha⟩

theorem Web.Inv.update (h : w.Inv site) (htracked : Tracked site s)
    (hsub : w.store.history ⊆ s.history) {a : Option Answering} {request : ℕ}
    (ha : ∀ b, a = some b → b.Inv s.history) {responses : List Response}
    (hresponses : ∀ r ∈ responses, r ∈ w.responses ∨ r.Inv s.history) :
    Web.Inv site ⟨s, Function.update w.answering request a, responses⟩ where
  store := htracked
  answering other b hb := by
    have hb' : Function.update w.answering request a other = some b := hb
    by_cases hother : other = request
    · rw [hother, Function.update_self] at hb'
      exact ha b hb'
    · rw [Function.update_of_ne hother] at hb'
      exact (h.answering other b hb').mono hsub
  responses r hr := (hresponses r hr).elim (fun hold => (h.responses r hold).mono hsub) id

theorem Web.Inv.serve (h : w.Inv site) {COOKIEItem : List CookieItem}
    (hserve : w.serve site request COOKIEItem time later memory = .ok w') : w'.Inv site := by
  unfold Web.serve at hserve
  split at hserve
  · cases hserve
  · rename_i s rqst hstart
    cases hserve
    obtain ⟨htracked, hsub, hpending⟩ := startDynamicRequest_spec h.store hstart
    refine h.update htracked hsub (fun b hb => ?_) fun r hr => .inl hr
    cases hb
    exact ⟨hpending, fun user huser => by cases huser⟩

theorem Web.Inv.answer (h : w.Inv site) {a : Answering} (ha : w.answering request = some a)
    {responseTexts : DatedTexts} {ending : Ending}
    (heffective : Effective site w.store a (.answer responseTexts ending)) :
    (w.answer request a responseTexts ending).Inv site := by
  have hinv := h.answering request a ha
  refine h.update h.store (fun _ he => he) (fun b hb => by cases hb) fun r hr => ?_
  rcases List.mem_cons.mp hr with rfl | hr
  · refine .inr fun user huser => ?_
    have huser' : a.user = some user := huser
    obtain ⟨code, rfl⟩ := heffective (by rw [huser']; exact Option.some_ne_none _)
    obtain ⟨hin, hjar⟩ := hinv.user user huser'
    refine ⟨a.rqst.sessionToken, hin, fun jar => ?_⟩
    obtain ⟨jar', hreceived⟩ := receive_responseHeaders hinv.pending responseTexts code jar
    rw [hreceived]
    exact hjar jar'
  · exact .inl hr

theorem Web.Inv.next (h : w.Inv site) {action : Action} (hfair : Fair site w.store action)
    (heffective : ∀ a, w.answering request = some a → Effective site w.store a action)
    (hnext : w.next site request action = .ok w') : w'.Inv site := by
  unfold Web.next at hnext
  split at hnext
  · exact h.serve hnext
  · cases hnext
    exact h
  · rename_i a responseTexts ending ha
    cases hnext
    exact h.answer ha (heffective a ha)
  · rename_i a ha _
    split at hnext
    · cases hnext
    · rename_i s' a' hact
      cases hnext
      obtain ⟨htracked, hsub, ha'⟩ :=
        act_spec h.store (h.answering _ _ ha) hfair (heffective a ha) hact
      refine h.update htracked hsub (fun b hb => ?_) fun r hr => .inl hr
      cases hb
      exact ha'

/-! What the invariant says of the users. -/

theorem currentUsername_eq {s : Store} {rqst : DynamicRequest} {size : ℕ}
    (huser : (ammServerCurrentUsername site s rqst size time).1 = some user) :
    (sessionListGetInfo site.server s.list rqst.sessionToken USERNAME time).1 =
      .info (some user) ∧ user.length < size := by
  unfold ammServerCurrentUsername sessionCpy Store.getInfo at huser
  cases hinfo : sessionListGetInfo site.server s.list rqst.sessionToken USERNAME time with
  | mk answer list =>
    rw [hinfo] at huser
    split at huser
    · rename_i value s' heq
      obtain ⟨rfl, -⟩ := Prod.mk.inj heq
      simp only at huser
      split at huser
      · cases huser
      · rename_i hfits
        cases huser
        exact ⟨rfl, Nat.not_lt.mp hfits⟩
    · cases huser

theorem Tracked.whole (h : Tracked site s) (hstored : s.list.stored token USERNAME = some user) :
    user.take (SESSION_VALUE_SCRATCH_SIZE - 1) = user := by
  have hshort := h.short token user (h.logged token user hstored).mem
  apply List.take_of_length_le
  unfold SESSION_VALUE_SCRATCH_SIZE
  omega

theorem Tracked.currentUsername_live (h : Tracked site s) {entry : SessionEntry}
    {rqst : DynamicRequest} {size : ℕ} (hsession : s.list.session rqst.sessionToken = some entry)
    (hlive : sessionIsExpired site.server entry time = false)
    (hstored : s.list.stored rqst.sessionToken USERNAME = some user) (hsize : user.length < size) :
    (ammServerCurrentUsername site s rqst size time).1 = some user := by
  unfold ammServerCurrentUsername sessionCpy Store.getInfo
  rw [h.inv.getInfo_live h.data hsession hlive, hstored]
  simp only [Option.map_some, h.whole hstored]
  exact if_neg (Nat.not_lt.mpr hsize)

theorem Tracked.only_login (h : Tracked site s) {rqst : DynamicRequest} {size : ℕ}
    (huser : (ammServerCurrentUsername site s rqst size time).1 = some user) :
    LoggedIn s.history rqst.sessionToken user := by
  obtain ⟨hinfo, -⟩ := currentUsername_eq huser
  rcases live_or_dead site.server s.list rqst.sessionToken time with
    ⟨entry, hsession, hlive⟩ | hdead
  · rw [h.inv.getInfo_live h.data hsession hlive] at hinfo
    have hvalue := Answer.info.inj hinfo
    cases hstored : s.list.stored rqst.sessionToken USERNAME with
    | none =>
      rw [hstored] at hvalue
      cases hvalue
    | some user' =>
      rw [hstored, Option.map_some, h.whole hstored] at hvalue
      cases hvalue
      exact h.logged _ _ hstored
  · rw [h.inv.getInfo_dead hdead] at hinfo
    cases hinfo

theorem copyCookieValue_token (hdrawn : DrawnIn site.server 0 s.list.drawn token) :
    copyCookieValue (some token) = token := by
  obtain ⟨i, t, -, -, hdraw, rfl⟩ := hdrawn
  obtain ⟨hlength, -⟩ := site.encoded i t hdraw
  exact if_pos ⟨by omega, by omega⟩

theorem startDynamicRequest_live (hinv : Cache.Sessions.Inv site.server s.list)
    (hdata : DataInv s.list) {COOKIEItem : List CookieItem} {rqst : DynamicRequest}
    (hcookie : copyCookieValue (getPointerToCOOKIEItemValue COOKIEItem SESSION_COOKIE_NAME) = token)
    (hbefore : s.list.session token ≠ none) (hafter : s'.list.session token ≠ none)
    (hstart : startDynamicRequest site s COOKIEItem time later memory = .ok (s', rqst)) :
    rqst.sessionToken = token ∧
      ∃ entry, s'.list.session token = some entry ∧ entry.lastSeen = later := by
  unfold startDynamicRequest at hstart
  simp only [hcookie] at hstart
  unfold Store.getSession at hstart
  cases hget : getSessionFromHeader site.server s.list token time later memory with
  | error fault =>
    rw [hget] at hstart
    cases hstart
  | ok result =>
    obtain ⟨answer, list⟩ := result
    rw [hget] at hstart
    obtain ⟨-, hanswer⟩ := @Cache.Sessions.Inv.keeps_header _ _ _ [] _ _ _ hinv hdata _ _ hget
    have hlist : list.session token ≠ none := by
      rcases hanswer with rfl | ⟨rfl, -⟩ | ⟨new, rfl, -⟩
      · cases hstart
        exact hafter
      · cases hstart
        exact hafter
      · obtain ⟨rfl, rfl⟩ := Prod.ext_iff.mp (Except.ok.inj hstart)
        rw [ammServerSetCookie_eq] at hafter
        dsimp only at hafter
        split at hafter <;> exact hafter
    obtain ⟨rfl, hentry⟩ := hinv.header_live hdata hget hbefore hlist
    cases hstart
    exact ⟨rfl, hentry⟩

/-- The next request with the token of a login has its user, or finds that the session has ended. -/
theorem Web.Inv.stays (h : w.Inv site) (hin : Event.login token user ∈ w.store.history) :
    StaysLoggedIn site w token user := by
  rcases h.store.kept token user hin with hstored | hended
  · refine .inr fun request COOKIEItem time later memory w' hfree hcookie hserve => ?_
    have hsession := session_of_stored hstored
    have hcopy := copyCookieValue_token (h.store.inv.drawnIn hsession)
    unfold Web.serve at hserve
    split at hserve
    · cases hserve
    · rename_i s' rqst hstart
      cases hserve
      obtain ⟨htracked, hsub, -⟩ := startDynamicRequest_spec h.store hstart
      rcases htracked.kept token user (hsub hin) with hstored' | hended'
      · obtain ⟨htoken, entry, hentry, hseen⟩ := startDynamicRequest_live h.store.inv h.store.data
          (hcookie ▸ hcopy) hsession (session_of_stored hstored') hstart
        refine .inr ⟨⟨rqst, none⟩, Function.update_self .., htoken, fun size now hsize hnow => ?_⟩
        have hlive : sessionIsExpired site.server entry now = false := by
          refine Bool.eq_false_iff.mpr fun hexpired => ?_
          rw [sessionIsExpired_iff, hseen] at hexpired
          exact absurd hnow (not_le.mpr hexpired)
        exact htracked.currentUsername_live (htoken ▸ hentry) hlive (htoken ▸ hstored') hsize
      · exact .inl hended'
  · exact .inl hended

theorem Web.Inv.authenticated (h : w.Inv site) : Authenticated site w where
  only_login request a size time user _ huser := h.store.only_login huser
  login_works r hr user huser jar := by
    obtain ⟨token, hin, hjar⟩ := h.responses r hr user huser
    exact ⟨token, hjar jar, hin, h.stays hin⟩

theorem inv_of_reaches {r : Except Fault Web}
    (hrun : Reaches (step site) (Meets site) (.ok Web.start) r) : ∀ w, r = .ok w → w.Inv site := by
  refine @Run.Reaches.invariant _ _ _ _ _ (fun r => ∀ w, r = .ok w → w.Inv site) ?_ ?_ _ hrun
  · rintro w hw
    cases hw
    exact inv_start
  · rintro r ⟨request, action⟩ h hmeets w' hstep
    cases r with
    | error fault => cases hstep
    | ok w =>
      obtain ⟨hfair, heffective⟩ := hmeets w rfl
      exact (h w rfl).next hfair heffective hstep

theorem a_ne_zero : (65 : UInt8) ≠ 0 := by decide

theorem b_ne_zero : (66 : UInt8) ≠ 0 := by decide

def tokenOf (c : UInt8) (hc : c ≠ 0) : Token where
  text := List.replicate 43 c
  ne_nil := List.cons_ne_nil c (List.replicate 42 c)
  noNul := fun hmem => hc (List.eq_of_mem_replicate hmem).symm
  fits := List.length_replicate.trans_lt (by decide)

def shopDraw : ℕ → Option Token
  | 0 => some (tokenOf 65 a_ne_zero)
  | 1 => some (tokenOf 66 b_ne_zero)
  | _ => none

theorem shopDraw_never_repeats :
    ∀ i j t, shopDraw i = some t → shopDraw j = some t → i = j := by
  rintro (_ | _ | i) (_ | _ | j) t hi hj
  all_goals first | rfl | (cases hi; done) | (cases hj; done) | (cases hi; cases hj)

theorem shopDraw_encoded :
    ∀ i t, shopDraw i = some t → t.text.length = 43 ∧ ∀ c ∈ t.text, c ∈ base64url := by
  rintro (_ | _ | i) t hdraw
  all_goals cases hdraw
  · decide +kernel
  · decide +kernel

/-- An instance that gives two tokens. -/
def shop : Instance where
  server :=
    { MAX_SESSIONS := 10
      SESSION_IDLE_TIMEOUT_SECONDS := 1800
      draw := shopDraw
      never_repeats := shopDraw_never_repeats
      qsort := .insertion
      bsearch := .halving }
  sslAvailable := false
  encoded := shopDraw_encoded

def plenty : Memory := ⟨true, true, true, true, true⟩

def bob : Login where
  uadb :=
    { userList := [⟨ascii "bob",
        UserAccounts.hashPassword (ascii "x") (List.replicate 16 7) 128, []⟩]
      userListMaxSize := 100
      file := none }
  fits := by
    intro user huser
    obtain rfl := List.mem_singleton.mp huser
    show (ascii "bob").length < 32
    decide
  username := ascii "bob"
  password := ascii "x"
  created := 0
  stored := 0
  storedUid := 0
  creation := plenty
  storing := plenty
  storingUid := plenty

theorem bob_authenticates :
    UserAccounts.uadbAuthenticateUser bob.uadb bob.username bob.password = some 0 := by
  have hverified : UserAccounts.verifyPassword (ascii "x")
      (UserAccounts.hashPassword (ascii "x") (List.replicate 16 7) 128) = true :=
    (UserAccounts.verifyPassword_hashPassword rfl).mpr rfl
  show [_].findIdx? _ = some 0
  rw [List.findIdx?_cons, if_pos (decide_eq_true ⟨rfl, hverified⟩)]

/-- A visit without a cookie. -/
def visit : Action := .serve [] 0 0 plenty

/-- A cookie of the callback, 187 bytes of the queue. -/
def padding : Cookie where
  name := [97]
  value := List.replicate 150 97
  maxAgeSeconds := 0
  httpOnly := false
  maxAge_lt := noMaxAge_lt

/-- The queue is nearly full behind them. -/
def crowding : List (ℕ × Action) := [(0, visit), (0, .setCookie padding), (0, .setCookie padding)]

theorem noVersion_le : ([] : List UInt8).length ≤ 64 := by decide

theorem noContentType_le : ([] : List UInt8).length ≤ 128 := by decide

theorem lineEnd_le : [LF].length ≤ 64 := by decide

theorem lineEnd_getLast : [LF].getLast? = some LF := rfl

def plainTexts : DatedTexts where
  texts :=
    { version := []
      date := [LF]
      contentType := []
      lastModified := fun _ => none
      errorPage := fun _ => [] }
  version_le := noVersion_le
  contentType_le := noContentType_le
  date_le := lineEnd_le
  dated := lineEnd_getLast

/-- The login succeeds, and the client of its response holds no token of it. -/
def unheard : Except Fault (Bool × Store × DynamicRequest) → Bool
  | .ok (true, s, rqst) =>
    let headers := responseHeaders plainTexts rqst.pendingResponseHeaders (.sent 200)
    (Jar.receive (fun _ => none) headers SESSION_COOKIE_NAME).all fun token =>
      Event.login token bob.username ∉ s.history
  | _ => false

def crowdedLogin : Except Fault Web → Bool
  | .ok w => (w.answering 0).any fun a => unheard (loginAs shop w.store a.rqst bob 0)
  | .error _ => false

theorem crowdedLogin_unheard :
    crowdedLogin (crowding.foldl (step shop) (.ok Web.start)) = true := by decide +kernel

theorem step_login {a : Answering} {c : Login} {uid : ℕ} {s : Store} {rqst : DynamicRequest}
    (ha : w.answering request = some a)
    (hauth : UserAccounts.uadbAuthenticateUser c.uadb c.username c.password = some uid)
    (hlogin : loginAs site w.store a.rqst c uid = .ok (true, s, rqst)) :
    step site (.ok w) (request, .login c) = .ok { w with
      store := s
      answering := Function.update w.answering request (some ⟨rqst, some c.username⟩) } := by
  have hact : a.act site w.store (.login c) = .ok (s, ⟨rqst, some c.username⟩) := by
    unfold Answering.act ammServerLogin
    simp only [hauth, hlogin, if_true]
  show w.next site request (.login c) = _
  unfold Web.next
  simp only [ha, hact]

theorem step_answer {a : Answering} (ha : w.answering request = some a)
    (responseTexts : DatedTexts) (ending : Ending) :
    step site (.ok w) (request, .answer responseTexts ending) =
      .ok (w.answer request a responseTexts ending) := by
  show w.next site request (.answer responseTexts ending) = _
  unfold Web.next
  simp only [ha]

end AmmarServer.Logins
