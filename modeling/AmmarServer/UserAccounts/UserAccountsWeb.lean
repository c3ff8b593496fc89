import AmmarServer.Cache.SessionData
import AmmarServer.Network.PendingHeaders
import AmmarServer.UserAccounts.UserAccounts

/-! `UserAccounts/userAccountsWeb.c`: the logins of the requests that are being answered, over the
sessions of their instance and the cookies that they queue. -/

namespace AmmarServer.Logins
open CString Bytes Hashmap Cache.Sessions Cookies

def SESSION_COOKIE_NAME : List UInt8 := ascii "AMMSESSID"

def USERNAME : List UInt8 := ascii "username"

def base64url : List UInt8 :=
  ascii "ABCDEFGHIJKLMNOPQRSTUVWXYZabcdefghijklmnopqrstuvwxyz0123456789-_"

/-- The tokens are 32 random bytes in base64url. -/
structure Instance where
  server : Server
  sslAvailable : Bool
  encoded : ∀ i t, server.draw i = some t → t.text.length = 43 ∧ ∀ c ∈ t.text, c ∈ base64url

inductive Event
  /-- The value of a cookie that was queued. -/
  | sent (value : List UInt8)
  | login (sessionToken username : List UInt8)
  | ended (ended : Ended)
deriving DecidableEq, Repr

/-- The sessions, and what has become of them, the latest first. -/
structure Store where
  list : SessionList
  history : List Event

structure DynamicRequest where
  sessionToken : List UInt8
  pendingResponseHeaders : List UInt8
deriving DecidableEq, Repr

structure CookieItem where
  name : List UInt8
  value : Option (List UInt8)
deriving DecidableEq, Repr

def getPointerToCOOKIEItemValue (COOKIEItem : List CookieItem) (nameToLookFor : List UInt8) :
    Option (List UInt8) :=
  (COOKIEItem.find? fun p => p.name = nameToLookFor).bind (·.value)

/-- The arguments of `AmmServer_Login`, and what the clock and the allocator answer on its way. -/
structure Login where
  uadb : UserAccounts.UserAccountDatabase
  /-- `char username[32]`. -/
  fits : ∀ user ∈ uadb.userList, user.username.length < 32
  username : List UInt8
  password : List UInt8
  created : ℤ
  stored : ℤ
  storedUid : ℤ
  creation : Memory
  storing : Memory
  storingUid : Memory

variable (site : Instance)

namespace Store

/-- What a call leaves, and the sessions it has ended. -/
def ending (s : Store) (ended : List Ended) (list : SessionList) : Store :=
  { list, history := ended.map Event.ended ++ s.history }

def destroy (s : Store) (reason : Reason) (sessionToken : List UInt8) : Store :=
  s.ending (endedBy reason s.list sessionToken) (sessionListDestroy s.list sessionToken).2

def getSession (s : Store) (cookieValue : List UInt8) (time later : ℤ) (memory : Memory) :
    Except Fault (Answer × Store) :=
  match getSessionFromHeader site.server s.list cookieValue time later memory with
  | .error fault => .error fault
  | .ok (answer, list) =>
    .ok (answer, s.ending (endedByHeader site.server s.list cookieValue time) list)

def getInfo (s : Store) (sessionToken name : List UInt8) (time : ℤ) : Answer × Store :=
  let (answer, list) := sessionListGetInfo site.server s.list sessionToken name time
  (answer, s.ending (endedByLookup site.server s.list sessionToken time) list)

def storeInfo (s : Store) (sessionToken name value : List UInt8) (time : ℤ) (memory : Memory) :
    Except Fault (Answer × Store) :=
  match sessionListStoreInfo site.server s.list sessionToken name value time memory with
  | .error fault => .error fault
  | .ok (answer, list) =>
    .ok (answer, s.ending (endedByLookup site.server s.list sessionToken time) list)

def unsetInfo (s : Store) (sessionToken name : List UInt8) (time : ℤ) : Answer × Store :=
  let (answer, list) := sessionListUnsetInfo site.server s.list sessionToken name time
  (answer, s.ending (endedByLookup site.server s.list sessionToken time) list)

def say (s : Store) (event : Event) : Store := { s with history := event :: s.history }

end Store

def ammServerSetCookie (s : Store) (rqst : DynamicRequest) (cookie : Cookie) :
    Bool × Store × DynamicRequest :=
  match setCookie site.sslAvailable rqst.pendingResponseHeaders cookie with
  | (true, pendingResponseHeaders) =>
    (true, s.say (.sent cookie.value), { rqst with pendingResponseHeaders })
  | (false, pendingResponseHeaders) => (false, s, { rqst with pendingResponseHeaders })

/-- The cookie of a session. -/
def sessionCookie (sessionToken : List UInt8) : Cookie :=
  { name := SESSION_COOKIE_NAME
    value := sessionToken
    maxAgeSeconds := 0
    httpOnly := true
    maxAge_lt := noMaxAge_lt }

/-- The cookie that takes it back. -/
def clearedCookie : Cookie :=
  { name := SESSION_COOKIE_NAME
    value := []
    maxAgeSeconds := -1
    httpOnly := true
    maxAge_lt := clearedMaxAge_lt }

/-- The copy of a cookie in `cookieValue[64]`. -/
def copyCookieValue : Option (List UInt8) → List UInt8
  | some cookie => if 0 < cookie.length ∧ cookie.length < 64 then cookie else []
  | none => []

/-- `dynamicRequest_serveContent` up to the callback, for a resource with `useSessionLifecycle`. -/
def startDynamicRequest (s : Store) (COOKIEItem : List CookieItem) (time later : ℤ)
    (memory : Memory) : Except Fault (Store × DynamicRequest) :=
  let rqst : DynamicRequest := { sessionToken := [], pendingResponseHeaders := [] }
  let cookieValue := copyCookieValue (getPointerToCOOKIEItemValue COOKIEItem SESSION_COOKIE_NAME)
  match s.getSession site cookieValue time later memory with
  | .error fault => .error fault
  | .ok (.session true sessionToken isNewSession, s) =>
    let rqst := { rqst with sessionToken }
    if isNewSession then .ok (ammServerSetCookie site s rqst (sessionCookie sessionToken)).2
    else .ok (s, rqst)
  | .ok (_, s) => .ok (s, rqst)

/-- The session of a request is gone before it gets another one. -/
def dropSession (s : Store) (rqst : DynamicRequest) : Store :=
  if rqst.sessionToken ≠ [] then s.destroy .replaced rqst.sessionToken else s

/-- `AmmServer_Login` once the password is right. -/
def loginAs (s : Store) (rqst : DynamicRequest) (c : Login) (uid : ℕ) :
    Except Fault (Bool × Store × DynamicRequest) :=
  match (dropSession s rqst).getSession site [] c.created c.created c.creation with
  | .error fault => .error fault
  | .ok (.session true sessionToken _, s) =>
    let (_, s, rqst) := ammServerSetCookie site (s.say (.login sessionToken c.username))
      { rqst with sessionToken } (sessionCookie sessionToken)
    match s.storeInfo site sessionToken USERNAME c.username c.stored c.storing with
    | .error fault => .error fault
    | .ok (_, s) =>
      match s.storeInfo site sessionToken (ascii "uid") (UserAccounts.decimal uid) c.storedUid
          c.storingUid with
      | .error fault => .error fault
      | .ok (_, s) => .ok (true, s, rqst)
  | .ok (_, s) => .ok (false, s, rqst)

def ammServerLogin (s : Store) (rqst : DynamicRequest) (c : Login) :
    Except Fault (Bool × Store × DynamicRequest) :=
  match UserAccounts.uadbAuthenticateUser c.uadb c.username c.password with
  | none => .ok (false, s, rqst)
  | some uid => loginAs site s rqst c uid

def ammServerLogout (s : Store) (rqst : DynamicRequest) : Bool × Store × DynamicRequest :=
  if rqst.sessionToken = [] then (false, s, rqst)
  else
    let (_, s, rqst) :=
      ammServerSetCookie site (s.destroy .loggedOut rqst.sessionToken) rqst clearedCookie
    (true, s, { rqst with sessionToken := [] })

/-- `_SESSIONcpy` into an array of `destinationSize` bytes. -/
def sessionCpy (s : Store) (rqst : DynamicRequest) (name : List UInt8) (destinationSize : ℕ)
    (time : ℤ) : Option (List UInt8) × Store :=
  match s.getInfo site rqst.sessionToken name time with
  | (.info (some value), s) => (if destinationSize < value.length + 1 then none else some value, s)
  | (_, s) => (none, s)

def ammServerCurrentUsername (s : Store) (rqst : DynamicRequest) (outUsernameSize : ℕ) (time : ℤ) :
    Option (List UInt8) × Store :=
  sessionCpy site s rqst USERNAME outUsernameSize time

/-! The requests. -/

/-- A request in its callback, and the user that it has logged in. -/
structure Answering where
  rqst : DynamicRequest
  user : Option (List UInt8)

/-- A response with the `Set-Cookie` lines of its request. -/
structure Response where
  headers : List UInt8
  user : Option (List UInt8)

structure Web where
  store : Store
  answering : ℕ → Option Answering
  responses : List Response

def Web.start : Web :=
  { store := ⟨sessionListInitialize, []⟩
    answering := fun _ => none
    responses := [] }

/-- The texts of a header, with the line end of `GetDateString`. -/
structure DatedTexts extends ResponseTexts where
  dated : texts.date.getLast? = some LF

/-- What happens next in one of the requests, each of them under a number of its own. -/
inductive Action
  | serve (COOKIEItem : List CookieItem) (time later : ℤ) (memory : Memory)
  | login (call : Login)
  | logout
  | setCookie (cookie : Cookie)
  | sessionCpy (name : List UInt8) (destinationSize : ℕ) (time : ℤ)
  | sessionSet (name value : List UInt8) (time : ℤ) (memory : Memory)
  | sessionUnset (name : List UInt8) (time : ℤ)
  | answer (responseTexts : DatedTexts) (ending : Ending)

/-- The headers of a response as far as the lines that were queued. -/
def responseHeaders (responseTexts : DatedTexts) (pendingResponseHeaders : List UInt8) :
    Ending → List UInt8
  | .sent code =>
    (sendSuccessCodeHeader responseTexts.texts code.toNat
      (pendingResponseHeaders.take (PENDING_SIZE - 1))).1
  | .notModified => []
  | .error => []

/-- What a call in a callback makes of the sessions and of its request. -/
def Answering.act (s : Store) (a : Answering) : Action → Except Fault (Store × Answering)
  | .serve .. => .ok (s, a)
  | .login call =>
    match ammServerLogin site s a.rqst call with
    | .error fault => .error fault
    | .ok (ok, s, rqst) => .ok (s, ⟨rqst, if ok then some call.username else a.user⟩)
  | .logout =>
    let (ok, s, rqst) := ammServerLogout site s a.rqst
    .ok (s, ⟨rqst, if ok then none else a.user⟩)
  | .setCookie cookie =>
    let (_, s, rqst) := ammServerSetCookie site s a.rqst cookie
    .ok (s, { a with rqst })
  | .sessionCpy name destinationSize time =>
    .ok ((Logins.sessionCpy site s a.rqst name destinationSize time).2, a)
  | .sessionSet name value time memory =>
    match s.storeInfo site a.rqst.sessionToken name value time memory with
    | .error fault => .error fault
    | .ok (_, s) => .ok (s, a)
  | .sessionUnset name time => .ok ((s.unsetInfo site a.rqst.sessionToken name time).2, a)
  | .answer .. => .ok (s, a)

def Web.serve (w : Web) (request : ℕ) (COOKIEItem : List CookieItem) (time later : ℤ)
    (memory : Memory) : Except Fault Web :=
  match startDynamicRequest site w.store COOKIEItem time later memory with
  | .error fault => .error fault
  | .ok (store, rqst) =>
    .ok { w with store, answering := Function.update w.answering request (some ⟨rqst, none⟩) }

def Web.answer (w : Web) (request : ℕ) (a : Answering) (responseTexts : DatedTexts)
    (ending : Ending) : Web :=
  { w with
    answering := Function.update w.answering request none
    responses :=
      ⟨responseHeaders responseTexts a.rqst.pendingResponseHeaders ending, a.user⟩ ::
        w.responses }

/-- A request that is not there does nothing but come. -/
def Web.next (w : Web) (request : ℕ) (action : Action) : Except Fault Web :=
  match w.answering request, action with
  | none, .serve COOKIEItem time later memory => w.serve site request COOKIEItem time later memory
  | none, _ => .ok w
  | some a, .answer responseTexts ending => .ok (w.answer request a responseTexts ending)
  | some a, action =>
    match a.act site w.store action with
    | .error fault => .error fault
    | .ok (store, a) =>
      .ok { w with store, answering := Function.update w.answering request (some a) }

/-- A call that faults ends the run. -/
def step (w : Except Fault Web) (e : ℕ × Action) : Except Fault Web :=
  w.bind fun w => w.next site e.1 e.2

/-! The client. -/

/-- The cookies of a client by their names. -/
abbrev Jar : Type := List UInt8 → Option (List UInt8)

def Jar.apply (jar : Jar) (line : List UInt8) : Jar :=
  match readCookieLine line with
  | none => jar
  | some cookie =>
    Function.update jar cookie.name
      (if cookie.attributes.contains (ascii "Max-Age=0") then none else some cookie.value)

/-- The lines of a response one behind the other. -/
def Jar.receive (jar : Jar) (headers : List UInt8) : Jar := (headers.splitOn LF).foldl Jar.apply jar

/-! What a login is for. -/

/-- The token comes from a login of the user, was not sent before, and its session has not ended
since. -/
def LoggedIn (history : List Event) (token user : List UInt8) : Prop :=
  ∃ after before, history = after ++ .login token user :: before ∧ Event.sent token ∉ before ∧
    ∀ e, Event.ended e ∈ after → e.sessionToken ≠ token

def HasEnded (history : List Event) (token : List UInt8) : Prop :=
  ∃ e, Event.ended e ∈ history ∧ e.sessionToken = token

/-- The next request with the token of a login, before its session has ended. -/
def StaysLoggedIn (w : Web) (token user : List UInt8) : Prop :=
  HasEnded w.store.history token ∨
    ∀ request COOKIEItem time later memory w', w.answering request = none →
      getPointerToCOOKIEItemValue COOKIEItem SESSION_COOKIE_NAME = some token →
      w.serve site request COOKIEItem time later memory = .ok w' →
      HasEnded w'.store.history token ∨
        ∃ a, w'.answering request = some a ∧ a.rqst.sessionToken = token ∧
          ∀ size now, user.length < size →
            now - later ≤ site.server.SESSION_IDLE_TIMEOUT_SECONDS →
            (ammServerCurrentUsername site w'.store a.rqst size now).1 = some user

structure Authenticated (w : Web) : Prop where
  only_login : ∀ request a size time user, w.answering request = some a →
    (ammServerCurrentUsername site w.store a.rqst size time).1 = some user →
    LoggedIn w.store.history a.rqst.sessionToken user
  login_works : ∀ response ∈ w.responses, ∀ user, response.user = some user →
    ∀ jar : Jar, ∃ token, jar.receive response.headers SESSION_COOKIE_NAME = some token ∧
      Event.login token user ∈ w.store.history ∧ StaysLoggedIn site w token user

end AmmarServer.Logins
