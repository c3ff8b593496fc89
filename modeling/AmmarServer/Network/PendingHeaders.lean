import AmmarServer.Network.SetCookie

/-! The queued headers of the requests of a connection: `dynamicRequest_serveContent` hands them to
the transaction, `SendSuccessCodeHeader` puts them into a response, `ServeClientKeepAliveLoop` goes
on to the next request. -/

namespace AmmarServer.Cookies
open CString Bytes Network

def MAX_HTTP_REQUEST_HEADER_REPLY : ℕ := 1024

/-- The texts of a header, no longer than the arrays they come from. -/
structure ResponseTexts where
  texts : Texts
  version_le : texts.version.length ≤ 64
  contentType_le : texts.contentType.length ≤ 128
  date_le : texts.date.length ≤ 64

/-- How `SendFile` ends once it has the resource. -/
inductive Ending
  | sent (code : UInt32)
  | notModified
  /-- An error page. -/
  | error

inductive Route
  /-- `SendFile`, with the calls of `AmmServer_SetCookie` if a callback ran. -/
  | file (cookies : List Cookie) (ending : Ending)
  /-- `SendEmbeddedFile`. -/
  | template
  /-- `SendMemoryBlockAsFile` of a directory listing. -/
  | directory
  /-- Refused before there is a resource: an error page, a 401 or a 403. -/
  | refused

structure ClientRequest where
  keepalive : Bool
  responseTexts : ResponseTexts
  route : Route

/-- `rqst->pendingResponseHeaders` behind the calls. -/
def queue (sslAvailable : Bool) (cookies : List Cookie) : List UInt8 :=
  cookies.foldl (fun pending cookie => (setCookie sslAvailable pending cookie).2) []

/-- `SendSuccessCodeHeader`: the first lines of the header, and what stays queued. -/
def sendSuccessCodeHeader (texts : Texts) (code : ℕ) (pendingResponseHeaders : List UInt8) :
    List UInt8 × List UInt8 :=
  let reply_header := successHeader texts code
  if pendingResponseHeaders ≠ [] then
    (strncat reply_header pendingResponseHeaders
      (MAX_HTTP_REQUEST_HEADER_REPLY - reply_header.length - 1), [])
  else (reply_header, pendingResponseHeaders)

/-- One request: the header of a response that was sent as a success, and
`transaction->pendingResponseHeaders` behind it. -/
def respond (sslAvailable : Bool) (pendingResponseHeaders : List UInt8) (request : ClientRequest) :
    Option (List UInt8) × List UInt8 :=
  let texts := request.responseTexts.texts
  match request.route with
  | .file cookies ending =>
    -- `cache_GetResource` has dropped what an earlier request left
    let pendingResponseHeaders := (queue sslAvailable cookies).take (PENDING_SIZE - 1)
    match ending with
    | .sent code =>
      let (reply_header, pendingResponseHeaders) :=
        sendSuccessCodeHeader texts code.toNat pendingResponseHeaders
      (some reply_header, pendingResponseHeaders)
    | .notModified => (none, pendingResponseHeaders)
    | .error => (none, pendingResponseHeaders)
  | .template =>
    let (reply_header, pendingResponseHeaders) :=
      sendSuccessCodeHeader texts 200 pendingResponseHeaders
    (some reply_header, pendingResponseHeaders)
  | .directory =>
    let (reply_header, pendingResponseHeaders) :=
      sendSuccessCodeHeader texts 200 pendingResponseHeaders
    (some reply_header, pendingResponseHeaders)
  | .refused => (none, pendingResponseHeaders)

/-- The connection is kept for another request. -/
def ClientRequest.goesOn (request : ClientRequest) : Bool :=
  match request.route with
  | .file _ (.sent _) => request.keepalive
  | .file _ .notModified => request.keepalive
  | .file _ .error => false
  | .template => request.keepalive
  | .directory => false
  | .refused => false

/-- The requests of a connection that are answered, each with its response. -/
def serve (sslAvailable : Bool) :
    List UInt8 → List ClientRequest → List (ClientRequest × Option (List UInt8))
  | _, [] => []
  | pendingResponseHeaders, request :: requests =>
    let answer := respond sslAvailable pendingResponseHeaders request
    (request, answer.1) ::
      if request.goesOn then serve sslAvailable answer.2 requests else []

/-! What is asked of them. -/

def ClientRequest.cookies (request : ClientRequest) : List Cookie :=
  match request.route with
  | .file cookies _ => cookies
  | .template => []
  | .directory => []
  | .refused => []

/-- The header of the response without any cookie. -/
def ClientRequest.plainHeader (request : ClientRequest) : List UInt8 :=
  match request.route with
  | .file _ (.sent code) => successHeader request.responseTexts.texts code.toNat
  | .file _ .notModified => []
  | .file _ .error => []
  | .template => successHeader request.responseTexts.texts 200
  | .directory => successHeader request.responseTexts.texts 200
  | .refused => []

/-- A call that answers 1 queues one line that says what it asks for, another one nothing. -/
def CallsSay (sslAvailable : Bool) : List UInt8 → List Cookie → Prop
  | _, [] => True
  | pending, cookie :: cookies =>
    ((setCookie sslAvailable pending cookie).1 = true →
      ∃ line, (setCookie sslAvailable pending cookie).2 = pending ++ line ∧
        Says sslAvailable cookie line) ∧
    ((setCookie sslAvailable pending cookie).1 = false →
      (setCookie sslAvailable pending cookie).2 = pending) ∧
    CallsSay sslAvailable (setCookie sslAvailable pending cookie).2 cookies

/-- The header of a response has the lines of its own request, all of them or none, and no other. -/
def Own (sslAvailable : Bool) (request : ClientRequest) (response : Option (List UInt8)) : Prop :=
  ∀ header ∈ response, header = request.plainHeader ∨
    header = request.plainHeader ++ queue sslAvailable request.cookies

def CookiesDelivered (sslAvailable : Bool) (requests : List ClientRequest) : Prop :=
  ∀ answered ∈ serve sslAvailable [] requests,
    CallsSay sslAvailable [] answered.1.cookies ∧ Own sslAvailable answered.1 answered.2

/-! When they are delivered. -/

/-- The call is refused: the line would not start, or not fit behind what is queued. -/
def Refused (sslAvailable : Bool) (pending : List UInt8) (cookie : Cookie) : Prop :=
  LINE_SIZE ≤ cookie.start.length ∨
    PENDING_SIZE < pending.length + min ((cookie.text sslAvailable).length + 1) 255 + 1

/-- Every call is refused or has plain arguments. -/
def CallsPlain (sslAvailable : Bool) : List UInt8 → List Cookie → Prop
  | _, [] => True
  | pending, cookie :: cookies =>
    (Refused sslAvailable pending cookie ∨ cookie.Plain sslAvailable) ∧
    CallsPlain sslAvailable (setCookie sslAvailable pending cookie).2 cookies

/-- A 304 leaves behind what the callback queued. -/
def ClientRequest.leaves (request : ClientRequest) : Bool :=
  match request.route with
  | .file cookies .notModified => cookies.any fun cookie => cookie.start.length < LINE_SIZE
  | _ => false

/-- The response is made without a look into the cache, which drops what was left. -/
def ClientRequest.generated (request : ClientRequest) : Bool :=
  match request.route with
  | .template => true
  | .directory => true
  | _ => false

/-- No embedded file and no directory listing comes right behind a 304 that left something. -/
def Settled (sslAvailable : Bool) : Bool → List ClientRequest → Prop
  | _, [] => True
  | left, request :: requests =>
    CallsPlain sslAvailable [] request.cookies ∧
    (left = true → request.generated = false) ∧
    (request.goesOn = true → Settled sslAvailable request.leaves requests)

theorem setCookie_eq (sslAvailable : Bool) (pending : List UInt8) (cookie : Cookie) :
    (Refused sslAvailable pending cookie ∧
      setCookie sslAvailable pending cookie = (false, pending)) ∨
    (¬Refused sslAvailable pending cookie ∧ cookie.start.length < LINE_SIZE ∧
      setCookie sslAvailable pending cookie =
        (true, pending ++ cookie.newLine sslAvailable)) := by
  unfold setCookie Refused
  by_cases hstart : LINE_SIZE ≤ cookie.start.length
  · exact .inl ⟨.inl hstart, if_pos hstart⟩
  have hlt : cookie.start.length < LINE_SIZE := Nat.not_le.mp hstart
  have hlength : (cookie.newLine sslAvailable).length =
      min ((cookie.text sslAvailable).length + 1) 255 := by
    rw [newLine_eq hlt, List.length_take, List.length_append, List.length_singleton, Nat.min_comm]
  rw [if_neg hstart]
  dsimp only
  rw [hlength]
  by_cases hfull : PENDING_SIZE <
      pending.length + min ((cookie.text sslAvailable).length + 1) 255 + 1
  · exact .inl ⟨.inr hfull, if_pos hfull⟩
  · exact .inr ⟨fun h => h.elim hstart hfull, hlt, if_neg hfull⟩

theorem queue_length (sslAvailable : Bool) (cookies : List Cookie) :
    (queue sslAvailable cookies).length < PENDING_SIZE := by
  have hall (pending : List UInt8) (hpending : pending.length < PENDING_SIZE) :
      (cookies.foldl (fun pending cookie => (setCookie sslAvailable pending cookie).2)
        pending).length < PENDING_SIZE := by
    induction cookies generalizing pending with
    | nil => exact hpending
    | cons cookie cookies ih =>
      apply ih
      show (setCookie sslAvailable pending cookie).2.length < PENDING_SIZE
      rcases setCookie_eq sslAvailable pending cookie with ⟨-, heq⟩ | ⟨hnot, hlt, heq⟩
      · rw [heq]
        exact hpending
      · rw [heq, newLine_eq hlt]
        simp only [Refused, not_or, Nat.not_lt] at hnot
        simp only [List.length_append, List.length_take, List.length_singleton]
        omega
  exact hall [] (by decide)

theorem newLine_ne_nil {sslAvailable : Bool} {cookie : Cookie}
    (hstart : cookie.start.length < LINE_SIZE) : cookie.newLine sslAvailable ≠ [] := by
  rw [newLine_eq hstart]
  intro h
  rw [List.take_eq_nil_iff] at h
  simp at h

theorem queue_ne_nil_iff (sslAvailable : Bool) (cookies : List Cookie) :
    queue sslAvailable cookies ≠ [] ↔
      cookies.any (fun cookie => cookie.start.length < LINE_SIZE) = true := by
  have hkeep (cookies : List Cookie) {pending : List UInt8} (hpending : pending ≠ []) :
      cookies.foldl (fun pending cookie => (setCookie sslAvailable pending cookie).2)
        pending ≠ [] := by
    induction cookies generalizing pending with
    | nil => exact hpending
    | cons cookie cookies ih =>
      apply ih
      show (setCookie sslAvailable pending cookie).2 ≠ []
      rcases setCookie_eq sslAvailable pending cookie with ⟨-, heq⟩ | ⟨-, -, heq⟩
      · rwa [heq]
      · rw [heq]
        exact List.append_ne_nil_of_left_ne_nil hpending _
  induction cookies with
  | nil => simp [queue]
  | cons cookie cookies ih =>
    rw [queue, List.foldl_cons, List.any_cons]
    rcases setCookie_eq sslAvailable [] cookie with ⟨hrefused, heq⟩ | ⟨-, hlt, heq⟩
    · have hlong : ¬cookie.start.length < LINE_SIZE := by
        rcases hrefused with hlong | hfull
        · exact Nat.not_lt.mpr hlong
        · simp only [PENDING_SIZE, List.length_nil] at hfull
          omega
      rw [heq, decide_eq_false hlong, Bool.false_or]
      exact ih
    · rw [heq, decide_eq_true hlt, Bool.true_or]
      exact iff_of_true (hkeep cookies (by simpa using newLine_ne_nil hlt)) rfl

theorem reason_length (code : ℕ) : (ascii (getHTTPReasonPhrase code)).length ≤ 22 := by
  unfold getHTTPReasonPhrase
  split
  all_goals first | decide | skip
  split
  · decide
  split
  · decide
  split
  · decide
  split <;> decide

theorem successHeader_room (head : ResponseTexts) {code : ℕ} (hcode : code < 2 ^ 32) :
    (successHeader head.texts code).length ≤ PENDING_SIZE := by
  have hdigits : (decimal code).length ≤ 10 := decimal_length (by decide) (by omega)
  have hreason := reason_length code
  have hversion := head.version_le
  have htype := head.contentType_le
  have hdate := head.date_le
  have h1 : (ascii "HTTP/1.1 ").length = 9 := rfl
  have h2 : (ascii " ").length = 1 := rfl
  have h3 : (ascii "\nServer: Ammarserver/").length = 21 := rfl
  have h4 : (ascii "\nContent-type: ").length = 15 := rfl
  have h5 : (ascii "\nCache-Control: max-age=3600\nAccept-Ranges: bytes\n").length = 50 := rfl
  simp only [successHeader, statusLine, List.length_append, PENDING_SIZE]
  omega

theorem callsSay_iff (sslAvailable : Bool) (pending : List UInt8) (cookies : List Cookie) :
    CallsSay sslAvailable pending cookies ↔ CallsPlain sslAvailable pending cookies := by
  induction cookies generalizing pending with
  | nil => exact Iff.rfl
  | cons cookie cookies ih =>
    rw [CallsSay, CallsPlain, ih]
    rcases setCookie_eq sslAvailable pending cookie with ⟨hrefused, heq⟩ | ⟨hnot, hlt, heq⟩
    · rw [heq]
      simp [hrefused]
    · rw [heq]
      have hsaid : (∃ line, pending ++ cookie.newLine sslAvailable = pending ++ line ∧
          Says sslAvailable cookie line) ↔ cookie.Plain sslAvailable := by
        rw [← says_iff hlt]
        constructor
        · rintro ⟨line, hline, hsaid⟩
          rwa [List.append_cancel_left hline]
        · exact fun hsaid => ⟨_, rfl, hsaid⟩
      simp only [hsaid, hnot, forall_const, false_or, Bool.true_eq_false, false_imp_iff, true_and]

theorem sendSuccessCodeHeader_eq (head : ResponseTexts) {code : ℕ} (hcode : code < 2 ^ 32)
    {pending : List UInt8} (hpending : pending.length < PENDING_SIZE) :
    sendSuccessCodeHeader head.texts code pending =
      (successHeader head.texts code ++ pending, []) := by
  have hroom := successHeader_room head hcode
  unfold sendSuccessCodeHeader
  dsimp only
  split
  · have hfits : pending.length ≤
        MAX_HTTP_REQUEST_HEADER_REPLY - (successHeader head.texts code).length - 1 := by
      simp only [MAX_HTTP_REQUEST_HEADER_REPLY, PENDING_SIZE] at *
      omega
    unfold strncat
    rw [List.take_of_length_le hfits]
  · rename_i hempty
    obtain rfl : pending = [] := not_not.mp hempty
    rw [List.append_nil]

section Connection

variable {sslAvailable : Bool} {pending : List UInt8} {request : ClientRequest}

theorem take_queue (cookies : List Cookie) :
    (queue sslAvailable cookies).take (PENDING_SIZE - 1) = queue sslAvailable cookies :=
  List.take_of_length_le (Nat.le_pred_of_lt (queue_length sslAvailable cookies))

theorem respond_sent {cookies : List Cookie} {code : UInt32}
    (hroute : request.route = .file cookies (.sent code)) :
    respond sslAvailable pending request =
      (some (request.plainHeader ++ queue sslAvailable cookies), []) := by
  unfold respond ClientRequest.plainHeader
  rw [hroute]
  dsimp only
  rw [take_queue, sendSuccessCodeHeader_eq _ (UInt32.toNat_lt _) (queue_length _ _)]

theorem respond_unsent {cookies : List Cookie} {ending : Ending}
    (hroute : request.route = .file cookies ending) (hending : ∀ code, ending ≠ .sent code) :
    respond sslAvailable pending request = (none, queue sslAvailable cookies) := by
  unfold respond
  rw [hroute]
  cases ending with
  | sent code => exact absurd rfl (hending code)
  | notModified => exact congrArg (Prod.mk none) (take_queue cookies)
  | error => exact congrArg (Prod.mk none) (take_queue cookies)

theorem respond_generated (hpending : pending.length < PENDING_SIZE)
    (hgenerated : request.generated = true) :
    respond sslAvailable pending request = (some (request.plainHeader ++ pending), []) := by
  unfold respond ClientRequest.plainHeader
  unfold ClientRequest.generated at hgenerated
  cases hroute : request.route with
  | file cookies ending => simp [hroute] at hgenerated
  | template =>
    dsimp only
    rw [sendSuccessCodeHeader_eq _ (by decide) hpending]
  | directory =>
    dsimp only
    rw [sendSuccessCodeHeader_eq _ (by decide) hpending]
  | refused => simp [hroute] at hgenerated

theorem respond_refused (hroute : request.route = .refused) :
    respond sslAvailable pending request = (none, pending) := by
  unfold respond
  rw [hroute]

theorem respond_left (hpending : pending.length < PENDING_SIZE) (hgoesOn : request.goesOn = true) :
    (respond sslAvailable pending request).2.length < PENDING_SIZE ∧
      ((respond sslAvailable pending request).2 ≠ [] ↔ request.leaves = true) := by
  have hempty : ([] : List UInt8).length < PENDING_SIZE := by decide
  unfold ClientRequest.leaves
  unfold ClientRequest.goesOn at hgoesOn
  cases hroute : request.route with
  | file cookies ending =>
    cases ending with
    | sent code =>
      rw [respond_sent hroute]
      exact ⟨hempty, by simp⟩
    | notModified =>
      rw [respond_unsent hroute (fun _ h => Ending.noConfusion h)]
      exact ⟨queue_length sslAvailable cookies, queue_ne_nil_iff sslAvailable cookies⟩
    | error => simp [hroute] at hgoesOn
  | template =>
    rw [respond_generated hpending (by rw [ClientRequest.generated, hroute])]
    exact ⟨hempty, by simp⟩
  | directory => simp [hroute] at hgoesOn
  | refused => simp [hroute] at hgoesOn

theorem own_respond_iff (hpending : pending.length < PENDING_SIZE) :
    Own sslAvailable request (respond sslAvailable pending request).1 ↔
      (pending ≠ [] → request.generated = false) := by
  unfold Own
  cases hgenerated : request.generated with
  | true =>
    have hcookies : request.cookies = [] := by
      unfold ClientRequest.generated at hgenerated
      unfold ClientRequest.cookies
      cases hroute : request.route with
      | file cookies ending => simp [hroute] at hgenerated
      | template => rfl
      | directory => rfl
      | refused => rfl
    rw [respond_generated hpending hgenerated, hcookies, show queue sslAvailable [] = [] from rfl]
    simp
  | false =>
    refine iff_of_true ?_ (fun _ => rfl)
    unfold ClientRequest.generated at hgenerated
    cases hroute : request.route with
    | file cookies ending =>
      have hcookies : request.cookies = cookies := by
        unfold ClientRequest.cookies
        rw [hroute]
      cases ending with
      | sent code =>
        rw [respond_sent hroute, hcookies]
        simp
      | notModified =>
        rw [respond_unsent hroute (fun _ h => Ending.noConfusion h)]
        simp
      | error =>
        rw [respond_unsent hroute (fun _ h => Ending.noConfusion h)]
        simp
    | template => simp [hroute] at hgenerated
    | directory => simp [hroute] at hgenerated
    | refused =>
      rw [respond_refused hroute]
      simp

end Connection

/-- A connection delivers its cookies if every call that is not refused has plain arguments that
fit, and nothing is generated behind a 304 that left a cookie. -/
theorem cookiesDelivered_iff (sslAvailable : Bool) (requests : List ClientRequest) :
    CookiesDelivered sslAvailable requests ↔ Settled sslAvailable false requests := by
  have hall (left : Bool) (pending : List UInt8) (hpending : pending.length < PENDING_SIZE)
      (hleft : pending ≠ [] ↔ left = true) :
      (∀ answered ∈ serve sslAvailable pending requests,
        CallsSay sslAvailable [] answered.1.cookies ∧ Own sslAvailable answered.1 answered.2) ↔
      Settled sslAvailable left requests := by
    induction requests generalizing left pending with
    | nil => simp [serve, Settled]
    | cons request requests ih =>
      rw [serve, Settled, List.forall_mem_cons, callsSay_iff, own_respond_iff hpending, hleft,
        and_assoc]
      apply and_congr_right'
      apply and_congr_right'
      cases hgoesOn : request.goesOn with
      | false => simp
      | true =>
        obtain ⟨hlength, hleaves⟩ := @respond_left sslAvailable pending request hpending hgoesOn
        rw [if_pos rfl, ih request.leaves _ hlength hleaves]
        simp
  exact hall false [] (by decide) (by simp)

/-- A value with a line end in it. -/
def brokenCookie : Cookie :=
  { name := ascii "id"
    value := ascii "1\nX: y"
    maxAgeSeconds := 0
    httpOnly := false
    maxAge_lt := noMaxAge_lt }

def brokenRequest : ClientRequest :=
  { keepalive := false
    responseTexts :=
      { texts :=
          { version := []
            date := []
            contentType := []
            lastModified := fun _ => none
            errorPage := fun _ => [] }
        version_le := Nat.zero_le _
        contentType_le := Nat.zero_le _
        date_le := Nat.zero_le _ }
    route := .file [brokenCookie] (.sent 200) }

/-- The call answers 1, and what it queues is more than one line. -/
theorem brokenCookie_notDelivered : ¬CookiesDelivered false [brokenRequest] := by
  intro h
  obtain ⟨⟨hsaid, -, -⟩, -⟩ := h _ (List.mem_cons_self ..)
  have haccepted : (setCookie false [] brokenCookie).1 = true := by decide
  have hqueued : (setCookie false [] brokenCookie).2 =
      ascii "Set-Cookie: id=1\nX: y; Path=/; SameSite=Lax\n" := by decide
  obtain ⟨line, hline, ⟨text, rfl, hnewline, -⟩⟩ := hsaid haccepted
  rw [List.nil_append, hqueued] at hline
  have htext : text = ascii "Set-Cookie: id=1\nX: y; Path=/; SameSite=Lax" :=
    List.append_cancel_right (hline.symm.trans (by decide))
  rw [htext] at hnewline
  exact absurd hnewline (by decide)

end AmmarServer.Cookies
