import AmmarServer.UserAccounts.UserAccountsWeb

/-! The session cookie that a client holds once it has received the queued lines of a response. -/

namespace AmmarServer.Logins
open CString Bytes Hashmap Cache.Sessions Cookies

/-- Every line has its end. -/
def Complete (headers : List UInt8) : Prop := headers = [] ∨ headers.getLast? = some LF

theorem receive_concat (jar : Jar) (lines rest : List UInt8) :
    jar.receive (lines ++ LF :: rest) = (jar.receive (lines ++ [LF])).receive rest := by
  unfold Jar.receive
  rw [List.splitOn_append_cons_self, List.splitOn_append_cons_self, List.foldl_append,
    List.foldl_append]
  rfl

theorem receive_append {headers : List UInt8} (h : Complete headers) (jar : Jar)
    (rest : List UInt8) : jar.receive (headers ++ rest) = (jar.receive headers).receive rest := by
  rcases h with rfl | hlast
  · rfl
  · obtain ⟨lines, rfl⟩ := List.getLast?_eq_some_iff.mp hlast
    rw [List.append_assoc]
    exact receive_concat jar lines rest

theorem receive_line {line : List UInt8} (h : NoNewline line) (jar : Jar) :
    jar.receive (line ++ [LF]) = jar.apply line := by
  have hnot : LF ∉ line := fun hin => absurd (h LF hin) (by decide)
  unfold Jar.receive
  rw [List.splitOn_append_cons_self, List.splitOn_eq_singleton hnot]
  rfl

theorem complete_append {headers line : List UInt8} : Complete (headers ++ (line ++ [LF])) := by
  refine .inr ?_
  rw [← List.append_assoc]
  exact List.getLast?_concat

theorem receive_setCookie {sslAvailable : Bool} {pending : List UInt8} {cookie : Cookie}
    (hcomplete : Complete pending) (hplain : cookie.Plain sslAvailable)
    (hqueued : (setCookie sslAvailable pending cookie).1 = true) :
    Complete (setCookie sslAvailable pending cookie).2 ∧ ∀ jar : Jar,
      jar.receive (setCookie sslAvailable pending cookie).2 =
        Function.update (jar.receive pending) cookie.name
          (if ascii "Max-Age=0" ∈ cookie.attributes sslAvailable then none
          else some cookie.value) := by
  rcases setCookie_eq sslAvailable pending cookie with ⟨-, heq⟩ | ⟨-, hlt, heq⟩
  · rw [heq] at hqueued
    cases hqueued
  · have hline : cookie.newLine sslAvailable = cookie.text sslAvailable ++ [LF] := by
      rw [newLine_eq hlt]
      apply List.take_of_length_le
      have hfits := hplain.fits
      rw [List.length_append, List.length_singleton]
      exact hfits
    have hnewline : NoNewline (cookie.text sslAvailable) :=
      noNewline_text.mpr ⟨hplain.name.1, hplain.value.1⟩
    rw [heq, hline]
    refine ⟨complete_append, fun jar => ?_⟩
    rw [receive_append hcomplete, receive_line hnewline]
    unfold Jar.apply
    rw [read_text hplain.name.2 hplain.value.2]
    simp only [List.contains_iff_mem]
    rfl

theorem setCookie_length {sslAvailable : Bool} {pending : List UInt8} {cookie : Cookie}
    (h : pending.length < PENDING_SIZE) :
    (setCookie sslAvailable pending cookie).2.length < PENDING_SIZE := by
  rcases setCookie_eq sslAvailable pending cookie with ⟨-, heq⟩ | ⟨hnot, hlt, heq⟩
  · rw [heq]
    exact h
  · rw [heq, newLine_eq hlt]
    simp only [Refused, not_or, Nat.not_lt] at hnot
    simp only [List.length_append, List.length_take, List.length_singleton]
    omega

/-! The cookie of a session. -/

/-- The length of its line. -/
def SESSION_LINE (sslAvailable : Bool) : ℕ := if sslAvailable then 106 else 98

variable {site : Instance} {token : List UInt8}

theorem sessionCookie_length (sslAvailable : Bool) (h : token.length = 43) :
    ((sessionCookie token).text sslAvailable).length + 1 = SESSION_LINE sslAvailable := by
  rw [← bytes_eq]
  cases sslAvailable <;> simp [Cookie.bytes, Cookie.start, sessionCookie, SESSION_COOKIE_NAME,
    SESSION_LINE, h, ascii]

theorem base64url_plain : ∀ c ∈ base64url, isNewline c = false ∧ c ≠ 59 := by decide +kernel

theorem sessionCookie_plain (sslAvailable : Bool) (hlength : token.length = 43)
    (hall : ∀ c ∈ token, c ∈ base64url) : (sessionCookie token).Plain sslAvailable where
  name := by
    show NoNewline SESSION_COOKIE_NAME ∧ 59 ∉ SESSION_COOKIE_NAME ∧ 61 ∉ SESSION_COOKIE_NAME
    decide
  value := ⟨fun c hc => (base64url_plain c (hall c hc)).1,
    fun hin => (base64url_plain 59 (hall 59 hin)).2 rfl⟩
  fits := by
    have hline := sessionCookie_length sslAvailable hlength
    unfold SESSION_LINE at hline
    split at hline <;> omega

theorem sessionCookie_queued {sslAvailable : Bool} {pending : List UInt8}
    (hlength : token.length = 43) (hfits : pending.length + SESSION_LINE sslAvailable < PENDING_SIZE) :
    (setCookie sslAvailable pending (sessionCookie token)).1 = true := by
  have hline := sessionCookie_length sslAvailable hlength
  have hstart : (sessionCookie token).start.length < LINE_SIZE := by
    simp [Cookie.start, sessionCookie, SESSION_COOKIE_NAME, hlength, ascii, LINE_SIZE]
  rcases setCookie_eq sslAvailable pending (sessionCookie token) with ⟨hrefused, -⟩ | ⟨-, -, heq⟩
  · unfold Refused at hrefused
    rw [hline] at hrefused
    rcases hrefused with hlong | hfull
    · exact absurd hstart (Nat.not_lt.mpr hlong)
    · have hshort : SESSION_LINE sslAvailable ≤ 255 := by cases sslAvailable <;> decide
      rw [Nat.min_eq_left hshort] at hfull
      exact absurd hfull (Nat.not_lt.mpr hfits)
  · rw [heq]

theorem receive_responseHeaders {pending : List UInt8} (hlength : pending.length < PENDING_SIZE)
    (responseTexts : DatedTexts) (code : UInt32) (jar : Jar) :
    ∃ jar' : Jar, jar.receive (responseHeaders responseTexts pending (.sent code)) =
      jar'.receive pending := by
  have htake : pending.take (PENDING_SIZE - 1) = pending :=
    List.take_of_length_le (Nat.le_pred_of_lt hlength)
  have hcomplete : Complete (Network.successHeader responseTexts.texts code.toNat) := by
    refine .inr ?_
    unfold Network.successHeader
    rw [List.getLast?_append, responseTexts.dated]
    rfl
  refine ⟨jar.receive (Network.successHeader responseTexts.texts code.toNat), ?_⟩
  unfold responseHeaders
  simp only
  rw [htake, sendSuccessCodeHeader_eq _ (UInt32.toNat_lt _) hlength]
  exact receive_append hcomplete jar pending

end AmmarServer.Logins
