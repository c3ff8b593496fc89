import AmmarServer.Network.FileServer

/-! `AmmServer_SetCookie` of `main.c`: one `Set-Cookie` line behind the headers that a request has
queued. A string is the list of its bytes before the NUL. -/

namespace AmmarServer.Cookies
open CString Bytes Network

/-- `sizeof(newLine)`. -/
def LINE_SIZE : ℕ := 256

/-- `sizeof(rqst->pendingResponseHeaders)`. -/
def PENDING_SIZE : ℕ := 512

/-- `strncat(dst,src,n)`. -/
def strncat (dst src : List UInt8) (n : ℕ) : List UInt8 := dst ++ src.take n

/-- The arguments of a call; the age is an `int`. -/
structure Cookie where
  name : List UInt8
  value : List UInt8
  maxAgeSeconds : ℤ
  httpOnly : Bool
  maxAge_lt : maxAgeSeconds < 2 ^ 31

theorem noMaxAge_lt : (0 : ℤ) < 2 ^ 31 := by decide

theorem clearedMaxAge_lt : (-1 : ℤ) < 2 ^ 31 := by decide

/-- What `snprintf` starts the line with. -/
def Cookie.start (cookie : Cookie) : List UInt8 :=
  ascii "Set-Cookie: " ++ cookie.name ++ ascii "=" ++ cookie.value ++ ascii "; Path=/;"

/-- `newLine` with the attributes. -/
def Cookie.newLine (sslAvailable : Bool) (cookie : Cookie) : List UInt8 :=
  let newLine := cookie.start
  let newLine :=
    if cookie.maxAgeSeconds < 0 then
      strncat newLine (ascii " Max-Age=0;") (LINE_SIZE - newLine.length - 1)
    else if 0 < cookie.maxAgeSeconds then
      strncat newLine
        ((ascii " Max-Age=" ++ decimal cookie.maxAgeSeconds.toNat ++ ascii ";").take 47)
        (LINE_SIZE - newLine.length - 1)
    else newLine
  let newLine :=
    if cookie.httpOnly then strncat newLine (ascii " HttpOnly;") (LINE_SIZE - newLine.length - 1)
    else newLine
  let newLine :=
    if sslAvailable then strncat newLine (ascii " Secure;") (LINE_SIZE - newLine.length - 1)
    else newLine
  strncat newLine (ascii " SameSite=Lax\n") (LINE_SIZE - newLine.length - 1)

/-- `AmmServer_SetCookie`: its answer, and the queued headers behind it. -/
def setCookie (sslAvailable : Bool) (pendingResponseHeaders : List UInt8) (cookie : Cookie) :
    Bool × List UInt8 :=
  if LINE_SIZE ≤ cookie.start.length then (false, pendingResponseHeaders)
  else
    let newLine := cookie.newLine sslAvailable
    if PENDING_SIZE < pendingResponseHeaders.length + newLine.length + 1 then
      (false, pendingResponseHeaders)
    else (true, pendingResponseHeaders ++ newLine)

/-! What a line says. -/

structure CookieLine where
  name : List UInt8
  value : List UInt8
  attributes : List (List UInt8)
deriving DecidableEq

/-- A `Set-Cookie` line as a browser reads it: the pieces between the `;`, the first of them with a
name in front of its first `=`. -/
def readCookieLine (line : List UInt8) : Option CookieLine :=
  if (ascii "Set-Cookie: ").isPrefixOf line then
    match (line.drop (ascii "Set-Cookie: ").length).splitOn 59 with
    | [] => none
    | pair :: attributes =>
      if 61 ∈ pair then
        some
          { name := pair.takeWhile (· ≠ 61)
            value := (pair.dropWhile (· ≠ 61)).tail
            attributes := attributes.map fun piece => piece.dropWhile (· = 32) }
      else none
  else none

/-- The attributes that a call asks for. -/
def Cookie.attributes (sslAvailable : Bool) (cookie : Cookie) : List (List UInt8) :=
  [ascii "Path=/"]
    ++ (if cookie.maxAgeSeconds < 0 then [ascii "Max-Age=0"]
        else if 0 < cookie.maxAgeSeconds then
          [ascii "Max-Age=" ++ decimal cookie.maxAgeSeconds.toNat]
        else [])
    ++ (if cookie.httpOnly then [ascii "HttpOnly"] else [])
    ++ (if sslAvailable then [ascii "Secure"] else [])
    ++ [ascii "SameSite=Lax"]

def Cookie.line (sslAvailable : Bool) (cookie : Cookie) : CookieLine :=
  { name := cookie.name
    value := cookie.value
    attributes := cookie.attributes sslAvailable }

/-- The bytes are one line, and it says what the call asks for. -/
def Says (sslAvailable : Bool) (cookie : Cookie) (bytes : List UInt8) : Prop :=
  ∃ line, bytes = line ++ [LF] ∧ NoNewline line ∧
    readCookieLine line = some (cookie.line sslAvailable)

/-- The line with all of its attributes. -/
def Cookie.text (sslAvailable : Bool) (cookie : Cookie) : List UInt8 :=
  ascii "Set-Cookie: " ++
    [59].intercalate ((cookie.name ++ 61 :: cookie.value) ::
      (cookie.attributes sslAvailable).map fun piece => 32 :: piece)

theorem decimal_length {n e : ℕ} (he : 0 < e) (hn : n < 10 ^ e) : (decimal n).length ≤ e := by
  rw [decimal, ascii, List.length_map, String.length_toList]
  exact (Nat.length_repr_le_iff he).mpr hn

theorem decimal_digit {n : ℕ} {c : UInt8} (hc : c ∈ decimal n) : 48 ≤ c ∧ c ≤ 57 := by
  obtain ⟨d, hd, rfl⟩ := List.mem_map.mp hc
  rw [Nat.toList_repr] at hd
  obtain ⟨hnat, hlow, hhigh⟩ :=
    toNat_ofNat_digit (Nat.isDigit_of_mem_toDigits (by decide) (by decide) hd)
  rw [UInt8.le_iff_toNat_le, UInt8.le_iff_toNat_le, hnat]
  exact ⟨hlow, hhigh⟩

/-- One more `strncat` that stops where the array ends. -/
theorem strncat_take (s src : List UInt8) :
    strncat (s.take 255) src (LINE_SIZE - (s.take 255).length - 1) = (s ++ src).take 255 := by
  rw [strncat, List.take_append, List.length_take, LINE_SIZE]
  congr 2
  omega

theorem strncat_ite (c : Prop) [Decidable c] (s src : List UInt8) :
    (if c then strncat (s.take 255) src (LINE_SIZE - (s.take 255).length - 1) else s.take 255) =
      (s ++ if c then src else []).take 255 := by
  split
  · exact strncat_take s src
  · rw [List.append_nil]

/-- The bytes of the line up to its LF. -/
def Cookie.bytes (sslAvailable : Bool) (cookie : Cookie) : List UInt8 :=
  cookie.start
    ++ (if cookie.maxAgeSeconds < 0 then ascii " Max-Age=0;"
        else if 0 < cookie.maxAgeSeconds then
          ascii " Max-Age=" ++ decimal cookie.maxAgeSeconds.toNat ++ ascii ";"
        else [])
    ++ (if cookie.httpOnly then ascii " HttpOnly;" else [])
    ++ (if sslAvailable then ascii " Secure;" else [])
    ++ ascii " SameSite=Lax"

theorem bytes_eq (sslAvailable : Bool) (cookie : Cookie) :
    cookie.bytes sslAvailable = cookie.text sslAvailable := by
  unfold Cookie.bytes Cookie.text Cookie.attributes Cookie.start
  cases hhttp : cookie.httpOnly <;> cases hssl : sslAvailable <;>
    rcases lt_trichotomy cookie.maxAgeSeconds 0 with hage | hage | hage <;>
    simp [hage, ascii, List.intercalate, hage.not_gt]

theorem newLine_eq {sslAvailable : Bool} {cookie : Cookie}
    (hstart : cookie.start.length < LINE_SIZE) :
    cookie.newLine sslAvailable = (cookie.text sslAvailable ++ [LF]).take 255 := by
  have hlt : cookie.start.take 255 = cookie.start :=
    List.take_of_length_le (Nat.le_of_lt_succ hstart)
  have hshort : (ascii " Max-Age=" ++ decimal cookie.maxAgeSeconds.toNat ++ ascii ";").take 47 =
      ascii " Max-Age=" ++ decimal cookie.maxAgeSeconds.toNat ++ ascii ";" := by
    apply List.take_of_length_le
    have hlen : (decimal cookie.maxAgeSeconds.toNat).length ≤ 10 := by
      apply decimal_length (by decide)
      have hmax := cookie.maxAge_lt
      omega
    have hleft : (ascii " Max-Age=").length = 9 := rfl
    have hright : (ascii ";").length = 1 := rfl
    rw [List.length_append, List.length_append, hleft, hright]
    omega
  have hage : (if cookie.maxAgeSeconds < 0 then
        strncat (cookie.start.take 255) (ascii " Max-Age=0;")
          (LINE_SIZE - (cookie.start.take 255).length - 1)
      else if 0 < cookie.maxAgeSeconds then
        strncat (cookie.start.take 255)
          ((ascii " Max-Age=" ++ decimal cookie.maxAgeSeconds.toNat ++ ascii ";").take 47)
          (LINE_SIZE - (cookie.start.take 255).length - 1)
      else cookie.start.take 255) =
      (cookie.start ++ if cookie.maxAgeSeconds < 0 then ascii " Max-Age=0;"
        else if 0 < cookie.maxAgeSeconds then
          ascii " Max-Age=" ++ decimal cookie.maxAgeSeconds.toNat ++ ascii ";"
        else []).take 255 := by
    rw [hshort, strncat_ite]
    split
    · exact strncat_take _ _
    · rfl
  have hlast : ascii " SameSite=Lax\n" = ascii " SameSite=Lax" ++ [LF] := rfl
  rw [← bytes_eq, Cookie.newLine, Cookie.bytes]
  rw [hlt] at hage
  simp only [hage]
  rw [strncat_ite, strncat_ite, strncat_take, hlast, ← List.append_assoc]

/-- Nothing in the arguments ends a piece of the line or the line itself, and all of it has room. -/
structure Cookie.Plain (sslAvailable : Bool) (cookie : Cookie) : Prop where
  name : NoNewline cookie.name ∧ 59 ∉ cookie.name ∧ 61 ∉ cookie.name
  value : NoNewline cookie.value ∧ 59 ∉ cookie.value
  fits : (cookie.text sslAvailable).length < 255

theorem mem_attributes {sslAvailable : Bool} {cookie : Cookie} {piece : List UInt8}
    (h : piece ∈ cookie.attributes sslAvailable) :
    59 ∉ piece ∧ piece.dropWhile (· = 32) = piece := by
  have hdigits : 59 ∉ decimal cookie.maxAgeSeconds.toNat := fun hin =>
    absurd (decimal_digit hin).2 (by decide)
  simp only [Cookie.attributes, List.mem_append, List.mem_singleton] at h
  rcases h with (((rfl | h) | h) | h) | rfl
  · decide
  · split at h
    · obtain rfl := List.mem_singleton.mp h
      decide
    split at h
    · obtain rfl := List.mem_singleton.mp h
      refine ⟨?_, by simp [ascii]⟩
      intro hin
      rcases List.mem_append.mp hin with hin | hin
      · exact absurd hin (by decide)
      · exact hdigits hin
    · exact absurd h List.not_mem_nil
  · split at h
    · obtain rfl := List.mem_singleton.mp h
      decide
    · exact absurd h List.not_mem_nil
  · split at h
    · obtain rfl := List.mem_singleton.mp h
      decide
    · exact absurd h List.not_mem_nil
  · decide

theorem noNewline_decimal (n : ℕ) : NoNewline (decimal n) := by
  intro c hc
  obtain ⟨hlow, hhigh⟩ := decimal_digit hc
  rw [isNewline_eq_false_iff]
  constructor
  · rintro rfl
    exact absurd hlow (by decide)
  · rintro rfl
    exact absurd hlow (by decide)

theorem noNewline_text {sslAvailable : Bool} {cookie : Cookie} :
    NoNewline (cookie.text sslAvailable) ↔ NoNewline cookie.name ∧ NoNewline cookie.value := by
  have hage : NoNewline (if cookie.maxAgeSeconds < 0 then ascii " Max-Age=0;"
      else if 0 < cookie.maxAgeSeconds then
        ascii " Max-Age=" ++ decimal cookie.maxAgeSeconds.toNat ++ ascii ";"
      else []) := by
    split
    · decide
    split
    · exact noNewline_append.mpr ⟨noNewline_append.mpr ⟨by decide, noNewline_decimal _⟩, by decide⟩
    · exact noNewline_nil
  have hhttp : NoNewline (if cookie.httpOnly then ascii " HttpOnly;" else []) := by
    split <;> decide
  have hssl : NoNewline (if sslAvailable then ascii " Secure;" else []) := by
    split <;> decide
  have hhead : NoNewline (ascii "Set-Cookie: ") := by decide
  have hequals : NoNewline (ascii "=") := by decide
  have hpath : NoNewline (ascii "; Path=/;") := by decide
  have hlast : NoNewline (ascii " SameSite=Lax") := by decide
  rw [← bytes_eq, Cookie.bytes, Cookie.start]
  simp only [noNewline_append, hage, hhttp, hssl, hhead, hequals, hpath, hlast, true_and, and_true]

theorem read_text {sslAvailable : Bool} {cookie : Cookie}
    (hname : 59 ∉ cookie.name ∧ 61 ∉ cookie.name) (hvalue : 59 ∉ cookie.value) :
    readCookieLine (cookie.text sslAvailable) = some (cookie.line sslAvailable) := by
  have hsplit : ([59].intercalate ((cookie.name ++ 61 :: cookie.value) ::
      (cookie.attributes sslAvailable).map fun piece => 32 :: piece)).splitOn (59 : UInt8) =
      (cookie.name ++ 61 :: cookie.value) ::
        (cookie.attributes sslAvailable).map fun piece => 32 :: piece := by
    apply List.splitOn_intercalate
    · intro piece hpiece
      rcases List.mem_cons.mp hpiece with rfl | hpiece
      · simp [hname.1, hvalue]
      · obtain ⟨attr, hattr, rfl⟩ := List.mem_map.mp hpiece
        simpa using (mem_attributes hattr).1
    · exact List.cons_ne_nil _ _
  have hfirst : ∀ c ∈ cookie.name, (decide (c ≠ 61)) = true := by
    intro c hc
    simp only [decide_eq_true_eq]
    rintro rfl
    exact hname.2 hc
  have hattributes : ((cookie.attributes sslAvailable).map fun piece => 32 :: piece).map
      (fun piece => piece.dropWhile (· = 32)) = cookie.attributes sslAvailable := by
    rw [List.map_map]
    conv_rhs => rw [← List.map_id (cookie.attributes sslAvailable)]
    apply List.map_congr_left
    intro piece hpiece
    have hstay := (mem_attributes hpiece).2
    simpa using hstay
  rw [readCookieLine, Cookie.text, if_pos (by simp), List.drop_left, hsplit]
  simp only [hattributes]
  rw [if_pos (by simp), List.takeWhile_append_of_pos hfirst, List.dropWhile_append_of_pos hfirst]
  simp [Cookie.line]

theorem arguments_of_read {cookie : Cookie} {sslAvailable : Bool}
    (h : readCookieLine (cookie.text sslAvailable) = some (cookie.line sslAvailable)) :
    (59 ∉ cookie.name ∧ 61 ∉ cookie.name) ∧ 59 ∉ cookie.value := by
  obtain ⟨more, htext⟩ : ∃ more, cookie.text sslAvailable =
      ascii "Set-Cookie: " ++ ((cookie.name ++ 61 :: cookie.value) ++ 59 :: more) := by
    rw [← bytes_eq, Cookie.bytes, Cookie.start]
    exact ⟨_, by simp [ascii]; rfl⟩
  rw [readCookieLine, htext, if_pos (by simp), List.drop_left] at h
  have hread {pair : List UInt8} {rest : List (List UInt8)}
      (hpair : (if 61 ∈ pair then some (CookieLine.mk (pair.takeWhile (· ≠ 61))
          (pair.dropWhile (· ≠ 61)).tail rest) else none) = some (cookie.line sslAvailable)) :
      pair = cookie.name ++ 61 :: cookie.value ∧ 61 ∉ cookie.name := by
    split at hpair
    · rename_i hin
      obtain ⟨name, value, rfl, hfirst⟩ := List.eq_append_cons_of_mem hin
      have hall : ∀ c ∈ name, (decide (c ≠ 61)) = true := by
        intro c hc
        simp only [decide_eq_true_eq]
        rintro rfl
        exact hfirst hc
      rw [List.takeWhile_append_of_pos hall, List.dropWhile_append_of_pos hall] at hpair
      simp [Cookie.line] at hpair
      obtain ⟨rfl, rfl, -⟩ := hpair
      exact ⟨rfl, hfirst⟩
    · cases hpair
  by_cases hsemicolon : 59 ∈ cookie.name ++ 61 :: cookie.value
  · obtain ⟨xs, ys, heq, hfirst⟩ := List.eq_append_cons_of_mem hsemicolon
    rw [heq, List.append_assoc, List.cons_append,
      List.splitOn_append_cons_self_of_not_mem hfirst] at h
    have hpair := (hread h).1
    rw [heq] at hpair
    have hlen := congrArg List.length hpair
    simp at hlen
  · rw [List.splitOn_append_cons_self_of_not_mem hsemicolon] at h
    have hequals := (hread h).2
    simp only [List.mem_append, List.mem_cons, not_or] at hsemicolon
    exact ⟨⟨hsemicolon.1, hequals⟩, hsemicolon.2.2⟩

theorem says_iff {sslAvailable : Bool} {cookie : Cookie}
    (hstart : cookie.start.length < LINE_SIZE) :
    Says sslAvailable cookie (cookie.newLine sslAvailable) ↔ cookie.Plain sslAvailable := by
  rw [newLine_eq hstart]
  constructor
  · rintro ⟨line, hline, hnewline, hread⟩
    have hstartPrefix : cookie.start <+: line := by
      have hpre : cookie.start <+: line ++ [LF] := by
        rw [← hline, ← List.take_of_length_le (Nat.le_of_lt_succ hstart), ← bytes_eq]
        apply List.IsPrefix.take
        rw [Cookie.bytes]
        simp only [List.append_assoc]
        exact List.prefix_append _ _
      rcases List.prefix_concat_iff.mp hpre with heq | hpre
      · have hlast := congrArg List.getLast? heq
        have hsemicolon : (ascii "; Path=/;").getLast? = some 59 := rfl
        rw [Cookie.start, List.getLast?_append, hsemicolon, List.getLast?_concat,
          Option.some_or] at hlast
        exact absurd hlast (by decide)
      · exact hpre
    have hclean : NoNewline cookie.name ∧ NoNewline cookie.value := by
      have hall := hnewline.of_isPrefix hstartPrefix
      simp only [Cookie.start, noNewline_append] at hall
      exact ⟨hall.1.1.1.2, hall.1.2⟩
    have htext : NoNewline (cookie.text sslAvailable) := noNewline_text.mpr hclean
    have hfits : (cookie.text sslAvailable).length < 255 := by
      by_contra hlong
      have hle : 255 ≤ (cookie.text sslAvailable).length := Nat.not_lt.mp hlong
      rw [List.take_append_of_le_length hle] at hline
      have hin : LF ∈ cookie.text sslAvailable :=
        List.mem_of_mem_take (hline ▸ List.mem_append_right _ (List.mem_singleton_self _))
      exact absurd (htext LF hin) (by decide)
    rw [List.take_of_length_le (by simp; omega)] at hline
    obtain rfl : cookie.text sslAvailable = line := List.append_cancel_right hline
    obtain ⟨hname, hvalue⟩ := arguments_of_read hread
    exact ⟨⟨hclean.1, hname⟩, ⟨hclean.2, hvalue⟩, hfits⟩
  · rintro ⟨hname, hvalue, hfits⟩
    refine ⟨cookie.text sslAvailable, ?_, noNewline_text.mpr ⟨hname.1, hvalue.1⟩,
      read_text hname.2 hvalue.2⟩
    apply List.take_of_length_le
    simp
    omega

end AmmarServer.Cookies
