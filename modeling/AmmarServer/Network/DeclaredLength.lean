import AmmarServer.Network.FileServer

/-! When the body that `SendFile` sends on a connection that stays open is as long as it declares. -/

namespace AmmarServer.Network
open HeaderAnalysis

variable {socket : Socket} {texts : Texts} {request : Request} {rep : Representation}
  {t : Transaction}

/-- A success that leaves the connection open for further responses. -/
def Kept (answer : ℕ × Transaction) : Prop := answer.1 ≠ 0 ∧ answer.2.keepalive = true

structure Delivered (request : Request) (rep : Representation) (t : Transaction) : Prop where
  bodyless : request.requestType = .HEAD ∨ replyTo request rep = .notModified → t.body = []
  declared : request.requestType ≠ .HEAD → replyTo request rep ≠ .notModified →
    t.contentLength = some t.body.length
  range : request.requestType ≠ .HEAD → ∀ s e, replyTo request rep = .partialContent s e →
    t.contentRange = some (s, e, rep.bytes.length) ∧
      t.body = (rep.bytes.drop s).take (e - s + 1)

/-- The parts go out whole from the `i`th call on. -/
def GoOut (room : ℕ → ℤ) : ℕ → List Part → Prop
  | _, [] => True
  | i, part :: parts =>
    (part.text ≠ [] ∧ (part.text.length : ℤ) ≤ room i) ∧ GoOut room (i + 1) parts

/-- The range that is served with a body, if one is. -/
def servedRange : Reply → Option (Option (ℕ × ℕ))
  | .whole => some none
  | .partialContent s e => some (some (s, e))
  | _ => none

def bodyOffset (range : Option (ℕ × ℕ)) : ℕ := (range.map Prod.fst).getD 0

def bodyLength (size : ℕ) (range : Option (ℕ × ℕ)) : ℕ :=
  (range.map fun r => r.2 - r.1 + 1).getD size

def partsOf (texts : Texts) (request : Request) (rep : Representation) (range : Option (ℕ × ℕ)) :
    List Part :=
  headerParts texts request rep ++ [lengthPart rep.bytes.length range]

/-- The one send of a cached body takes all of it or fails. No send of a body that is streamed fails
before the stream ends, unless just the body is out. -/
def BodyGoes (room : ℕ → ℤ) (rep : Representation) (call offset length : ℕ) : Prop :=
  match rep.file with
  | none => length = 0 ∨ room call ≤ 0 ∨ (length : ℤ) ≤ room call
  | some file =>
    file.opens = false ∨ ∀ T, FailsBehind room (rep.bytes.length - offset) length call T → T = length

/-- On a connection that is kept, a body that has a header before it goes out as it should. -/
def SendsSuffice (room : ℕ → ℤ) (texts : Texts) (request : Request) (rep : Representation) : Prop :=
  request.keepalive = true → request.requestType ≠ .HEAD →
    ∀ range, servedRange (replyTo request rep) = some range →
      0 < room 0 → GoOut room 1 (partsOf texts request rep range) →
        BodyGoes room rep (1 + (partsOf texts request rep range).length) (bodyOffset range)
          (bodyLength rep.bytes.length range)

/-! ## Headers -/

theorem sent_body {part : Part} (h : ∀ bytes, part ≠ .body bytes) (taken : ℕ) :
    (t.sent part taken).body = t.body := by
  cases part with
  | header text => rfl
  | contentLength text length range =>
    unfold Transaction.sent
    simp only
    split <;> rfl
  | body bytes => exact absurd rfl (h bytes)

theorem asrvSend_contentLength {text : List UInt8} {length : ℕ} {range : Option (ℕ × ℕ × ℕ)}
    (h : (text.length : ℤ) ≤ socket.room t.calls) :
    (asrvSend socket t (.contentLength text length range)).2 =
      { t with
        calls := t.calls + 1
        contentLength := some length
        contentRange := range } := by
  have htaken : text.length ≤ (min (socket.room t.calls) (text.length : ℤ)).toNat := by omega
  exact if_pos htaken

theorem sendPart_snd (part : Part) :
    (sendPart socket t part).2 = (asrvSend socket t part).2 := by
  unfold sendPart
  simp only
  split
  · rfl
  · split <;> rfl

theorem sendPart_body {part : Part} (h : ∀ bytes, part ≠ .body bytes) :
    (sendPart socket t part).2.body = t.body := by
  rw [sendPart_snd]
  exact sent_body h _

theorem sendPart_fst (part : Part) :
    (sendPart socket t part).1 = true ↔
      part.text ≠ [] ∧ (part.text.length : ℤ) ≤ socket.room t.calls := by
  unfold sendPart asrvSend
  simp only
  have hnonempty : part.text ≠ [] ↔ 0 < part.text.length := List.length_pos_iff.symm
  rw [hnonempty]
  split
  · refine iff_of_false Bool.false_ne_true ?_
    omega
  · split
    · refine iff_of_false Bool.false_ne_true ?_
      omega
    · refine iff_of_true rfl ?_
      omega

theorem sendParts_body {parts : List Part} (h : ∀ part ∈ parts, ∀ bytes, part ≠ .body bytes) :
    (sendParts socket t parts).2.body = t.body := by
  induction parts generalizing t with
  | nil => rfl
  | cons part parts ih =>
    have hpart := @sendPart_body socket t part (h part (List.mem_cons_self ..))
    unfold sendParts
    split
    · rename_i t' hsent
      rw [hsent] at hpart
      exact hpart
    · rename_i t' hsent
      rw [hsent] at hpart
      rw [ih (fun part hmem => h part (List.mem_cons_of_mem _ hmem)), hpart]

theorem sendParts_length {parts : List Part} (h : ∀ part ∈ parts, ∃ text, part = .header text)
    (text : List UInt8) (length : ℕ) (range : Option (ℕ × ℕ × ℕ)) :
    (GoOut socket.room t.calls (parts ++ [.contentLength text length range]) ∧
      sendParts socket t (parts ++ [.contentLength text length range]) =
        (true, { t with
          calls := t.calls + (parts.length + 1)
          contentLength := some length
          contentRange := range })) ∨
    ¬ GoOut socket.room t.calls (parts ++ [.contentLength text length range]) ∧
      (sendParts socket t (parts ++ [.contentLength text length range])).1 = false := by
  induction parts generalizing t with
  | nil =>
    have hfst := @sendPart_fst socket t (.contentLength text length range)
    have hsnd := @sendPart_snd socket t (.contentLength text length range)
    rw [List.nil_append]
    unfold sendParts GoOut
    cases hsent : sendPart socket t (.contentLength text length range) with
    | mk ok t' =>
      rw [hsent] at hfst hsnd
      cases ok with
      | false => exact .inr ⟨fun hgo => Bool.false_ne_true (hfst.mpr hgo.1), rfl⟩
      | true =>
        have hwhole := hfst.mp rfl
        refine .inl ⟨⟨hwhole, trivial⟩, ?_⟩
        have hsnd : t' = _ := hsnd.trans (asrvSend_contentLength hwhole.2)
        rw [hsnd]
        rfl
  | cons part parts ih =>
    obtain ⟨line, rfl⟩ := h part (List.mem_cons_self ..)
    have hfst := @sendPart_fst socket t (.header line)
    have hsnd := @sendPart_snd socket t (.header line)
    rw [List.cons_append]
    unfold sendParts GoOut
    cases hsent : sendPart socket t (.header line) with
    | mk ok t' =>
      rw [hsent] at hfst hsnd
      cases ok with
      | false => exact .inr ⟨fun hgo => Bool.false_ne_true (hfst.mpr hgo.1), rfl⟩
      | true =>
        have hsnd : t' = { t with calls := t.calls + 1 } := hsnd
        subst hsnd
        rcases @ih { t with calls := t.calls + 1 }
            (fun part hmem => h part (List.mem_cons_of_mem _ hmem)) with
          ⟨hgo, hall⟩ | ⟨hgo, hfails⟩
        · refine .inl ⟨⟨hfst.mp rfl, hgo⟩, ?_⟩
          simp only [hall, List.length_cons]
          simp only [Nat.add_assoc, Nat.add_comm 1]
        · exact .inr ⟨fun hgo' => hgo hgo'.2, hfails⟩

theorem headerParts_bodyless {part : Part} (h : ∃ text, part = .header text) (bytes : List UInt8) :
    part ≠ .body bytes := by
  obtain ⟨text, rfl⟩ := h
  intro hbody
  cases hbody

theorem lineParts_header (after : String) (part : Part)
    (h : part ∈ lastModifiedPart texts rep ++ etagPart rep after) :
    ∃ text, part = .header text := by
  unfold lastModifiedPart etagPart at h
  rcases List.mem_append.mp h with h | h
  · split at h
    · cases hline : texts.lastModified rep.modificationTime with
      | none =>
        rw [hline] at h
        cases h
      | some line =>
        rw [hline] at h
        exact ⟨line, List.mem_singleton.mp h⟩
    · cases h
  · split at h
    · cases h
    · exact ⟨_, List.mem_singleton.mp h⟩

theorem headerParts_header (part : Part) (h : part ∈ headerParts texts request rep) :
    ∃ text, part = .header text := by
  unfold headerParts at h
  rcases List.mem_append.mp h with h | h
  · exact lineParts_header _ part h
  · exact ⟨_, List.mem_singleton.mp h⟩

/-! ## Bodies -/

theorem sendBody_spec (hfile : ∀ file, rep.file = some file → file.bytes = rep.bytes)
    {offset length : ℕ} (hle : offset + length ≤ rep.bytes.length) :
    ∃ r n T, sendBody socket t rep offset length =
        (r, t.went n ((rep.bytes.drop offset).take T)) ∧
      T ≤ rep.bytes.length - offset ∧
      ((r ≠ 0 → T = length) ↔ BodyGoes socket.room rep t.calls offset length) := by
  have hnothing : t.went 0 ((rep.bytes.drop offset).take 0) = t := by
    simp [Transaction.went]
  unfold sendBody BodyGoes
  cases hrep : rep.file with
  | none =>
    simp only
    split
    · rename_i hpos
      have hslice : ((rep.bytes.drop offset).take length).length = length := by
        rw [List.length_take, List.length_drop]
        omega
      rw [asrvSend_body, hslice]
      rcases le_or_gt (socket.room t.calls) 0 with hfails | hroom
      · refine ⟨0, 1, 0, ?_, Nat.zero_le _, ?_⟩
        · have hzero : (min (socket.room t.calls) (length : ℤ)).toNat = 0 := by omega
          simp only [hzero, List.take_zero]
          rw [if_pos (by omega)]
        · exact iff_of_true (fun hne => absurd rfl hne) (.inr (.inl hfails))
      · obtain ⟨T, hT⟩ : ∃ T : ℕ, min (socket.room t.calls) (length : ℤ) = T :=
          ⟨_, (Int.toNat_of_nonneg (by omega)).symm⟩
        refine ⟨1, 1, T, ?_, by omega, ?_⟩
        · simp only [hT, Int.toNat_natCast]
          rw [if_neg (by omega), List.take_take, Nat.min_eq_left (by omega)]
        · constructor
          · intro h
            have := h one_ne_zero
            omega
          · rintro (hzero | hfails | hroom') - <;> omega
    · refine ⟨1, 0, 0, by rw [hnothing], Nat.zero_le _, iff_of_true (fun _ => ?_) (.inl ?_)⟩ <;> omega
  | some file =>
    have hbytes := hfile file hrep
    have hsize := file.size_lt
    rw [hbytes] at hsize
    simp only
    unfold transmitFileBodyToSocket
    rw [hbytes]
    rcases Nat.eq_zero_or_pos length with rfl | hpos
    · -- an empty body is through before a send could fail
      rw [if_pos rfl]
      refine ⟨1, 0, 0, by rw [hnothing], Nat.zero_le _, iff_of_true (fun _ => rfl) (.inr ?_)⟩
      intro T hT
      have hlt := Interrupted.lt hT
      unfold streamEnd at hlt
      rw [if_pos (dvd_zero _)] at hlt
      exact absurd hlt (Nat.not_lt_zero T)
    · rw [if_neg hpos.ne']
      cases hopens : file.opens with
      | false =>
        exact ⟨0, 0, 0, by rw [hnothing]; rfl, Nat.zero_le _,
          iff_of_true (fun hne => absurd rfl hne) (.inl rfl)⟩
      | true =>
        rw [if_neg (by decide)]
        have hrest : (rep.bytes.drop offset).length = rep.bytes.length - offset :=
          List.length_drop
        rcases @transmitFileToSocketInternal_spec socket (rep.bytes.drop offset) length
            hpos (by omega) (by omega) t with
          ⟨n, T, honly, hsent⟩ | ⟨hnone, n, hsent⟩
        · rw [hrest] at honly
          rw [hsent]
          refine ⟨1, n, T, rfl, ?_, ?_⟩
          · exact (((honly T).mpr rfl).lt.le).trans (streamEnd_le (by omega))
          · constructor
            · intro h
              refine .inr (fun T' hT' => ?_)
              rw [(honly T').mp hT']
              exact h one_ne_zero
            · rintro (hclosed | hall) -
              · cases hclosed
              · exact hall T ((honly T).mpr rfl)
        · rw [hrest] at hnone hsent
          rw [hsent]
          by_cases hend : streamEnd (mallocSize length) (rep.bytes.length - offset) length = length
          · rw [decide_eq_true hend, hend]
            exact ⟨1, n, length, rfl, by omega, iff_of_true (fun _ => rfl)
              (.inr fun T hT => absurd hT (hnone T))⟩
          · rw [decide_eq_false hend]
            exact ⟨0, n, _, rfl, streamEnd_le (by omega), iff_of_true (fun hne => absurd rfl hne)
              (.inr fun T hT => absurd hT (hnone T))⟩

/-! ## Responses -/

theorem sendErrorResponse_keepalive {code : ℕ} {body extraHeaders : List UInt8}
    (h : (sendErrorResponse socket texts request t code body extraHeaders).1 = true) :
    (sendErrorResponse socket texts request t code body extraHeaders).2.keepalive = false := by
  unfold sendErrorResponse at h ⊢
  simp only at h ⊢
  split
  · rename_i hfails
    rw [if_pos hfails] at h
    cases h
  · rename_i hgoes
    rw [if_neg hgoes] at h
    split
    · rename_i hbody
      rw [if_pos hbody] at h
      split
      · rename_i hfails
        rw [if_pos hfails] at h
        cases h
      · rfl
    · rfl

theorem not_kept_of_error {code n : ℕ} {body extraHeaders : List UInt8} :
    ¬ Kept (match sendErrorResponse socket texts request t code body extraHeaders with
      | (false, t) => (0, t)
      | (true, t) => (n, t)) := by
  rintro ⟨hne, hkept⟩
  have hclosed := @sendErrorResponse_keepalive socket texts request t code body extraHeaders
  generalize sendErrorResponse socket texts request t code body extraHeaders = answer at *
  obtain ⟨ok, t'⟩ := answer
  cases ok with
  | false => exact hne rfl
  | true =>
    have := hclosed rfl
    simp only at hkept
    rw [hkept] at this
    cases this

theorem sendNotModified_body : (sendNotModified socket texts request t rep).2.body = t.body := by
  have hlines : ∀ t : Transaction,
      (sendParts socket t (lastModifiedPart texts rep ++ etagPart rep "\" \n")).2.body = t.body :=
    fun t => sendParts_body fun part hmem => headerParts_bodyless (lineParts_header _ part hmem)
  unfold sendNotModified
  simp only
  split
  · rfl
  · split
    · rename_i t' hsent
      have hbody := congrArg (fun answer => answer.2.body) hsent
      simp only [hlines] at hbody
      exact hbody.symm
    · rename_i t' hsent
      have hbody := congrArg (fun answer => answer.2.body) hsent
      simp only [hlines] at hbody
      have hconnection : ∃ text, connectionPart request = .header text := ⟨_, rfl⟩
      simp only
      rw [sendPart_body (headerParts_bodyless ⟨_, rfl⟩),
        sendPart_body (headerParts_bodyless hconnection)]
      exact hbody.symm

theorem successHeader_length (code : ℕ) : 0 < (successHeader texts code).length := by
  unfold successHeader statusLine
  simp only [List.length_append]
  have : (CString.ascii "HTTP/1.1 ").length = 9 := by decide
  omega

/-- A transaction behind the header of a response with a length. -/
def Transaction.declared (t : Transaction) (texts : Texts) (request : Request)
    (rep : Representation) (range : Option (ℕ × ℕ)) : Transaction :=
  { t with
    calls := t.calls + 1 + (partsOf texts request rep range).length
    contentLength := some (bodyLength rep.bytes.length range)
    contentRange := range.map fun r => (r.1, r.2, rep.bytes.length) }

/-- What `SendFile` does of a response with a length behind the decisions about it: the header fails,
or it goes out, and then the body is sent if there is one to send. -/
theorem sendRepresentation_cases (range : Option (ℕ × ℕ)) :
    (sendRepresentation socket texts request t rep range).1 = 0 ∧
        ¬ (0 < socket.room t.calls ∧
          GoOut socket.room (t.calls + 1) (partsOf texts request rep range)) ∨
      (0 < socket.room t.calls ∧
          GoOut socket.room (t.calls + 1) (partsOf texts request rep range)) ∧
        sendRepresentation socket texts request t rep range =
          if request.requestType = .HEAD then (1, t.declared texts request rep range)
          else sendBody socket (t.declared texts request rep range) rep (bodyOffset range)
            (bodyLength rep.bytes.length range) := by
  have hlength := @successHeader_length texts (if range.isSome then 206 else 200)
  obtain ⟨text, hpart⟩ : ∃ text, lengthPart rep.bytes.length range =
      .contentLength text (bodyLength rep.bytes.length range)
        (range.map fun r => (r.1, r.2, rep.bytes.length)) := by
    cases range with
    | none => exact ⟨_, rfl⟩
    | some r => exact ⟨_, rfl⟩
  unfold sendRepresentation Transaction.declared partsOf
  rw [hpart]
  rcases le_or_gt (socket.room t.calls) 0 with hfails | hroom
  · refine .inl ⟨?_, fun h => absurd hfails (not_le.mpr h.1)⟩
    have hopres : (asrvSend socket t (.header
        (successHeader texts (if range.isSome then 206 else 200)))).1 ≤ 0 :=
      (min_le_left _ _).trans hfails
    simp only
    rw [if_pos hopres]
  · have hopres : ¬ (asrvSend socket t (.header
        (successHeader texts (if range.isSome then 206 else 200)))).1 ≤ 0 :=
      not_le.mpr (lt_min hroom (Int.natCast_pos.mpr hlength))
    have hstatus : (asrvSend socket t (.header
        (successHeader texts (if range.isSome then 206 else 200)))).2 =
      { t with calls := t.calls + 1 } := rfl
    simp only
    rw [if_neg hopres, hstatus]
    rcases @sendParts_length socket { t with calls := t.calls + 1 } (headerParts texts request rep)
        headerParts_header text (bodyLength rep.bytes.length range)
        (range.map fun r => (r.1, r.2, rep.bytes.length)) with ⟨hgo, hsent⟩ | ⟨hgo, hsent⟩
    · refine .inr ⟨⟨hroom, hgo⟩, ?_⟩
      rw [hsent, List.length_append, List.length_singleton]
      cases range with
      | none => rfl
      | some r => rfl
    · refine .inl ⟨?_, fun h => hgo h.2⟩
      generalize sendParts socket _ _ = answer at hsent ⊢
      obtain ⟨ok, t'⟩ := answer
      cases hsent
      rfl

theorem replyTo_partialContent {s e : ℕ} (h : replyTo request rep = .partialContent s e) :
    s ≤ e ∧ e < rep.bytes.length := by
  unfold replyTo at h
  split at h
  · split at h
    · cases h
    · split at h
      · cases h
      · split at h
        · cases h
        · cases h
        · rename_i s' e' hresolved
          cases h
          exact resolveByteRange_within hresolved
  · cases h

theorem served_within {range : Option (ℕ × ℕ)}
    (h : servedRange (replyTo request rep) = some range) :
    bodyOffset range + bodyLength rep.bytes.length range ≤ rep.bytes.length := by
  cases hreply : replyTo request rep with
  | partialContent s e =>
    rw [hreply] at h
    cases h
    have hwithin := replyTo_partialContent hreply
    show s + (e - s + 1) ≤ rep.bytes.length
    omega
  | whole =>
    rw [hreply] at h
    cases h
    show 0 + rep.bytes.length ≤ rep.bytes.length
    rw [Nat.zero_add]
  | preconditionFailed =>
    rw [hreply] at h
    cases h
  | rangeNotSatisfiable =>
    rw [hreply] at h
    cases h
  | notModified =>
    rw [hreply] at h
    cases h

/-- Behind a header that went out whole, the response is as it should be if the body has the length
of the range. -/
theorem delivered_iff {range : Option (ℕ × ℕ)}
    (hserved : servedRange (replyTo request rep) = some range) (hhead : request.requestType ≠ .HEAD)
    {n T : ℕ} (hT : T ≤ rep.bytes.length - bodyOffset range) (hbody : t.body = [])
    (hlength : t.contentLength = some (bodyLength rep.bytes.length range))
    (hrange : t.contentRange = range.map fun r => (r.1, r.2, rep.bytes.length)) :
    Delivered request rep (t.went n ((rep.bytes.drop (bodyOffset range)).take T)) ↔
      T = bodyLength rep.bytes.length range := by
  have hcount : (t.went n ((rep.bytes.drop (bodyOffset range)).take T)).body.length = T := by
    unfold Transaction.went
    simp only [hbody, List.nil_append]
    rw [List.length_take, List.length_drop, Nat.min_eq_left hT]
  have hnot : replyTo request rep ≠ .notModified := by
    intro hreply
    rw [hreply] at hserved
    cases hserved
  constructor
  · intro hdelivered
    have hdeclared := hdelivered.declared hhead hnot
    rw [hcount] at hdeclared
    exact (Option.some.inj (hlength.symm.trans hdeclared)).symm
  · rintro rfl
    refine ⟨fun h => ?_, fun _ _ => ?_, fun _ s e hreply => ?_⟩
    · exact absurd h (not_or.mpr ⟨hhead, hnot⟩)
    · rw [hcount]
      exact hlength
    · rw [hreply] at hserved
      cases hserved
      refine ⟨hrange, ?_⟩
      unfold Transaction.went
      simp only [hbody, List.nil_append]
      rfl

theorem sendRepresentation_delivers_iff {range : Option (ℕ × ℕ)}
    (hfile : ∀ file, rep.file = some file → file.bytes = rep.bytes)
    (hserved : servedRange (replyTo request rep) = some range) (hcalls : t.calls = 0)
    (hbody : t.body = []) (hkeepalive : t.keepalive = request.keepalive) :
    (Kept (sendRepresentation socket texts request t rep range) →
        Delivered request rep (sendRepresentation socket texts request t rep range).2) ↔
      SendsSuffice socket.room texts request rep := by
  have hnot : replyTo request rep ≠ .notModified := by
    intro hreply
    rw [hreply] at hserved
    cases hserved
  have hcases := @sendRepresentation_cases socket texts request rep t range
  rw [hcalls] at hcases
  rcases hcases with ⟨hfails, hheader⟩ | ⟨⟨hroom, hgo⟩, hsent⟩
  · refine iff_of_true (fun hkept => absurd hfails hkept.1) ?_
    intro _ _ range' hserved' hroom hgo
    rw [hserved] at hserved'
    cases hserved'
    exact absurd ⟨hroom, hgo⟩ hheader
  · rw [hsent]
    by_cases hhead : request.requestType = .HEAD
    · rw [if_pos hhead]
      refine iff_of_true (fun _ => ⟨fun _ => hbody, fun hne => absurd hhead hne,
        fun hne => absurd hhead hne⟩) (fun _ hne => absurd hhead hne)
    · obtain ⟨r, n, T, hbodySent, hT, hiff⟩ :=
        @sendBody_spec socket rep (t.declared texts request rep range) hfile _ _
          (served_within hserved)
      have hdelivered := @delivered_iff request rep (t.declared texts request rep range) range
        hserved hhead n T hT hbody rfl rfl
      have hcall : (t.declared texts request rep range).calls =
          1 + (partsOf texts request rep range).length := by
        show t.calls + 1 + _ = _
        rw [hcalls, Nat.zero_add]
      rw [hcall] at hiff
      rw [if_neg hhead, hbodySent, hdelivered]
      constructor
      · intro h hopen _ range' hserved' _ _
        rw [hserved] at hserved'
        cases hserved'
        exact hiff.mp fun hne => h ⟨hne, hkeepalive.trans hopen⟩
      · rintro h ⟨hne, hopen⟩
        exact hiff.mpr (h (hkeepalive.symm.trans hopen) hhead range hserved hroom hgo) hne

/-- A success of `SendFile` that keeps the connection has sent as many body bytes as it declared,
those of the range it named, just if the sends that the body takes suffice. -/
theorem sendFile_delivers_iff (socket : Socket) (texts : Texts) {request : Request}
    {resource : Resource} {rep : Representation}
    (hname : filenameStripperOk resource.verified_filename = true)
    (hresolves : resource.resolves = true) (hrep : representation request resource = some rep) :
    (Kept (sendFile socket texts request resource) →
        Delivered request rep (sendFile socket texts request resource).2) ↔
      SendsSuffice socket.room texts request rep := by
  have hfile : ∀ file, rep.file = some file → file.bytes = rep.bytes := by
    intro file hsome
    unfold representation at hrep
    split at hrep
    · cases hrep
      cases hsome
    · obtain ⟨file', -, rfl⟩ := Option.map_eq_some_iff.mp hrep
      cases hsome
      rfl
  unfold sendFile
  simp only [hname, hresolves, hrep]
  rw [if_neg (by decide)]
  cases hreply : replyTo request rep with
  | preconditionFailed =>
    refine iff_of_true (fun hkept => absurd hkept not_kept_of_error) ?_
    intro _ _ range hserved
    rw [hreply] at hserved
    cases hserved
  | rangeNotSatisfiable =>
    refine iff_of_true (fun hkept => absurd hkept not_kept_of_error) ?_
    intro _ _ range hserved
    rw [hreply] at hserved
    cases hserved
  | notModified =>
    refine iff_of_true (fun _ => ⟨fun _ => sendNotModified_body, ?_, ?_⟩) ?_
    · exact fun _ hne => absurd hreply hne
    · intro _ s e hpartial
      rw [hreply] at hpartial
      cases hpartial
    · intro _ _ range hserved
      rw [hreply] at hserved
      cases hserved
  | whole =>
    exact sendRepresentation_delivers_iff hfile (by rw [hreply]; rfl) rfl rfl rfl
  | partialContent s e =>
    exact sendRepresentation_delivers_iff hfile (by rw [hreply]; rfl) rfl rfl rfl

/-- A page of ten bytes in the cache. -/
def tenBytes : Resource :=
  { verified_filename := CString.ascii "public_html/ten.txt"
    resolves := true
    cached := some
      { content := CString.ascii "0123456789"
        modification_time := 0
        keyHash := 0 }
    file := none
    cacheVersionETag := 0 }

def plainTexts : Texts :=
  { version := []
    date := []
    contentType := []
    lastModified := fun _ => none
    errorPage := fun _ => [] }

def plainGet : Request :=
  { requestType := .GET
    keepalive := true
    eTag := none
    ifModifiedSince := none
    ifUnmodifiedSince := none
    range := .ignored }

/-- A socket that has room for the header, and for `n` bytes of the body. -/
def roomFor (n : ℕ) : Socket :=
  { room := fun i => if i < 3 then 1024 else min n 1024
    room_lt := fun i => by
      split <;> omega }

theorem tenBytes_delivers_iff :
    (Kept (sendFile (roomFor 10) plainTexts plainGet tenBytes) →
        Delivered plainGet ⟨CString.ascii "0123456789", 0, false, [], none⟩
          (sendFile (roomFor 10) plainTexts plainGet tenBytes).2) ↔
      SendsSuffice (roomFor 10).room plainTexts plainGet
        ⟨CString.ascii "0123456789", 0, false, [], none⟩ :=
  sendFile_delivers_iff (roomFor 10) plainTexts (by decide) rfl rfl

/-- Four bytes of ten go out, and the connection stays open behind them. -/
theorem tenBytes_cutShort :
    sendFile (roomFor 4) plainTexts plainGet tenBytes =
      (1, { calls := 4
            contentLength := some 10
            contentRange := none
            body := CString.ascii "0123"
            keepalive := true }) := by
  decide

-- a stream from disk whose second send fails
example :
    let file : DiskFile := ⟨CString.ascii "0123456789", 0, true, by decide⟩
    let socket : Socket := ⟨fun i => if i < 3 then 1024 else if i = 3 then 4 else -1, fun i => by
      split
      · decide
      · split <;> decide⟩
    (sendFile socket plainTexts plainGet { tenBytes with cached := none, file := some file }).1 = 1 ∧
      (sendFile socket plainTexts plainGet
        { tenBytes with cached := none, file := some file }).2.body = CString.ascii "0123" := by
  decide

end AmmarServer.Network
