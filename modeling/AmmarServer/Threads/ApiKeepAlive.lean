import AmmarServer.Threads.ApiFraming
import AmmarServer.Threads.ApiStream

/-! What decides whether a connection is kept: the version and the `Connection` header of a request
against what the framer looks at. -/

namespace AmmarServer.ApiProtocol
open Bytes CString HeaderFields

/-! ## What a request says -/

def requestLine (block : List UInt8) : List UInt8 := block.takeWhile (· ≠ LF)

def headerLines (block : List UInt8) : List UInt8 := (block.dropWhile (· ≠ LF)).drop 1

/-- What the request line has behind its target. -/
def requestVersion (block : List UInt8) : List UInt8 :=
  let behindMethod := ((requestLine block).dropWhile (· ≠ 32)).drop 1
  trim ((behindMethod.dropWhile (· ≠ 32)).drop 1)

def connectionValues (block : List UInt8) : List (List UInt8) :=
  fieldValues (headerLines block) (ascii "Connection")

/-- Whether the comma separated values name an option. -/
def names (values : List (List UInt8)) (option : List UInt8) : Bool :=
  values.any fun value => (value.splitOn COMMA).any fun text => EqIgnoreCase (trim text) option

/-- An explicit `close` or `keep-alive`. -/
def explicitKeepAlive (values : List (List UInt8)) : Option Bool :=
  if names values (ascii "close") then some false
  else if names values (ascii "keep-alive") then some true
  else none

/-- Every version but HTTP/1.0 keeps a connection that nothing is said about. -/
def expectedKeepAlive (version : List UInt8) (values : List (List UInt8)) : Bool :=
  (explicitKeepAlive values).getD (version ≠ ascii "HTTP/1.0")

/-! ## What the framer reads -/

def startsWith (value option : List UInt8) : Prop :=
  EqIgnoreCase (value.take option.length) option

instance (value option : List UInt8) : Decidable (startsWith value option) :=
  inferInstanceAs (Decidable (EqIgnoreCase _ _))

/-- What the first value starts with. -/
def leadingKeepAlive (values : List (List UInt8)) : Option Bool :=
  match values with
  | [] => none
  | value :: _ =>
    if startsWith value (ascii "close") then some false
    else if startsWith value (ascii "keep-alive") then some true
    else none

theorem option_stop {behind option : List UInt8}
    (hoption : option = ascii "close" ∨ option = ascii "keep-alive")
    (h : ∀ c ∈ behind.head?, isTrailing c ∨ c = LF) :
    ∀ c ∈ behind.head?, toLower c ∉ option.map toLower := by
  have hall : ∀ d ∈ [CR, 32, 9, LF], toLower d ∉ (ascii "close").map toLower ∧
      toLower d ∉ (ascii "keep-alive").map toLower := by decide +kernel
  intro c hc
  have hmem : c ∈ [CR, 32, 9, LF] := by
    rcases h c hc with h | rfl
    · have h : c = CR ∨ c = 32 ∨ c = 9 := by simpa [isTrailing, isBlank] using h
      rcases h with rfl | rfl | rfl <;> decide
    · decide
  rcases hoption with rfl | rfl
  · exact (hall c hmem).1
  · exact (hall c hmem).2

theorem frameKeepAlive_eq (block : List UInt8) :
    frameKeepAlive block =
      (leadingKeepAlive (fieldValues block (ascii "Connection"))).getD
        (!memmem block (ascii "HTTP/1.0")) := by
  have hnul : ∀ c ∈ ascii "Connection", c ≠ 0 := by decide +kernel
  have hfirst := apiRequestHeader_isFirst block hnul
  unfold frameKeepAlive
  generalize apiRequestHeader block (ascii "Connection") = lookup at hfirst ⊢
  rcases lookup with _ | ⟨value, valueLength⟩
  · have hnone : fieldValues block (ascii "Connection") = [] := hfirst
    rw [hnone]
    rfl
  · obtain ⟨v, vs, behind, hv, rfl, rfl, hbehind⟩ := hfirst
    have hclose : strncasecmpEq (v ++ behind) (ascii "close") 5 = true ↔
        startsWith v (ascii "close") :=
      strncasecmpEq_append_iff (t := ascii "close") (by decide +kernel)
        (option_stop (.inl rfl) hbehind)
    have hkeep : strncasecmpEq (v ++ behind) (ascii "keep-alive") 10 = true ↔
        startsWith v (ascii "keep-alive") :=
      strncasecmpEq_append_iff (t := ascii "keep-alive") (by decide +kernel)
        (option_stop (.inr rfl) hbehind)
    rw [hv]
    dsimp only
    simp only [hclose, hkeep, leadingKeepAlive]
    by_cases hempty : v.length = 0
    · obtain rfl := List.length_eq_zero_iff.mp hempty
      have hnot : ¬ startsWith [] (ascii "close") ∧ ¬ startsWith [] (ascii "keep-alive") := by
        decide
      rw [if_pos List.length_nil, if_neg hnot.1, if_neg hnot.2]
      rfl
    · rw [if_neg hempty]
      split_ifs <;> rfl

theorem memmem_iff (s t : List UInt8) : memmem s t = true ↔ t <:+: s := by
  induction s with
  | nil => rw [memmem, List.isEmpty_iff, List.infix_nil]
  | cons c s ih =>
    rw [memmem, Bool.or_eq_true, List.isPrefixOf_iff_prefix, ih, List.infix_cons_iff]

theorem trim_inside (s : List UInt8) : trim s <:+: s :=
  (List.rdropWhile_prefix _ _).isInfix.trans (List.dropWhile_suffix _).isInfix

theorem requestVersion_infix (block : List UInt8) : requestVersion block <:+: block := by
  refine (trim_inside _).trans ?_
  refine (List.drop_suffix _ _).isInfix.trans ?_
  refine (List.dropWhile_suffix _).isInfix.trans ?_
  refine (List.drop_suffix _ _).isInfix.trans ?_
  exact (List.dropWhile_suffix _).isInfix.trans (List.takeWhile_prefix _).isInfix

/-! ## Where the two agree -/

/-- The first `Connection` line that the lookup finds starts with what the header names, or nothing
is named and `HTTP/1.0` stands in the block only as the version; or one of them says by itself what
the other one's default is. -/
def ReadsConnection (block : List UInt8) : Prop :=
  match leadingKeepAlive (fieldValues block (ascii "Connection")),
      explicitKeepAlive (connectionValues block) with
  | some leading, some explicit => leading = explicit
  | some leading, none => leading = true ↔ requestVersion block ≠ ascii "HTTP/1.0"
  | none, some explicit => explicit = true ↔ ¬ ascii "HTTP/1.0" <:+: block
  | none, none => ascii "HTTP/1.0" <:+: block → requestVersion block = ascii "HTTP/1.0"

theorem frameKeepAlive_iff (block : List UInt8) :
    frameKeepAlive block = expectedKeepAlive (requestVersion block) (connectionValues block) ↔
      ReadsConnection block := by
  have hversion : requestVersion block = ascii "HTTP/1.0" → ascii "HTTP/1.0" <:+: block := by
    intro h
    rw [← h]
    exact requestVersion_infix block
  rw [frameKeepAlive_eq, expectedKeepAlive]
  unfold ReadsConnection
  have hdefault := memmem_iff block (ascii "HTTP/1.0")
  rcases leadingKeepAlive (fieldValues block (ascii "Connection")) with _ | leading
  all_goals rcases explicitKeepAlive (connectionValues block) with _ | explicit
  all_goals simp only [Option.getD_some, Option.getD_none]
  · -- nothing is said about the connection
    rw [← hdefault]
    rw [← hdefault] at hversion
    by_cases hone : requestVersion block = ascii "HTTP/1.0"
    · rw [hversion hone]
      simp [hone]
    · cases memmem block (ascii "HTTP/1.0") <;> simp [hone]
  · rw [← hdefault]
    cases memmem block (ascii "HTTP/1.0") <;> cases explicit <;> decide
  · by_cases hone : requestVersion block = ascii "HTTP/1.0" <;> cases leading <;> simp [hone]

/-- A request that `nextFrame` has found complete, and its header block. -/
structure Accepted where
  buf : List UInt8
  offset : ℕ
  frame : ApiFrame
  ready : nextFrame buf offset = (.ready, frame)

def Accepted.block (request : Accepted) : List UInt8 :=
  (request.buf.drop request.offset).take request.frame.headerEnd

theorem Accepted.keepAlive_eq (request : Accepted) :
    request.frame.keepAlive = frameKeepAlive request.block := by
  have hready := request.ready
  rw [nextFrame_eq] at hready
  unfold Accepted.block
  split at hready
  · cases hready
  · split at hready
    · cases hready
    · split_ifs at hready
      · cases (Prod.mk.inj hready).1
      · rw [← (Prod.mk.inj hready).2]

/-- Two requests of one version and with one `Connection` header are kept alike, and as the version
and the header say, exactly when the framer reads the header and finds the version in both. -/
theorem keepAlive_iff (r₁ r₂ : Accepted)
    (hversion : requestVersion r₁.block = requestVersion r₂.block)
    (hvalues : connectionValues r₁.block = connectionValues r₂.block) :
    (r₁.frame.keepAlive = r₂.frame.keepAlive ∧
      r₁.frame.keepAlive =
        expectedKeepAlive (requestVersion r₁.block) (connectionValues r₁.block)) ↔
      ReadsConnection r₁.block ∧ ReadsConnection r₂.block := by
  rw [← frameKeepAlive_iff, ← frameKeepAlive_iff, ← hversion, ← hvalues, r₁.keepAlive_eq,
    r₂.keepAlive_eq]
  constructor
  · rintro ⟨hsame, hexpected⟩
    exact ⟨hexpected, hsame.symm.trans hexpected⟩
  · rintro ⟨h₁, h₂⟩
    exact ⟨h₁.trans h₂.symm, h₁⟩

/-- `HTTP/1.1` without an option and with its own version in the target. -/
def versionInTarget : List UInt8 := ascii "GET /HTTP/1.0 HTTP/1.1\r\n\r\n"

def plainTarget : List UInt8 := ascii "GET / HTTP/1.1\r\n\r\n"

theorem versionInTarget_ready :
    nextFrame versionInTarget 0 = (.ready, (nextFrame versionInTarget 0).2) := by
  decide

theorem plainTarget_ready : nextFrame plainTarget 0 = (.ready, (nextFrame plainTarget 0).2) := by
  decide

def acceptedInTarget : Accepted :=
  ⟨versionInTarget, 0, (nextFrame versionInTarget 0).2, versionInTarget_ready⟩

def acceptedPlain : Accepted := ⟨plainTarget, 0, (nextFrame plainTarget 0).2, plainTarget_ready⟩

theorem acceptedPlain_reads : ReadsConnection acceptedPlain.block := by
  rw [← frameKeepAlive_iff]
  decide

theorem keepAlive_plain : acceptedPlain.frame.keepAlive = true := by
  rw [((keepAlive_iff acceptedPlain acceptedPlain rfl rfl).mpr
    ⟨acceptedPlain_reads, acceptedPlain_reads⟩).2]
  decide

theorem keepAlive_of_target :
    ¬ ∀ r₁ r₂ : Accepted, requestVersion r₁.block = requestVersion r₂.block →
      connectionValues r₁.block = connectionValues r₂.block →
      r₁.frame.keepAlive = r₂.frame.keepAlive := by
  intro hclaim
  have hsame := hclaim acceptedPlain acceptedInTarget (by decide) (by decide)
  have hdiffer : acceptedPlain.frame.keepAlive ≠ acceptedInTarget.frame.keepAlive := by
    decide
  exact hdiffer hsame

end AmmarServer.ApiProtocol
