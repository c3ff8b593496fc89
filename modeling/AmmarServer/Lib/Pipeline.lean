import Mathlib.Data.List.Infix
import Mathlib.Logic.Relation

/-! A connection that answers the requests of a byte stream in order, one at a time. Requests may be
set aside to be answered together with others, or deferred to be answered later. The framing is a
parameter: what it says of a buffer must not depend on what is received behind it. -/

namespace Pipeline
variable {α : Type*}

/-- `frame buf` is the length of the complete request that `buf` begins with. -/
structure Framing (frame : List α → Option Nat) : Prop where
  pos {buf : List α} {n : Nat} : frame buf = some n → 0 < n
  le {buf : List α} {n : Nat} : frame buf = some n → n ≤ buf.length
  append {buf : List α} {n : Nat} (more : List α) : frame buf = some n → frame (buf ++ more) = some n

variable (frame : List α → Option Nat)

/-- The places in the received bytes where a request starts. -/
inductive RequestStart (received : List α) : Nat → Prop
  | first : RequestStart received 0
  | next {o n : Nat} (before : RequestStart received o) (ready : frame (received.drop o) = some n) :
      RequestStart received (o + n)

/-- An answer: where its request starts and whether it carries a status only. -/
structure Answer where
  offset : Nat
  statusOnly : Bool
  deriving DecidableEq

/-- `held` are the bytes not served yet, `sends` the sends on their way, each with the mark that the
connection closes behind it. -/
structure Connection (α : Type*) where
  isOpen : Bool := false
  received : List α := []
  held : List α := []
  answered : List Answer := []
  sends : List Bool := []
  inFlight : Bool := false
  batched : Bool := false
  batchedAt : Nat := 0
  deferred : Bool := false
  deferredAt : Nat := 0

namespace Connection

/-- Where the held bytes start. -/
def start (c : Connection α) : Nat := c.received.length - c.held.length

/-- Free to serve the next request. -/
structure Idle (c : Connection α) : Prop where
  isOpen : c.isOpen = true
  inFlight : c.inFlight = false
  sends : c.sends = []
  batched : c.batched = false
  deferred : c.deferred = false

def closed (c : Connection α) (sends : List Bool) : Connection α :=
  { received := c.received, answered := c.answered, sends := sends, batchedAt := c.batchedAt
    deferredAt := c.deferredAt }

/-- An answer is submitted. -/
def answer (c : Connection α) (held : List α) (a : Answer) (closing : Bool) : Connection α :=
  { c with
    held := held, answered := c.answered ++ [a], sends := c.sends ++ [closing]
    inFlight := true, deferred := false }

theorem answer_eq {c : Connection α} (h : c.deferred = false) (held : List α) (a : Answer)
    (closing : Bool) :
    c.answer held a closing = { c with
      held := held, answered := c.answered ++ [a], sends := c.sends ++ [closing]
      inFlight := true } := by
  rw [answer, ← h]

end Connection

/-- What may happen to one connection. -/
inductive Move : Connection α → Connection α → Prop
  | accept {c} (closed : c.isOpen = false) (sends : c.sends = []) : Move c { isOpen := true }
  | receive {c} (data : List α) : c.isOpen = true →
      Move c { c with received := c.received ++ data, held := c.held ++ data }
  | respond {c n} (idle : c.Idle) (ready : frame c.held = some n) (closing : Bool) :
      Move c (c.answer (c.held.drop n) ⟨c.start, false⟩ closing)
  /-- the response could not be submitted -/
  | respondLost {c n} (idle : c.Idle) (ready : frame c.held = some n) :
      Move c { c with held := c.held.drop n }
  | status {c} (idle : c.Idle) (held : List α) : Move c (c.answer held ⟨c.start, true⟩ true)
  | batch {c} (idle : c.Idle) (holding : c.held ≠ []) :
      Move c { c with batched := true, batchedAt := c.start }
  | unbatch {c} : Move c { c with batched := false }
  | defer {c n} (idle : c.Idle) (ready : frame c.held = some n) :
      Move c { c with held := c.held.drop n, deferred := true, deferredAt := c.start }
  | respondDeferred {c} (isOpen : c.isOpen = true) (deferred : c.deferred = true)
      (closing : Bool) : Move c (c.answer c.held ⟨c.deferredAt, false⟩ closing)
  | respondDeferredLost {c} (isOpen : c.isOpen = true) (deferred : c.deferred = true) :
      Move c { c with inFlight := true, deferred := false }
  | statusDeferred {c} (isOpen : c.isOpen = true) (deferred : c.deferred = true) (held : List α) :
      Move c (c.answer held ⟨c.deferredAt, true⟩ true)
  | sent {c} (sends : c.sends = [false]) : Move c { c with sends := [], inFlight := false }
  /-- the rest of an answer could not be submitted -/
  | restLost {c} : Move c { c with sends := [] }
  | close {c} (sends : List Bool) : Move c (c.closed sends)

def Moves : Connection α → Connection α → Prop := Relation.ReflTransGen (Move frame)

/-! ## The invariant -/

/-- The held bytes start at a request, behind everything answered and set aside. -/
structure InStep (c : Connection α) : Prop where
  held_eq : c.held = c.received.drop c.start
  atRequest : RequestStart frame c.received c.start
  behind : ∀ a ∈ c.answered, a.offset < c.start
  deferred : c.deferred = true → RequestStart frame c.received c.deferredAt ∧
    c.deferredAt < c.start ∧ ∀ a ∈ c.answered, a.offset < c.deferredAt

/-- The last answer is on its way, or lost. -/
structure Closing (c : Connection α) : Prop where
  inFlight : c.inFlight = true
  batched : c.batched = false
  deferred : c.deferred = false
  sends : ∀ closing ∈ c.sends, closing = true

structure Inv (c : Connection α) : Prop where
  inOrder : c.answered.Pairwise fun a b => a.offset < b.offset
  requests : ∀ a ∈ c.answered, RequestStart frame c.received a.offset
  oneSend : c.isOpen = true → c.sends.length ≤ 1
  flying : c.isOpen = true → c.sends ≠ [] → c.inFlight = true
  batchedAlone : c.batched = true → c.inFlight = false ∧ c.deferred = false
  batchedHolds : c.batched = true → c.held ≠ []
  batchedFirst : c.batched = true → ∀ a ∈ c.answered, a.offset < c.batchedAt
  deferredAlone : c.deferred = true → c.inFlight = false
  stream : c.isOpen = true → InStep frame c ∨ Closing c

variable {frame}

theorem RequestStart.le (hframe : Framing frame) {received : List α} {o : Nat}
    (h : RequestStart frame received o) : o ≤ received.length := by
  cases h with
  | first => exact Nat.zero_le _
  | next before ready =>
    have := hframe.le ready
    rw [List.length_drop] at this
    have := hframe.pos ready
    omega

theorem RequestStart.append (hframe : Framing frame) {received : List α} {o : Nat}
    (h : RequestStart frame received o) (more : List α) :
    RequestStart frame (received ++ more) o := by
  induction h with
  | first => exact .first
  | @next o n before ready ih =>
    refine .next ih ?_
    rw [List.drop_append_of_le_length (before.le hframe)]
    exact hframe.append more ready

theorem Inv.new : Inv frame ({ isOpen := true } : Connection α) where
  inOrder := List.Pairwise.nil
  requests := by simp
  oneSend := by simp
  flying := by simp
  batchedAlone := by simp
  batchedHolds := by simp
  batchedFirst := by simp
  deferredAlone := by simp
  stream := fun _ => .inl ⟨rfl, .first, by simp, by simp⟩

theorem Inv.closed {c : Connection α} (h : Inv frame c) (sends : List Bool) :
    Inv frame (c.closed sends) where
  inOrder := h.inOrder
  requests := h.requests
  oneSend := by simp [Connection.closed]
  flying := by simp [Connection.closed]
  batchedAlone := by simp [Connection.closed]
  batchedHolds := by simp [Connection.closed]
  batchedFirst := by simp [Connection.closed]
  deferredAlone := by simp [Connection.closed]
  stream := by simp [Connection.closed]

theorem InStep.length_eq {c : Connection α} (hframe : Framing frame) (h : InStep frame c) :
    c.start + c.held.length = c.received.length := by
  have hle := h.atRequest.le hframe
  have hlen := congrArg List.length h.held_eq
  rw [List.length_drop] at hlen
  omega

theorem InStep.receive {c : Connection α} (hframe : Framing frame) (h : InStep frame c)
    (data : List α) :
    InStep frame { c with received := c.received ++ data, held := c.held ++ data } := by
  have hstart : ({ c with received := c.received ++ data, held := c.held ++ data } :
      Connection α).start = c.start := by
    simp only [Connection.start, List.length_append]
    omega
  refine ⟨?_, ?_, ?_, ?_⟩
  · rw [hstart, List.drop_append_of_le_length (h.atRequest.le hframe), ← h.held_eq]
  · rw [hstart]
    exact h.atRequest.append hframe data
  · rw [hstart]
    exact h.behind
  · rw [hstart]
    exact fun hd => ⟨(h.deferred hd).1.append hframe data, (h.deferred hd).2⟩

/-- The held bytes without their first request start at the next one. -/
theorem InStep.drop {c : Connection α} (hframe : Framing frame) (h : InStep frame c) {n : Nat}
    (ready : frame c.held = some n) :
    c.received.length - (c.held.drop n).length = c.start + n ∧
      c.held.drop n = c.received.drop (c.start + n) ∧
      RequestStart frame c.received (c.start + n) ∧ c.start < c.start + n := by
  have hlen := h.length_eq hframe
  have hle := hframe.le ready
  refine ⟨?_, ?_, ?_, ?_⟩
  · rw [List.length_drop]
    omega
  · rw [← List.drop_drop, ← h.held_eq]
  · refine .next h.atRequest ?_
    rw [← h.held_eq]
    exact ready
  · exact Nat.lt_add_of_pos_right (hframe.pos ready)

/-- An idle connection has nothing on its way, so it is in step. -/
theorem Inv.inStep {c : Connection α} (h : Inv frame c) (hopen : c.isOpen = true)
    (hidle : c.inFlight = false) : InStep frame c := by
  rcases h.stream hopen with hstep | hclosing
  · exact hstep
  · exact absurd (hidle.symm.trans hclosing.inFlight) Bool.false_ne_true

theorem Inv.sends_nil {c : Connection α} (h : Inv frame c) (hopen : c.isOpen = true)
    (hidle : c.inFlight = false) : c.sends = [] := by
  by_contra hne
  exact absurd (hidle.symm.trans (h.flying hopen hne)) Bool.false_ne_true

theorem Inv.not_batched {c : Connection α} (h : Inv frame c) (hdeferred : c.deferred = true) :
    c.batched = false := by
  by_contra hb
  exact absurd ((h.batchedAlone (by simpa using hb)).2.symm.trans hdeferred) Bool.false_ne_true

theorem Inv.unbatched_idle {c : Connection α} (h : Inv frame c) (hopen : c.isOpen = true)
    (hbatched : c.batched = true) : ({ c with batched := false } : Connection α).Idle :=
  have hidle := h.batchedAlone hbatched
  ⟨hopen, hidle.1, h.sends_nil hopen hidle.1, rfl, hidle.2⟩

/-- A new answer to a request behind all those answered. -/
theorem Inv.answer {c : Connection α} (h : Inv frame c) (sends : c.sends = [])
    (batched : c.batched = false) {held : List α} {a : Answer} {closing : Bool}
    (hat : RequestStart frame c.received a.offset) (hbehind : ∀ b ∈ c.answered, b.offset < a.offset)
    (hstream : closing = true ∨ InStep frame (c.answer held a closing)) :
    Inv frame (c.answer held a closing) where
  inOrder := by
    refine List.pairwise_append.mpr ⟨h.inOrder, List.pairwise_singleton _ _, ?_⟩
    intro b hb d hd
    rw [List.mem_singleton.mp hd]
    exact hbehind b hb
  requests := by
    intro b hb
    rcases List.mem_append.mp hb with hb | hb
    · exact h.requests b hb
    · rw [List.mem_singleton.mp hb]
      exact hat
  oneSend := by simp [Connection.answer, sends]
  flying := by simp [Connection.answer]
  batchedAlone := by simp [Connection.answer, batched]
  batchedHolds := by simp [Connection.answer, batched]
  batchedFirst := by simp [Connection.answer, batched]
  deferredAlone := by simp [Connection.answer]
  stream := by
    intro _
    rcases hstream with rfl | hstep
    · exact .inr ⟨rfl, batched, rfl, by simp [Connection.answer, sends]⟩
    · exact .inl hstep

theorem InStep.answer_drop {c : Connection α} (hframe : Framing frame) (h : InStep frame c)
    {n : Nat} (ready : frame c.held = some n) (closing : Bool) :
    InStep frame (c.answer (c.held.drop n) ⟨c.start, false⟩ closing) := by
  obtain ⟨hstart, hheld, hat, hlt⟩ := h.drop hframe ready
  have hstart : (c.answer (c.held.drop n) ⟨c.start, false⟩ closing).start = c.start + n := hstart
  refine ⟨?_, ?_, ?_, by simp [Connection.answer]⟩
  · rw [hstart]
    exact hheld
  · rw [hstart]
    exact hat
  · rw [hstart]
    intro a ha
    rcases List.mem_append.mp ha with ha | ha
    · exact (h.behind a ha).trans hlt
    · rw [List.mem_singleton.mp ha]
      exact hlt

/-- Only the flags of a connection that stays as it is otherwise. -/
theorem InStep.congr {c d : Connection α} (h : InStep frame c) (hreceived : d.received = c.received)
    (hheld : d.held = c.held) (hanswered : d.answered = c.answered)
    (hdeferred : d.deferred = true → c.deferred = true ∧ d.deferredAt = c.deferredAt) :
    InStep frame d := by
  have hstart : d.start = c.start := by rw [Connection.start, hreceived, hheld, Connection.start]
  refine ⟨?_, ?_, ?_, ?_⟩
  · rw [hheld, hreceived, hstart]
    exact h.held_eq
  · rw [hreceived, hstart]
    exact h.atRequest
  · rw [hanswered, hstart]
    exact h.behind
  · intro hd
    rw [hreceived, hanswered, hstart, (hdeferred hd).2]
    exact h.deferred (hdeferred hd).1

theorem Move.inv (hframe : Framing frame) {c d : Connection α} (hmove : Move frame c d)
    (h : Inv frame c) : Inv frame d := by
  cases hmove with
  | accept closed sends => exact .new
  | receive data isOpen =>
    refine ⟨h.inOrder, fun a ha => (h.requests a ha).append hframe data, h.oneSend, h.flying,
      h.batchedAlone, fun hb => ?_, h.batchedFirst, h.deferredAlone, fun _ => ?_⟩
    · simp [h.batchedHolds hb]
    rcases h.stream isOpen with hstep | hclosing
    · exact .inl (hstep.receive hframe data)
    · exact .inr ⟨hclosing.inFlight, hclosing.batched, hclosing.deferred, hclosing.sends⟩
  | respond idle ready closing =>
    have hstep := h.inStep idle.isOpen idle.inFlight
    exact h.answer idle.sends idle.batched hstep.atRequest hstep.behind
      (.inr (hstep.answer_drop hframe ready closing))
  | @respondLost n idle ready =>
    have hstep := h.inStep idle.isOpen idle.inFlight
    obtain ⟨hstart, hheld, hat, hlt⟩ := hstep.drop hframe ready
    have hstart : ({ c with held := c.held.drop n } : Connection α).start = c.start + n := hstart
    refine ⟨h.inOrder, h.requests, h.oneSend, h.flying, h.batchedAlone, ?_, h.batchedFirst,
      h.deferredAlone, fun _ => .inl ⟨?_, ?_, ?_, ?_⟩⟩
    · exact fun hb => absurd (idle.batched.symm.trans hb) Bool.false_ne_true
    · rw [hstart]
      exact hheld
    · rw [hstart]
      exact hat
    · rw [hstart]
      exact fun a ha => (hstep.behind a ha).trans hlt
    · exact fun hd => absurd (idle.deferred.symm.trans hd) Bool.false_ne_true
  | status idle held =>
    have hstep := h.inStep idle.isOpen idle.inFlight
    exact h.answer idle.sends idle.batched hstep.atRequest hstep.behind (.inl rfl)
  | batch idle holding =>
    have hstep := h.inStep idle.isOpen idle.inFlight
    refine ⟨h.inOrder, h.requests, h.oneSend, h.flying, fun _ => ⟨idle.inFlight, idle.deferred⟩,
      fun _ => holding, fun _ => hstep.behind, h.deferredAlone, fun _ => .inl ?_⟩
    exact hstep.congr rfl rfl rfl fun hd => ⟨hd, rfl⟩
  | unbatch =>
    refine ⟨h.inOrder, h.requests, h.oneSend, h.flying, by simp, by simp, by simp,
      h.deferredAlone, fun hopen => ?_⟩
    rcases h.stream hopen with hstep | hclosing
    · exact .inl (hstep.congr rfl rfl rfl fun hd => ⟨hd, rfl⟩)
    · exact .inr ⟨hclosing.inFlight, rfl, hclosing.deferred, hclosing.sends⟩
  | @defer n idle ready =>
    have hstep := h.inStep idle.isOpen idle.inFlight
    obtain ⟨hstart, hheld, hat, hlt⟩ := hstep.drop hframe ready
    have hstart : ({ c with held := c.held.drop n, deferred := true, deferredAt := c.start } :
        Connection α).start = c.start + n := hstart
    refine ⟨h.inOrder, h.requests, h.oneSend, h.flying, ?_, ?_, h.batchedFirst,
      fun _ => idle.inFlight, fun _ => .inl ⟨?_, ?_, ?_, ?_⟩⟩
    · exact fun hb => absurd (idle.batched.symm.trans hb) Bool.false_ne_true
    · exact fun hb => absurd (idle.batched.symm.trans hb) Bool.false_ne_true
    · rw [hstart]
      exact hheld
    · rw [hstart]
      exact hat
    · rw [hstart]
      exact fun a ha => (hstep.behind a ha).trans hlt
    · rw [hstart]
      exact fun _ => ⟨hstep.atRequest, hlt, hstep.behind⟩
  | respondDeferred isOpen deferred closing =>
    have hidle := h.deferredAlone deferred
    have hstep := h.inStep isOpen hidle
    obtain ⟨hat, hlt, hbehind⟩ := hstep.deferred deferred
    refine h.answer (h.sends_nil isOpen hidle) (h.not_batched deferred) hat hbehind
      (.inr ⟨hstep.held_eq, hstep.atRequest, ?_, ?_⟩)
    · intro a ha
      rcases List.mem_append.mp ha with ha | ha
      · exact hstep.behind a ha
      · rw [List.mem_singleton.mp ha]
        exact hlt
    · simp [Connection.answer]
  | respondDeferredLost isOpen deferred =>
    have hstep := h.inStep isOpen (h.deferredAlone deferred)
    refine ⟨h.inOrder, h.requests, h.oneSend, fun _ _ => rfl, ?_, h.batchedHolds, h.batchedFirst, by simp,
      fun _ => .inl (hstep.congr rfl rfl rfl (by simp))⟩
    exact fun hb => absurd ((h.not_batched deferred).symm.trans hb) Bool.false_ne_true
  | statusDeferred isOpen deferred held =>
    have hidle := h.deferredAlone deferred
    have hstep := h.inStep isOpen hidle
    obtain ⟨hat, _, hbehind⟩ := hstep.deferred deferred
    exact h.answer (h.sends_nil isOpen hidle) (h.not_batched deferred) hat hbehind (.inl rfl)
  | sent sends =>
    refine ⟨h.inOrder, h.requests, by simp, by simp, ?_, h.batchedHolds, h.batchedFirst, ?_,
      fun hopen => .inl ?_⟩
    · exact fun hb => ⟨rfl, (h.batchedAlone hb).2⟩
    · exact fun _ => rfl
    · rcases h.stream hopen with hstep | hclosing
      · exact hstep.congr rfl rfl rfl fun hd => ⟨hd, rfl⟩
      · exact absurd (hclosing.sends false (by simp [sends])) Bool.false_ne_true
  | restLost =>
    refine ⟨h.inOrder, h.requests, by simp, by simp, h.batchedAlone, h.batchedHolds,
      h.batchedFirst, h.deferredAlone, fun hopen => ?_⟩
    rcases h.stream hopen with hstep | hclosing
    · exact .inl (hstep.congr rfl rfl rfl fun hd => ⟨hd, rfl⟩)
    · exact .inr ⟨hclosing.inFlight, hclosing.batched, hclosing.deferred, by simp⟩
  | close sends => exact h.closed sends

theorem Moves.inv (hframe : Framing frame) {c d : Connection α} (hmoves : Moves frame c d)
    (h : Inv frame c) : Inv frame d := by
  induction hmoves with
  | refl => exact h
  | tail _ hmove ih => exact hmove.inv hframe ih

end Pipeline
