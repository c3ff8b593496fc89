import AmmarServer.Lib.CounterRing
import AmmarServer.Lib.Run

/-! The submission queue of a ring of `threads/uringAPIServer.c`: its counters and its entries,
whatever the kernel takes of them. -/

namespace AmmarServer.Uring.Submission
open CounterRing Run

/-- What is mapped of the submission queue, and what a ring counts itself. -/
structure UringRing (α : Type*) where
  sqHead : UInt32
  sqTail : UInt32
  sqRingMask : UInt32
  sqArray : UInt32 → UInt32
  sqes : UInt32 → Option α
  sqEntries : UInt32
  sqTailLocal : UInt32
  toSubmit : UInt32

/-- What `io_uring_enter` answers: a number of entries, or an error. -/
inductive Answer
  | count
  | ETIME
  | EINTR
  | EBUSY
  | EAGAIN
  | failure
deriving DecidableEq, Repr

/-- One `io_uring_enter`: how many entries the kernel takes, and its answer. -/
structure Enter where
  consumed : UInt32
  answer : Answer
deriving DecidableEq, Repr

/-- A ring with the entries that were queued on it, and what the kernel has read of them. -/
structure Queue (α : Type*) where
  ring : UringRing α
  queued : List (Option α)
  taken : List (Option α)

variable {α : Type*}

namespace UringRing
variable (r : UringRing α)

/-- What the kernel reads at a counter. -/
def entryAt (cell : UInt32) : Option α := r.sqes (r.sqArray cell)

def inQueue : UInt32 := r.sqTailLocal - r.sqHead

/-- The entries between the head and `sqTailLocal`. -/
def pending : List (Option α) := contents r.entryAt r.sqRingMask r.sqHead r.inQueue.toNat

end UringRing

namespace Queue
variable (q : Queue α)

/-- The kernel takes entries, from its head on. -/
def uringEnter (e : Enter) : Queue α :=
  { q with
    ring := { q.ring with sqHead := q.ring.sqHead + e.consumed }
    taken := q.taken ++
      contents q.ring.entryAt q.ring.sqRingMask q.ring.sqHead e.consumed.toNat }

/-- `SubmitPending` and `FlushRing` ask the kernel for different things besides. -/
def enterRing (e : Enter) : Bool × Queue α :=
  let q := { q with ring := { q.ring with sqTail := q.ring.sqTailLocal } }
  let q := q.uringEnter e
  match e.answer with
  | .failure => (false, q)
  | _ => (true, { q with ring := { q.ring with toSubmit := 0 } })

def submitPending (e : Enter) : Bool × Queue α := q.enterRing e

def flushRing (e : Enter) : Bool × Queue α := q.enterRing e

/-- The next entry, which its caller fills. -/
def nextSqe (entry : α) : Queue α :=
  let index := cellOf q.ring.sqRingMask q.ring.sqTailLocal
  { q with
    ring :=
      { q.ring with
        sqes := Function.update q.ring.sqes index (some entry)
        sqArray := Function.update q.ring.sqArray index index
        sqTailLocal := q.ring.sqTailLocal + 1
        toSubmit := q.ring.toSubmit + 1 }
    queued := q.queued ++ [some entry] }

/-- `GetSqe`, with the answer of the kernel where the queue is full. -/
def getSqe (entry : α) (e : Enter) : Bool × Queue α :=
  if q.ring.sqEntries ≤ q.ring.sqTailLocal - q.ring.sqHead then
    match q.submitPending e with
    | (false, q) => (false, q)
    | (true, q) =>
      if q.ring.sqEntries ≤ q.ring.sqTailLocal - q.ring.sqHead then (false, q)
      else (true, q.nextSqe entry)
  else (true, q.nextSqe entry)

end Queue

/-- After `RingSetup`, of `2 ^ bits` entries. -/
def ringSetup (bits : ℕ) (tail : UInt32) : Queue α where
  ring :=
    { sqHead := tail
      sqTail := tail
      sqRingMask := UInt32.ofNat (2 ^ bits - 1)
      sqArray := fun _ => 0
      sqes := fun _ => none
      sqEntries := UInt32.ofNat (2 ^ bits)
      sqTailLocal := tail
      toSubmit := 0 }
  queued := []
  taken := []

inductive Event (α : Type*)
  | getSqe (entry : α) (e : Enter)
  | submitPending (e : Enter)
  | flushRing (e : Enter)

def step (q : Queue α) : Event α → Queue α
  | .getSqe entry e => (q.getSqe entry e).2
  | .submitPending e => (q.submitPending e).2
  | .flushRing e => (q.flushRing e).2

/-- The kernel takes no more than it is offered and than there is, and nothing where it fails. -/
def Allows (q : Queue α) (e : Enter) : Prop :=
  e.consumed ≤ q.ring.toSubmit ∧ e.consumed ≤ q.ring.inQueue ∧
    (e.answer = .failure → e.consumed = 0)

/-- Where it does not fail, the kernel takes everything that is in the queue. -/
def TakesAll (q : Queue α) (e : Enter) : Prop :=
  e.answer ≠ .failure → e.consumed = q.ring.inQueue

/-- The kernel is only asked for an entry when the queue is full. -/
def Enters (q : Queue α) (P : Enter → Prop) : Event α → Prop
  | .getSqe _ e => q.ring.sqEntries ≤ q.ring.inQueue → P e
  | .submitPending e => P e
  | .flushRing e => P e

def Allowed (q : Queue α) (event : Event α) : Prop := Enters q (Allows q) event

def Meets (q : Queue α) (event : Event α) : Prop :=
  Enters q (fun e => Allows q e ∧ TakesAll q e) event

/-- The count is that of the entries that the kernel has not taken, which are the ones that were
queued, in order, and an enter that takes what it is offered leaves none behind. -/
structure Exact (q : Queue α) : Prop where
  toSubmit : q.ring.toSubmit = q.ring.inQueue
  kept : q.queued = q.taken ++ q.ring.pending
  through : ∀ e : Enter, e.consumed = q.ring.toSubmit → e.answer ≠ .failure →
    (q.submitPending e).2.ring.pending = []

variable {q : Queue α}

/-- What holds whatever the kernel takes. -/
structure Inv (q : Queue α) : Prop where
  mask : Mask q.ring.sqRingMask
  entries : q.ring.sqEntries.toNat = q.ring.sqRingMask.toNat + 1
  fits : q.ring.inQueue ≤ q.ring.sqEntries
  array : ∀ i < q.ring.inQueue.toNat,
    q.ring.sqArray (cellOf q.ring.sqRingMask (q.ring.sqHead + UInt32.ofNat i)) =
      cellOf q.ring.sqRingMask (q.ring.sqHead + UInt32.ofNat i)
  kept : q.queued = q.taken ++ q.ring.pending

theorem inv_ringSetup {bits : ℕ} (hbits : bits < 32) (tail : UInt32) :
    Inv (ringSetup bits tail : Queue α) := by
  have hpow : 2 ^ bits < 2 ^ 32 := Nat.pow_lt_pow_right (by decide) hbits
  have hpos := Nat.two_pow_pos bits
  have hmask : (UInt32.ofNat (2 ^ bits - 1)).toNat = 2 ^ bits - 1 :=
    UInt32.toNat_ofNat_of_lt' (Nat.sub_lt_of_lt hpow)
  have hempty : (ringSetup bits tail : Queue α).ring.inQueue = 0 := UInt32.sub_self tail
  constructor
  · exact ⟨bits, hbits, hmask⟩
  · show (UInt32.ofNat (2 ^ bits)).toNat = (UInt32.ofNat (2 ^ bits - 1)).toNat + 1
    rw [hmask, UInt32.toNat_ofNat_of_lt' hpow]
    omega
  · rw [hempty]
    exact UInt32.zero_le
  · intro i hi
    rw [hempty] at hi
    exact absurd hi (Nat.not_lt_zero i)
  · unfold UringRing.pending
    rw [hempty]
    rfl

theorem UringRing.head_add_inQueue (r : UringRing α) :
    r.sqHead + UInt32.ofNat r.inQueue.toNat = r.sqTailLocal := by
  rw [UInt32.ofNat_toNat]
  unfold UringRing.inQueue
  rw [UInt32.add_comm, UInt32.sub_add_cancel]

theorem Inv.uringEnter (h : Inv q) {e : Enter} (hle : e.consumed ≤ q.ring.inQueue) :
    Inv (q.uringEnter e) ∧ (q.uringEnter e).ring.inQueue = q.ring.inQueue - e.consumed := by
  have hinQueue : (q.uringEnter e).ring.inQueue = q.ring.inQueue - e.consumed := by
    show q.ring.sqTailLocal - (q.ring.sqHead + e.consumed) = _
    refine UInt32.eq_sub_iff_add_eq.mpr (UInt32.eq_sub_iff_add_eq.mpr ?_)
    rw [UInt32.add_assoc, UInt32.add_comm e.consumed, UInt32.sub_add_cancel]
  have hcount : (q.ring.inQueue - e.consumed).toNat = q.ring.inQueue.toNat - e.consumed.toNat :=
    UInt32.toNat_sub_of_le _ _ hle
  have hle : e.consumed.toNat ≤ q.ring.inQueue.toNat := UInt32.le_iff_toNat_le.mp hle
  have hnext : ∀ i : ℕ, q.ring.sqHead + e.consumed + UInt32.ofNat i =
      q.ring.sqHead + UInt32.ofNat (e.consumed.toNat + i) := by
    intro i
    rw [UInt32.ofNat_add, UInt32.ofNat_toNat, UInt32.add_assoc]
  refine ⟨⟨h.mask, h.entries, ?_, ?_, ?_⟩, hinQueue⟩
  · rw [hinQueue, UInt32.le_iff_toNat_le, hcount]
    exact (Nat.sub_le _ _).trans (UInt32.le_iff_toNat_le.mp h.fits)
  · intro i hi
    rw [hinQueue, hcount] at hi
    show q.ring.sqArray (cellOf q.ring.sqRingMask (q.ring.sqHead + e.consumed + UInt32.ofNat i)) =
      cellOf q.ring.sqRingMask (q.ring.sqHead + e.consumed + UInt32.ofNat i)
    rw [hnext]
    exact h.array _ (by omega)
  · have hsplit := contents_add q.ring.entryAt q.ring.sqRingMask q.ring.sqHead e.consumed.toNat
      (q.ring.inQueue.toNat - e.consumed.toNat)
    rw [Nat.add_sub_cancel' hle, UInt32.ofNat_toNat, ← hcount, ← hinQueue] at hsplit
    show q.queued = (q.taken ++ contents q.ring.entryAt q.ring.sqRingMask q.ring.sqHead
      e.consumed.toNat) ++ contents q.ring.entryAt q.ring.sqRingMask (q.ring.sqHead + e.consumed)
        (q.uringEnter e).ring.inQueue.toNat
    rw [List.append_assoc, ← hsplit]
    exact h.kept

theorem Inv.enterRing (h : Inv q) {e : Enter} (hle : e.consumed ≤ q.ring.inQueue) :
    Inv (q.enterRing e).2 ∧
      (q.enterRing e).2.ring.inQueue = q.ring.inQueue - e.consumed ∧
      (q.enterRing e).2.ring.sqEntries = q.ring.sqEntries ∧
      (q.enterRing e).2.ring.toSubmit =
        if e.answer = .failure then q.ring.toSubmit else 0 := by
  have hstored : Inv { q with ring := { q.ring with sqTail := q.ring.sqTailLocal } } :=
    ⟨h.mask, h.entries, h.fits, h.array, h.kept⟩
  obtain ⟨hinv, hinQueue⟩ := hstored.uringEnter (e := e) hle
  unfold Queue.enterRing
  cases e.answer with
  | failure => exact ⟨hinv, hinQueue, rfl, rfl⟩
  | _ => exact ⟨⟨hinv.mask, hinv.entries, hinv.fits, hinv.array, hinv.kept⟩, hinQueue, rfl, rfl⟩

theorem Inv.nextSqe (h : Inv q) (hroom : ¬ q.ring.sqEntries ≤ q.ring.inQueue) (entry : α) :
    Inv (q.nextSqe entry) ∧ (q.nextSqe entry).ring.inQueue = q.ring.inQueue + 1 := by
  have hround : q.ring.inQueue.toNat ≤ q.ring.sqRingMask.toNat := by
    have hlt := UInt32.lt_iff_toNat_lt.mp (UInt32.not_le.mp hroom)
    rw [h.entries] at hlt
    exact Nat.le_of_lt_succ hlt
  have hinQueue : (q.nextSqe entry).ring.inQueue = q.ring.inQueue + 1 := by
    show q.ring.sqTailLocal + 1 - q.ring.sqHead = q.ring.sqTailLocal - q.ring.sqHead + 1
    rw [UInt32.sub_eq_add_neg, UInt32.sub_eq_add_neg, UInt32.add_assoc, UInt32.add_comm 1,
      ← UInt32.add_assoc]
  have hcount : (q.ring.inQueue + 1).toNat = q.ring.inQueue.toNat + 1 := by
    have hlt := q.ring.sqEntries.toNat_lt
    rw [UInt32.toNat_add, UInt32.toNat_one, Nat.mod_eq_of_lt]
    rw [h.entries] at hlt
    omega
  have hcell := q.ring.head_add_inQueue
  have hother : ∀ i < q.ring.inQueue.toNat,
      cellOf q.ring.sqRingMask (q.ring.sqHead + UInt32.ofNat i) ≠
        cellOf q.ring.sqRingMask q.ring.sqTailLocal := by
    intro i hi
    rw [← hcell]
    exact cellOf_add_ne h.mask hi (hround.trans (Nat.le_add_left _ _))
  have harray : ∀ cell, (q.nextSqe entry).ring.sqArray cell =
      Function.update q.ring.sqArray (cellOf q.ring.sqRingMask q.ring.sqTailLocal)
        (cellOf q.ring.sqRingMask q.ring.sqTailLocal) cell := fun _ => rfl
  have hentry : ∀ cell, (q.nextSqe entry).ring.entryAt cell =
      Function.update q.ring.sqes (cellOf q.ring.sqRingMask q.ring.sqTailLocal) (some entry)
        ((q.nextSqe entry).ring.sqArray cell) := fun _ => rfl
  refine ⟨⟨h.mask, h.entries, ?_, ?_, ?_⟩, hinQueue⟩
  · rw [hinQueue, UInt32.le_iff_toNat_le, hcount]
    exact UInt32.lt_iff_toNat_lt.mp (UInt32.not_le.mp hroom)
  · intro i hi
    rw [hinQueue, hcount] at hi
    rw [harray]
    rcases (Nat.le_of_lt_succ hi).lt_or_eq with hi | rfl
    · exact (Function.update_of_ne (hother i hi) _ _).trans (h.array i hi)
    · rw [show (q.nextSqe entry).ring.sqHead + UInt32.ofNat q.ring.inQueue.toNat =
        q.ring.sqTailLocal from hcell]
      exact Function.update_self ..
  · have hpush : contents (q.nextSqe entry).ring.entryAt q.ring.sqRingMask q.ring.sqHead
        (q.ring.inQueue.toNat + 1) = q.ring.pending ++ [some entry] := by
      refine contents_push ?_ fun i hi => ?_
      · rw [hentry, harray, hcell, Function.update_self, Function.update_self]
      · rw [hentry, harray, Function.update_of_ne (hother i hi), h.array i hi,
          Function.update_of_ne (hother i hi)]
        exact congrArg q.ring.sqes (h.array i hi).symm
    show q.queued ++ [some entry] = q.taken ++ contents (q.nextSqe entry).ring.entryAt
      q.ring.sqRingMask q.ring.sqHead (q.nextSqe entry).ring.inQueue.toNat
    rw [hinQueue, hcount, hpush, h.kept, List.append_assoc]

theorem Inv.step (h : Inv q) {event : Event α} (hallowed : Allowed q event) :
    Inv (step q event) := by
  cases event with
  | getSqe entry e =>
    show Inv (q.getSqe entry e).2
    unfold Queue.getSqe
    split_ifs with hfull
    · obtain ⟨hinv, -⟩ := h.enterRing (hallowed hfull).2.1
      show Inv (match q.enterRing e with | (false, q) => (false, q) | (true, q) => _).2
      generalize q.enterRing e = answer at hinv
      obtain ⟨ok, q'⟩ := answer
      cases ok with
      | false => exact hinv
      | true =>
        dsimp only
        split_ifs with hfull'
        · exact hinv
        · exact (hinv.nextSqe hfull' entry).1
    · exact (h.nextSqe hfull entry).1
  | submitPending e => exact (h.enterRing hallowed.2.1).1
  | flushRing e => exact (h.enterRing hallowed.2.1).1

/-- In every run the kernel reads what was queued, in order, and nothing is overwritten before. -/
theorem reaches_inv {bits : ℕ} (hbits : bits < 32) (tail : UInt32)
    (h : Reaches step Allowed (ringSetup bits tail) q) : Inv q :=
  h.invariant (inv_ringSetup hbits tail) fun _ _ hinv hallowed => hinv.step hallowed

/-! The count of the entries. -/

theorem Inv.exact (h : Inv q) (hcount : q.ring.toSubmit = q.ring.inQueue) : Exact q where
  toSubmit := hcount
  kept := h.kept
  through := by
    intro e hconsumed hanswer
    have hall := hconsumed.trans hcount
    obtain ⟨-, hinQueue, -⟩ := h.enterRing (e := e) (hall ▸ UInt32.le_refl _)
    rw [hconsumed, hcount, UInt32.sub_self] at hinQueue
    show (q.enterRing e).2.ring.pending = []
    unfold UringRing.pending
    rw [hinQueue]
    rfl

theorem Inv.enterRing_exact_iff (h : Inv q) (hcount : q.ring.toSubmit = q.ring.inQueue) {e : Enter}
    (hallows : Allows q e) :
    (q.enterRing e).2.ring.toSubmit = (q.enterRing e).2.ring.inQueue ↔ TakesAll q e := by
  obtain ⟨-, hinQueue, -, htoSubmit⟩ := h.enterRing hallows.2.1
  unfold TakesAll
  rw [hinQueue, htoSubmit]
  split_ifs with hfailure
  · rw [hallows.2.2 hfailure, UInt32.sub_zero]
    exact iff_of_true hcount fun hcon => absurd hfailure hcon
  · rw [forall_prop_of_true hfailure]
    constructor
    · intro hzero
      have hsub := UInt32.sub_eq_iff_eq_add.mp hzero.symm
      rw [UInt32.zero_add] at hsub
      exact hsub.symm
    · intro hall
      rw [hall, UInt32.sub_self]

theorem Inv.step_count (h : Inv q) (hcount : q.ring.toSubmit = q.ring.inQueue) {event : Event α}
    (hmeets : Meets q event) : (Submission.step q event).ring.toSubmit =
      (Submission.step q event).ring.inQueue := by
  have hnext : ∀ {q : Queue α} (entry : α), Inv q → ¬ q.ring.sqEntries ≤ q.ring.inQueue →
      q.ring.toSubmit = q.ring.inQueue →
      (q.nextSqe entry).ring.toSubmit = (q.nextSqe entry).ring.inQueue := by
    intro q entry hinv hroom hcount
    rw [(hinv.nextSqe hroom entry).2, ← hcount]
    rfl
  cases event with
  | getSqe entry e =>
    show (q.getSqe entry e).2.ring.toSubmit = (q.getSqe entry e).2.ring.inQueue
    unfold Queue.getSqe
    split_ifs with hfull
    · obtain ⟨hallows, htakes⟩ := hmeets hfull
      obtain ⟨hinv, -⟩ := h.enterRing hallows.2.1
      have hentered := (h.enterRing_exact_iff hcount hallows).mpr htakes
      show (match q.enterRing e with | (false, q) => (false, q) | (true, q) => _).2.ring.toSubmit =
        (match q.enterRing e with | (false, q) => (false, q) | (true, q) => _).2.ring.inQueue
      generalize q.enterRing e = answer at hinv hentered
      obtain ⟨ok, q'⟩ := answer
      cases ok with
      | false => exact hentered
      | true =>
        dsimp only
        split_ifs with hfull'
        · exact hentered
        · exact hnext entry hinv hfull' hentered
    · exact hnext entry h hfull hcount
  | submitPending e => exact (h.enterRing_exact_iff hcount hmeets.1).mpr hmeets.2
  | flushRing e => exact (h.enterRing_exact_iff hcount hmeets.1).mpr hmeets.2

theorem Meets.allowed {event : Event α} (h : Meets q event) : Allowed q event := by
  cases event with
  | getSqe entry e => exact fun hfull => (h hfull).1
  | submitPending e => exact h.1
  | flushRing e => exact h.1

/-- Whatever was queued is counted until the kernel takes it, as long as each enter that does not
fail takes all there is. -/
theorem submission_exact {bits : ℕ} (hbits : bits < 32) (tail : UInt32)
    (h : Reaches step Meets (ringSetup bits tail) q) : Exact q := by
  have hboth : Inv q ∧ q.ring.toSubmit = q.ring.inQueue := by
    induction h with
    | start => exact ⟨inv_ringSetup hbits tail, (UInt32.sub_self tail).symm⟩
    | step event _ hmeets ih => exact ⟨ih.1.step hmeets.allowed, ih.1.step_count ih.2 hmeets⟩
  exact hboth.1.exact hboth.2

/-- An entry is queued, and taken. -/
theorem submission_exact_one :
    Exact (step (step (ringSetup 3 4294967295) (.getSqe () ⟨0, .count⟩))
      (.submitPending ⟨1, .count⟩)) := by
  refine submission_exact (by decide) 4294967295 ((Reaches.start.step _ ?_).step _ ?_)
  · exact fun hfull => absurd hfull (by decide)
  · exact ⟨⟨by decide, by decide, fun hcon => (by cases hcon)⟩, fun _ => by decide⟩

/-- The kernel is busy. -/
theorem busy_uncounted :
    ¬ ∀ (bits : ℕ) (tail : UInt32) (q : Queue Unit), bits < 32 →
      Reaches step Allowed (ringSetup bits tail) q → Exact q := by
  intro hall
  have hfirst : Allowed (ringSetup 3 0) (.getSqe () ⟨0, .count⟩) :=
    fun hfull => absurd hfull (by decide)
  have hsecond : Allowed (step (ringSetup 3 0) (.getSqe () ⟨0, .count⟩))
      (.submitPending ⟨0, .EBUSY⟩) := ⟨by decide, by decide, fun _ => rfl⟩
  have hexact := hall 3 0 _ (by decide) ((Reaches.start.step _ hfirst).step _ hsecond)
  exact absurd hexact.toSubmit (by decide)

end AmmarServer.Uring.Submission
