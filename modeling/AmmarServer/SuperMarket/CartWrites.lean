import AmmarServer.SuperMarket.Carts

/-! The file of a list between the steps of `withCart`, for the calls that wait for its lock, for
those that read the revision without it, and for a process that stops. -/

namespace AmmarServer.SuperMarket
open TextFile Run

/-- A call behind `flock`: the cart that it leaves, and what stdio has still to write of it. -/
structure Writing where
  /-- What was in the file when it was locked. -/
  before : List UInt8
  cart : Cart
  truncated : Bool
  rest : List UInt8
  position : ℕ

/-- The lists have the latest first: the carts that are in the file or were, the carts that calls
reported, and what `peekCartRev` returned. -/
structure Disk where
  file : Option (List UInt8)
  writer : Option Writing
  commits : List Cart
  reported : List Cart
  peeked : List UInt32

def Disk.empty : Disk := { file := none, writer := none, commits := [], reported := [], peeked := [] }

inductive Event
  /-- A call opens the file. -/
  | create
  | lock (call : Call)
  | truncate (ok : Bool)
  /-- A `write` of stdio, of the next `n` bytes or with an error. -/
  | write (n : ℕ) (ok : Bool)
  | finish
  | crash
  | peek

def writeAt (file : List UInt8) (position : ℕ) (chunk : List UInt8) : List UInt8 :=
  file.take position ++ chunk ++ file.drop (position + chunk.length)

def peekCartRev (file : Option (List UInt8)) : UInt32 :=
  file.elim 0 fun file => (parseCartStream file).1.rev

namespace Disk
variable (s : Disk)

def content : List UInt8 := s.file.getD []

/-- The lock is there, and `withCart` reads the file and changes the cart. -/
def lock (call : Call) : Disk :=
  match s.writer, mutate (openCart s.content call.seedIDs) call with
  | none, some cart =>
    { s with
      file := some s.content
      writer := some
        { before := s.content
          cart
          truncated := false
          rest := serializeCartStream cart
          position := 0 } }
  | _, _ => s

def truncate (ok : Bool) (w : Writing) : Disk :=
  if w.truncated then s
  else
    { s with
      file := if ok then some [] else s.file
      writer := some { w with truncated := true } }

def write (n : ℕ) (ok : Bool) (w : Writing) : Disk :=
  if ¬w.truncated ∨ w.rest = [] then s
  else if ¬ok then { s with writer := some { w with rest := [] } }
  else
    let chunk := w.rest.take n
    let file := writeAt s.content w.position chunk
    { s with
      file := some file
      writer := some { w with rest := w.rest.drop n, position := w.position + chunk.length }
      commits :=
        if w.rest.drop n = [] ∧ file = serializeCartStream w.cart then w.cart :: s.commits
        else s.commits }

/-- `withCart` returns 1. -/
def finish (w : Writing) : Disk :=
  if w.truncated ∧ w.rest = [] then { s with writer := none, reported := w.cart :: s.reported }
  else s

def step : Event → Disk
  | .create => { s with file := some s.content }
  | .lock call => s.lock call
  | .truncate ok => s.writer.elim s (s.truncate ok)
  | .write n ok => s.writer.elim s (s.write n ok)
  | .finish => s.writer.elim s s.finish
  | .crash => { s with writer := none }
  | .peek => { s with peeked := peekCartRev s.file :: s.peeked }

/-- The revision of the last cart, 0 when there is none yet. -/
def lastRev : UInt32 := s.commits.head?.elim 0 Cart.rev

end Disk

/-! What readers and calls are to find. -/

structure Safe (s : Disk) : Prop where
  found : s.writer = none → ∀ cart, s.commits.head? = some cart →
    parseCartStream s.content = (cart, true)
  reported : ∀ cart ∈ s.reported, cart ∈ s.commits
  monotone : s.peeked.Pairwise (· ≥ ·)

def Drawn (s : Disk) : Event → Prop
  | .lock call => s.writer = none → Distinct (openCart s.content call.seedIDs) call
  | _ => True

/-- The file is not what it was, and not yet what it will be. -/
def Midway (s : Disk) : Prop :=
  ∃ w, s.writer = some w ∧ w.truncated ∧ w.rest ≠ [] ∧ s.file ≠ some w.before

/-- Nothing fails, unless the file need not become shorter, and nobody reads or stops midway. -/
def Calm (s : Disk) (e : Event) : Prop :=
  Drawn s e ∧
    match e with
    | .lock call => s.writer = none → ∀ params, call.params = some params →
      Fine (openCart s.content call.seedIDs) params
    | .truncate ok => ok ∨ ∀ w, s.writer = some w → w.before.length ≤ w.rest.length
    | .write _ ok => ok
    | .crash | .peek => ¬Midway s
    | _ => True

/-- The file has the last cart, or there is none. -/
structure Settled (content : List UInt8) (commits : List Cart) : Prop where
  fresh : commits = [] → content = []
  stored : ∀ cart, commits.head? = some cart → Inv cart ∧ content = serializeCartStream cart

/-- A call that has the lock. -/
structure Underway (s : Disk) (w : Writing) : Prop where
  inv : Inv w.cart
  position_le : w.position ≤ (serializeCartStream w.cart).length
  rest : w.rest = (serializeCartStream w.cart).drop w.position
  locked : w.truncated = false → s.content = w.before ∧ w.position = 0
  content : w.truncated = true → ∃ tail : List UInt8, tail.length ≤ w.rest.length ∧
    s.content = (serializeCartStream w.cart).take w.position ++ tail
  unfinished : w.rest ≠ [] → Settled w.before s.commits ∧ s.lastRev ≤ w.cart.rev
  committed : w.rest = [] → s.commits.head? = some w.cart

structure StoreInv (s : Disk) : Prop where
  idle : s.writer = none → Settled s.content s.commits
  underway : ∀ w, s.writer = some w → Underway s w
  reported : ∀ cart ∈ s.reported, cart ∈ s.commits
  monotone : s.peeked.Pairwise (· ≥ ·)
  peeked_le : ∀ rev ∈ s.peeked, rev ≤ s.lastRev

variable {s : Disk}

theorem storeInv_empty : StoreInv Disk.empty where
  idle := fun _ => ⟨fun _ => rfl, fun _ hcon => by cases hcon⟩
  underway := fun _ hcon => by cases hcon
  reported := fun _ hcon => by cases hcon
  monotone := List.Pairwise.nil
  peeked_le := fun _ hcon => by cases hcon

theorem StoreInv.safe (h : StoreInv s) : Safe s where
  found := by
    intro hidle cart hcart
    obtain ⟨hinv, hcontent⟩ := (h.idle hidle).stored cart hcart
    rw [hcontent]
    exact parse_serialize hinv.toStorableCart
  reported := h.reported
  monotone := h.monotone

/-! What a settled file is read as. -/

section
variable {content : List UInt8} {commits : List Cart}

theorem Settled.rev (h : Settled content commits) :
    (parseCartStream content).1.rev = commits.head?.elim 0 Cart.rev := by
  cases hcommits : commits with
  | nil =>
    rw [h.fresh hcommits]
    rfl
  | cons cart rest =>
    obtain ⟨hinv, hcontent⟩ := h.stored cart (by rw [hcommits]; rfl)
    rw [hcontent, parse_serialize hinv.toStorableCart]
    rfl

theorem Settled.openCart (h : Settled content commits) {call : Call}
    (hdistinct : Distinct (openCart content call.seedIDs) call) :
    Inv (openCart content call.seedIDs) ∧
      (openCart content call.seedIDs).rev = commits.head?.elim 0 Cart.rev := by
  cases hcommits : commits with
  | nil =>
    rw [h.fresh hcommits] at hdistinct ⊢
    exact ⟨inv_seedCart hdistinct.ids, rfl⟩
  | cons cart rest =>
    obtain ⟨hinv, hcontent⟩ := h.stored cart (by rw [hcommits]; rfl)
    have hopen : SuperMarket.openCart content call.seedIDs = cart := by
      unfold SuperMarket.openCart
      rw [hcontent, parse_serialize hinv.toStorableCart]
      rfl
    rw [hopen]
    exact ⟨hinv, rfl⟩

end

theorem Acts.rev_le {cart cart' : Cart} {call : Call} (h : Acts cart call cart') :
    cart.rev ≤ cart'.rev := by
  cases hparams : call.params with
  | none =>
    rw [h.read hparams]
    exact UInt32.le_refl _
  | some params =>
    rw [UInt32.le_iff_toNat_le, h.rev (by simp [hparams])]
    exact Nat.le_succ _

theorem serialize_ne_nil (cart : Cart) : serializeCartStream cart ≠ [] := by
  intro hcon
  have hlength := congrArg List.length hcon
  simp [serializeCartStream, cartLines] at hlength

/-- All of it is in the file. -/
theorem Underway.whole {w : Writing} (h : Underway s w) (htruncated : w.truncated = true)
    (hrest : w.rest = []) : s.content = serializeCartStream w.cart := by
  obtain ⟨tail, htail, hcontent⟩ := h.content htruncated
  rw [hrest] at htail
  have hall : (serializeCartStream w.cart).length ≤ w.position :=
    List.drop_eq_nil_iff.mp (h.rest.symm.trans hrest)
  rw [hcontent, List.eq_nil_of_length_eq_zero (Nat.le_zero.mp htail), List.append_nil,
    List.take_of_length_le hall]

theorem StoreInv.settled (h : StoreInv s) (hmidway : ¬Midway s) : Settled s.content s.commits := by
  cases hwriter : s.writer with
  | none => exact h.idle hwriter
  | some w =>
    have hw := h.underway w hwriter
    by_cases hrest : w.rest = []
    · -- the whole cart is there, or nothing of the file was touched
      have hcommits := hw.committed hrest
      cases htruncated : w.truncated with
      | true =>
        refine ⟨fun hnil => ?_, fun cart hcart => ?_⟩
        · rw [hnil] at hcommits
          cases hcommits
        · obtain rfl := Option.some.inj (hcommits.symm.trans hcart)
          exact ⟨hw.inv, hw.whole htruncated hrest⟩
      | false =>
        have hposition := (hw.locked htruncated).2
        have htext := hw.rest.symm.trans hrest
        rw [hposition, List.drop_zero] at htext
        exact absurd htext (serialize_ne_nil w.cart)
    · obtain ⟨hsettled, -⟩ := hw.unfinished hrest
      have hcontent : s.content = w.before := by
        cases htruncated : w.truncated with
        | false => exact (hw.locked htruncated).1
        | true =>
          have hfile : s.file = some w.before := by
            by_contra hfile
            exact hmidway ⟨w, hwriter, htruncated, hrest, hfile⟩
          unfold Disk.content
          rw [hfile]
          rfl
      rw [hcontent]
      exact hsettled

theorem StoreInv.peek_eq (h : StoreInv s) (hmidway : ¬Midway s) :
    peekCartRev s.file = s.lastRev := by
  have hrev := (h.settled hmidway).rev
  have hfile : peekCartRev s.file = (parseCartStream s.content).1.rev := by
    unfold peekCartRev Disk.content
    cases s.file with
    | none => rfl
    | some file => rfl
  rw [hfile, hrev]
  rfl

/-! The steps. -/

theorem StoreInv.create (h : StoreInv s) : StoreInv { s with file := some s.content } :=
  { h with
    underway := fun w hw =>
      have hw := h.underway w hw
      ⟨hw.inv, hw.position_le, hw.rest, hw.locked, hw.content, hw.unfinished, hw.committed⟩ }

theorem StoreInv.lock (h : StoreInv s) {call : Call} (hcalm : Calm s (.lock call)) :
    StoreInv (s.lock call) := by
  unfold Disk.lock
  cases hwriter : s.writer with
  | some w => exact h
  | none =>
    have hsettled := h.idle hwriter
    have hdistinct := hcalm.1 hwriter
    obtain ⟨hinv, hrev⟩ := hsettled.openCart hdistinct
    obtain ⟨cart, hmutate, hcart, hacts⟩ := mutate_acts hinv hdistinct (hcalm.2 hwriter)
    rw [hmutate]
    have hle := hacts.rev_le
    rw [hrev] at hle
    refine ⟨fun hcon => (by cases hcon), fun w hw => ?_, h.reported, h.monotone, h.peeked_le⟩
    obtain rfl := Option.some.inj hw
    exact {
      inv := hcart
      position_le := Nat.zero_le _
      rest := rfl
      locked := fun _ => ⟨rfl, rfl⟩
      content := fun hcon => by cases hcon
      unfinished := fun _ => ⟨hsettled, hle⟩
      committed := fun hcon => absurd hcon (serialize_ne_nil cart) }

theorem StoreInv.truncate (h : StoreInv s) {w : Writing} (hw : s.writer = some w) {ok : Bool}
    (hok : ok = true ∨ w.before.length ≤ w.rest.length) : StoreInv (s.truncate ok w) := by
  unfold Disk.truncate
  have hunder := h.underway w hw
  cases htruncated : w.truncated with
  | true => exact h
  | false =>
    obtain ⟨hcontent, hposition⟩ := hunder.locked htruncated
    rw [if_neg Bool.false_ne_true]
    refine ⟨fun hcon => (by cases hcon), fun w' hw' => ?_, h.reported, h.monotone, h.peeked_le⟩
    obtain rfl := Option.some.inj hw'
    exact {
      inv := hunder.inv
      position_le := hunder.position_le
      rest := hunder.rest
      locked := fun hcon => by cases hcon
      content := fun _ => by
        show ∃ tail : List UInt8, tail.length ≤ w.rest.length ∧
          (if ok then some [] else s.file : Option (List UInt8)).getD [] =
            (serializeCartStream w.cart).take w.position ++ tail
        rw [hposition]
        cases ok with
        | true => exact ⟨[], Nat.zero_le _, rfl⟩
        | false => exact ⟨w.before, hok.resolve_left Bool.false_ne_true, hcontent⟩
      unfinished := hunder.unfinished
      committed := hunder.committed }

theorem writeAt_append {text tail chunk : List UInt8} {position : ℕ}
    (hposition : position ≤ text.length)
    (hchunk : chunk = (text.drop position).take chunk.length) :
    writeAt (text.take position ++ tail) position chunk =
      text.take (position + chunk.length) ++ tail.drop chunk.length := by
  have hlength : (text.take position).length = position := List.length_take_of_le hposition
  unfold writeAt
  rw [List.take_left' hlength, ← List.drop_drop, List.drop_left' hlength, List.take_add, ← hchunk]

theorem StoreInv.write (h : StoreInv s) {w : Writing} (hw : s.writer = some w) (n : ℕ) :
    StoreInv (s.write n true w) := by
  unfold Disk.write
  split
  · exact h
  · rename_i hbusy
    rw [not_or, not_not] at hbusy
    obtain ⟨htruncated, hrest⟩ := hbusy
    have hunder := h.underway w hw
    obtain ⟨hsettled, hrev⟩ := hunder.unfinished hrest
    obtain ⟨tail, htail, hcontent⟩ := hunder.content htruncated
    rw [if_neg (not_not.mpr rfl)]
    dsimp only
    -- what is written now, and what is left
    generalize hchunk : w.rest.take n = chunk
    have hlength : chunk.length = min n w.rest.length := by rw [← hchunk, List.length_take]
    have hdrop : w.rest.drop n = w.rest.drop chunk.length := by
      rw [hlength]
      rcases Nat.le_total n w.rest.length with hle | hle
      · rw [Nat.min_eq_left hle]
      · rw [Nat.min_eq_right hle, List.drop_length, List.drop_eq_nil_of_le hle]
    have hchunk' : chunk = ((serializeCartStream w.cart).drop w.position).take chunk.length := by
      rw [← hunder.rest, hlength, ← hchunk, List.take_eq_take_min]
    have hnext : w.position + chunk.length ≤ (serializeCartStream w.cart).length := by
      have hrestlength := congrArg List.length hunder.rest
      rw [List.length_drop] at hrestlength
      have hposition := hunder.position_le
      omega
    have hfile : writeAt s.content w.position chunk =
        (serializeCartStream w.cart).take (w.position + chunk.length) ++ tail.drop chunk.length := by
      rw [hcontent]
      exact writeAt_append hunder.position_le hchunk'
    have hleft : w.rest.drop n = (serializeCartStream w.cart).drop (w.position + chunk.length) := by
      rw [hdrop, hunder.rest, List.drop_drop]
    have htail' : (tail.drop chunk.length).length ≤ (w.rest.drop n).length := by
      rw [hdrop, List.length_drop, List.length_drop]
      omega
    have hunder' : ∀ commits : List Cart, (w.rest.drop n ≠ [] → commits = s.commits) →
        (w.rest.drop n = [] → commits.head? = some w.cart) →
        Underway
          { s with
            file := some (writeAt s.content w.position chunk)
            writer := some { w with
              rest := w.rest.drop n
              position := w.position + chunk.length }
            commits }
          { w with rest := w.rest.drop n, position := w.position + chunk.length } := by
      intro commits hsame hlast
      exact {
        inv := hunder.inv
        position_le := hnext
        rest := hleft
        locked := fun hcon => absurd (htruncated.symm.trans hcon) (by decide)
        content := fun _ => ⟨tail.drop chunk.length, htail', hfile⟩
        unfinished := by
          intro hne
          rw [hsame hne]
          exact ⟨hsettled, hrev⟩
        committed := hlast }
    by_cases hdone : w.rest.drop n = []
    · have hwhole : writeAt s.content w.position chunk = serializeCartStream w.cart := by
        rw [hdone, List.length_nil] at htail'
        rw [hfile, List.eq_nil_of_length_eq_zero (Nat.le_zero.mp htail'), List.append_nil]
        exact List.take_of_length_le (List.drop_eq_nil_iff.mp (hleft.symm.trans hdone))
      rw [if_pos ⟨hdone, hwhole⟩]
      refine ⟨fun hcon => (by cases hcon), fun w' hw' => ?_, ?_, h.monotone, ?_⟩
      · obtain rfl := Option.some.inj hw'
        exact hunder' _ (fun hne => absurd hdone hne) fun _ => rfl
      · exact fun cart hcart => List.mem_cons_of_mem _ (h.reported cart hcart)
      · exact fun rev hin => UInt32.le_trans (h.peeked_le rev hin) hrev
    · rw [if_neg fun hcon => hdone hcon.1]
      refine ⟨fun hcon => (by cases hcon), fun w' hw' => ?_, h.reported, h.monotone, h.peeked_le⟩
      obtain rfl := Option.some.inj hw'
      exact hunder' _ (fun _ => rfl) fun hcon => absurd hcon hdone

theorem StoreInv.finish (h : StoreInv s) {w : Writing} (hw : s.writer = some w) :
    StoreInv (s.finish w) := by
  unfold Disk.finish
  split
  · rename_i hdone
    have hunder := h.underway w hw
    have hcommits := hunder.committed hdone.2
    have hmidway : ¬Midway s := by
      rintro ⟨w', hw', -, hrest, -⟩
      obtain rfl := Option.some.inj (hw.symm.trans hw')
      exact hrest hdone.2
    refine ⟨fun _ => h.settled hmidway, fun _ hcon => (by cases hcon), ?_, h.monotone, h.peeked_le⟩
    intro cart hcart
    rcases List.mem_cons.mp hcart with rfl | hcart
    · exact List.mem_of_mem_head? hcommits
    · exact h.reported cart hcart
  · exact h

theorem StoreInv.crash (h : StoreInv s) (hmidway : ¬Midway s) :
    StoreInv { s with writer := none } where
  idle := fun _ => h.settled hmidway
  underway := fun _ hcon => by cases hcon
  reported := h.reported
  monotone := h.monotone
  peeked_le := h.peeked_le

theorem StoreInv.peek (h : StoreInv s) (hmidway : ¬Midway s) :
    StoreInv { s with peeked := peekCartRev s.file :: s.peeked } where
  idle := h.idle
  underway := fun w hw =>
    have hw := h.underway w hw
    ⟨hw.inv, hw.position_le, hw.rest, hw.locked, hw.content, hw.unfinished, hw.committed⟩
  reported := h.reported
  monotone := by
    rw [h.peek_eq hmidway]
    exact List.Pairwise.cons h.peeked_le h.monotone
  peeked_le := by
    rw [h.peek_eq hmidway]
    intro rev hrev
    rcases List.mem_cons.mp hrev with rfl | hrev
    · exact UInt32.le_refl _
    · exact h.peeked_le rev hrev

theorem StoreInv.step (h : StoreInv s) (e : Event) (hcalm : Calm s e) : StoreInv (s.step e) := by
  have hwriter : ∀ f : Writing → Disk, (∀ w, s.writer = some w → StoreInv (f w)) →
      StoreInv (s.writer.elim s f) := by
    intro f hf
    cases hw : s.writer with
    | none => exact h
    | some w => exact hf w hw
  cases e with
  | create => exact h.create
  | lock call => exact h.lock hcalm
  | truncate ok =>
    exact hwriter _ fun w hw => h.truncate hw (hcalm.2.imp_right fun hshort => hshort w hw)
  | write n ok =>
    obtain rfl : ok = true := hcalm.2
    exact hwriter _ fun w hw => h.write hw n
  | finish => exact hwriter _ fun w hw => h.finish hw
  | crash => exact h.crash hcalm.2
  | peek => exact h.peek hcalm.2

def noop : Params := { dash with action := .noop }

/-- The list behind the first call. -/
def firstCart : Cart := { seedCart digitIDs with rev := 1 }

theorem inv_firstCart : Inv firstCart := (inv_seedCart digitIDs_nodup).setRev 1

def firstWriting : Writing where
  before := []
  cart := firstCart
  truncated := false
  rest := serializeCartStream firstCart
  position := 0

theorem step_first : Disk.empty.step (.lock (call (some noop))) =
    { Disk.empty with file := some [], writer := some firstWriting } := rfl

theorem distinct_first (params : Option Params) (hadd : ∀ p, params = some p → p.action ≠ .add) :
    Drawn Disk.empty (.lock (call params)) :=
  fun _ => ⟨digitIDs_nodup, fun p hp hact => absurd hact (hadd p hp)⟩

theorem noop_ne_add : ∀ p, some noop = some p → p.action ≠ .add := by
  intro p hp
  obtain rfl := Option.some.inj hp
  decide

theorem fine_noop : Fine (seedCart digitIDs) noop where
  title := fun hcon => absurd hcon (by decide)
  qty := fun hcon => absurd hcon (by decide)
  rev := by
    show (0 : UInt32) ≠ _
    decide

/-- The disk behind a call that came through. -/
def servedDisk : Disk where
  file := some (serializeCartStream firstCart)
  writer := none
  commits := [firstCart]
  reported := [firstCart]
  peeked := []

theorem step_served : [Event.truncate true, .write (serializeCartStream firstCart).length true,
    .finish].foldl Disk.step (Disk.empty.step (.lock (call (some noop)))) = servedDisk := by
  have hne := serialize_ne_nil firstCart
  rw [step_first]
  simp only [List.foldl_cons, List.foldl_nil, Disk.step, Disk.truncate, Disk.write, Disk.finish,
    firstWriting, Option.elim_some, hne, writeAt, Disk.content, Option.getD_some, List.take_length,
    List.drop_length, List.take_nil, List.drop_nil, List.nil_append, List.append_nil, and_self,
    if_true, if_false, Bool.false_eq_true, not_true_eq_false, or_self, servedDisk, Disk.empty]

end AmmarServer.SuperMarket
