import AmmarServer.HeaderAnalysis.FirstLine
import AmmarServer.Lib.Run
import Mathlib.Data.List.Pairwise

/-! `dynamicRequest_serveContent` of `cache/dynamic_requests.c`, and the cooldown of a page that all
clients share. A buffer is named by its address, and the null pointer is address 0. -/

namespace AmmarServer.Cache.DynamicRequests
open CString HeaderAnalysis Run

def CLIENT_SLEEP_TIME_WHEN_DYNAMIC_REQUEST_CALLBACK_IS_BUSY_NSEC : ℕ := 500000

def CLIENT_SLEEP_TIME_INTERVAL_NSEC : ℕ := 5000

/-- What `AmmServer_RH_Context` keeps between requests. -/
structure RHContext where
  needsDifferentPageForEachClient : Bool
  needsSamePageForAllClients : Bool
  executedNow : Bool
  last_callback : ℕ
  callback_every_x_msec : ℕ
  callback_cooldown : Bool
  content : ℕ
  contentSize : ℕ
  MAXcontentSize : ℕ
deriving DecidableEq, Repr

inductive RequestFrequency
  | okServeFresh
  | tooSlowServeNothing
  | tooFastServeCached
deriving DecidableEq, Repr

/-- The decision and `now`; `clock` is what `GetTickCountAmmServ` answers. -/
def checkRequestFrequency (shared_context : RHContext) (clock : ℕ) : RequestFrequency × ℕ :=
  if shared_context.callback_every_x_msec ≠ 0 ∧ shared_context.needsSamePageForAllClients then
    if (clock + 2 ^ 64 - shared_context.last_callback) % 2 ^ 64 <
        shared_context.callback_every_x_msec then
      let maxWaitTime :=
        CLIENT_SLEEP_TIME_WHEN_DYNAMIC_REQUEST_CALLBACK_IS_BUSY_NSEC /
          CLIENT_SLEEP_TIME_INTERVAL_NSEC
      -- the flag cannot fall meanwhile, because the caller holds the lock of the page
      let waitTime := if shared_context.executedNow then maxWaitTime else 0
      if maxWaitTime ≤ waitTime then (.tooSlowServeNothing, clock) else (.tooFastServeCached, clock)
    else (.okServeFresh, clock)
  else (.okServeFresh, 0)

/-- What a callback leaves in its request and in memory. -/
structure Execution where
  content : ℕ
  contentSize : ℕ
  MAXcontentSize : ℕ
  headerResponse : ℕ
  contentContainsPathToFileToBeStreamed : Bool
  memory : ℕ → List UInt8

/-- One request: what the allocator answers for the page of this client and for the
`AmmServer_DynamicRequest`, and what the callback does if it runs. -/
structure Call where
  page : ℕ
  rqst : Bool
  callback : Execution

/-- What is handed to `cache_GetResource`. -/
structure Served where
  mem : ℕ
  memSize : ℕ
  freeContentAfterUsingIt : Bool
  /-- The `verified_filename` that the callback asks to stream. -/
  streamed : Option (List UInt8)
  responseCode : ℕ
  executed : Bool
deriving DecidableEq, Repr

def Served.nothing : Served :=
  { mem := 0
    memSize := 0
    freeContentAfterUsingIt := false
    streamed := none
    responseCode := 0
    executed := false }

structure Page where
  shared_context : RHContext
  memory : ℕ → List UInt8

/-- The part behind the decision to serve fresh. -/
def executeCallback (p : Page) (now cacheMemory : ℕ) (free : Bool) (call : Call) : Served × Page :=
  let context := { p.shared_context with
    callback_cooldown := false
    last_callback := now % 2 ^ 32 }
  if call.rqst then
    let rqst := call.callback
    let context :=
      if context.needsSamePageForAllClients then
        { context with content := rqst.content, MAXcontentSize := rqst.MAXcontentSize }
      else context
    ({ mem := rqst.content
       memSize := rqst.contentSize
       freeContentAfterUsingIt := free
       streamed :=
         if rqst.contentContainsPathToFileToBeStreamed then
           some ((cstring (rqst.memory rqst.content)).take (MAX_FILE_PATH - 1))
         else none
       responseCode := rqst.headerResponse
       executed := true },
      ⟨{ context with executedNow := false, contentSize := rqst.contentSize }, rqst.memory⟩)
  else
    ({ Served.nothing with mem := cacheMemory, freeContentAfterUsingIt := free },
      { p with shared_context := context })

def dynamicRequestServeContent (p : Page) (clock : ℕ) (call : Call) : Served × Page :=
  let cacheMemory :=
    if p.shared_context.needsDifferentPageForEachClient then
      if p.shared_context.MAXcontentSize % 2 ^ 32 = 0 then 0 else call.page
    else if p.shared_context.needsSamePageForAllClients then p.shared_context.content
    else 0
  let free := p.shared_context.needsDifferentPageForEachClient && cacheMemory ≠ 0
  if cacheMemory = 0 ∨ p.shared_context.MAXcontentSize = 0 then
    ({ Served.nothing with freeContentAfterUsingIt := free }, p)
  else
    match checkRequestFrequency p.shared_context clock with
    | (.tooSlowServeNothing, _) => ({ Served.nothing with freeContentAfterUsingIt := free }, p)
    | (.tooFastServeCached, _) =>
      ({ Served.nothing with
          mem := cacheMemory
          memSize := p.shared_context.contentSize
          freeContentAfterUsingIt := free },
        { p with shared_context := { p.shared_context with callback_cooldown := true } })
    | (.okServeFresh, now) => executeCallback p now cacheMemory free call

/-- The context that `AmmServer_AddResourceHandler` leaves for `SAME_PAGE_FOR_ALL_CLIENTS`. -/
def Page.registered (callback_every_x_msec content MAXcontentSize : ℕ) (memory : ℕ → List UInt8) :
    Page :=
  { shared_context :=
      { needsDifferentPageForEachClient := false
        needsSamePageForAllClients := true
        executedNow := false
        last_callback := 0
        callback_every_x_msec
        callback_cooldown := false
        content
        contentSize := 0
        MAXcontentSize }
    memory }

structure Answer where
  clock : ℕ
  executed : Bool
  content : Option (List UInt8)
  size : ℕ
deriving DecidableEq, Repr

/-- A page, the clock at the last request, and the answers so far, the latest one first. -/
structure SharedPage where
  page : Page
  clock : ℕ
  answers : List Answer

structure Request where
  clock : ℕ
  call : Call

def SharedPage.serve (s : SharedPage) (r : Request) : SharedPage :=
  let (served, page) := dynamicRequestServeContent s.page r.clock r.call
  { page
    clock := r.clock
    answers :=
      { clock := r.clock
        executed := served.executed
        content := if served.mem = 0 then none else some (page.memory served.mem)
        size := served.memSize } :: s.answers }

def latestExecution (answers : List Answer) : Option Answer := answers.find? (·.executed)

/-- The answer `a` behind the answers `before`. -/
def Follows (before : List Answer) (a : Answer) : Prop :=
  a.executed = false →
    match latestExecution before with
    | none => a.content = none
    | some execution => a.content = execution.content ∧ a.size = execution.size

/-- The cooldown is kept, and between two executions every answer is the one of the first. -/
structure Honoured (d : ℕ) (answers : List Answer) : Prop where
  apart : (answers.filter (·.executed)).Pairwise fun later earlier =>
    earlier.clock + d ≤ later.clock
  follows : ∀ after a before, answers = after ++ a :: before → Follows before a

/-- The clock does not go back, and neither the memory for the request nor the buffer of the page is
missing behind the callback. -/
structure Regular (s : SharedPage) (r : Request) : Prop where
  clock_le : s.clock ≤ r.clock
  clock_lt : r.clock < 2 ^ 64
  rqst : r.call.rqst = true
  content : r.call.callback.content ≠ 0
  MAXcontentSize : r.call.callback.MAXcontentSize ≠ 0

/-- The first request comes at `d` or later, and behind an execution at `2 ^ 32` or later the next
one comes after the cooldown. -/
def InTime (d : ℕ) (s : SharedPage) (r : Request) : Prop :=
  match latestExecution s.answers with
  | none => d ≤ r.clock
  | some execution => execution.clock < 2 ^ 32 ∨ execution.clock + d ≤ r.clock

def Guard (d : ℕ) (s : SharedPage) (r : Request) : Prop := Regular s r ∧ InTime d s r

/-- A page that all clients share, outside its lock. -/
structure Shared (d : ℕ) (context : RHContext) : Prop where
  needsDifferentPageForEachClient : context.needsDifferentPageForEachClient = false
  needsSamePageForAllClients : context.needsSamePageForAllClients = true
  executedNow : context.executedNow = false
  callback_every_x_msec : context.callback_every_x_msec = d

variable {d : ℕ} {p : Page} {clock : ℕ} {call : Call}

theorem checkRequestFrequency_shared {context : RHContext} (h : Shared d context) (hd : 0 < d)
    (hlast : context.last_callback ≤ clock) (hclock : clock < 2 ^ 64) :
    checkRequestFrequency context clock =
      if clock < context.last_callback + d then (.tooFastServeCached, clock)
      else (.okServeFresh, clock) := by
  have helapsed : (clock + 2 ^ 64 - context.last_callback) % 2 ^ 64 =
      clock - context.last_callback := by
    rw [Nat.sub_add_comm hlast, Nat.add_mod_right]
    exact Nat.mod_eq_of_lt (lt_of_le_of_lt (Nat.sub_le _ _) hclock)
  unfold checkRequestFrequency
  rw [h.callback_every_x_msec, h.needsSamePageForAllClients, if_pos ⟨hd.ne', rfl⟩, helapsed,
    h.executedNow]
  refine if_congr ?_ rfl rfl
  omega

/-- What a request for a shared page does once its buffer is there. -/
theorem serveContent_shared (h : Shared d p.shared_context) (hd : 0 < d)
    (hlast : p.shared_context.last_callback ≤ clock) (hclock : clock < 2 ^ 64)
    (hcontent : p.shared_context.content ≠ 0) (hmax : p.shared_context.MAXcontentSize ≠ 0) :
    dynamicRequestServeContent p clock call =
      if clock < p.shared_context.last_callback + d then
        ({ Served.nothing with
            mem := p.shared_context.content
            memSize := p.shared_context.contentSize },
          { p with shared_context := { p.shared_context with callback_cooldown := true } })
      else executeCallback p clock p.shared_context.content false call := by
  have hbuffer : ¬ (p.shared_context.content = 0 ∨ p.shared_context.MAXcontentSize = 0) :=
    not_or.mpr ⟨hcontent, hmax⟩
  unfold dynamicRequestServeContent
  rw [h.needsDifferentPageForEachClient, h.needsSamePageForAllClients,
    checkRequestFrequency_shared h hd hlast hclock]
  simp only [Bool.false_eq_true, if_false, if_true, Bool.false_and, if_neg hbuffer]
  by_cases hcool : clock < p.shared_context.last_callback + d
  · rw [if_pos hcool, if_pos hcool]
    rfl
  · rw [if_neg hcool, if_neg hcool]

theorem serveContent_shared_nothing (h : Shared d p.shared_context)
    (hempty : p.shared_context.content = 0 ∨ p.shared_context.MAXcontentSize = 0) :
    dynamicRequestServeContent p clock call = (Served.nothing, p) := by
  unfold dynamicRequestServeContent
  rw [h.needsDifferentPageForEachClient, h.needsSamePageForAllClients]
  simp only [Bool.false_eq_true, if_false, if_true, Bool.false_and, if_pos hempty]
  rfl

theorem Honoured.cons {a : Answer} {before : List Answer} (h : Honoured d before)
    (hafter : a.executed = true → ∀ earlier ∈ before, earlier.executed = true →
      earlier.clock + d ≤ a.clock)
    (hfollows : Follows before a) : Honoured d (a :: before) := by
  constructor
  · rw [List.filter_cons]
    split
    · rename_i hexecuted
      refine List.pairwise_cons.mpr ⟨fun earlier hmem => ?_, h.apart⟩
      rw [List.mem_filter] at hmem
      exact hafter hexecuted earlier hmem.1 hmem.2
    · exact h.apart
  · intro after b earlier heq
    cases after with
    | nil =>
      rw [List.nil_append, List.cons.injEq] at heq
      rw [← heq.1, ← heq.2]
      exact hfollows
    | cons c after =>
      rw [List.cons_append, List.cons.injEq] at heq
      exact h.follows after b earlier heq.2

/-- The page holds what the latest execution left. -/
structure Holds (p : Page) (execution : Answer) : Prop where
  last_callback : p.shared_context.last_callback = execution.clock % 2 ^ 32
  content : p.shared_context.content ≠ 0
  MAXcontentSize : p.shared_context.MAXcontentSize ≠ 0
  content_eq : execution.content = some (p.memory p.shared_context.content)
  size_eq : execution.size = p.shared_context.contentSize

/-- No callback has run yet. -/
structure Untouched (content MAXcontentSize : ℕ) (context : RHContext) : Prop where
  last_callback : context.last_callback = 0
  content : context.content = content
  MAXcontentSize : context.MAXcontentSize = MAXcontentSize

structure Inv (d content MAXcontentSize : ℕ) (s : SharedPage) : Prop where
  shared : Shared d s.page.shared_context
  clock_le : ∀ a ∈ s.answers, a.clock ≤ s.clock
  honoured : Honoured d s.answers
  untouched : latestExecution s.answers = none →
    Untouched content MAXcontentSize s.page.shared_context
  holds : ∀ execution, latestExecution s.answers = some execution → Holds s.page execution
  latest : ∀ execution, latestExecution s.answers = some execution → ∀ earlier ∈ s.answers,
    earlier.executed = true → earlier.clock ≤ execution.clock

theorem inv_registered (content MAXcontentSize : ℕ) (memory : ℕ → List UInt8) :
    Inv d content MAXcontentSize ⟨.registered d content MAXcontentSize memory, 0, []⟩ := by
  constructor
  · exact ⟨rfl, rfl, rfl, rfl⟩
  · exact fun a ha => absurd ha List.not_mem_nil
  · exact ⟨List.Pairwise.nil, fun after a before h => by simp at h⟩
  · exact fun _ => ⟨rfl, rfl, rfl⟩
  · exact fun _ h => by simp [latestExecution] at h
  · exact fun _ h => by simp [latestExecution] at h

variable {content MAXcontentSize : ℕ}

theorem Inv.last_callback_le {s : SharedPage} (h : Inv d content MAXcontentSize s) :
    s.page.shared_context.last_callback ≤ s.clock := by
  cases hlatest : latestExecution s.answers with
  | none => exact (h.untouched hlatest).last_callback.symm ▸ Nat.zero_le _
  | some execution =>
    rw [(h.holds execution hlatest).last_callback]
    exact (Nat.mod_le _ _).trans (h.clock_le execution (List.mem_of_find?_eq_some hlatest))

variable {s : SharedPage} {r : Request}

theorem latestExecution_cons {a : Answer} {before : List Answer} :
    latestExecution (a :: before) = if a.executed then some a else latestExecution before := by
  unfold latestExecution
  rw [List.find?_cons]
  cases a.executed <;> rfl

theorem Inv.executed (h : Inv d content MAXcontentSize s) (hregular : Regular s r)
    (hserve : dynamicRequestServeContent s.page r.clock r.call =
      executeCallback s.page r.clock s.page.shared_context.content false r.call)
    (hafter : ∀ earlier ∈ s.answers, earlier.executed = true → earlier.clock + d ≤ r.clock) :
    Inv d content MAXcontentSize (s.serve r) := by
  have hclock : ∀ a ∈ s.answers, a.clock ≤ r.clock := fun a ha =>
    (h.clock_le a ha).trans hregular.clock_le
  unfold SharedPage.serve
  rw [hserve]
  simp only [executeCallback, hregular.rqst, if_true, h.shared.needsSamePageForAllClients,
    if_neg hregular.content]
  constructor
  · exact ⟨h.shared.needsDifferentPageForEachClient, rfl, rfl, h.shared.callback_every_x_msec⟩
  · exact List.forall_mem_cons.mpr ⟨le_rfl, hclock⟩
  · exact h.honoured.cons (fun _ => hafter) fun hnot => Bool.noConfusion hnot
  · intro hnone
    rw [latestExecution_cons, if_pos rfl] at hnone
    cases hnone
  · intro execution hsome
    rw [latestExecution_cons, if_pos rfl] at hsome
    cases hsome
    exact ⟨rfl, hregular.content, hregular.MAXcontentSize, rfl, rfl⟩
  · intro execution hsome
    rw [latestExecution_cons, if_pos rfl] at hsome
    cases hsome
    exact List.forall_mem_cons.mpr ⟨fun _ => le_rfl, fun a ha _ => hclock a ha⟩

/-- An answer without an execution leaves the page as it is, up to the mark for the cooldown. -/
theorem Inv.answered {page : Page} {a : Answer} (h : Inv d content MAXcontentSize s)
    (hle : s.clock ≤ r.clock) (hnot : a.executed = false) (hclock : a.clock = r.clock) (hfollows : Follows s.answers a)
    (hmemory : page.memory = s.page.memory)
    (hcontext : ∃ mark, page.shared_context =
      { s.page.shared_context with callback_cooldown := mark }) :
    Inv d content MAXcontentSize ⟨page, r.clock, a :: s.answers⟩ := by
  obtain ⟨mark, hcontext⟩ := hcontext
  have hlatest : latestExecution (a :: s.answers) = latestExecution s.answers := by
    rw [latestExecution_cons, hnot]
    rfl
  constructor
  · show Shared d page.shared_context
    rw [hcontext]
    exact ⟨h.shared.1, h.shared.2, h.shared.3, h.shared.4⟩
  · exact List.forall_mem_cons.mpr ⟨hclock.le, fun b hb => (h.clock_le b hb).trans hle⟩
  · exact h.honoured.cons (fun hyes => absurd hyes (by simp [hnot])) hfollows
  · intro hnone
    obtain ⟨h1, h2, h3⟩ := h.untouched (hlatest ▸ hnone)
    rw [hcontext]
    exact ⟨h1, h2, h3⟩
  · intro execution hsome
    obtain ⟨h1, h2, h3, h4, h5⟩ := h.holds execution (hlatest ▸ hsome)
    constructor <;> rw [hcontext]
    · exact h1
    · exact h2
    · exact h3
    · rw [hmemory]
      exact h4
    · exact h5
  · intro execution hsome b hb hyes
    rcases List.mem_cons.mp hb with rfl | hb
    · rw [hnot] at hyes
      cases hyes
    · exact h.latest execution (hlatest ▸ hsome) b hb hyes

theorem Inv.serve_nothing (h : Inv d content MAXcontentSize s) (hregular : Regular s r)
    (hempty : s.page.shared_context.content = 0 ∨ s.page.shared_context.MAXcontentSize = 0) :
    Inv d content MAXcontentSize (s.serve r) := by
  have hserve := @serveContent_shared_nothing _ s.page r.clock r.call h.shared hempty
  unfold SharedPage.serve
  rw [hserve]
  refine h.answered hregular.clock_le rfl rfl (fun _ => ?_) rfl ⟨_, rfl⟩
  cases hlatest : latestExecution s.answers with
  | none => rfl
  | some execution =>
    have hholds := h.holds execution hlatest
    exact absurd hempty (not_or.mpr ⟨hholds.content, hholds.MAXcontentSize⟩)

theorem Inv.serve (hd : 0 < d) (h : Inv d content MAXcontentSize s) (hguard : Guard d s r) :
    Inv d content MAXcontentSize (s.serve r) := by
  obtain ⟨hregular, hin⟩ := hguard
  by_cases hempty : s.page.shared_context.content = 0 ∨ s.page.shared_context.MAXcontentSize = 0
  · exact h.serve_nothing hregular hempty
  · obtain ⟨hcontent, hmax⟩ := not_or.mp hempty
    have hserve := @serveContent_shared _ s.page r.clock r.call h.shared hd
      (h.last_callback_le.trans hregular.clock_le) hregular.clock_lt hcontent hmax
    unfold InTime at hin
    cases hlatest : latestExecution s.answers with
    | none =>
      rw [hlatest] at hin
      simp only at hin
      rw [(h.untouched hlatest).last_callback, if_neg (by omega)] at hserve
      refine h.executed hregular hserve fun earlier hmem hyes => ?_
      exact absurd hyes (List.find?_eq_none.mp hlatest earlier hmem)
    | some execution =>
      rw [hlatest] at hin
      simp only at hin
      have hholds := h.holds execution hlatest
      have hmod : execution.clock % 2 ^ 32 ≤ execution.clock := Nat.mod_le _ _
      rw [hholds.last_callback] at hserve
      by_cases hcool : r.clock < execution.clock % 2 ^ 32 + d
      · rw [if_pos hcool] at hserve
        unfold SharedPage.serve
        rw [hserve]
        refine h.answered hregular.clock_le rfl rfl (fun _ => ?_) rfl ⟨true, rfl⟩
        rw [hlatest]
        simp only [if_neg hcontent]
        exact ⟨hholds.content_eq.symm, hholds.size_eq.symm⟩
      · rw [if_neg hcool] at hserve
        refine h.executed hregular hserve fun earlier hmem hyes => ?_
        have hle := h.latest execution hlatest earlier hmem hyes
        rcases hin with hsmall | hlate
        · rw [Nat.mod_eq_of_lt hsmall] at hcool
          omega
        · omega

def SharedPage.start (d content MAXcontentSize : ℕ) (memory : ℕ → List UInt8) : SharedPage :=
  ⟨.registered d content MAXcontentSize memory, 0, []⟩

theorem inv_of_reaches (hd : 0 < d) {memory : ℕ → List UInt8}
    (hrun : Reaches SharedPage.serve (Guard d) (.start d content MAXcontentSize memory) s) :
    Inv d content MAXcontentSize s :=
  hrun.invariant (inv_registered content MAXcontentSize memory) fun _ _ h hguard =>
    h.serve hd hguard

theorem cooldown_honoured (hd : 0 < d) {memory : ℕ → List UInt8}
    (hrun : Reaches SharedPage.serve (Guard d) (.start d content MAXcontentSize memory) s) :
    Honoured d s.answers :=
  (inv_of_reaches hd hrun).honoured

/-- A callback that writes the number of its execution into its buffer. -/
def counting (clock n : ℕ) : Request :=
  { clock
    call :=
      { page := 0
        rqst := true
        callback :=
          { content := 1
            contentSize := 1
            MAXcontentSize := 64
            headerResponse := 0
            contentContainsPathToFileToBeStreamed := false
            memory := fun _ => [UInt8.ofNat (48 + n)] } } }

instance (s : SharedPage) (r : Request) : Decidable (Regular s r) :=
  decidable_of_iff (s.clock ≤ r.clock ∧ r.clock < 2 ^ 64 ∧ r.call.rqst = true ∧
      r.call.callback.content ≠ 0 ∧ r.call.callback.MAXcontentSize ≠ 0)
    ⟨fun ⟨h1, h2, h3, h4, h5⟩ => ⟨h1, h2, h3, h4, h5⟩, fun ⟨h1, h2, h3, h4, h5⟩ =>
      ⟨h1, h2, h3, h4, h5⟩⟩

instance (d : ℕ) (s : SharedPage) (r : Request) : Decidable (InTime d s r) :=
  match h : latestExecution s.answers with
  | none => decidable_of_iff (d ≤ r.clock) (by rw [InTime, h])
  | some execution =>
    decidable_of_iff (execution.clock < 2 ^ 32 ∨ execution.clock + d ≤ r.clock)
      (by rw [InTime, h])

instance (d : ℕ) (s : SharedPage) (r : Request) : Decidable (Guard d s r) :=
  inferInstanceAs (Decidable (_ ∧ _))

theorem cooldown_honoured_counting :
    Honoured 1000 ([counting 1000 1, counting 1500 2, counting 2000 3].foldl SharedPage.serve
      (.start 1000 1 64 fun _ => [])).answers :=
  cooldown_honoured (by decide) (Reaches.start.allowed _ (by decide))

/-- Behind `2 ^ 32` milliseconds two executions follow within one. -/
theorem cooldown_not_honoured :
    ¬ ∀ d > 0, ∀ content MAXcontentSize : ℕ, ∀ memory s,
      Reaches SharedPage.serve Regular (.start d content MAXcontentSize memory) s →
        Honoured d s.answers := by
  intro hall
  have hrun : Reaches SharedPage.serve Regular (.start 1000 1 64 fun _ => [])
      ([counting (2 ^ 32) 1, counting (2 ^ 32 + 1) 2].foldl SharedPage.serve
        (.start 1000 1 64 fun _ => [])) :=
    Reaches.start.allowed _ (by decide)
  have happart := (hall 1000 (by decide) 1 64 _ _ hrun).apart
  revert happart
  decide

/-- A request that breaks the condition on the clock breaks the cooldown, or is answered with a
buffer that no callback has filled. -/
theorem not_honoured_of_not_inTime (hd : 0 < d) (hbound : d < 2 ^ 32) {memory : ℕ → List UInt8}
    (hcontent : content ≠ 0) (hmax : MAXcontentSize ≠ 0)
    (hrun : Reaches SharedPage.serve (Guard d) (.start d content MAXcontentSize memory) s)
    (hregular : Regular s r) (hlate : ¬ InTime d s r) : ¬ Honoured d (s.serve r).answers := by
  have h := inv_of_reaches hd hrun
  have hserve := @serveContent_shared _ s.page r.clock r.call h.shared hd
    (h.last_callback_le.trans hregular.clock_le) hregular.clock_lt
  intro hhonoured
  unfold SharedPage.serve at hhonoured
  unfold InTime at hlate
  cases hlatest : latestExecution s.answers with
  | none =>
    rw [hlatest] at hlate
    simp only at hlate
    obtain ⟨hlast, hsame, hmaxSame⟩ := h.untouched hlatest
    rw [hserve (hsame ▸ hcontent) (hmaxSame ▸ hmax), hlast, if_pos (by omega)] at hhonoured
    have hfollows := hhonoured.follows [] _ _ rfl rfl
    rw [hlatest] at hfollows
    simp only [hsame, if_neg hcontent] at hfollows
    cases hfollows
  | some execution =>
    rw [hlatest] at hlate
    simp only [not_or, not_lt, not_le] at hlate
    have hholds := h.holds execution hlatest
    have hmem := List.mem_of_find?_eq_some hlatest
    have hyes : execution.executed = true := List.find?_some hlatest
    have hclock := (h.clock_le execution hmem).trans hregular.clock_le
    have hmod := Nat.mod_add_div execution.clock (2 ^ 32)
    have hdiv : 0 < execution.clock / 2 ^ 32 := Nat.div_pos hlate.1 (by decide)
    rw [hserve hholds.content hholds.MAXcontentSize, hholds.last_callback,
      if_neg (by omega)] at hhonoured
    simp only [executeCallback, hregular.rqst, if_true] at hhonoured
    have happart := hhonoured.apart
    rw [List.filter_cons_of_pos rfl, List.pairwise_cons] at happart
    have hapart := happart.1 execution (List.mem_filter.mpr ⟨hmem, hyes⟩)
    simp only at hapart
    omega

end AmmarServer.Cache.DynamicRequests
