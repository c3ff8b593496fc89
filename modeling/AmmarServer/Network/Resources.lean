import AmmarServer.Cache.DynamicRequests
import AmmarServer.Hashmap.HashMap
import AmmarServer.Network.FileServer

/-! What `cache_GetResource` of `cache/file_caching.c` hands to `SendFile`, and what `SendFile`
answers, for a file that is cached or on disk and for a page that a callback writes. Nothing is
compressed. The item at an index of the cache is the one whose key the hash map has there. -/

namespace AmmarServer.Network.Resources
open CString HeaderAnalysis Hashmap
open Cache.DynamicRequests (RHContext Page Call Served checkRequestFrequency executeCallback
  dynamicRequestServeContent)

/-- `struct cache_item`. -/
structure Item where
  filename : List UInt8
  /-- The content and the time of a file, where it could be read. -/
  stored : Option (List UInt8 × ℤ)
  doNOTCacheRule : Bool
  dynamicRequest : Option Page

structure Server where
  cacheVersionETag : ℕ
  cache : List Item
  disk : List UInt8 → Option DiskFile

/-- A request as it comes to `SendFile`, and what the calls on its way answer: the index from
`cache_FindResource`, the canonical paths, the room for another item, the file that is read into
memory, the clock and the callback. -/
structure Arrival where
  url : List UInt8
  filename : List UInt8
  request : Request
  found : Option ℕ
  resolves : List UInt8 → Bool
  created : Bool
  loaded : Bool
  clock : ℕ
  call : Call

/-- The body is the one that a `GET` is answered with. -/
structure Response where
  status : ℕ
  eTag : List UInt8
  range : Option (ℕ × ℕ)
  body : List UInt8
deriving DecidableEq, Repr

/-- A page for an error. -/
def Response.error (status : ℕ) : Response :=
  { status, eTag := [], range := none, body := [] }

def Item.keyHash (item : Item) : ℕ := hashFunction item.filename

def responseCode (dynamicResponseCode : ℕ) : ℕ :=
  if dynamicResponseCode ≠ 0 then dynamicResponseCode else 200

/-- `SendFile` for what has bytes and a time. -/
def sendStatic (request : Request) (dynamicResponseCode : ℕ) (rep : Representation) : Response :=
  match replyTo request rep with
  | .preconditionFailed => .error 412
  | .rangeNotSatisfiable => .error 416
  | .notModified => { status := 304, eTag := rep.localETag, range := none, body := [] }
  | .whole =>
    { status := responseCode dynamicResponseCode
      eTag := rep.localETag
      range := none
      body := rep.bytes }
  | .partialContent s e =>
    { status := 206
      eTag := rep.localETag
      range := some (s, e)
      body := (rep.bytes.drop s).take (e - s + 1) }

/-- A file of the disk. -/
def sendStreamed (s : Server) (a : Arrival) (filename : List UInt8) (dynamicResponseCode : ℕ) :
    Response :=
  if a.resolves filename then
    match s.disk filename with
    | none => .error 404
    | some file =>
      sendStatic a.request dynamicResponseCode
        { bytes := file.bytes
          modificationTime := file.st_mtime
          haveModificationTime := true
          localETag := []
          file := some file }
  else .error 404

/-- A file in the cache. -/
def sendCached (s : Server) (a : Arrival) (item : Item) (content : List UInt8)
    (modification_time : ℤ) : Response :=
  let resource : Resource :=
    { verified_filename := a.filename
      resolves := true
      cached := some { content, modification_time, keyHash := item.keyHash }
      file := none
      cacheVersionETag := s.cacheVersionETag }
  match representation a.request resource with
  | none => .error 404
  | some rep => sendStatic a.request 0 rep

/-- The tag of an item for the numbers of a range. -/
def tag (s : Server) (item : Item) (range : ByteRange) : List UInt8 :=
  localETag
    { verified_filename := item.filename
      resolves := true
      cached := none
      file := none
      cacheVersionETag := s.cacheVersionETag }
    { content := [], modification_time := 0, keyHash := item.keyHash } range

/-- Memory that a callback has filled. -/
def sendDynamic (s : Server) (a : Arrival) (item : Item) (page : Page) (served : Served) :
    Response :=
  let localETag := tag s item a.request.range
  if a.request.eTag.isSome && !item.doNOTCacheRule && page.shared_context.callback_cooldown &&
      requestETagMatches a.request localETag then
    { status := 304, eTag := localETag, range := none, body := [] }
  else
    { status := responseCode served.responseCode
      eTag := localETag
      range := none
      body := (page.memory served.mem).take served.memSize }

/-- `dynamicRequest_serveContent` as `cache_GetResource` takes it. -/
def servePage (s : Server) (a : Arrival) (item : Item) (page : Page) : Response × Page :=
  let (served, page) := dynamicRequestServeContent page a.clock a.call
  match served.streamed with
  | some path => (sendStreamed s a path served.responseCode, page)
  | none =>
    if served.mem = 0 ∨ served.memSize = 0 then
      (sendStreamed s a a.filename served.responseCode, page)
    else (sendDynamic s a item page served, page)

/-- `cache_AddFile`: the item is created before the file is read. -/
def cacheAddFile (s : Server) (a : Arrival) : Option (Item × (List UInt8 × ℤ)) × Server :=
  if a.created then
    let stored :=
      if a.loaded then (s.disk a.filename).map fun file => (file.bytes, file.st_mtime) else none
    let item : Item :=
      { filename := a.filename, stored, doNOTCacheRule := false, dynamicRequest := none }
    (stored.map fun content => (item, content), { s with cache := s.cache ++ [item] })
  else (none, s)

def serve (s : Server) (a : Arrival) : Response × Server :=
  if !filenameStripperOk a.filename || !a.resolves a.filename then (.error 400, s)
  else
    match a.found with
    | none =>
      match cacheAddFile s a with
      | (some (item, content, modification_time), s) =>
        (sendCached s a item content modification_time, s)
      | (none, s) => (sendStreamed s a a.filename 0, s)
    | some index =>
      match s.cache[index]? with
      | none => (.error 404, s)
      | some item =>
        match item.dynamicRequest with
        | some page =>
          let (response, page) := servePage s a item page
          (response,
            { s with cache := s.cache.set index { item with dynamicRequest := some page } })
        | none =>
          match item.stored with
          | some (content, modification_time) =>
            if item.doNOTCacheRule then (sendStreamed s a a.filename 0, s)
            else (sendCached s a item content modification_time, s)
          | none => (sendStreamed s a a.filename 0, s)

/-- `cache_AddDoNOTCacheRuleForResource`. -/
def addDoNOTCacheRule (s : Server) (filename : List UInt8) (found : Option ℕ) (created : Bool) :
    Server :=
  match found with
  | some index =>
    { s with cache := s.cache.modify index fun item => { item with doNOTCacheRule := true } }
  | none =>
    if created then
      { s with
        cache := s.cache ++
          [{ filename, stored := none, doNOTCacheRule := true, dynamicRequest := none }] }
    else s

/-- `cache_AddMemoryBlock`. -/
def addMemoryBlock (s : Server) (filename : List UInt8) (page : Page) (created : Bool) : Server :=
  if created then
    { s with
      cache := s.cache ++
        [{ filename, stored := none, doNOTCacheRule := false, dynamicRequest := some page }] }
  else s

/-! The tags. -/

theorem decimal_injective {m n : ℕ} (h : decimal m = decimal n) : m = n := by
  have hread : ∀ n, (decimal n).foldl (fun n c => n * 10 + (c.toNat - 48)) 0 = n := by
    intro n
    rw [decimal, ascii, Nat.toList_repr]
    exact Bytes.foldl_toDigits n
  rw [← hread m, h, hread]

theorem decimal_length_pos (n : ℕ) : 0 < (decimal n).length := by
  rw [decimal, ascii, List.length_map, Nat.toList_repr]
  exact List.length_pos_iff.mpr Nat.toDigits_ne_nil

/-- The numbers of a range as the tag has them. -/
def digits (range : ByteRange) : List UInt8 := decimal range.range_start ++ decimal range.range_end

variable {s : Server} {item item' : Item} {range range' : ByteRange}

theorem tag_eq : tag s item range =
    if item.keyHash % 2 ^ 32 = 0 then []
    else decimal s.cacheVersionETag ++ decimal (item.keyHash % 2 ^ 32) ++ digits range := by
  unfold tag localETag
  split
  · rfl
  · exact List.append_assoc _ _ _

/-- A tag is not the `*` that matches every tag. -/
theorem tag_ne_star : tag s item range ≠ [42] := by
  rw [tag_eq]
  split
  · exact (List.cons_ne_nil _ _).symm
  · intro h
    have hlength := congrArg List.length h
    simp only [List.length_append, List.length_singleton] at hlength
    have hversion := decimal_length_pos s.cacheVersionETag
    have hhash := decimal_length_pos (item.keyHash % 2 ^ 32)
    omega

theorem keyHash_eq_of_tag (h : tag s item range = tag s item' range)
    (hne : tag s item range ≠ []) : item.keyHash % 2 ^ 32 = item'.keyHash % 2 ^ 32 := by
  rw [h] at hne
  rw [tag_eq, tag_eq] at h
  rw [tag_eq] at hne
  by_cases hzero' : item'.keyHash % 2 ^ 32 = 0
  · rw [if_pos hzero'] at hne
    exact absurd rfl hne
  · rw [if_neg hzero'] at h
    by_cases hzero : item.keyHash % 2 ^ 32 = 0
    · rw [if_pos hzero] at h
      have hlength := congrArg List.length h
      simp only [List.length_append, List.length_nil] at hlength
      have hversion := decimal_length_pos s.cacheVersionETag
      omega
    · rw [if_neg hzero] at h
      exact decimal_injective (List.append_cancel_left (List.append_cancel_right h))

theorem digits_eq_of_tag (h : tag s item range = tag s item range')
    (hne : tag s item range ≠ []) : digits range = digits range' := by
  rw [tag_eq] at hne
  rw [tag_eq, tag_eq] at h
  by_cases hzero : item.keyHash % 2 ^ 32 = 0
  · rw [if_pos hzero] at hne
    exact absurd rfl hne
  · rw [if_neg hzero, if_neg hzero] at h
    exact List.append_cancel_left h

/-! The answers from bytes. -/

/-- `If-None-Match` left out. -/
def unconditional (request : Request) : Request := { request with eTag := none }

/-- The part of the bytes that a range asks for. -/
def Slice (bytes : List UInt8) (range : ByteRange) (r : Response) : Prop :=
  match resolveByteRange range bytes.length with
  | .ignored => r.range = none ∧ r.body = bytes
  | .unsatisfiable => False
  | .partialContent s e => r.range = some (s, e) ∧ r.body = (bytes.drop s).take (e - s + 1)

/-- A 200 or a 206. -/
def Response.IsContent (r : Response) : Prop := r.status = 200 ∨ r.status = 206

/-- A request that has its range looked at, or none. -/
def Ranged (request : Request) : Prop :=
  request.requestType = .GET ∨ request.requestType = .HEAD ∨
    request.range.rangeKind = .HTTP_RANGE_NONE

variable {request : Request} {rep : Representation} {code : ℕ}

theorem resolveByteRange_none (h : range.rangeKind = .HTTP_RANGE_NONE) (size : ℕ) :
    resolveByteRange range size = .ignored := by
  rw [resolveByteRange, if_pos h]

/-- The answer to a range. -/
def replyOf : RangeResult → Reply
  | .ignored => .whole
  | .unsatisfiable => .rangeNotSatisfiable
  | .partialContent s e => .partialContent s e

theorem replyTo_get (hget : request.requestType = .GET ∨ request.requestType = .HEAD) :
    replyTo request rep =
      if rep.haveModificationTime && request.ifUnmodifiedSince.any (· < rep.modificationTime) then
        .preconditionFailed
      else if Network.notModified request rep then .notModified
      else replyOf (resolveByteRange request.range rep.bytes.length) := by
  unfold replyTo
  rw [if_pos hget]
  cases resolveByteRange request.range rep.bytes.length <;> rfl

theorem replyTo_unconditional
    (hget : request.requestType = .GET ∨ request.requestType = .HEAD)
    (hprecondition : ¬(rep.haveModificationTime &&
      request.ifUnmodifiedSince.any (· < rep.modificationTime))) :
    replyTo (unconditional request) rep =
      if Network.notModified (unconditional request) rep then .notModified
      else replyOf (resolveByteRange request.range rep.bytes.length) := by
  have hget' : (unconditional request).requestType = .GET ∨
      (unconditional request).requestType = .HEAD := hget
  exact (replyTo_get hget').trans (if_neg hprecondition)

theorem replyTo_ranged (hranged : Ranged request) :
    replyTo request rep = .preconditionFailed ∨ replyTo request rep = .notModified ∨
      replyTo request rep = replyOf (resolveByteRange request.range rep.bytes.length) := by
  by_cases hget : request.requestType = .GET ∨ request.requestType = .HEAD
  · rw [replyTo_get hget]
    split
    · exact .inl rfl
    split
    · exact .inr (.inl rfl)
    · exact .inr (.inr rfl)
  · obtain ⟨hnot, hnot'⟩ := not_or.mp hget
    have hnone := (hranged.resolve_left hnot).resolve_left hnot'
    rw [resolveByteRange_none hnone, replyTo, if_neg hget]
    exact .inr (.inr rfl)

theorem sendStatic_eTag (h : (sendStatic request code rep).IsContent) :
    (sendStatic request code rep).eTag = rep.localETag := by
  unfold sendStatic at h ⊢
  split at h
  · rcases h with h | h <;> cases h
  · rcases h with h | h <;> cases h
  all_goals rfl

theorem sendStatic_slice (hranged : Ranged request)
    (h : (sendStatic request code rep).IsContent) :
    Slice rep.bytes request.range (sendStatic request code rep) := by
  unfold sendStatic at h ⊢
  unfold Slice
  rcases replyTo_ranged hranged with hreply | hreply | hreply
  · rw [hreply] at h
    rcases h with h | h <;> cases h
  · rw [hreply] at h
    rcases h with h | h <;> cases h
  · rw [hreply] at h ⊢
    cases hresolve : resolveByteRange request.range rep.bytes.length with
    | ignored => exact ⟨rfl, rfl⟩
    | unsatisfiable =>
      rw [hresolve] at h
      rcases h with h | h <;> cases h
    | partialContent s e => exact ⟨rfl, rfl⟩

theorem sendStatic_partial (h : (sendStatic request 0 rep).status = 206) :
    ∃ first last, resolveByteRange request.range rep.bytes.length = .partialContent first last ∧
      (sendStatic request 0 rep).range = some (first, last) := by
  by_cases hget : request.requestType = .GET ∨ request.requestType = .HEAD
  · unfold sendStatic at h ⊢
    rw [replyTo_get hget] at h ⊢
    by_cases hprecondition : rep.haveModificationTime &&
        request.ifUnmodifiedSince.any (· < rep.modificationTime)
    · rw [if_pos hprecondition] at h
      cases h
    rw [if_neg hprecondition] at h ⊢
    by_cases hmodified : Network.notModified request rep
    · rw [if_pos hmodified] at h
      cases h
    rw [if_neg hmodified] at h ⊢
    cases hresolve : resolveByteRange request.range rep.bytes.length with
    | ignored =>
      rw [hresolve] at h
      cases h
    | unsatisfiable =>
      rw [hresolve] at h
      cases h
    | partialContent first last => exact ⟨first, last, rfl, rfl⟩
  · rw [sendStatic, replyTo, if_neg hget] at h
    cases h

theorem sendStatic_untagged {eTag : List UInt8} (heTag : request.eTag = some eTag)
    (hnot : requestETagMatches request rep.localETag = false)
    (h : (sendStatic request code rep).status = 304) :
    (sendStatic (unconditional request) code rep).status = 304 := by
  have hmodified : Network.notModified request rep = false := by
    rw [Network.notModified, heTag]
    exact hnot
  by_cases hget : request.requestType = .GET ∨ request.requestType = .HEAD
  · unfold sendStatic at h ⊢
    rw [replyTo_get hget, hmodified] at h
    by_cases hprecondition : rep.haveModificationTime &&
        request.ifUnmodifiedSince.any (· < rep.modificationTime)
    · rw [if_pos hprecondition] at h
      cases h
    · rw [if_neg hprecondition, if_neg Bool.false_ne_true] at h
      rw [replyTo_unconditional hget hprecondition]
      by_cases hmodified' : Network.notModified (unconditional request) rep
      · rw [if_pos hmodified']
      · rw [if_neg hmodified']
        exact h
  · unfold sendStatic at h ⊢
    rw [replyTo, if_neg hget] at h
    rw [replyTo]
    exact (if_neg hget).symm ▸ h

theorem sendStatic_notModified (h : (sendStatic request 0 rep).status = 304) {r : Response}
    (hpart : Slice rep.bytes request.range r) :
    (sendStatic (unconditional request) 0 rep).status = 304 ∨
      (sendStatic (unconditional request) 0 rep).IsContent ∧
        (sendStatic (unconditional request) 0 rep).body = r.body := by
  by_cases hget : request.requestType = .GET ∨ request.requestType = .HEAD
  · unfold sendStatic at h ⊢
    rw [replyTo_get hget] at h
    by_cases hprecondition : rep.haveModificationTime &&
        request.ifUnmodifiedSince.any (· < rep.modificationTime)
    · rw [if_pos hprecondition] at h
      cases h
    rw [replyTo_unconditional hget hprecondition]
    by_cases hmodified' : Network.notModified (unconditional request) rep
    · rw [if_pos hmodified']
      exact .inl rfl
    · rw [if_neg hmodified']
      refine .inr ?_
      unfold Slice at hpart
      cases hresolve : resolveByteRange request.range rep.bytes.length with
      | ignored =>
        rw [hresolve] at hpart
        exact ⟨.inl rfl, hpart.2.symm⟩
      | unsatisfiable =>
        rw [hresolve] at hpart
        exact hpart.elim
      | partialContent s e =>
        rw [hresolve] at hpart
        exact ⟨.inr rfl, hpart.2.symm⟩
  · rw [sendStatic, replyTo, if_neg hget] at h
    cases h

/-! The answers of the server. -/

theorem sendStreamed_eTag {a : Arrival} {filename : List UInt8}
    (h : (sendStreamed s a filename code).IsContent) :
    (sendStreamed s a filename code).eTag = [] := by
  unfold sendStreamed at h ⊢
  split
  · rename_i hresolves
    rw [if_pos hresolves] at h
    cases hfile : s.disk filename with
    | none => rfl
    | some file =>
      rw [hfile] at h
      exact sendStatic_eTag h
  · rfl

/-- `If-None-Match` left out of the request. -/
def Arrival.unconditional (a : Arrival) : Arrival :=
  { a with request := Resources.unconditional a.request }

theorem sendStreamed_untagged {a : Arrival} {filename eTag : List UInt8}
    (heTag : a.request.eTag = some eTag) (hstar : eTag ≠ [42])
    (h : (sendStreamed s a filename code).status = 304) :
    (sendStreamed s a.unconditional filename code).status = 304 := by
  have hnot : requestETagMatches a.request [] = false := by
    rw [requestETagMatches, heTag]
    simp [hstar]
  unfold sendStreamed at h ⊢
  by_cases hresolves : a.resolves filename = true
  · have hresolves' : a.unconditional.resolves filename = true := hresolves
    rw [if_pos hresolves] at h
    rw [if_pos hresolves']
    cases hfile : s.disk filename with
    | none =>
      rw [hfile] at h
      exact h
    | some file =>
      rw [hfile] at h
      exact sendStatic_untagged heTag hnot h
  · rw [if_neg hresolves] at h
    cases h

/-- The bytes of a page that all clients share. -/
def pageBody (page : Page) : List UInt8 :=
  (page.memory page.shared_context.content).take page.shared_context.contentSize

theorem checkRequestFrequency_cached {context : RHContext} {clock : ℕ}
    (h : (checkRequestFrequency context clock).1 = .tooFastServeCached) :
    context.callback_every_x_msec ≠ 0 ∧ context.needsSamePageForAllClients = true := by
  unfold checkRequestFrequency at h
  split at h
  · assumption
  · cases h

theorem serveContent_cases (p : Page) (clock : ℕ) (call : Call) :
    (∃ free, dynamicRequestServeContent p clock call =
      ({ Served.nothing with freeContentAfterUsingIt := free }, p)) ∨
    (∃ mem free, (checkRequestFrequency p.shared_context clock).1 = .tooFastServeCached ∧
      (p.shared_context.needsDifferentPageForEachClient = false →
        p.shared_context.needsSamePageForAllClients = true → mem = p.shared_context.content) ∧
      dynamicRequestServeContent p clock call =
        ({ Served.nothing with
            mem := mem
            memSize := p.shared_context.contentSize
            freeContentAfterUsingIt := free },
          { p with shared_context := { p.shared_context with callback_cooldown := true } })) ∨
    ∃ now mem free, (checkRequestFrequency p.shared_context clock).1 = .okServeFresh ∧
      p.shared_context.MAXcontentSize ≠ 0 ∧
      (p.shared_context.needsDifferentPageForEachClient = false →
        p.shared_context.needsSamePageForAllClients = true → p.shared_context.content ≠ 0) ∧
      dynamicRequestServeContent p clock call = executeCallback p now mem free call := by
  unfold dynamicRequestServeContent
  dsimp only
  generalize hmem : (if p.shared_context.needsDifferentPageForEachClient = true then
      if p.shared_context.MAXcontentSize % 2 ^ 32 = 0 then 0 else call.page
    else if p.shared_context.needsSamePageForAllClients = true then p.shared_context.content
    else 0) = mem
  have hshared : p.shared_context.needsDifferentPageForEachClient = false →
      p.shared_context.needsSamePageForAllClients = true → mem = p.shared_context.content := by
    intro hdifferent hsame
    rw [← hmem, hdifferent, hsame]
    rfl
  split
  · exact .inl ⟨_, rfl⟩
  · rename_i hbuffer
    obtain ⟨hne, hmax⟩ := not_or.mp hbuffer
    cases hcheck : checkRequestFrequency p.shared_context clock with
    | mk frequency now =>
      cases frequency with
      | okServeFresh =>
        refine .inr (.inr ⟨now, mem, _, rfl, hmax, fun hdifferent hsame => ?_, rfl⟩)
        rw [← hshared hdifferent hsame]
        exact hne
      | tooSlowServeNothing => exact .inl ⟨_, rfl⟩
      | tooFastServeCached => exact .inr (.inl ⟨mem, _, rfl, hshared, rfl⟩)

/-- What a callback leaves for all clients. -/
def written (call : Call) : List UInt8 :=
  (call.callback.memory call.callback.content).take call.callback.contentSize

/-- The request runs the callback of a page that all clients share. -/
def RunsCallback (page : Page) (a : Arrival) : Prop :=
  page.shared_context.content ≠ 0 ∧ page.shared_context.MAXcontentSize ≠ 0 ∧
    (checkRequestFrequency page.shared_context a.clock).1 = .okServeFresh ∧ a.call.rqst = true

/-- How `AmmServer_AddResourceHandler` has registered a page. -/
def scenario (page : Page) : Bool × Bool × ℕ :=
  (page.shared_context.needsDifferentPageForEachClient,
    page.shared_context.needsSamePageForAllClients, page.shared_context.callback_every_x_msec)

/-- `SAME_PAGE_FOR_ALL_CLIENTS`. -/
structure SamePage (page : Page) : Prop where
  needsDifferentPageForEachClient : page.shared_context.needsDifferentPageForEachClient = false
  needsSamePageForAllClients : page.shared_context.needsSamePageForAllClients = true

variable {a : Arrival} {page : Page}

theorem executeCallback_scenario (now mem : ℕ) (free : Bool) (call : Call) :
    scenario (executeCallback page now mem free call).2 = scenario page := by
  unfold executeCallback scenario
  dsimp only
  split
  · dsimp only
    split <;> rfl
  · rfl

theorem serveContent_scenario (clock : ℕ) (call : Call) :
    scenario (dynamicRequestServeContent page clock call).2 = scenario page := by
  rcases serveContent_cases page clock call with
    ⟨free, h⟩ | ⟨mem, free, -, -, h⟩ | ⟨now, mem, free, -, -, -, h⟩
  · rw [h]
  · rw [h]
    rfl
  · rw [h]
    exact executeCallback_scenario now mem free call

theorem servePage_snd :
    (servePage s a item page).2 = (dynamicRequestServeContent page a.clock a.call).2 := by
  unfold servePage
  dsimp only
  split
  · rfl
  · split <;> rfl

theorem servePage_scenario : scenario (servePage s a item page).2 = scenario page := by
  rw [servePage_snd]
  exact serveContent_scenario a.clock a.call

theorem servePage_body (hpage : SamePage page) :
    pageBody (servePage s a item page).2 = pageBody page ∨
      RunsCallback page a ∧ pageBody (servePage s a item page).2 = written a.call := by
  rw [servePage_snd]
  rcases serveContent_cases page a.clock a.call with
    ⟨free, h⟩ | ⟨mem, free, -, -, h⟩ | ⟨now, mem, free, hfresh, hmax, hcontent, h⟩
  · rw [h]
    exact .inl rfl
  · rw [h]
    exact .inl rfl
  · rw [h]
    have hsame := hpage.needsSamePageForAllClients
    by_cases hrqst : a.call.rqst = true
    · refine .inr ⟨⟨hcontent hpage.needsDifferentPageForEachClient hsame, hmax, hfresh, hrqst⟩, ?_⟩
      simp only [executeCallback, hrqst, hsame, if_true]
      rfl
    · rw [executeCallback, if_neg hrqst]
      exact .inl rfl

theorem sendDynamic_content {served : Served} (h : (sendDynamic s a item page served).IsContent) :
    sendDynamic s a item page served =
      { status := responseCode served.responseCode
        eTag := tag s item a.request.range
        range := none
        body := (page.memory served.mem).take served.memSize } := by
  unfold sendDynamic at h ⊢
  dsimp only at h ⊢
  split at h
  · rcases h with h | h <;> cases h
  · rename_i hnot
    rw [if_neg hnot]

theorem servePage_content (h : (servePage s a item page).1.IsContent)
    (htag : (servePage s a item page).1.eTag ≠ []) :
    (servePage s a item page).1.eTag = tag s item a.request.range ∧
      (servePage s a item page).1.range = none ∧
      (SamePage page →
        (servePage s a item page).1.body = pageBody (servePage s a item page).2) := by
  have hcases := serveContent_cases page a.clock a.call
  unfold servePage at h htag ⊢
  generalize dynamicRequestServeContent page a.clock a.call = answer at hcases h htag ⊢
  obtain ⟨served, page'⟩ := answer
  dsimp only at h htag ⊢
  cases hstreamed : served.streamed with
  | some path =>
    rw [hstreamed] at h htag
    exact absurd (sendStreamed_eTag h) htag
  | none =>
    rw [hstreamed] at h htag
    dsimp only at h htag ⊢
    by_cases hnothing : served.mem = 0 ∨ served.memSize = 0
    · rw [if_pos hnothing] at h htag
      exact absurd (sendStreamed_eTag h) htag
    · rw [if_neg hnothing] at h htag ⊢
      rw [sendDynamic_content h]
      refine ⟨rfl, rfl, fun hpage => ?_⟩
      have hdifferent := hpage.needsDifferentPageForEachClient
      have hsame := hpage.needsSamePageForAllClients
      rcases hcases with
        ⟨free, h⟩ | ⟨mem, free, -, hmem, h⟩ | ⟨now, mem, free, -, -, -, h⟩
      · obtain ⟨rfl, rfl⟩ := Prod.mk.inj h
        exact absurd (.inl rfl) hnothing
      · obtain ⟨rfl, rfl⟩ := Prod.mk.inj h
        rw [hmem hdifferent hsame]
        rfl
      · by_cases hrqst : a.call.rqst = true
        · simp only [executeCallback, hrqst, hsame, if_true] at h
          obtain ⟨rfl, rfl⟩ := Prod.mk.inj h
          rfl
        · rw [executeCallback, if_neg hrqst] at h
          obtain ⟨rfl, rfl⟩ := Prod.mk.inj h
          exact absurd (.inr rfl) hnothing

theorem eTag_eq_of_matches {localETag eTag : List UInt8} (heTag : request.eTag = some eTag)
    (hstar : eTag ≠ [42]) (h : requestETagMatches request localETag = true) :
    eTag = localETag := by
  rw [requestETagMatches, heTag] at h
  dsimp only at h
  split at h
  · cases h
  · split at h
    · cases h
    · exact of_decide_eq_true h

theorem sendDynamic_unconditional (served : Served) :
    sendDynamic s a.unconditional item page served =
      { status := responseCode served.responseCode
        eTag := tag s item a.request.range
        range := none
        body := (page.memory served.mem).take served.memSize } := rfl

theorem executeCallback_cooldown (now mem : ℕ) (free : Bool) (call : Call) :
    (executeCallback page now mem free call).2.shared_context.callback_cooldown = false := by
  unfold executeCallback
  dsimp only
  split
  · dsimp only
    split <;> rfl
  · rfl

theorem servePage_notModified {eTag : List UInt8} (heTag : a.request.eTag = some eTag)
    (hstar : eTag ≠ [42]) (h : (servePage s a item page).1.status = 304) :
    (servePage s a.unconditional item page).1.status = 304 ∨
      eTag = tag s item a.request.range ∧ item.doNOTCacheRule = false ∧
        page.shared_context.callback_every_x_msec ≠ 0 ∧
        page.shared_context.needsSamePageForAllClients = true ∧
        (servePage s a.unconditional item page).1.IsContent ∧
        (SamePage page →
          (servePage s a.unconditional item page).1.body = pageBody page) := by
  have hcases := serveContent_cases page a.clock a.call
  unfold servePage at h ⊢
  rw [show dynamicRequestServeContent page a.unconditional.clock a.unconditional.call =
    dynamicRequestServeContent page a.clock a.call from rfl]
  generalize dynamicRequestServeContent page a.clock a.call = answer at hcases h ⊢
  obtain ⟨served, page'⟩ := answer
  dsimp only at h ⊢
  cases hstreamed : served.streamed with
  | some path =>
    rw [hstreamed] at h
    exact .inl (sendStreamed_untagged heTag hstar h)
  | none =>
    rw [hstreamed] at h
    dsimp only at h ⊢
    by_cases hnothing : served.mem = 0 ∨ served.memSize = 0
    · rw [if_pos hnothing] at h ⊢
      exact .inl (sendStreamed_untagged heTag hstar h)
    · rw [if_neg hnothing] at h ⊢
      rw [sendDynamic_unconditional]
      unfold sendDynamic at h
      dsimp only at h
      split at h
      · rename_i hcondition
        simp only [Bool.and_eq_true, Bool.not_eq_true'] at hcondition
        obtain ⟨⟨⟨-, hrule⟩, hcooldown⟩, hmatches⟩ := hcondition
        rcases hcases with
          ⟨free, h⟩ | ⟨mem, free, hcached, hmem, h⟩ | ⟨now, mem, free, -, -, -, h⟩
        · obtain ⟨rfl, rfl⟩ := Prod.mk.inj h
          exact absurd (.inl rfl) hnothing
        · obtain ⟨rfl, rfl⟩ := Prod.mk.inj h
          obtain ⟨hevery, hsame⟩ := checkRequestFrequency_cached hcached
          refine .inr ⟨eTag_eq_of_matches heTag hstar hmatches, hrule, hevery, hsame, .inl rfl, ?_⟩
          intro hpage
          rw [hmem hpage.needsDifferentPageForEachClient hsame]
          rfl
        · have hfresh := @executeCallback_cooldown page now mem free a.call
          rw [← h] at hfresh
          exact absurd (hfresh.symm.trans hcooldown) Bool.false_ne_true
      · exact .inl h

end AmmarServer.Network.Resources
