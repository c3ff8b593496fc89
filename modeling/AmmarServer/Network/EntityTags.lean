import AmmarServer.Network.Resources
import Mathlib.Data.List.Pairwise

/-! The tags that the answers of a server carry, over every run of requests, changes of the files
and registrations. Each request is one step. -/

namespace AmmarServer.Network.EntityTags
open CString HeaderAnalysis Hashmap Resources Run
open Cache.DynamicRequests (Page Call)

/-- A request, its answer, and the answer that it would have been given without `If-None-Match`. -/
structure Exchange where
  url : List UInt8
  filename : List UInt8
  request : Request
  response : Response
  unconditional : Response

/-- The latest exchange comes first. -/
structure Site where
  server : Server
  history : List Exchange

inductive Event
  | request (a : Arrival)
  | changeFile (filename : List UInt8) (file : Option DiskFile)
  | addDoNOTCacheRule (filename : List UInt8) (found : Option ℕ) (created : Bool)
  | addMemoryBlock (filename : List UInt8) (page : Page) (created : Bool)

def exchange (s : Server) (a : Arrival) : Exchange :=
  { url := a.url
    filename := a.filename
    request := a.request
    response := (serve s a).1
    unconditional := (serve s a.unconditional).1 }

def step (s : Site) : Event → Site
  | .request a =>
    { server := (serve s.server a).2, history := exchange s.server a :: s.history }
  | .changeFile filename file =>
    { s with
      server :=
        { s.server with
          disk := fun name => if name = filename then file else s.server.disk name } }
  | .addDoNOTCacheRule filename found created =>
    { s with server := addDoNOTCacheRule s.server filename found created }
  | .addMemoryBlock filename page created =>
    { s with server := addMemoryBlock s.server filename page created }

def start (cacheVersionETag : ℕ) (disk : List UInt8 → Option DiskFile) : Site :=
  { server := { cacheVersionETag, cache := [], disk }, history := [] }

/-! What is asked of the tags. -/

/-- A 304 answers the tag of an earlier answer just if the body is still the one of that answer. -/
def NotModifiedSound (later earlier : Exchange) : Prop :=
  later.url = earlier.url → later.request.range = earlier.request.range →
    earlier.response.IsContent → earlier.response.eTag ≠ [] →
      later.request.eTag = some earlier.response.eTag → later.response.status = 304 →
        later.unconditional.status = 304 ∨
          later.unconditional.IsContent ∧ later.unconditional.body = earlier.response.body

/-- Different parts of a resource have different tags. -/
def PartsDistinct (later earlier : Exchange) : Prop :=
  later.filename = earlier.filename → later.response.status = 206 →
    earlier.response.status = 206 → later.response.eTag ≠ [] →
      later.response.eTag = earlier.response.eTag → later.response.range = earlier.response.range

def Sound (history : List Exchange) : Prop :=
  history.Pairwise fun later earlier =>
    NotModifiedSound later earlier ∧ PartsDistinct later earlier

/-! When the tags are sound. -/

/-- Where the cache has its item for a name. -/
def indexOf (s : Server) (filename : List UInt8) : Option ℕ :=
  s.cache.findIdx? fun item => item.filename = filename

/-- A page that can be answered with a 304. -/
structure Cooling (item : Item) (page : Page) : Prop extends SamePage page where
  callback_every_x_msec : page.shared_context.callback_every_x_msec ≠ 0
  doNOTCacheRule : item.doNOTCacheRule = false

/-- An answer with a tag. -/
def Tagged (x : Exchange) : Prop := x.response.IsContent ∧ x.response.eTag ≠ []

/-- A request that the tags stay sound behind. -/
structure Steady (s : Site) (a : Arrival) : Prop where
  /-- The lookup finds the item of the name. -/
  found : a.found = indexOf s.server a.filename
  /-- The files that a URL has been answered with have keys of different hashes. -/
  keys : ∀ x ∈ s.history, x.url = a.url → x.filename ≠ a.filename →
    hashFunction x.filename % 2 ^ 32 ≠ hashFunction a.filename % 2 ^ 32
  /-- A `POST` asks for no range. -/
  ranged : Ranged a.request
  /-- A callback writes what the answers with a tag had. -/
  callback : ∀ i item page, indexOf s.server a.filename = some i → s.server.cache[i]? = some item →
    item.dynamicRequest = some page → Cooling item page → RunsCallback page a →
      ∀ x ∈ s.history, x.filename = a.filename → Tagged x → x.response.body = written a.call
  /-- The numbers of a range that print the digits of an earlier one ask for its part. -/
  parts : ∀ i item content time, indexOf s.server a.filename = some i →
    s.server.cache[i]? = some item → item.stored = some (content, time) →
      ∀ x ∈ s.history, x.filename = a.filename → Tagged x → x.response.status = 206 →
        digits x.request.range = digits a.request.range → ∀ first last,
          resolveByteRange a.request.range content.length = .partialContent first last →
            x.response.range = some (first, last)

def Guard (s : Site) : Event → Prop
  | .request a => Steady s a
  | .changeFile _ _ => True
  | .addDoNOTCacheRule _ _ _ => True
  | .addMemoryBlock _ page _ =>
    ¬(page.shared_context.needsDifferentPageForEachClient = true ∧
      page.shared_context.needsSamePageForAllClients = true)

/-! What a request does. -/

/-- The cache as it was, or with one more file. -/
def Grown (s s' : Server) : Prop :=
  s'.cacheVersionETag = s.cacheVersionETag ∧
    (s'.cache = s.cache ∨ ∃ item : Item, item.dynamicRequest = none ∧ s'.cache = s.cache ++ [item])

inductive Outcome (s : Server) (a : Arrival) : Prop
  /-- An error, or a file of the disk. -/
  | untagged (grown : Grown s (serve s a).2)
      (content : (serve s a).1.IsContent → (serve s a).1.eTag = [])
      (notModified : ∀ eTag, a.request.eTag = some eTag → eTag ≠ [42] →
        (serve s a).1.status = 304 → (serve s a.unconditional).1.status = 304)
  | cached (i : ℕ) (item : Item) (content : List UInt8) (time : ℤ)
      (grown : Grown s (serve s a).2)
      (index : indexOf (serve s a).2 a.filename = some i)
      (at_index : (serve s a).2.cache[i]? = some item)
      (static : item.dynamicRequest = none)
      (stored : item.stored = some (content, time))
      (response : (serve s a).1 = sendCached s a item content time)
      (unconditional : (serve s a.unconditional).1 =
        sendCached s a.unconditional item content time)
  | page (i : ℕ) (item : Item) (page : Page)
      (index : indexOf s a.filename = some i)
      (at_index : s.cache[i]? = some item)
      (dynamicRequest : item.dynamicRequest = some page)
      (server : (serve s a).2 =
        { s with
          cache := s.cache.set i
            { item with dynamicRequest := some (servePage s a item page).2 } })
      (response : (serve s a).1 = (servePage s a item page).1)
      (unconditional : (serve s a.unconditional).1 =
        (servePage s a.unconditional item page).1)

variable {s s' : Server} {a : Arrival} {filename : List UInt8} {i : ℕ} {item : Item}

theorem indexOf_eq_some_iff : indexOf s filename = some i ↔
    ∃ item, s.cache[i]? = some item ∧ item.filename = filename ∧
      ∀ j < i, ∀ earlier, s.cache[j]? = some earlier → earlier.filename ≠ filename := by
  rw [indexOf, List.findIdx?_eq_some_iff_getElem]
  constructor
  · rintro ⟨hlt, hname, hbefore⟩
    refine ⟨s.cache[i], List.getElem?_eq_getElem hlt, by simpa using hname, ?_⟩
    intro j hj earlier hearlier
    obtain ⟨hlt', rfl⟩ := List.getElem?_eq_some_iff.mp hearlier
    simpa using hbefore j hj
  · rintro ⟨item, hitem, hname, hbefore⟩
    obtain ⟨hlt, rfl⟩ := List.getElem?_eq_some_iff.mp hitem
    refine ⟨hlt, by simpa using hname, ?_⟩
    intro j hj
    simpa using hbefore j hj _ (List.getElem?_eq_getElem (hj.trans hlt))

theorem filename_of_indexOf (h : indexOf s filename = some i) (hitem : s.cache[i]? = some item) :
    item.filename = filename := by
  obtain ⟨item', hitem', hname, -⟩ := indexOf_eq_some_iff.mp h
  rw [hitem] at hitem'
  cases hitem'
  exact hname

theorem indexOf_append (hnone : indexOf s filename = none) (hname : item.filename = filename)
    (hcache : s'.cache = s.cache ++ [item]) : indexOf s' filename = some s.cache.length := by
  refine indexOf_eq_some_iff.mpr ⟨item, by rw [hcache, List.getElem?_concat_length], hname, ?_⟩
  intro j hj earlier hearlier
  rw [hcache, List.getElem?_append_left hj] at hearlier
  rw [indexOf, List.findIdx?_eq_none_iff] at hnone
  have hnot := hnone earlier (List.mem_of_getElem? hearlier)
  simpa using hnot

theorem Grown.refl : Grown s s := ⟨rfl, .inl rfl⟩

theorem outcome_streamed {code : ℕ} (hgrown : Grown s (serve s a).2)
    (hresponse : (serve s a).1 = sendStreamed s' a filename code)
    (hunconditional : (serve s a.unconditional).1 = sendStreamed s' a.unconditional filename code) :
    Outcome s a := by
  refine .untagged hgrown ?_ ?_
  · rw [hresponse]
    exact sendStreamed_eTag
  · intro eTag heTag hstar h
    rw [hresponse] at h
    rw [hunconditional]
    exact sendStreamed_untagged heTag hstar h

/-- A name that `SendFile` refuses. -/
def Refused (a : Arrival) : Prop :=
  (!filenameStripperOk a.filename || !a.resolves a.filename) = true

theorem serve_refused (h : Refused a) : serve s a = (.error 400, s) := by
  unfold Refused at h
  rw [serve, if_pos h]

theorem serve_added {content : List UInt8} {time : ℤ} (h : ¬Refused a) (hfound : a.found = none)
    (hadd : cacheAddFile s a = (some (item, content, time), s')) :
    serve s a = (sendCached s' a item content time, s') := by
  unfold Refused at h
  rw [serve, if_neg h, hfound]
  dsimp only
  rw [hadd]

theorem serve_notAdded (h : ¬Refused a) (hfound : a.found = none)
    (hadd : cacheAddFile s a = (none, s')) : serve s a = (sendStreamed s' a a.filename 0, s') := by
  unfold Refused at h
  rw [serve, if_neg h, hfound]
  dsimp only
  rw [hadd]

theorem serve_dynamic {page : Page} (h : ¬Refused a) (hfound : a.found = some i)
    (hitem : s.cache[i]? = some item) (hpage : item.dynamicRequest = some page) :
    serve s a = ((servePage s a item page).1,
      { s with
        cache := s.cache.set i
          { item with dynamicRequest := some (servePage s a item page).2 } }) := by
  unfold Refused at h
  rw [serve, if_neg h, hfound]
  dsimp only
  rw [hitem]
  dsimp only
  rw [hpage]

theorem serve_stored {content : List UInt8} {time : ℤ} (h : ¬Refused a)
    (hfound : a.found = some i) (hitem : s.cache[i]? = some item)
    (hstatic : item.dynamicRequest = none) (hstored : item.stored = some (content, time))
    (hrule : item.doNOTCacheRule = false) :
    serve s a = (sendCached s a item content time, s) := by
  unfold Refused at h
  rw [serve, if_neg h, hfound]
  dsimp only
  rw [hitem]
  dsimp only
  rw [hstatic, hstored]
  dsimp only
  rw [hrule, if_neg Bool.false_ne_true]

theorem serve_streamed (h : ¬Refused a) (hfound : a.found = some i)
    (hitem : s.cache[i]? = some item) (hstatic : item.dynamicRequest = none)
    (hnot : item.stored = none ∨ item.doNOTCacheRule = true) :
    serve s a = (sendStreamed s a a.filename 0, s) := by
  unfold Refused at h
  rw [serve, if_neg h, hfound]
  dsimp only
  rw [hitem]
  dsimp only
  rw [hstatic]
  dsimp only
  rcases hnot with hstored | hrule
  · rw [hstored]
  · rw [hrule]
    cases item.stored <;> rfl

theorem cacheAddFile_cases (s : Server) (a : Arrival) :
    (∃ s', Grown s s' ∧ cacheAddFile s a = (none, s')) ∨
      ∃ (item : Item) (content : List UInt8) (time : ℤ), item.filename = a.filename ∧
        item.dynamicRequest = none ∧ item.stored = some (content, time) ∧
        cacheAddFile s a = (some (item, content, time), { s with cache := s.cache ++ [item] }) := by
  unfold cacheAddFile
  by_cases hcreated : a.created = true
  · rw [if_pos hcreated]
    generalize hstored : (if a.loaded = true then
      (s.disk a.filename).map fun file => (file.bytes, file.st_mtime) else none) = stored
    cases stored with
    | none =>
      refine .inl ⟨_, ?_, rfl⟩
      exact ⟨rfl, .inr ⟨_, rfl, rfl⟩⟩
    | some content => exact .inr ⟨_, content.1, content.2, rfl, rfl, rfl, rfl⟩
  · rw [if_neg hcreated]
    exact .inl ⟨s, Grown.refl, rfl⟩

theorem outcome_absent (h : ¬Refused a) (hfound : a.found = none)
    (hindex : indexOf s a.filename = none) : Outcome s a := by
  rcases cacheAddFile_cases s a with
    ⟨s', hgrown, hadd⟩ | ⟨item, content, time, hname, hstatic, hstored, hadd⟩
  · have hserve := serve_notAdded h hfound hadd
    have hserve' := @serve_notAdded s s' a.unconditional h hfound hadd
    refine outcome_streamed ?_ (congrArg Prod.fst hserve) (congrArg Prod.fst hserve')
    rw [hserve]
    exact hgrown
  · have hserve := serve_added h hfound hadd
    have hserve' := @serve_added s _ a.unconditional item content time h hfound hadd
    refine .cached s.cache.length item content time ?_ ?_ ?_ hstatic hstored
      (congrArg Prod.fst hserve) (congrArg Prod.fst hserve')
    all_goals rw [hserve]
    · exact ⟨rfl, .inr ⟨item, hstatic, rfl⟩⟩
    · exact indexOf_append hindex hname rfl
    · exact List.getElem?_concat_length

theorem outcome_static (h : ¬Refused a) (hfound : a.found = some i)
    (hindex : indexOf s a.filename = some i) (hitem : s.cache[i]? = some item)
    (hstatic : item.dynamicRequest = none) : Outcome s a := by
  by_cases hnot : item.stored = none ∨ item.doNOTCacheRule = true
  · have hserve := serve_streamed h hfound hitem hstatic hnot
    have hserve' := @serve_streamed s a.unconditional i item h hfound hitem hstatic hnot
    refine outcome_streamed ?_ (congrArg Prod.fst hserve) (congrArg Prod.fst hserve')
    rw [hserve]
    exact Grown.refl
  · obtain ⟨hstored, hrule⟩ := not_or.mp hnot
    obtain ⟨⟨content, time⟩, hstored⟩ := Option.ne_none_iff_exists'.mp hstored
    have hrule := Bool.eq_false_of_not_eq_true hrule
    have hserve := serve_stored h hfound hitem hstatic hstored hrule
    have hserve' :=
      @serve_stored s a.unconditional i item content time h hfound hitem hstatic hstored hrule
    refine .cached i item content time ?_ ?_ ?_ hstatic hstored
      (congrArg Prod.fst hserve) (congrArg Prod.fst hserve')
    all_goals rw [hserve]
    · exact Grown.refl
    · exact hindex
    · exact hitem

theorem outcome (hfound : a.found = indexOf s a.filename) : Outcome s a := by
  by_cases h : Refused a
  · have hserve := @serve_refused s a h
    have hserve' := @serve_refused s a.unconditional h
    refine .untagged ?_ ?_ ?_
    · rw [hserve]
      exact Grown.refl
    · rw [hserve]
      exact fun _ => rfl
    · rw [hserve, hserve']
      exact fun _ _ _ h => h
  · cases hindex : indexOf s a.filename with
    | none => exact outcome_absent h (hfound.trans hindex) hindex
    | some i =>
      obtain ⟨item, hitem, -, -⟩ := indexOf_eq_some_iff.mp hindex
      have hfound' := hfound.trans hindex
      cases hpage : item.dynamicRequest with
      | none => exact outcome_static h hfound' hindex hitem hpage
      | some page =>
        have hserve := serve_dynamic h hfound' hitem hpage
        have hserve' := @serve_dynamic s a.unconditional i item page h hfound' hitem hpage
        refine .page i item page hindex hitem hpage ?_ (congrArg Prod.fst hserve)
          (congrArg Prod.fst hserve')
        rw [hserve]

/-! The runs. -/

/-- An answer with a tag is the one that the item of its name would give. -/
structure Explains (s : Server) (item : Item) (x : Exchange) : Prop where
  eTag : x.response.eTag = tag s item x.request.range
  static : item.dynamicRequest = none → ∃ content time, item.stored = some (content, time) ∧
    Slice content x.request.range x.response
  range : ∀ page, item.dynamicRequest = some page → x.response.range = none
  body : ∀ page, item.dynamicRequest = some page → Cooling item page →
    x.response.body = pageBody page

def Explained (s : Server) (x : Exchange) : Prop :=
  ∃ i item, indexOf s x.filename = some i ∧ s.cache[i]? = some item ∧ Explains s item x

structure Inv (s : Site) : Prop where
  explained : ∀ x ∈ s.history, Tagged x → Explained s.server x
  /-- No page is registered for both scenarios. -/
  scenarios : ∀ item ∈ s.server.cache, ∀ page, item.dynamicRequest = some page →
    ¬(page.shared_context.needsDifferentPageForEachClient = true ∧
      page.shared_context.needsSamePageForAllClients = true)
  sound : Sound s.history

variable {x : Exchange} {item' : Item}

theorem tag_congr {range : ByteRange} (hversion : s'.cacheVersionETag = s.cacheVersionETag)
    (hname : item'.filename = item.filename) : tag s' item' range = tag s item range := by
  rw [tag_eq, tag_eq, Item.keyHash, Item.keyHash, hversion, hname]

theorem Explains.congr (h : Explains s item x)
    (hversion : s'.cacheVersionETag = s.cacheVersionETag) : Explains s' item x where
  eTag := h.eTag.trans (tag_congr hversion rfl).symm
  static := h.static
  range := h.range
  body := h.body

theorem indexOf_of_names
    (hitems : ∀ (j : ℕ) (item : Item), s.cache[j]? = some item →
      ∃ item' : Item, s'.cache[j]? = some item' ∧ item'.filename = item.filename)
    (hindex : indexOf s filename = some i) : indexOf s' filename = some i := by
  obtain ⟨named, hnamed, hname, hbefore⟩ := indexOf_eq_some_iff.mp hindex
  obtain ⟨hlt, -⟩ := List.getElem?_eq_some_iff.mp hnamed
  obtain ⟨named', hnamed', hname'⟩ := hitems i named hnamed
  refine indexOf_eq_some_iff.mpr ⟨named', hnamed', hname'.trans hname, ?_⟩
  intro j hj earlier hearlier
  have hj' := List.getElem?_eq_getElem (hj.trans hlt)
  obtain ⟨earlier', hearlier', hsame⟩ := hitems j _ hj'
  rw [hearlier] at hearlier'
  cases hearlier'
  rw [hsame]
  exact hbefore j hj _ hj'

theorem Explained.carry (h : Explained s x)
    (hitems : ∀ j item, s.cache[j]? = some item → ∃ item', s'.cache[j]? = some item' ∧
      item'.filename = item.filename ∧
        (indexOf s x.filename = some j → Explains s item x → Explains s' item' x)) :
    Explained s' x := by
  obtain ⟨i, item, hindex, hitem, hexplains⟩ := h
  obtain ⟨item', hitem', -, hexplains'⟩ := hitems i item hitem
  refine ⟨i, item', ?_, hitem', hexplains' hindex hexplains⟩
  apply indexOf_of_names _ hindex
  intro j other hother
  obtain ⟨other', hother', hname, -⟩ := hitems j other hother
  exact ⟨other', hother', hname⟩

theorem Grown.getElem? (hgrown : Grown s s') (hitem : s.cache[i]? = some item) :
    s'.cache[i]? = some item := by
  rcases hgrown.2 with hcache | ⟨added, -, hcache⟩
  · rw [hcache]
    exact hitem
  · obtain ⟨hlt, -⟩ := List.getElem?_eq_some_iff.mp hitem
    rw [hcache, List.getElem?_append_left hlt]
    exact hitem

theorem Explained.grown (h : Explained s x) (hgrown : Grown s s') : Explained s' x := by
  apply h.carry
  intro j item hitem
  exact ⟨item, hgrown.getElem? hitem, rfl, fun _ hexplains => hexplains.congr hgrown.1⟩

theorem Explained.at_index (h : Explained s x) (hgrown : Grown s s')
    (hindex : indexOf s' x.filename = some i) (hitem : s'.cache[i]? = some item) :
    indexOf s x.filename = some i ∧ s.cache[i]? = some item ∧ Explains s item x := by
  obtain ⟨j, other, hj, hother, hexplains⟩ := h
  have hj' : indexOf s' x.filename = some j :=
    indexOf_of_names (fun k item h => ⟨item, hgrown.getElem? h, rfl⟩) hj
  rw [hindex] at hj'
  cases hj'
  have hother' := hgrown.getElem? hother
  rw [hitem] at hother'
  cases hother'
  exact ⟨hj, hother, hexplains⟩

theorem sendCached_eq (content : List UInt8) (time : ℤ) :
    sendCached s a item content time =
      sendStatic a.request 0
        { bytes := content
          modificationTime := time
          haveModificationTime := time ≠ 0
          localETag := tag s item a.request.range
          file := none } := rfl

theorem same_filename {s : Site} (hsteady : Steady s a) (hx : x ∈ s.history)
    (hexplained : Explained s.server x) (hne : x.response.eTag ≠ []) (hurl : a.url = x.url)
    (hrange : a.request.range = x.request.range) (hname : item.filename = a.filename)
    (heTag : x.response.eTag = tag s.server item a.request.range) : x.filename = a.filename := by
  obtain ⟨j, other, hj, hother, hexplains⟩ := hexplained
  have hother_name := filename_of_indexOf hj hother
  by_contra hdifferent
  apply hsteady.keys x hx hurl.symm hdifferent
  rw [hexplains.eTag, ← hrange] at heTag
  rw [hexplains.eTag, ← hrange] at hne
  have hhash := keyHash_eq_of_tag heTag hne
  rw [Item.keyHash, Item.keyHash, hother_name, hname] at hhash
  exact hhash

theorem Explains.served {page : Page} (h : Explains s item x)
    (hpage : item.dynamicRequest = some page)
    (hversion : s'.cacheVersionETag = s.cacheVersionETag)
    (hcallback : Cooling item page → RunsCallback page a → x.response.body = written a.call) :
    Explains s' { item with dynamicRequest := some (servePage s a item page).2 } x where
  eTag := h.eTag.trans (tag_congr hversion rfl).symm
  static hstatic := by cases hstatic
  range _ _ := h.range page hpage
  body page' hpage' hcooling := by
    cases hpage'
    have hscenario := @servePage_scenario s item a page
    simp only [scenario, Prod.mk.injEq] at hscenario
    obtain ⟨hdifferent, hsame, hevery⟩ := hscenario
    have hcooling' : Cooling item page :=
      { needsDifferentPageForEachClient :=
          hdifferent.symm.trans hcooling.needsDifferentPageForEachClient
        needsSamePageForAllClients := hsame.symm.trans hcooling.needsSamePageForAllClients
        callback_every_x_msec := by
          rw [← hevery]
          exact hcooling.callback_every_x_msec
        doNOTCacheRule := hcooling.doNOTCacheRule }
    rcases @servePage_body s item a page hcooling'.toSamePage with hbody | ⟨hruns, hbody⟩
    · rw [hbody]
      exact h.body page hpage hcooling'
    · rw [hbody]
      exact hcallback hcooling' hruns

theorem Inv.carry_request {s : Site} (h : Inv s) (hsteady : Steady s a) (hx : x ∈ s.history)
    (htagged : Tagged x) : Explained (serve s.server a).2 x := by
  have hexplained := h.explained x hx htagged
  rcases outcome hsteady.found with
    ⟨hgrown, -, -⟩ | ⟨i, item, content, time, hgrown, -, -, -, -, -, -⟩ |
    ⟨i, item, page, hindex, hitem, hpage, hserver, -, -⟩
  · exact hexplained.grown hgrown
  · exact hexplained.grown hgrown
  · rw [hserver]
    apply hexplained.carry
    intro j other hother
    obtain ⟨hlt, -⟩ := List.getElem?_eq_some_iff.mp hother
    by_cases hij : i = j
    · subst hij
      rw [hitem] at hother
      cases hother
      refine ⟨_, List.getElem?_set_self hlt, rfl, fun hxindex hexplains => ?_⟩
      have hfilename : x.filename = a.filename :=
        (filename_of_indexOf hxindex hitem).symm.trans (filename_of_indexOf hindex hitem)
      exact hexplains.served hpage rfl fun hcooling hruns =>
        hsteady.callback i item page hindex hitem hpage hcooling hruns x hx hfilename htagged
    · refine ⟨other, ?_, rfl, fun _ hexplains => hexplains.congr rfl⟩
      show (s.server.cache.set i _)[j]? = some other
      rw [List.getElem?_set_ne hij]
      exact hother

theorem Explains.ofCached {content : List UInt8} {time : ℤ} (hranged : Ranged a.request)
    (hstatic : item.dynamicRequest = none) (hstored : item.stored = some (content, time))
    (hresponse : (serve s a).1 = sendCached s a item content time)
    (hcontent : (serve s a).1.IsContent)
    (hversion : (serve s a).2.cacheVersionETag = s.cacheVersionETag) :
    Explains (serve s a).2 item (exchange s a) where
  eTag := by
    show (serve s a).1.eTag = tag (serve s a).2 item a.request.range
    rw [hresponse, sendCached_eq] at hcontent ⊢
    rw [sendStatic_eTag hcontent]
    exact (tag_congr hversion rfl).symm
  static _ := by
    refine ⟨content, time, hstored, ?_⟩
    show Slice content a.request.range (serve s a).1
    rw [hresponse, sendCached_eq] at hcontent ⊢
    exact sendStatic_slice hranged hcontent
  range page hpage := by
    rw [hstatic] at hpage
    cases hpage
  body page hpage := by
    rw [hstatic] at hpage
    cases hpage

theorem Explains.ofPage {page : Page}
    (hresponse : (serve s a).1 = (servePage s a item page).1) (htagged : Tagged (exchange s a))
    (hversion : s'.cacheVersionETag = s.cacheVersionETag) :
    Explains s' { item with dynamicRequest := some (servePage s a item page).2 }
      (exchange s a) := by
  obtain ⟨hcontent, hne⟩ := htagged
  have hcontent' : (servePage s a item page).1.IsContent := hresponse ▸ hcontent
  have hne' : (servePage s a item page).1.eTag ≠ [] := hresponse ▸ hne
  obtain ⟨heTag, hrange, hbody⟩ := servePage_content hcontent' hne'
  have hscenario := @servePage_scenario s item a page
  simp only [scenario, Prod.mk.injEq] at hscenario
  refine ⟨?_, (fun hstatic => by cases hstatic), fun page' hpage' => ?_, fun page' hpage' h => ?_⟩
  · show (serve s a).1.eTag = _
    rw [hresponse, heTag]
    exact (tag_congr hversion rfl).symm
  · show (serve s a).1.range = none
    rw [hresponse]
    exact hrange
  · cases hpage'
    show (serve s a).1.body = _
    rw [hresponse]
    exact hbody ⟨hscenario.1.symm.trans h.needsDifferentPageForEachClient,
      hscenario.2.1.symm.trans h.needsSamePageForAllClients⟩

theorem explained_exchange (hfound : a.found = indexOf s a.filename) (hranged : Ranged a.request)
    (htagged : Tagged (exchange s a)) : Explained (serve s a).2 (exchange s a) := by
  obtain ⟨hcontent, hne⟩ := htagged
  rcases outcome hfound with
    ⟨-, huntagged, -⟩ | ⟨i, item, content, time, hgrown, hindex, hitem, hstatic, hstored,
      hresponse, -⟩ | ⟨i, item, page, hindex, hitem, hpage, hserver, hresponse, -⟩
  · exact absurd (huntagged hcontent) hne
  · exact ⟨i, item, hindex, hitem,
      .ofCached hranged hstatic hstored hresponse hcontent hgrown.1⟩
  · obtain ⟨hlt, -⟩ := List.getElem?_eq_some_iff.mp hitem
    have hset : ∀ (j : ℕ) (other : Item), s.cache[j]? = some other → ∃ other' : Item,
        (s.cache.set i { item with dynamicRequest := some (servePage s a item page).2 })[j]? =
          some other' ∧ other'.filename = other.filename := by
      intro j other hother
      by_cases hij : i = j
      · subst hij
        rw [hitem] at hother
        cases hother
        exact ⟨_, List.getElem?_set_self hlt, rfl⟩
      · rw [List.getElem?_set_ne hij]
        exact ⟨other, hother, rfl⟩
    rw [hserver]
    exact ⟨i, _, indexOf_of_names hset hindex, List.getElem?_set_self hlt,
      .ofPage hresponse ⟨hcontent, hne⟩ rfl⟩

theorem Inv.scenarios_request {s : Site} (h : Inv s)
    (hfound : a.found = indexOf s.server a.filename) :
    ∀ item ∈ (serve s.server a).2.cache, ∀ page, item.dynamicRequest = some page →
      ¬(page.shared_context.needsDifferentPageForEachClient = true ∧
        page.shared_context.needsSamePageForAllClients = true) := by
  have hgrown : Grown s.server (serve s.server a).2 → ∀ item ∈ (serve s.server a).2.cache,
      ∀ page, item.dynamicRequest = some page →
        ¬(page.shared_context.needsDifferentPageForEachClient = true ∧
          page.shared_context.needsSamePageForAllClients = true) := by
    rintro ⟨-, hcache | ⟨added, hstatic, hcache⟩⟩ item hin page hpage
    · rw [hcache] at hin
      exact h.scenarios item hin page hpage
    · rw [hcache, List.mem_append, List.mem_singleton] at hin
      rcases hin with hin | rfl
      · exact h.scenarios item hin page hpage
      · rw [hstatic] at hpage
        cases hpage
  rcases outcome hfound with
    ⟨hgrows, -, -⟩ | ⟨i, item, content, time, hgrows, -, -, -, -, -, -⟩ |
    ⟨i, item, page, -, hitem, hpage, hserver, -, -⟩
  · exact hgrown hgrows
  · exact hgrown hgrows
  · rw [hserver]
    intro other hin page' hpage'
    rcases List.mem_or_eq_of_mem_set hin with hin | rfl
    · exact h.scenarios other hin page' hpage'
    · cases hpage'
      have hscenario := @servePage_scenario s.server item a page
      simp only [scenario, Prod.mk.injEq] at hscenario
      rw [hscenario.1, hscenario.2.1]
      exact h.scenarios item (List.mem_of_getElem? hitem) page hpage

theorem eTag_ne_star (h : Explained s x) : x.response.eTag ≠ [42] := by
  obtain ⟨i, item, -, -, hexplains⟩ := h
  rw [hexplains.eTag]
  exact tag_ne_star

theorem Inv.notModified_sound {s : Site} (h : Inv s) (hsteady : Steady s a) (hx : x ∈ s.history) :
    NotModifiedSound (exchange s.server a) x := by
  intro hurl hrange hcontent hne heTag hstatus
  have hexplained := h.explained x hx ⟨hcontent, hne⟩
  have hstar := eTag_ne_star hexplained
  have heTag : a.request.eTag = some x.response.eTag := heTag
  have hrange : a.request.range = x.request.range := hrange
  rcases outcome hsteady.found with
    ⟨-, -, huntagged⟩ | ⟨i, item, content, time, hgrown, hindex, hitem, hstatic, hstored,
      hresponse, hunconditional⟩ |
    ⟨i, item, page, hindex, hitem, hpage, -, hresponse, hunconditional⟩
  · exact .inl (huntagged _ heTag hstar hstatus)
  · have hstatus : (serve s.server a).1.status = 304 := hstatus
    rw [hresponse, sendCached_eq] at hstatus
    show (serve s.server a.unconditional).1.status = 304 ∨
      (serve s.server a.unconditional).1.IsContent ∧
        (serve s.server a.unconditional).1.body = x.response.body
    rw [hunconditional, sendCached_eq]
    cases hmatches : requestETagMatches a.request (tag s.server item a.request.range) with
    | false => exact .inl (sendStatic_untagged heTag hmatches hstatus)
    | true =>
      have hsame := same_filename hsteady hx hexplained hne hurl hrange
        (filename_of_indexOf hindex hitem) (eTag_eq_of_matches heTag hstar hmatches)
      obtain ⟨-, -, hexplains⟩ := hexplained.at_index hgrown (hsame ▸ hindex) hitem
      obtain ⟨content', time', hstored', hslice⟩ := hexplains.static hstatic
      rw [hstored] at hstored'
      cases hstored'
      rw [← hrange] at hslice
      exact sendStatic_notModified hstatus hslice
  · have hstatus : (serve s.server a).1.status = 304 := hstatus
    rw [hresponse] at hstatus
    show (serve s.server a.unconditional).1.status = 304 ∨
      (serve s.server a.unconditional).1.IsContent ∧
        (serve s.server a.unconditional).1.body = x.response.body
    rw [hunconditional]
    rcases servePage_notModified heTag hstar hstatus with
      hstatus | ⟨hmatches, hrule, hevery, hsame_page, hcontent', hbody⟩
    · exact .inl hstatus
    · refine .inr ⟨hcontent', ?_⟩
      have hsame := same_filename hsteady hx hexplained hne hurl hrange
        (filename_of_indexOf hindex hitem) hmatches
      obtain ⟨-, -, hexplains⟩ := hexplained.at_index Grown.refl (hsame ▸ hindex) hitem
      have hnot := h.scenarios item (List.mem_of_getElem? hitem) page hpage
      have hdifferent : page.shared_context.needsDifferentPageForEachClient = false :=
        Bool.eq_false_of_not_eq_true fun hdifferent => hnot ⟨hdifferent, hsame_page⟩
      rw [hbody ⟨hdifferent, hsame_page⟩]
      exact (hexplains.body page hpage ⟨⟨hdifferent, hsame_page⟩, hevery, hrule⟩).symm

theorem Inv.parts_distinct {s : Site} (h : Inv s) (hsteady : Steady s a) (hx : x ∈ s.history) :
    PartsDistinct (exchange s.server a) x := by
  intro hfilename hstatus hxstatus hne heTag
  have hfilename : a.filename = x.filename := hfilename
  have hstatus : (serve s.server a).1.status = 206 := hstatus
  have hne : (serve s.server a).1.eTag ≠ [] := hne
  have heTag : (serve s.server a).1.eTag = x.response.eTag := heTag
  have htagged : Tagged x := ⟨.inr hxstatus, heTag ▸ hne⟩
  have hexplained := h.explained x hx htagged
  show (serve s.server a).1.range = x.response.range
  rcases outcome hsteady.found with
    ⟨-, huntagged, -⟩ | ⟨i, item, content, time, hgrown, hindex, hitem, hstatic, hstored,
      hresponse, -⟩ | ⟨i, item, page, hindex, hitem, hpage, -, hresponse, -⟩
  · exact absurd (huntagged (.inr hstatus)) hne
  · obtain ⟨hindex', hitem', hexplains⟩ := hexplained.at_index hgrown (hfilename ▸ hindex) hitem
    have hcontent : (serve s.server a).1.IsContent := .inr hstatus
    rw [hresponse, sendCached_eq] at hstatus hne heTag hcontent ⊢
    obtain ⟨first, last, hresolve, hpart⟩ := sendStatic_partial hstatus
    rw [hpart]
    rw [sendStatic_eTag hcontent] at hne heTag
    have hdigits := digits_eq_of_tag (heTag.trans hexplains.eTag) hne
    exact (hsteady.parts i item content time (hfilename ▸ hindex') hitem' hstored x hx
      hfilename.symm htagged hxstatus hdigits.symm first last hresolve).symm
  · obtain ⟨-, -, hexplains⟩ := hexplained.at_index Grown.refl (hfilename ▸ hindex) hitem
    rw [hresponse] at hstatus hne ⊢
    rw [(servePage_content (.inr hstatus) hne).2.1, hexplains.range page hpage]

theorem Inv.request {s : Site} (h : Inv s) (hsteady : Steady s a) :
    Inv (step s (.request a)) where
  explained := by
    intro x hx htagged
    rcases List.mem_cons.mp hx with rfl | hx
    · exact explained_exchange hsteady.found hsteady.ranged htagged
    · exact h.carry_request hsteady hx htagged
  scenarios := h.scenarios_request hsteady.found
  sound := List.pairwise_cons.mpr ⟨fun _ hx =>
    ⟨h.notModified_sound hsteady hx, h.parts_distinct hsteady hx⟩, h.sound⟩

theorem Explained.append (h : Explained s x) (hversion : s'.cacheVersionETag = s.cacheVersionETag)
    (hcache : s'.cache = s.cache ++ [item]) : Explained s' x := by
  apply h.carry
  intro j other hother
  obtain ⟨hlt, -⟩ := List.getElem?_eq_some_iff.mp hother
  refine ⟨other, ?_, rfl, fun _ hexplains => hexplains.congr hversion⟩
  rw [hcache, List.getElem?_append_left hlt]
  exact hother

theorem Inv.append {s : Site} (h : Inv s) (item : Item)
    (hpage : ∀ page, item.dynamicRequest = some page →
      ¬(page.shared_context.needsDifferentPageForEachClient = true ∧
        page.shared_context.needsSamePageForAllClients = true)) :
    Inv { s with server := { s.server with cache := s.server.cache ++ [item] } } where
  explained x hx htagged := (h.explained x hx htagged).append rfl rfl
  scenarios other hin := by
    rcases List.mem_append.mp hin with hin | hin
    · exact h.scenarios other hin
    · rw [List.mem_singleton.mp hin]
      exact hpage
  sound := h.sound

theorem Inv.addDoNOTCacheRule {s : Site} (h : Inv s) (filename : List UInt8) (found : Option ℕ)
    (created : Bool) : Inv (step s (.addDoNOTCacheRule filename found created)) := by
  unfold step Resources.addDoNOTCacheRule
  dsimp only
  cases found with
  | none =>
    dsimp only
    split
    · exact h.append _ fun page hpage => by cases hpage
    · exact h
  | some index =>
    refine ⟨fun x hx htagged => ?_, fun other hin page hpage => ?_, h.sound⟩
    · apply (h.explained x hx htagged).carry
      intro j item hitem
      by_cases hij : index = j
      · subst hij
        refine ⟨{ item with doNOTCacheRule := true }, ?_, rfl, fun _ hexplains => ?_⟩
        · show (s.server.cache.modify index _)[index]? = _
          rw [List.getElem?_modify_eq, hitem]
          rfl
        · refine ⟨hexplains.eTag.trans (tag_congr rfl rfl).symm, hexplains.static,
            hexplains.range, fun page _ hcooling => ?_⟩
          cases hcooling.doNOTCacheRule
      · refine ⟨item, ?_, rfl, fun _ hexplains => hexplains.congr rfl⟩
        show (s.server.cache.modify index _)[j]? = _
        rw [List.getElem?_modify, hitem]
        exact congrArg some (if_neg hij)
    · have hin : other ∈ s.server.cache.modify index
          fun item => { item with doNOTCacheRule := true } := hin
      obtain ⟨j, hj⟩ := List.mem_iff_getElem?.mp hin
      rw [List.getElem?_modify] at hj
      obtain ⟨item, hitem, hother⟩ := Option.map_eq_some_iff.mp hj
      have hsame : item.dynamicRequest = some page := by
        rw [← hpage, ← hother]
        split <;> rfl
      exact h.scenarios item (List.mem_of_getElem? hitem) page hsame

theorem Inv.step {s : Site} {event : Event} (h : Inv s) (hguard : Guard s event) :
    Inv (step s event) := by
  cases event with
  | request a => exact h.request hguard
  | changeFile filename file =>
    exact ⟨fun x hx htagged => (h.explained x hx htagged).grown ⟨rfl, .inl rfl⟩,
      h.scenarios, h.sound⟩
  | addDoNOTCacheRule filename found created => exact h.addDoNOTCacheRule filename found created
  | addMemoryBlock filename page created =>
    unfold EntityTags.step Resources.addMemoryBlock
    dsimp only
    split
    · apply h.append
      rintro _ ⟨⟩
      exact hguard
    · exact h

theorem inv_start (cacheVersionETag : ℕ) (disk : List UInt8 → Option DiskFile) :
    Inv (start cacheVersionETag disk) where
  explained _ hx := absurd hx List.not_mem_nil
  scenarios _ hin := absurd hin List.not_mem_nil
  sound := List.Pairwise.nil

/-- In a run whose requests leave the tags what they were, every 304 and every 206 is sound. -/
theorem sound_of_steady (cacheVersionETag : ℕ) (disk : List UInt8 → Option DiskFile) {s : Site}
    (h : Reaches step Guard (start cacheVersionETag disk) s) : Sound s.history := by
  have hinv : Inv s := h.invariant (inv_start cacheVersionETag disk)
    fun s event hinv hguard => hinv.step hguard
  exact hinv.sound

instance (r : Response) : Decidable r.IsContent := inferInstanceAs (Decidable (_ ∨ _))

instance (later earlier : Exchange) : Decidable (NotModifiedSound later earlier) :=
  inferInstanceAs (Decidable (_ → _))

instance (later earlier : Exchange) : Decidable (PartsDistinct later earlier) :=
  inferInstanceAs (Decidable (_ → _))

instance (history : List Exchange) : Decidable (Sound history) :=
  inferInstanceAs (Decidable (List.Pairwise _ history))

/-- A request for a name that is its URL, and what the callback writes if it runs. -/
def get (url : List UInt8) (range : ByteRange) (eTag : Option (List UInt8)) (found : Option ℕ)
    (clock : ℕ) (body : List UInt8) : Arrival :=
  { url
    filename := url
    request :=
      { requestType := .GET
        keepalive := true
        eTag
        ifModifiedSince := none
        ifUnmodifiedSince := none
        range }
    found
    resolves := fun _ => true
    created := true
    loaded := true
    clock
    call :=
      { page := 0
        rqst := true
        callback :=
          { content := 1
            contentSize := body.length
            MAXcontentSize := 64
            headerResponse := 0
            contentContainsPathToFileToBeStreamed := false
            memory := fun _ => body } } }

def clockPage : Page := .registered 500 1 64 fun _ => []

/-- The tag of the page at the URL `p` with the version 7. -/
def clockTag : List UInt8 :=
  tag { cacheVersionETag := 7, cache := [], disk := fun _ => none }
    { filename := [112], stored := none, doNOTCacheRule := false, dynamicRequest := none } .ignored

/-- A page that was written, and a client that comes back with its tag. -/
theorem writtenOnce_sound :
    Sound (step (step (step (start 7 fun _ => none) (.addMemoryBlock [112] clockPage true))
      (.request (get [112] .ignored none (some 0) 1000 [65])))
      (.request (get [112] .ignored (some clockTag) (some 0) 1200 [65]))).history := by
  apply sound_of_steady 7 fun _ => none
  refine .step _ (.step _ (.step _ .start ?_) ?_) ?_
  · rintro ⟨h, -⟩
    cases h
  · exact ⟨by decide, fun x hx => absurd hx List.not_mem_nil, .inl rfl,
      fun _ _ _ _ _ _ _ _ x hx => absurd hx List.not_mem_nil,
      fun _ _ _ _ _ _ _ x hx => absurd hx List.not_mem_nil⟩
  · refine ⟨by decide, fun x hx => ?_, .inl rfl, fun _ _ _ _ _ _ _ _ x hx _ _ => ?_,
      fun _ _ _ _ _ _ _ x hx _ _ h206 => ?_⟩
    · rw [List.mem_singleton.mp hx]
      exact fun _ h => absurd rfl h
    · rw [List.mem_singleton.mp hx]
      decide
    · rw [List.mem_singleton.mp hx] at h206
      refine absurd h206 ?_
      decide

/-- A page keeps its tag when it changes, and a client that has the first version is told that
nothing has changed since. -/
theorem writtenTwice_not_sound :
    ¬Sound ([.addMemoryBlock [112] clockPage true,
      .request (get [112] .ignored none (some 0) 1000 [65]),
      .request (get [112] .ignored none (some 0) 2000 [66]),
      .request (get [112] .ignored (some clockTag) (some 0) 2100 [67])].foldl step
        (start 7 fun _ => none)).history := by
  decide

end AmmarServer.Network.EntityTags
