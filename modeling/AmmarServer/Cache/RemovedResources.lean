import AmmarServer.Cache.CacheSteps
import AmmarServer.Hashmap.Unsorted

/-! What lookups still find of a resource with a callback that was added and removed. -/

namespace AmmarServer.Cache.Items
open CString Hashmap Searching HeaderAnalysis

/-- The item has the content, the size or the callback of the context. -/
def Refers (context : RHContext) (item : CacheItem) : Prop :=
  (context.content ≠ 0 ∧ item.content = context.content) ∨
    item.contentSize = some (.ofContext context.address) ∨
    (context.dynamicRequestCallbackFunction ≠ 0 ∧
      item.dynamicRequestCallbackFunction = context.dynamicRequestCallbackFunction)

/-- No lookup, of any path and with any hint, yields an item that refers to the context. -/
def Forgotten (qsort : Qsort HashMapEntry.keyHash) (bsearch : Bsearch HashMapEntry.keyHash)
    (inst : CacheInstance) (context : RHContext) : Prop :=
  ∀ path hint index item, (findResource qsort bsearch inst path hint).1 = (true, index) →
    inst.item index = .ok item → ¬ Refers context item

/-! Lookups without sorting. -/

/-- The entry that a lookup without a hint answers with: the first one if it has the hash of the name,
or else the first one of the name. -/
def hit (entries : List HashMapEntry) (name : List UInt8) : Option HashMapEntry :=
  if entries.head?.any fun e => e.keyHash = hashFunction name then entries.head?
  else entries.find? fun e => e.keyHash = hashFunction name ∧ name = e.key

/-- The index that an entry stands for. -/
def indexOf (e : HashMapEntry) : ℕ := e.payload % 2 ^ 32

section Lookups
variable {qsort : Qsort HashMapEntry.keyHash} {bsearch : Bsearch HashMapEntry.keyHash}
  {inst : CacheInstance}

theorem findResource_null (hcache : inst.cache = .null) (path : List UInt8) (hint : ℕ) :
    findResource qsort bsearch inst path hint = ((false, hint), inst) := by
  unfold findResource cacheFindResource
  rw [if_pos (by simpa using hcache)]

theorem findResource_eq (h : Unsorted inst.cacheHashMap) (hcache : inst.cache ≠ .null)
    (path : List UInt8) (hint : ℕ) :
    findResource qsort bsearch inst path hint =
      (match (hashMapFindIndex qsort bsearch inst.cacheHashMap path hint).1 with
        | (true, i) => (true, (inst.cacheHashMap.entries[i]?.map (·.payload)).getD 0 % 2 ^ 32)
        | (false, _) => (false, hint), inst) := by
  have hsame := (findIndex_finds qsort bsearch path hint h).1
  unfold findResource cacheFindResource hashMapGetULongPayload
  rw [if_neg (by simpa using hcache)]
  generalize hashMapFindIndex qsort bsearch inst.cacheHashMap path hint = answer at hsame
  obtain ⟨⟨found, i⟩, hm⟩ := answer
  simp only at hsame
  subst hsame
  cases found <;> rfl

variable (qsort bsearch) in
/-- Every entry is found by its own key with its position for hint, and nothing else is found. -/
theorem finds_iff (h : Unsorted inst.cacheHashMap) (hcache : inst.cache ≠ .null) (index : ℕ) :
    (∃ path hint, (findResource qsort bsearch inst path hint).1 = (true, index)) ↔
      ∃ e ∈ inst.cacheHashMap.entries, indexOf e = index := by
  constructor
  · rintro ⟨path, hint, hfound⟩
    rw [findResource_eq h hcache] at hfound
    obtain ⟨-, hfinds⟩ := findIndex_finds qsort bsearch path hint h
    generalize (hashMapFindIndex qsort bsearch inst.cacheHashMap path hint).1 = answer at hfinds hfound
    cases hfinds with
    | hinted he =>
      refine ⟨_, List.mem_of_getElem? he, ?_⟩
      have hindex := (Prod.mk.inj hfound).2
      rwa [he] at hindex
    | searched he =>
      refine ⟨_, List.mem_of_getElem? he, ?_⟩
      have hindex := (Prod.mk.inj hfound).2
      rwa [he] at hindex
    | missed => cases hfound
  · rintro ⟨e, he, rfl⟩
    obtain ⟨i, hi⟩ := List.mem_iff_getElem?.mp he
    refine ⟨e.key, i, ?_⟩
    rw [findResource_eq h hcache]
    have hok : hashMapIsOK inst.cacheHashMap = true := by
      by_contra hno
      rw [h.empty (Bool.eq_false_of_not_eq_true hno)] at he
      cases he
    rw [findIndex_unsorted hok h.useSorting]
    simp only [hi, Option.any_some, h.hashed e he, decide_true, if_true]
    rfl

theorem findResource_zero (h : Unsorted inst.cacheHashMap) (hcache : inst.cache ≠ .null)
    (name : List UInt8) :
    findResource qsort bsearch inst name 0 =
      (match hit inst.cacheHashMap.entries name with
        | some e => (true, indexOf e)
        | none => (false, 0), inst) := by
  rw [findResource_eq h hcache]
  cases hok : hashMapIsOK inst.cacheHashMap with
  | false =>
    have hempty := h.empty hok
    unfold hashMapFindIndex hit
    rw [hok, hempty]
    rfl
  | true =>
    rw [findIndex_unsorted hok h.useSorting, ← List.head?_eq_getElem?]
    unfold hit
    by_cases hhash : inst.cacheHashMap.entries.head?.any fun e => e.keyHash = hashFunction name
    · rw [if_pos hhash, if_pos hhash]
      cases hhead : inst.cacheHashMap.entries.head? with
      | none =>
        rw [hhead] at hhash
        cases hhash
      | some e =>
        have hzero : inst.cacheHashMap.entries[0]? = some e := by
          rw [← List.head?_eq_getElem?, hhead]
        simp only [hzero]
        rfl
    · rw [if_neg hhash, if_neg hhash, List.find?_eq_bind_findIdx?_getElem?]
      unfold hashMapFindIndexSerial hashMapFindIndexSerialWithPrecomputedHash
      cases hfind : inst.cacheHashMap.entries.findIdx? fun e =>
          decide (e.keyHash = hashFunction name ∧ name = e.key) with
      | none => rfl
      | some i =>
        have hi := (List.findIdx?_eq_some_iff_getElem.mp hfind).1
        simp only [Option.bind_some, List.getElem?_eq_getElem hi]
        rfl

end Lookups

/-! What adding and removing does. -/

/-- The entries behind `cache_AddMemoryBlock`: the key of the context comes last, if it is added. -/
def entriesBehind (inst : CacheInstance) (context : RHContext) (heap : Heap) : List HashMapEntry :=
  if HasSlot inst ∧ Takes inst.cacheHashMap heap then
    inst.cacheHashMap.entries ++
      [{ index := inst.cacheHashMap.curNumberOfEntries, keyHash := hashFunction (fullFilename context),
         key := fullFilename context, payloadLength := 0, payload := inst.loaded_cache_items }]
  else inst.cacheHashMap.entries

/-- The item at an index refers to the context behind it: it is the new one, or it did before. -/
def RefersAt (inst : CacheInstance) (context : RHContext) (index : ℕ) : Prop :=
  HasSlot inst ∧ index = inst.loaded_cache_items ∨
    ∃ item, inst.item index = .ok item ∧ Refers context item

/-- Of all the items that can be found, no other refers to the context than the one that the lookup of
its name answers with. -/
def Undoes (inst : CacheInstance) (context : RHContext) (heap : Heap) : Prop :=
  ∀ e ∈ entriesBehind inst context heap, RefersAt inst context (indexOf e) →
    (hit (entriesBehind inst context heap) (cstring context.resource_name)).map indexOf =
      some (indexOf e)

theorem unsorted_of_create {inst inst' : CacheInstance} {resource : List UInt8} {index : ℕ}
    {heap : Heap} {answer : Bool × ℕ} (h : Unsorted inst.cacheHashMap)
    (hcreate : cacheCreateResource inst resource index heap = .ok (answer, inst')) :
    Unsorted inst'.cacheHashMap := by
  by_cases hslot : HasSlot inst
  · rw [createResource_free hslot] at hcreate
    cases hkey : hashMapAddULong inst.cacheHashMap resource inst.loaded_cache_items heap with
    | error fault =>
      rw [hkey] at hcreate
      cases hcreate
    | ok added =>
      rw [hkey] at hcreate
      obtain ⟨-, rfl⟩ := Prod.mk.inj (Except.ok.inj hcreate)
      exact (h.of_add hkey).1
  · rw [createResource_full hslot] at hcreate
    obtain ⟨-, rfl⟩ := Prod.mk.inj (Except.ok.inj hcreate)
    exact h

/-- What `cache_AddMemoryBlock` leaves. -/
structure AddsBlock (inst inst' : CacheInstance) (context : RHContext) (heap : Heap) : Prop where
  unsorted : Unsorted inst'.cacheHashMap
  entries : inst'.cacheHashMap.entries = entriesBehind inst context heap
  null_iff : inst'.cache = .null ↔ inst.cache = .null
  refers_iff : ∀ index, (∃ item, inst'.item index = .ok item ∧ Refers context item) ↔
    RefersAt inst context index

theorem setItem_cache_null {inst : CacheInstance} {index : ℕ} {item : CacheItem} :
    (inst.setItem index item).cache = .null ↔ inst.cache = .null := by
  unfold CacheInstance.setItem
  split
  · rename_i cache hcache
    rw [hcache]
    exact iff_of_false (fun h => nomatch h) (fun h => nomatch h)
  · exact Iff.rfl

theorem addsBlock_of_addMemoryBlock {inst inst' : CacheInstance} {context : RHContext} {heap : Heap}
    {answer : Bool} (h : Unsorted inst.cacheHashMap)
    (hadd : cacheAddMemoryBlock inst context heap = .ok (answer, inst')) :
    AddsBlock inst inst' context heap := by
  unfold cacheAddMemoryBlock at hadd
  by_cases hslot : HasSlot inst
  · rw [createResource_free hslot] at hadd
    cases hkey : hashMapAddULong inst.cacheHashMap (fullFilename context) inst.loaded_cache_items
        heap with
    | error fault =>
      rw [hkey] at hadd
      cases hadd
    | ok added =>
      obtain ⟨added, hm⟩ := added
      rw [hkey] at hadd
      simp only at hadd
      obtain ⟨hunsorted, happended, hrefused⟩ := h.of_add hkey
      split at hadd
      · cases hadd
      · rename_i item hitem
        obtain ⟨-, rfl⟩ := Prod.mk.inj (Except.ok.inj hadd)
        constructor
        · rw [setItem_cacheHashMap]
          exact hunsorted
        · rw [setItem_cacheHashMap]
          unfold entriesBehind
          split
          · rename_i hboth
            exact (happended hboth.2).entries
          · rename_i hno
            exact hrefused fun htakes => hno ⟨hslot, htakes⟩
        · exact setItem_cache_null
        · intro index
          unfold RefersAt
          rw [item_setItem _ hitem]
          split
          · rename_i hindex
            exact iff_of_true ⟨_, rfl, .inr (.inl rfl)⟩ (.inl ⟨hslot, hindex⟩)
          · rename_i hindex
            rw [or_iff_right fun hnew => hindex hnew.2]
            exact Iff.rfl
  · rw [createResource_full hslot] at hadd
    obtain ⟨-, rfl⟩ := Prod.mk.inj (Except.ok.inj hadd)
    refine ⟨h, (if_neg fun hboth => hslot hboth.1).symm, Iff.rfl, fun index => ?_⟩
    exact (or_iff_right fun hnew => hslot hnew.1).symm

theorem not_refers_removed {context : RHContext} {removed : CacheItem} (hcontent : removed.content = 0)
    (hsize : removed.contentSize = none) (hcallback : removed.dynamicRequestCallbackFunction = 0) :
    ¬ Refers context removed := by
  rintro (⟨hne, hsame⟩ | hsame | ⟨hne, hsame⟩)
  · exact hne (hsame.symm.trans hcontent)
  · rw [hsize] at hsame
    cases hsame
  · exact hne (hsame.symm.trans hcallback)

theorem forgotten_iff_undoes (qsort : Qsort HashMapEntry.keyHash)
    (bsearch : Bsearch HashMapEntry.keyHash) {inst inst₁ inst₂ : CacheInstance}
    {context context' : RHContext} {heap : Heap} {answer free_mem : Bool}
    (h : Unsorted inst.cacheHashMap)
    (hadd : cacheAddMemoryBlock inst context heap = .ok (answer, inst₁))
    (hremove : cacheRemoveContextAndResource qsort bsearch inst₁ context free_mem =
      .ok (inst₂, context')) :
    Forgotten qsort bsearch inst₂ context ↔ Undoes inst context heap := by
  have hadds := addsBlock_of_addMemoryBlock h hadd
  by_cases hnull : inst₁.cache = .null
  · -- Without a cache, nothing is found and nothing refers to the context.
    unfold cacheRemoveContextAndResource at hremove
    simp only [findResource_null hnull] at hremove
    obtain ⟨rfl, -⟩ := Prod.mk.inj (Except.ok.inj hremove)
    have hnone : ∀ index item, inst₁.item index ≠ .ok item := by
      intro index item hitem
      unfold CacheInstance.item at hitem
      rw [hnull] at hitem
      cases hitem
    refine iff_of_true (fun _ _ index item _ hitem => absurd hitem (hnone index item)) ?_
    intro e _ hrefers
    obtain ⟨item, hitem, -⟩ := (hadds.refers_iff _).mpr hrefers
    exact absurd hitem (hnone _ item)
  · have hname : findResource qsort bsearch inst₁ (cstring context.resource_name) 0 = _ :=
      findResource_zero hadds.unsorted hnull _
    have hsettled : ∀ inst₂ : CacheInstance, inst₂.cacheHashMap = inst₁.cacheHashMap →
        (inst₂.cache = .null ↔ inst₁.cache = .null) →
        (∀ index, (∃ item, inst₂.item index = .ok item ∧ Refers context item) ↔
          RefersAt inst context index ∧ (hit (entriesBehind inst context heap)
            (cstring context.resource_name)).map indexOf ≠ some index) →
        (Forgotten qsort bsearch inst₂ context ↔ Undoes inst context heap) := by
      intro inst₂ hmap hcache hrefers
      have hunsorted : Unsorted inst₂.cacheHashMap := hmap ▸ hadds.unsorted
      have hfinds := finds_iff qsort bsearch hunsorted (fun h => hnull (hcache.mp h))
      rw [hmap, hadds.entries] at hfinds
      constructor
      · intro hforgotten e he hat
        by_contra hother
        obtain ⟨item, hitem, hitemRefers⟩ := (hrefers (indexOf e)).mpr ⟨hat, hother⟩
        obtain ⟨path, hint, hfound⟩ := (hfinds (indexOf e)).mpr ⟨e, he, rfl⟩
        exact hforgotten path hint _ item hfound hitem hitemRefers
      · intro hundoes path hint index item hfound hitem hitemRefers
        obtain ⟨e, he, rfl⟩ := (hfinds index).mp ⟨path, hint, hfound⟩
        obtain ⟨hat, hother⟩ := (hrefers (indexOf e)).mp ⟨item, hitem, hitemRefers⟩
        exact hother (hundoes e he hat)
    unfold cacheRemoveContextAndResource at hremove
    have hsame : (if free_mem then { context with content := 0 } else context).resource_name =
        context.resource_name := by
      split <;> rfl
    simp only [hsame, hname, hadds.entries] at hremove
    cases hhit : hit (entriesBehind inst context heap) (cstring context.resource_name) with
    | none =>
      rw [hhit] at hremove
      obtain ⟨rfl, -⟩ := Prod.mk.inj (Except.ok.inj hremove)
      refine hsettled inst₁ rfl Iff.rfl fun index => ?_
      rw [hadds.refers_iff, hhit]
      exact (and_iff_left fun hfound => nomatch hfound).symm
    | some f =>
      rw [hhit] at hremove
      simp only at hremove
      split at hremove
      · cases hremove
      · rename_i removedInst hremoved
        obtain ⟨rfl, -⟩ := Prod.mk.inj (Except.ok.inj hremove)
        have hremoves := removes_of_removeResource hremoved
        obtain ⟨removed, hcontent, hsize, hcallback, hitems⟩ := hremoves.item_eq
        refine hsettled removedInst hremoves.sameIndex.cacheHashMap ?_ fun index => ?_
        · refine iff_of_false (fun hgone => ?_) hnull
          obtain ⟨n, hlength, -⟩ := item_isOk_iff.mp ⟨removed, (hitems (indexOf f)).trans (if_pos rfl)⟩
          rw [hgone] at hlength
          cases hlength
        · rw [hitems, hhit, ← hadds.refers_iff]
          split
          · rename_i hindex
            refine iff_of_false ?_ fun hboth => hboth.2 (congrArg some hindex.symm)
            rintro ⟨item, hitem, hrefers⟩
            obtain rfl := Except.ok.inj hitem
            exact not_refers_removed hcontent hsize hcallback hrefers
          · rename_i hindex
            exact (and_iff_left fun hfound => hindex (Option.some.inj hfound).symm).symm

/-! The states of a cache. -/

/-- The states that the calls lead to from an instance before its first `cache_Initialize`. -/
inductive Reachable (qsort : Qsort HashMapEntry.keyHash) (bsearch : Bsearch HashMapEntry.keyHash) :
    CacheInstance → Prop
  | fresh : Reachable qsort bsearch .fresh
  | initialized {inst : CacheInstance} (items total each : ℕ) (cacheMemory hashMapMemory : Bool) :
      Reachable qsort bsearch inst →
      Reachable qsort bsearch (cacheInitialize inst items total each cacheMemory hashMapMemory).2
  | findResource {inst : CacheInstance} (resource : List UInt8) (index : ℕ) :
      Reachable qsort bsearch inst →
      Reachable qsort bsearch (findResource qsort bsearch inst resource index).2
  | createResource {inst inst' : CacheInstance} {resource : List UInt8} {index : ℕ} {heap : Heap}
      {answer : Bool × ℕ} : Reachable qsort bsearch inst →
      cacheCreateResource inst resource index heap = .ok (answer, inst') →
      Reachable qsort bsearch inst'
  | loadResource {inst inst' : CacheInstance} {index : ℕ} {reading : Reading} {answer : Bool} :
      Reachable qsort bsearch inst →
      cacheLoadResourceFromDisk inst index reading = .ok (answer, inst') →
      Reachable qsort bsearch inst'
  | addFile {inst inst' : CacheInstance} {filename : List UInt8} {index : ℕ} {heap : Heap}
      {reading : Reading} {answer : Bool × ℕ} : Reachable qsort bsearch inst →
      cacheAddFile inst filename index heap reading = .ok (answer, inst') →
      Reachable qsort bsearch inst'
  | addMemoryBlock {inst inst' : CacheInstance} {context : RHContext} {heap : Heap} {answer : Bool} :
      Reachable qsort bsearch inst →
      cacheAddMemoryBlock inst context heap = .ok (answer, inst') →
      Reachable qsort bsearch inst'
  | addDoNOTCacheRule {inst inst' : CacheInstance} {filename : List UInt8} {heap : Heap}
      {answer : Bool} : Reachable qsort bsearch inst →
      cacheAddDoNOTCacheRuleForResource qsort bsearch inst filename heap = .ok (answer, inst') →
      Reachable qsort bsearch inst'
  | removeResource {inst inst' : CacheInstance} {index : ℕ} : Reachable qsort bsearch inst →
      cacheRemoveResource inst index = .ok inst' → Reachable qsort bsearch inst'
  | removeContext {inst inst' : CacheInstance} {context context' : RHContext} {free_mem : Bool} :
      Reachable qsort bsearch inst →
      cacheRemoveContextAndResource qsort bsearch inst context free_mem = .ok (inst', context') →
      Reachable qsort bsearch inst'
  | destroy {inst inst' : CacheInstance} : Reachable qsort bsearch inst →
      cacheDestroy inst = .ok inst' → Reachable qsort bsearch inst'

theorem unsorted_noHashMap : Unsorted noHashMap := unsorted_create 0 (by decide)

theorem unsorted_initialize {inst : CacheInstance} (h : Unsorted inst.cacheHashMap)
    (items total each : ℕ) (cacheMemory hashMapMemory : Bool) :
    Unsorted (cacheInitialize inst items total each cacheMemory hashMapMemory).2.cacheHashMap := by
  have hmap : Unsorted (if hashMapMemory then hashMapCreate items 1000 false else noHashMap) := by
    split
    · exact unsorted_create items (by decide)
    · exact unsorted_noHashMap
  unfold cacheInitialize
  simp only
  split
  · split
    · exact hmap
    · exact h
  · exact hmap

theorem findResource_same (qsort : Qsort HashMapEntry.keyHash)
    (bsearch : Bsearch HashMapEntry.keyHash) {inst : CacheInstance} (h : Unsorted inst.cacheHashMap)
    (path : List UInt8) (hint : ℕ) : (findResource qsort bsearch inst path hint).2 = inst := by
  by_cases hcache : inst.cache = .null
  · rw [findResource_null hcache]
  · rw [findResource_eq h hcache]

theorem markDoNOTCache_hashMap {inst inst' : CacheInstance} {index : ℕ} {answer : Bool}
    (h : markDoNOTCache inst index = .ok (answer, inst')) :
    inst'.cacheHashMap = inst.cacheHashMap := by
  unfold markDoNOTCache at h
  split at h
  · cases h
  · obtain ⟨-, rfl⟩ := Prod.mk.inj (Except.ok.inj h)
    exact setItem_cacheHashMap ..

theorem unsorted_rule {qsort : Qsort HashMapEntry.keyHash}
    {bsearch : Bsearch HashMapEntry.keyHash} {inst inst' : CacheInstance} {filename : List UInt8}
    {heap : Heap} {answer : Bool} (h : Unsorted inst.cacheHashMap)
    (hrule : cacheAddDoNOTCacheRuleForResource qsort bsearch inst filename heap =
      .ok (answer, inst')) : Unsorted inst'.cacheHashMap := by
  have hfound := findResource_same qsort bsearch h filename 0
  unfold cacheAddDoNOTCacheRuleForResource at hrule
  split at hrule
  · rename_i hfirst
    rw [hfirst] at hfound
    subst hfound
    rw [markDoNOTCache_hashMap hrule]
    exact h
  · rename_i hfirst
    rw [hfirst] at hfound
    subst hfound
    split at hrule
    · cases hrule
    · rename_i hcreate
      obtain ⟨-, rfl⟩ := Prod.mk.inj (Except.ok.inj hrule)
      exact unsorted_of_create h hcreate
    · rename_i hcreate
      have hcreated := unsorted_of_create h hcreate
      split at hrule
      · rename_i hsecond
        have hsame := (congrArg Prod.snd hsecond).symm.trans
          (findResource_same qsort bsearch hcreated _ _)
        simp only at hsame
        rw [markDoNOTCache_hashMap hrule]
        exact hsame.symm ▸ hcreated
      · rename_i hsecond
        have hsame := (congrArg Prod.snd hsecond).symm.trans
          (findResource_same qsort bsearch hcreated _ _)
        simp only at hsame
        obtain ⟨-, rfl⟩ := Prod.mk.inj (Except.ok.inj hrule)
        exact hsame.symm ▸ hcreated

/-- Every call keeps the keys of the cache unsorted and its table sound. -/
theorem Reachable.unsorted {qsort : Qsort HashMapEntry.keyHash}
    {bsearch : Bsearch HashMapEntry.keyHash} {inst : CacheInstance}
    (h : Reachable qsort bsearch inst) : Unsorted inst.cacheHashMap := by
  induction h with
  | fresh => exact unsorted_noHashMap
  | initialized items total each cacheMemory hashMapMemory _ ih => exact unsorted_initialize ih ..
  | findResource resource index _ ih =>
    rw [findResource_same qsort bsearch ih]
    exact ih
  | createResource _ hcreate ih => exact unsorted_of_create ih hcreate
  | loadResource _ hload ih =>
    rw [(loads_of_loadResource hload).sameIndex.cacheHashMap]
    exact ih
  | @addFile inst _ filename index heap _ answer _ hadd ih =>
    by_cases hslot : HasSlot inst
    · obtain ⟨added, hm, hkey, -, hloads⟩ := addFile_loads hslot hadd
      rw [hloads.sameIndex.cacheHashMap]
      exact (setItem_cacheHashMap ..).symm ▸ (ih.of_add hkey).1
    · unfold cacheAddFile at hadd
      rw [createResource_full hslot] at hadd
      obtain ⟨-, rfl⟩ := Prod.mk.inj (Except.ok.inj hadd)
      exact ih
  | addMemoryBlock _ hadd ih => exact (addsBlock_of_addMemoryBlock ih hadd).unsorted
  | addDoNOTCacheRule _ hrule ih => exact unsorted_rule ih hrule
  | removeResource _ hremove ih =>
    rw [(removes_of_removeResource hremove).sameIndex.cacheHashMap]
    exact ih
  | @removeContext _ _ context _ free_mem _ hremove ih =>
    unfold cacheRemoveContextAndResource at hremove
    dsimp only at hremove
    generalize (if free_mem then { context with content := 0 } else context) = removed at hremove
    split at hremove
    · rename_i hfound
      obtain ⟨rfl, -⟩ := Prod.mk.inj (Except.ok.inj hremove)
      have hsame := (congrArg Prod.snd hfound).symm.trans (findResource_same qsort bsearch ih _ _)
      simp only at hsame
      exact hsame.symm ▸ ih
    · rename_i hfound
      have hsame := (congrArg Prod.snd hfound).symm.trans (findResource_same qsort bsearch ih _ _)
      simp only at hsame
      split at hremove
      · cases hremove
      · rename_i hremoved
        obtain ⟨rfl, -⟩ := Prod.mk.inj (Except.ok.inj hremove)
        rw [(removes_of_removeResource hremoved).sameIndex.cacheHashMap]
        exact hsame.symm ▸ ih
  | destroy _ hdestroy ih =>
    unfold cacheDestroy at hdestroy
    split at hdestroy
    · obtain rfl := Except.ok.inj hdestroy
      exact ih
    · split at hdestroy
      · cases hdestroy
      · split at hdestroy
        · cases hdestroy
        · obtain rfl := Except.ok.inj hdestroy
          exact unsorted_noHashMap

/-- For every state of the cache and every context, what was added and removed is forgotten just if
the lookup of its name answers with the only item that refers to it. -/
theorem removed_forgotten_iff (qsort : Qsort HashMapEntry.keyHash)
    (bsearch : Bsearch HashMapEntry.keyHash) {inst inst₁ inst₂ : CacheInstance}
    {context context' : RHContext} {heap : Heap} {answer : Bool} (free_mem : Bool)
    (h : Reachable qsort bsearch inst)
    (hadd : cacheAddMemoryBlock inst context heap = .ok (answer, inst₁))
    (hremove : cacheRemoveContextAndResource qsort bsearch inst₁ context free_mem =
      .ok (inst₂, context')) :
    Forgotten qsort bsearch inst₂ context ↔ Undoes inst context heap :=
  forgotten_iff_undoes qsort bsearch h.unsorted hadd hremove

/-- A page of a server whose root is `public_html`. -/
def page : RHContext :=
  { address := 4096
    web_root_path := ascii "public_html"
    resource_name := ascii "/page.html"
    content := 8192
    dynamicRequestCallbackFunction := 12288 }

/-- A cache of three items. -/
def threeItems : CacheInstance := (cacheInitialize .fresh 3 128 3 true true).2

theorem reachable_threeItems : Reachable .insertion .halving threeItems :=
  .initialized 3 128 3 true true .fresh

/-- A page without a root. -/
def bare : RHContext := { page with web_root_path := [] }

theorem removed_forgotten_iff_bare :
    Forgotten .insertion .halving ((threeItems.created (addEntry threeItems.cacheHashMap
        (ascii "/page.html") 0 0)).setItem 0 { CacheItem.zero with dynamicRequest := 4096 }) bare ↔
      Undoes threeItems bare ⟨true, true, none⟩ := by
  have hadd : cacheAddMemoryBlock threeItems bare ⟨true, true, none⟩ = .ok (true, _) := rfl
  exact removed_forgotten_iff .insertion .halving false reachable_threeItems hadd (by rfl)

/-- A page that is removed is still found under its full name. -/
theorem page_notForgotten :
    ¬ ∀ (inst inst₁ inst₂ : CacheInstance) (context context' : RHContext) (heap : Heap)
      (answer free_mem : Bool), Reachable .insertion .halving inst →
      cacheAddMemoryBlock inst context heap = .ok (answer, inst₁) →
      cacheRemoveContextAndResource .insertion .halving inst₁ context free_mem =
        .ok (inst₂, context') →
      Forgotten .insertion .halving inst₂ context := by
  intro h
  have hforgotten := h threeItems _ _ page _ ⟨true, true, none⟩ _ false reachable_threeItems rfl rfl
  exact hforgotten (ascii "public_html/page.html") 0 0 _ rfl rfl (.inr (.inl rfl))

end AmmarServer.Cache.Items
