import AmmarServer.Cache.CacheItems

/-! What each call of `cache/file_caching.c` can do to the items of the cache. -/

namespace AmmarServer.Cache.Items
open CString Hashmap

/-! What the functions leave alone. -/

section Fields
variable (inst : CacheInstance) (index : ℕ) (item : CacheItem)

@[simp] theorem setItem_cacheHashMap :
    (inst.setItem index item).cacheHashMap = inst.cacheHashMap := by
  unfold CacheInstance.setItem
  split <;> rfl

@[simp] theorem setItem_loaded :
    (inst.setItem index item).loaded_cache_items = inst.loaded_cache_items := by
  unfold CacheInstance.setItem
  split <;> rfl

@[simp] theorem setItem_Kbytes :
    (inst.setItem index item).loaded_cache_items_Kbytes = inst.loaded_cache_items_Kbytes := by
  unfold CacheInstance.setItem
  split <;> rfl

@[simp] theorem setItem_MAX_CACHE_SIZE_IN_MB :
    (inst.setItem index item).MAX_CACHE_SIZE_IN_MB = inst.MAX_CACHE_SIZE_IN_MB := by
  unfold CacheInstance.setItem
  split <;> rfl

@[simp] theorem setItem_MAX_CACHE_SIZE_FOR_EACH_FILE_IN_MB :
    (inst.setItem index item).MAX_CACHE_SIZE_FOR_EACH_FILE_IN_MB =
      inst.MAX_CACHE_SIZE_FOR_EACH_FILE_IN_MB := by
  unfold CacheInstance.setItem
  split <;> rfl

@[simp] theorem setItem_MAX_SEPERATE_CACHE_ITEMS :
    (inst.setItem index item).MAX_SEPERATE_CACHE_ITEMS = inst.MAX_SEPERATE_CACHE_ITEMS := by
  unfold CacheInstance.setItem
  split <;> rfl

end Fields

theorem weCanCommit_congr {inst inst' : CacheInstance} (size : ℕ)
    (hkbytes : inst'.loaded_cache_items_Kbytes = inst.loaded_cache_items_Kbytes)
    (htotal : inst'.MAX_CACHE_SIZE_IN_MB = inst.MAX_CACHE_SIZE_IN_MB)
    (heach : inst'.MAX_CACHE_SIZE_FOR_EACH_FILE_IN_MB = inst.MAX_CACHE_SIZE_FOR_EACH_FILE_IN_MB) :
    instanceWeCanCommitMoreMemory inst' size = instanceWeCanCommitMoreMemory inst size := by
  unfold instanceWeCanCommitMoreMemory
  rw [hkbytes, htotal, heach]

/-! A slot. -/

/-- `cache_CreateResource` gives out an index. -/
def HasSlot (inst : CacheInstance) : Prop :=
  inst.cache ≠ .null ∧ (inst.loaded_cache_items + 1) % 2 ^ 32 < inst.MAX_CACHE_SIZE_IN_MB

instance (inst : CacheInstance) : Decidable (HasSlot inst) := inferInstanceAs (Decidable (_ ∧ _))

/-- The instance behind an index that was given out. -/
def CacheInstance.created (inst : CacheInstance) (cacheHashMap : HashMap) : CacheInstance :=
  { inst with
    cacheHashMap
    loaded_cache_items := (inst.loaded_cache_items + 1) % 2 ^ 32 }

theorem createResource_full {inst : CacheInstance} (h : ¬ HasSlot inst) (resource : List UInt8)
    (index : ℕ) (heap : Heap) :
    cacheCreateResource inst resource index heap = .ok ((false, index), inst) := by
  unfold cacheCreateResource
  split
  · rfl
  · rename_i hcache
    exact if_pos (not_lt.mp fun hlt => h ⟨hcache, hlt⟩)

theorem createResource_free {inst : CacheInstance} (h : HasSlot inst) (resource : List UInt8)
    (index : ℕ) (heap : Heap) :
    cacheCreateResource inst resource index heap =
      match hashMapAddULong inst.cacheHashMap resource inst.loaded_cache_items heap with
      | .error fault => .error (.hashMap fault)
      | .ok (_, cacheHashMap) =>
        .ok ((true, inst.loaded_cache_items), inst.created cacheHashMap) := by
  unfold cacheCreateResource
  rw [if_neg h.1, if_neg (not_le.mpr h.2)]
  rfl

/-! A file. -/

/-- The size that is found for a file that can be opened. -/
def Reading.size (reading : Reading) : Option ℕ :=
  if reading.fopen then
    match reading.stat with
    | some (st_size, _) => some st_size
    | none => if reading.fseek then some reading.ftell else none
  else none

/-- The number of items. -/
def CacheArray.length : CacheArray → Option ℕ
  | .items cache => some cache.length
  | _ => none

theorem item_isOk_iff {inst : CacheInstance} {index : ℕ} :
    (∃ item, inst.item index = .ok item) ↔ ∃ n, inst.cache.length = some n ∧ index < n := by
  unfold CacheInstance.item
  cases inst.cache with
  | null => simp [CacheArray.length]
  | freed => simp [CacheArray.length]
  | items cache =>
    cases hitem : cache[index]? with
    | none =>
      have hle := List.getElem?_eq_none_iff.mp hitem
      simp [CacheArray.length, hle]
    | some item =>
      have hlt := (List.getElem?_eq_some_iff.mp hitem).1
      simp [CacheArray.length, hlt]

theorem item_setItem {inst : CacheInstance} {index : ℕ} {item : CacheItem} (other : CacheItem)
    (h : inst.item index = .ok item) (i : ℕ) :
    (inst.setItem index other).item i = if i = index then .ok other else inst.item i := by
  unfold CacheInstance.item CacheInstance.setItem at *
  cases hcache : inst.cache with
  | null =>
    rw [hcache] at h
    cases h
  | freed =>
    rw [hcache] at h
    cases h
  | items cache =>
    rw [hcache] at h
    simp only at h ⊢
    have hlt : index < cache.length := by
      by_contra hge
      rw [List.getElem?_eq_none (not_lt.mp hge)] at h
      cases h
    rw [List.getElem?_set]
    by_cases hi : i = index
    · subst hi
      simp [hlt]
    · rw [if_neg (Ne.symm hi), if_neg hi]

/-- Two instances with the same index: what may differ is in the items and in the memory that is
counted. -/
structure SameIndex (inst inst' : CacheInstance) : Prop where
  cacheHashMap : inst'.cacheHashMap = inst.cacheHashMap
  loaded_cache_items : inst'.loaded_cache_items = inst.loaded_cache_items
  MAX_SEPERATE_CACHE_ITEMS : inst'.MAX_SEPERATE_CACHE_ITEMS = inst.MAX_SEPERATE_CACHE_ITEMS
  length : inst'.cache.length = inst.cache.length

namespace SameIndex

theorem refl (inst : CacheInstance) : SameIndex inst inst := ⟨rfl, rfl, rfl, rfl⟩

theorem trans {inst inst' inst'' : CacheInstance} (h : SameIndex inst inst')
    (h' : SameIndex inst' inst'') : SameIndex inst inst'' :=
  ⟨h'.cacheHashMap.trans h.cacheHashMap, h'.loaded_cache_items.trans h.loaded_cache_items,
    h'.MAX_SEPERATE_CACHE_ITEMS.trans h.MAX_SEPERATE_CACHE_ITEMS, h'.length.trans h.length⟩

theorem setItem (inst : CacheInstance) (index : ℕ) (item : CacheItem) :
    SameIndex inst (inst.setItem index item) := by
  refine ⟨setItem_cacheHashMap .., setItem_loaded .., setItem_MAX_SEPERATE_CACHE_ITEMS .., ?_⟩
  unfold CacheInstance.setItem
  split
  · rename_i cache hcache
    rw [hcache]
    exact congrArg some List.length_set
  · rfl

theorem counted (inst : CacheInstance) (Kbytes : ℕ) :
    SameIndex inst { inst with loaded_cache_items_Kbytes := Kbytes } := ⟨rfl, rfl, rfl, rfl⟩

theorem countNewMalloc (inst : CacheInstance) (size : ℕ) :
    SameIndex inst (instanceCountNewMallocOP inst size) := counted inst _

theorem countFree (inst : CacheInstance) (size : ℕ) :
    SameIndex inst (instanceCountFreeOP inst size) := counted inst _

end SameIndex

/-- The time of a file that has one is noted before its size is checked. -/
def Stamped (inst : CacheInstance) (index : ℕ) (inst' : CacheInstance) : Prop :=
  inst' = inst ∨ ∃ item time, inst.item index = .ok item ∧
    inst' = inst.setItem index { item with modification_time := time }

/-- The ways of `cache_LoadResourceFromDisk` to an answer. -/
inductive Loads (inst : CacheInstance) (index : ℕ) (reading : Reading) :
    Bool → CacheInstance → Prop
  | unmeasured (hsize : reading.size = none) : Loads inst index reading false inst
  | refused {size : ℕ} {inst' : CacheInstance} (hsize : reading.size = some size)
      (hstamped : Stamped inst index inst')
      (hcan : instanceWeCanCommitMoreMemory inst size = false) :
      Loads inst index reading false inst'
  | unbuffered {size : ℕ} {inst' : CacheInstance} (hsize : reading.size = some size)
      (hstamped : Stamped inst index inst')
      (hcan : instanceWeCanCommitMoreMemory inst size = true) (hbuffer : reading.buffer = 0) :
      Loads inst index reading false inst'
  | short {size : ℕ} {inst' : CacheInstance} (hsize : reading.size = some size)
      (hstamped : Stamped inst index inst')
      (hcan : instanceWeCanCommitMoreMemory inst size = true) (hbuffer : reading.buffer ≠ 0)
      (hfread : reading.fread ≠ size) :
      Loads inst index reading false (instanceCountNewMallocOP inst' (size + 1))
  | whole {size : ℕ} {inst' : CacheInstance} {item : CacheItem} (hsize : reading.size = some size)
      (hstamped : Stamped inst index inst')
      (hcan : instanceWeCanCommitMoreMemory inst size = true) (hbuffer : reading.buffer ≠ 0)
      (hfread : reading.fread = size) (hitem : inst'.item index = .ok item)
      (howned : ∀ context, item.contentSize ≠ some (.ofContext context))
      (hmemory : reading.contentSize = true) :
      Loads inst index reading true ((instanceCountNewMallocOP inst' (size + 1)).setItem index
        { item with content := reading.buffer, contentSize := some (.malloced size) })

theorem Stamped.weCanCommit {inst inst' : CacheInstance} {index : ℕ} (h : Stamped inst index inst')
    (size : ℕ) :
    instanceWeCanCommitMoreMemory inst' size = instanceWeCanCommitMoreMemory inst size := by
  rcases h with rfl | ⟨item, time, -, rfl⟩
  · rfl
  · exact weCanCommit_congr size (setItem_Kbytes ..) (setItem_MAX_CACHE_SIZE_IN_MB ..)
      (setItem_MAX_CACHE_SIZE_FOR_EACH_FILE_IN_MB ..)

theorem Stamped.sameIndex {inst inst' : CacheInstance} {index : ℕ} (h : Stamped inst index inst') :
    SameIndex inst inst' := by
  rcases h with rfl | ⟨item, time, -, rfl⟩
  · exact .refl _
  · exact .setItem ..

theorem item_counted (inst : CacheInstance) (Kbytes index : ℕ) :
    ({ inst with loaded_cache_items_Kbytes := Kbytes } : CacheInstance).item index =
      inst.item index := rfl

theorem item_countNewMalloc (inst : CacheInstance) (size index : ℕ) :
    (instanceCountNewMallocOP inst size).item index = inst.item index := item_counted inst _ index

theorem item_countFree (inst : CacheInstance) (size index : ℕ) :
    (instanceCountFreeOP inst size).item index = inst.item index := item_counted inst _ index

theorem loads_of_readIntoMemory {inst stamped inst' : CacheInstance} {index size : ℕ}
    {reading : Reading} {answer : Bool} (hsize : reading.size = some size)
    (hstamped : Stamped inst index stamped)
    (hcan : instanceWeCanCommitMoreMemory inst size = true)
    (h : readIntoMemory stamped index size reading = .ok (answer, inst')) :
    Loads inst index reading answer inst' := by
  unfold readIntoMemory at h
  split at h
  · rename_i hbuffer
    obtain ⟨rfl, rfl⟩ := Prod.mk.inj (Except.ok.inj h)
    exact .unbuffered hsize hstamped hcan hbuffer
  · rename_i hbuffer
    simp only at h
    split at h
    · rename_i hfread
      obtain ⟨rfl, rfl⟩ := Prod.mk.inj (Except.ok.inj h)
      exact .short hsize hstamped hcan hbuffer hfread
    · rename_i hfread
      split at h
      · cases h
      · rename_i item hitem
        split at h
        · cases h
        · rename_i howned
          split at h
          · rename_i hmemory
            obtain ⟨rfl, rfl⟩ := Prod.mk.inj (Except.ok.inj h)
            exact .whole hsize hstamped hcan hbuffer (not_not.mp hfread) hitem howned hmemory
          · cases h

theorem loads_of_loadResource {inst inst' : CacheInstance} {index : ℕ} {reading : Reading}
    {answer : Bool} (h : cacheLoadResourceFromDisk inst index reading = .ok (answer, inst')) :
    Loads inst index reading answer inst' := by
  unfold cacheLoadResourceFromDisk at h
  split at h
  · rename_i hfopen
    obtain ⟨rfl, rfl⟩ := Prod.mk.inj (Except.ok.inj h)
    exact .unmeasured (if_neg (by simpa using hfopen))
  · rename_i hfopen
    replace hfopen : reading.fopen = true := by simpa using hfopen
    split at h
    · rename_i st_size st_mtime hstat
      have hsize : reading.size = some st_size := by
        unfold Reading.size
        rw [if_pos hfopen, hstat]
      split at h
      · cases h
      · rename_i item hitem
        have hstamped : Stamped inst index
            (inst.setItem index { item with modification_time := st_mtime }) :=
          .inr ⟨item, st_mtime, hitem, rfl⟩
        simp only [hstamped.weCanCommit] at h
        split at h
        · rename_i hcan
          obtain ⟨rfl, rfl⟩ := Prod.mk.inj (Except.ok.inj h)
          exact .refused hsize hstamped (by simpa using hcan)
        · rename_i hcan
          exact loads_of_readIntoMemory hsize hstamped (by simpa using hcan) h
    · rename_i hstat
      split at h
      · rename_i hfseek
        obtain ⟨rfl, rfl⟩ := Prod.mk.inj (Except.ok.inj h)
        refine .unmeasured ?_
        unfold Reading.size
        rw [if_pos hfopen, hstat]
        exact if_neg (by simpa using hfseek)
      · rename_i hfseek
        have hsize : reading.size = some reading.ftell := by
          unfold Reading.size
          rw [if_pos hfopen, hstat]
          exact if_pos (by simpa using hfseek)
        split at h
        · rename_i hcan
          obtain ⟨rfl, rfl⟩ := Prod.mk.inj (Except.ok.inj h)
          exact .refused hsize (.inl rfl) (by simpa using hcan)
        · rename_i hcan
          exact loads_of_readIntoMemory hsize (.inl rfl) (by simpa using hcan) h

/-- The file is opened and measured, its size is within the limits, and all of it is read. -/
def Succeeds (inst : CacheInstance) (reading : Reading) : Prop :=
  ∃ size, reading.size = some size ∧ instanceWeCanCommitMoreMemory inst size = true ∧
    reading.buffer ≠ 0 ∧ reading.fread = size

namespace Loads
variable {inst inst' : CacheInstance} {index : ℕ} {reading : Reading} {answer : Bool}

theorem answer_iff (h : Loads inst index reading answer inst') :
    answer = true ↔ Succeeds inst reading := by
  have hunique : ∀ {size : ℕ}, reading.size = some size → Succeeds inst reading →
      instanceWeCanCommitMoreMemory inst size = true ∧ reading.buffer ≠ 0 ∧
        reading.fread = size := by
    rintro size hsize ⟨s, hs, hread⟩
    obtain rfl := Option.some.inj (hsize.symm.trans hs)
    exact hread
  cases h with
  | unmeasured hsize =>
    refine iff_of_false Bool.false_ne_true ?_
    rintro ⟨s, hs, -⟩
    rw [hsize] at hs
    cases hs
  | refused hsize _ hcan =>
    exact iff_of_false Bool.false_ne_true fun h =>
      Bool.false_ne_true (hcan.symm.trans (hunique hsize h).1)
  | unbuffered hsize _ _ hbuffer =>
    exact iff_of_false Bool.false_ne_true fun h => (hunique hsize h).2.1 hbuffer
  | short hsize _ _ _ hfread =>
    exact iff_of_false Bool.false_ne_true fun h => hfread (hunique hsize h).2.2
  | whole hsize _ hcan hbuffer hfread =>
    exact iff_of_true rfl ⟨_, hsize, hcan, hbuffer, hfread⟩

theorem sameIndex (h : Loads inst index reading answer inst') : SameIndex inst inst' := by
  cases h with
  | unmeasured => exact .refl inst
  | refused _ h => exact h.sameIndex
  | unbuffered _ h => exact h.sameIndex
  | short _ h => exact h.sameIndex.trans (.countNewMalloc ..)
  | whole _ h => exact (h.sameIndex.trans (.countNewMalloc ..)).trans (.setItem ..)

theorem memory (h : Loads inst index reading true inst') : reading.contentSize = true := by
  cases h with
  | whole _ _ _ _ _ _ _ hmemory => exact hmemory

end Loads

/-- A read returns if the item is not a context's and there is memory for the size of the file. -/
theorem loadResource_returns {inst : CacheInstance} {index : ℕ} {item : CacheItem}
    {reading : Reading} (hitem : inst.item index = .ok item)
    (howned : ∀ context, item.contentSize ≠ some (.ofContext context))
    (hmemory : Succeeds inst reading → reading.contentSize = true) :
    ∃ answer inst', cacheLoadResourceFromDisk inst index reading = .ok (answer, inst') := by
  have hread : ∀ {stamped : CacheInstance} {size : ℕ} {item : CacheItem},
      stamped.item index = .ok item →
      (∀ context, item.contentSize ≠ some (.ofContext context)) →
      (reading.buffer ≠ 0 → reading.fread = size → reading.contentSize = true) →
      ∃ answer inst', readIntoMemory stamped index size reading = .ok (answer, inst') := by
    intro stamped size item hitem howned hmemory
    unfold readIntoMemory
    split
    · exact ⟨_, _, rfl⟩
    · rename_i hbuffer
      simp only
      split
      · exact ⟨_, _, rfl⟩
      · rename_i hfread
        rw [item_countNewMalloc, hitem]
        simp only
        cases hsize : item.contentSize with
        | none =>
          rw [if_pos (hmemory hbuffer (not_not.mp hfread))]
          exact ⟨_, _, rfl⟩
        | some size =>
          cases size with
          | malloced size =>
            rw [if_pos (hmemory hbuffer (not_not.mp hfread))]
            exact ⟨_, _, rfl⟩
          | ofContext context => exact absurd hsize (howned context)
  unfold cacheLoadResourceFromDisk
  split
  · exact ⟨_, _, rfl⟩
  · rename_i hfopen
    replace hfopen : reading.fopen = true := by simpa using hfopen
    split
    · rename_i st_size st_mtime hstat
      have hsize : reading.size = some st_size := by
        unfold Reading.size
        rw [if_pos hfopen, hstat]
      have hstamped : Stamped inst index
          (inst.setItem index { item with modification_time := st_mtime }) :=
        .inr ⟨item, st_mtime, hitem, rfl⟩
      rw [hitem]
      simp only [hstamped.weCanCommit]
      split
      · exact ⟨_, _, rfl⟩
      · rename_i hcan
        have hstamped := (item_setItem { item with modification_time := st_mtime } hitem index).trans
          (if_pos rfl)
        refine hread hstamped howned fun hbuffer hfread => ?_
        exact hmemory ⟨st_size, hsize, by simpa using hcan, hbuffer, hfread⟩
    · rename_i hstat
      split
      · exact ⟨_, _, rfl⟩
      · rename_i hfseek
        have hsize : reading.size = some reading.ftell := by
          unfold Reading.size
          rw [if_pos hfopen, hstat]
          exact if_pos (by simpa using hfseek)
        split
        · exact ⟨_, _, rfl⟩
        · rename_i hcan
          refine hread hitem howned fun hbuffer hfread => ?_
          exact hmemory ⟨_, hsize, by simpa using hcan, hbuffer, hfread⟩

/-- The instance in which `cache_AddFile` reads a file: its item is new and cleared. -/
def CacheInstance.emptied (inst : CacheInstance) (hm : HashMap) : CacheInstance :=
  (inst.created hm).setItem inst.loaded_cache_items .zero

theorem emptied_weCanCommit (inst : CacheInstance) (hm : HashMap) (size : ℕ) :
    instanceWeCanCommitMoreMemory (inst.emptied hm) size =
      instanceWeCanCommitMoreMemory inst size :=
  weCanCommit_congr size (setItem_Kbytes ..) (setItem_MAX_CACHE_SIZE_IN_MB ..)
    (setItem_MAX_CACHE_SIZE_FOR_EACH_FILE_IN_MB ..)

theorem emptied_succeeds {inst : CacheInstance} {hm : HashMap} {reading : Reading} :
    Succeeds (inst.emptied hm) reading ↔ Succeeds inst reading := by
  unfold Succeeds
  simp only [emptied_weCanCommit]

theorem addFile_loads {inst inst' : CacheInstance} {filename : List UInt8} {index idx : ℕ}
    {heap : Heap} {reading : Reading} {answer : Bool} (hslot : HasSlot inst)
    (h : cacheAddFile inst filename index heap reading = .ok ((answer, idx), inst')) :
    ∃ added hm, hashMapAddULong inst.cacheHashMap filename inst.loaded_cache_items heap =
        .ok (added, hm) ∧
      (∃ item, inst.item inst.loaded_cache_items = .ok item) ∧
      Loads (inst.emptied hm) inst.loaded_cache_items reading answer inst' := by
  unfold cacheAddFile at h
  rw [createResource_free hslot] at h
  cases hadd : hashMapAddULong inst.cacheHashMap filename inst.loaded_cache_items heap with
  | error fault =>
    rw [hadd] at h
    cases h
  | ok added =>
    rw [hadd] at h
    simp only at h
    refine ⟨added.1, added.2, rfl, ?_⟩
    split at h
    · cases h
    · rename_i item hitem
      refine ⟨⟨item, hitem⟩, ?_⟩
      split at h
      · cases h
      · rename_i after hread
        obtain ⟨hanswer, rfl⟩ := Prod.mk.inj (Except.ok.inj h)
        obtain ⟨rfl, -⟩ := Prod.mk.inj hanswer
        exact loads_of_loadResource hread
      · rename_i after hread
        obtain ⟨hanswer, rfl⟩ := Prod.mk.inj (Except.ok.inj h)
        obtain ⟨rfl, -⟩ := Prod.mk.inj hanswer
        exact loads_of_loadResource hread

theorem addFile_returns {inst : CacheInstance} {filename : List UInt8} (index : ℕ) {heap : Heap}
    {reading : Reading} {added : Bool} {hm : HashMap} (hslot : HasSlot inst)
    (hadd : hashMapAddULong inst.cacheHashMap filename inst.loaded_cache_items heap =
      .ok (added, hm))
    (hitem : ∃ item, inst.item inst.loaded_cache_items = .ok item)
    (hmemory : Succeeds inst reading → reading.contentSize = true) :
    ∃ answer inst', cacheAddFile inst filename index heap reading = .ok (answer, inst') := by
  obtain ⟨item, hitem⟩ := hitem
  have hcreated : (inst.created hm).item inst.loaded_cache_items = .ok item := hitem
  have hcleared : (inst.emptied hm).item inst.loaded_cache_items = .ok .zero :=
    (item_setItem .zero hcreated _).trans (if_pos rfl)
  obtain ⟨answer, inst', hload⟩ := loadResource_returns hcleared (fun _ h => nomatch h)
    fun h => hmemory (emptied_succeeds.mp h)
  unfold cacheAddFile
  rw [createResource_free hslot, hadd]
  simp only [hcreated]
  rw [← CacheInstance.emptied, hload]
  cases answer with
  | false => exact ⟨_, _, rfl⟩
  | true => exact ⟨_, _, rfl⟩

/-! Removal. -/

/-- An item without its content. -/
def CacheItem.removed (item : CacheItem) : CacheItem :=
  { item with content := 0, contentSize := none }

/-- The ways of `cache_RemoveResource`. -/
inductive Removes (inst : CacheInstance) (index : ℕ) : CacheInstance → Prop
  | dereferenced {item : CacheItem} (hitem : inst.item index = .ok item)
      (hcallback : item.dynamicRequestCallbackFunction ≠ 0) :
      Removes inst index
        (inst.setItem index { item.removed with dynamicRequestCallbackFunction := 0 })
  | empty {item : CacheItem} (hitem : inst.item index = .ok item)
      (hcallback : item.dynamicRequestCallbackFunction = 0)
      (hempty : item.contentSize = none ∨
        item.content = 0 ∧ ∃ size, item.contentSize = some (.malloced size)) :
      Removes inst index (inst.setItem index item.removed)
  | freed {item : CacheItem} {size : ℕ} (hitem : inst.item index = .ok item)
      (hcallback : item.dynamicRequestCallbackFunction = 0)
      (hsize : item.contentSize = some (.malloced size)) (hcontent : item.content ≠ 0) :
      Removes inst index ((instanceCountFreeOP inst size).setItem index item.removed)

theorem removes_of_removeResource {inst inst' : CacheInstance} {index : ℕ}
    (h : cacheRemoveResource inst index = .ok inst') : Removes inst index inst' := by
  unfold cacheRemoveResource at h
  split at h
  · cases h
  · rename_i item hitem
    simp only at h
    split at h
    · rename_i hcallback
      obtain rfl := Except.ok.inj h
      exact .dereferenced hitem hcallback
    · rename_i hcallback
      split at h
      · rename_i hsize
        obtain rfl := Except.ok.inj h
        exact .empty hitem (not_not.mp hcallback) (.inl hsize)
      · rename_i size hsize
        obtain rfl := Except.ok.inj h
        split
        · rename_i hcontent
          exact .freed hitem (not_not.mp hcallback) hsize hcontent
        · rename_i hcontent
          exact .empty hitem (not_not.mp hcallback) (.inr ⟨not_not.mp hcontent, size, hsize⟩)
      · cases h

namespace Removes
variable {inst inst' : CacheInstance} {index : ℕ}

theorem sameIndex (h : Removes inst index inst') : SameIndex inst inst' := by
  cases h with
  | dereferenced => exact .setItem ..
  | empty => exact .setItem ..
  | freed => exact (SameIndex.countFree ..).trans (.setItem ..)

/-- The item has neither a content nor a size nor a callback any more, and the others are as they
were. -/
theorem item_eq (h : Removes inst index inst') :
    ∃ removed : CacheItem, removed.content = 0 ∧ removed.contentSize = none ∧
      removed.dynamicRequestCallbackFunction = 0 ∧
      ∀ i, inst'.item i = if i = index then .ok removed else inst.item i := by
  cases h with
  | dereferenced hitem => exact ⟨_, rfl, rfl, rfl, item_setItem _ hitem⟩
  | @empty item hitem hcallback =>
    exact ⟨item.removed, rfl, rfl, hcallback, item_setItem _ hitem⟩
  | @freed item size hitem hcallback =>
    have hcounted := (item_countFree inst size index).trans hitem
    refine ⟨item.removed, rfl, rfl, hcallback, fun i => ?_⟩
    rw [item_setItem _ hcounted, item_countFree]

end Removes

end AmmarServer.Cache.Items
