import AmmarServer.Cache.FileCaching
import AmmarServer.HeaderAnalysis.FirstLine

/-! The items of the cache in `cache/file_caching.c`, how they get their indices, and the memory
that `server_configuration.c` counts for them. A buffer, a callback and a context are named by their
addresses, and the null pointer is address 0. Nothing is compressed. -/

namespace AmmarServer.Cache.Items
open CString Searching Hashmap HeaderAnalysis

inductive CacheFault
  | hashMap (fault : Fault)
  | outOfBounds
  | useAfterFree
  | invalidFree
  | nullDereference
deriving DecidableEq, Repr

/-- `sizeof(struct cache_item)`. -/
def sizeofCacheItem : ℕ := 80

/-- Where the size of a content is kept: in memory of its own, or in the context at an address. -/
inductive ContentSize
  | malloced (size : ℕ)
  | ofContext (context : ℕ)
deriving DecidableEq, Repr

structure CacheItem where
  dynamicRequestCallbackFunction : ℕ
  dynamicRequest : ℕ
  doNOTCacheRule : Bool
  content : ℕ
  contentSize : Option ContentSize
  modification_time : ℤ
deriving DecidableEq, Repr

/-- What `memset` leaves of an item. -/
def CacheItem.zero : CacheItem :=
  { dynamicRequestCallbackFunction := 0
    dynamicRequest := 0
    doNOTCacheRule := false
    content := 0
    contentSize := none
    modification_time := 0 }

/-- `instance->cache`. -/
inductive CacheArray
  | null
  | items (cache : List CacheItem)
  | freed
deriving DecidableEq, Repr

/-- A server instance, with the limits that the server keeps for it. -/
structure CacheInstance where
  cache : CacheArray
  cacheHashMap : HashMap
  loaded_cache_items : ℕ
  loaded_cache_items_Kbytes : ℕ
  MAX_SEPERATE_CACHE_ITEMS : ℕ
  MAX_CACHE_SIZE_IN_MB : ℕ
  MAX_CACHE_SIZE_FOR_EACH_FILE_IN_MB : ℕ

/-- The fields of `AmmServer_RH_Context` that the cache reads, and where the context is. -/
structure RHContext where
  address : ℕ
  web_root_path : List UInt8
  resource_name : List UInt8
  content : ℕ
  dynamicRequestCallbackFunction : ℕ

/-- What the disk and the allocator answer while a file is read: the size and the time are those of
`stat`, `buffer` is the address of the memory for the content, and `contentSize` says whether there
is memory for its size. -/
structure Reading where
  fopen : Bool
  stat : Option (ℕ × ℤ)
  fseek : Bool
  ftell : ℕ
  buffer : ℕ
  fread : ℕ
  contentSize : Bool

/-- What `hashMap_Create` leaves where it gets no memory: a table that nothing can be added to. -/
def noHashMap : HashMap := hashMapCreate 0 1000 false

/-- An instance before its first `cache_Initialize`. -/
def CacheInstance.fresh : CacheInstance :=
  { cache := .null
    cacheHashMap := noHashMap
    loaded_cache_items := 0
    loaded_cache_items_Kbytes := 0
    MAX_SEPERATE_CACHE_ITEMS := 0
    MAX_CACHE_SIZE_IN_MB := 0
    MAX_CACHE_SIZE_FOR_EACH_FILE_IN_MB := 0 }

def CacheInstance.item (inst : CacheInstance) (index : ℕ) : Except CacheFault CacheItem :=
  match inst.cache with
  | .null => .error .nullDereference
  | .freed => .error .useAfterFree
  | .items cache =>
    match cache[index]? with
    | none => .error .outOfBounds
    | some item => .ok item

def CacheInstance.setItem (inst : CacheInstance) (index : ℕ) (item : CacheItem) : CacheInstance :=
  match inst.cache with
  | .items cache => { inst with cache := .items (cache.set index item) }
  | _ => inst

/-- The length of an array that is asked for as an `unsigned int` number of bytes. -/
def cacheLength (max_seperate_items : ℕ) : ℕ :=
  sizeofCacheItem * (max_seperate_items + 1) % 2 ^ 32 / sizeofCacheItem

def cacheInitialize (inst : CacheInstance)
    (max_seperate_items max_total_allocation_MB max_allocation_per_entry_MB : ℕ)
    (cacheMemory hashMapMemory : Bool) : Bool × CacheInstance :=
  let inst := { inst with
    MAX_CACHE_SIZE_IN_MB := max_total_allocation_MB
    MAX_CACHE_SIZE_FOR_EACH_FILE_IN_MB := max_allocation_per_entry_MB
    MAX_SEPERATE_CACHE_ITEMS := max_seperate_items }
  let cacheHashMap :=
    if hashMapMemory then hashMapCreate max_seperate_items 1000 false else noHashMap
  if inst.cache = .null then
    if cacheMemory then
      (true, { inst with
        cache := .items (List.replicate (cacheLength max_seperate_items) CacheItem.zero)
        cacheHashMap })
    else (false, inst)
  else (true, { inst with cacheHashMap })

/-! The memory that is counted. -/

def instanceWeCanCommitMoreMemory (inst : CacheInstance) (additional : ℕ) : Bool :=
  if inst.MAX_CACHE_SIZE_FOR_EACH_FILE_IN_MB * 1024 * 1024 % 2 ^ 32 < additional then false
  else if inst.MAX_CACHE_SIZE_IN_MB * 1024 % 2 ^ 32 <
      (inst.loaded_cache_items_Kbytes + additional / 1024) % 2 ^ 64 then false
  else true

def instanceCountNewMallocOP (inst : CacheInstance) (additional : ℕ) : CacheInstance :=
  { inst with
    loaded_cache_items_Kbytes := (inst.loaded_cache_items_Kbytes + additional / 1024) % 2 ^ 64 }

def instanceCountFreeOP (inst : CacheInstance) (additional : ℕ) : CacheInstance :=
  { inst with
    loaded_cache_items_Kbytes :=
      (inst.loaded_cache_items_Kbytes + 2 ^ 64 - additional / 1024) % 2 ^ 64 }

/-! The index. -/

def findResource (qsort : Qsort HashMapEntry.keyHash) (bsearch : Bsearch HashMapEntry.keyHash)
    (inst : CacheInstance) (resource : List UInt8) (index : ℕ) : (Bool × ℕ) × CacheInstance :=
  let (answer, found) :=
    cacheFindResource qsort bsearch ⟨inst.cache ≠ .null, inst.cacheHashMap⟩ resource index
  (answer, { inst with cacheHashMap := found.cacheHashMap })

/-- The answer and the index. -/
def cacheCreateResource (inst : CacheInstance) (resource : List UInt8) (index : ℕ) (heap : Heap) :
    Except CacheFault ((Bool × ℕ) × CacheInstance) :=
  if inst.cache = .null then .ok ((false, index), inst)
  else if inst.MAX_CACHE_SIZE_IN_MB ≤ (inst.loaded_cache_items + 1) % 2 ^ 32 then
    .ok ((false, index), inst)
  else
    let index := inst.loaded_cache_items
    match hashMapAddULong inst.cacheHashMap resource index heap with
    | .error fault => .error (.hashMap fault)
    | .ok (_, cacheHashMap) =>
      .ok ((true, index), { inst with
        cacheHashMap
        loaded_cache_items := (inst.loaded_cache_items + 1) % 2 ^ 32 })

/-! Files. -/

/-- The part of `cache_LoadResourceFromDisk` behind the checks of a file of `lSize` bytes. -/
def readIntoMemory (inst : CacheInstance) (index lSize : ℕ) (reading : Reading) :
    Except CacheFault (Bool × CacheInstance) :=
  if reading.buffer = 0 then .ok (false, inst)
  else
    let inst := instanceCountNewMallocOP inst (lSize + 1)
    if reading.fread ≠ lSize then .ok (false, inst)
    else
      match inst.item index with
      | .error fault => .error fault
      | .ok item =>
        match item.contentSize with
        | some (.ofContext _) => .error .invalidFree
        | _ =>
          if reading.contentSize then
            .ok (true, inst.setItem index { item with
              content := reading.buffer
              contentSize := some (.malloced lSize) })
          else .error .nullDereference

def cacheLoadResourceFromDisk (inst : CacheInstance) (index : ℕ) (reading : Reading) :
    Except CacheFault (Bool × CacheInstance) :=
  if !reading.fopen then .ok (false, inst)
  else
    match reading.stat with
    | some (st_size, st_mtime) =>
      match inst.item index with
      | .error fault => .error fault
      | .ok item =>
        let inst := inst.setItem index { item with modification_time := st_mtime }
        if !instanceWeCanCommitMoreMemory inst st_size then .ok (false, inst)
        else readIntoMemory inst index st_size reading
    | none =>
      if !reading.fseek then .ok (false, inst)
      else if !instanceWeCanCommitMoreMemory inst reading.ftell then .ok (false, inst)
      else readIntoMemory inst index reading.ftell reading

def cacheAddFile (inst : CacheInstance) (filename : List UInt8) (index : ℕ) (heap : Heap)
    (reading : Reading) : Except CacheFault ((Bool × ℕ) × CacheInstance) :=
  match cacheCreateResource inst filename index heap with
  | .error fault => .error fault
  | .ok ((false, index), inst) => .ok ((false, index), inst)
  | .ok ((true, index), inst) =>
    match inst.item index with
    | .error fault => .error fault
    | .ok _ =>
      match cacheLoadResourceFromDisk (inst.setItem index CacheItem.zero) index reading with
      | .error fault => .error fault
      -- `cache_DestroyResource` is not implemented
      | .ok (false, inst) => .ok ((false, 0), inst)
      | .ok (true, inst) => .ok ((true, index), inst)

/-! Resources with a callback, and rules. -/

/-- The key of a context. -/
def fullFilename (context : RHContext) : List UInt8 :=
  cstring (reducePathSlashesInplace
    ((cstring context.web_root_path).take MAX_RESOURCE ++
      (cstring context.resource_name).take MAX_RESOURCE ++ [0]))

def cacheAddMemoryBlock (inst : CacheInstance) (context : RHContext) (heap : Heap) :
    Except CacheFault (Bool × CacheInstance) :=
  match cacheCreateResource inst (fullFilename context) 0 heap with
  | .error fault => .error fault
  | .ok ((false, _), inst) => .ok (false, inst)
  | .ok ((true, index), inst) =>
    match inst.item index with
    | .error fault => .error fault
    | .ok item =>
      .ok (true, inst.setItem index { item with
        content := context.content
        contentSize := some (.ofContext context.address)
        dynamicRequest := context.address
        dynamicRequestCallbackFunction := context.dynamicRequestCallbackFunction })

/-- `cache[index].doNOTCacheRule=1`. -/
def markDoNOTCache (inst : CacheInstance) (index : ℕ) : Except CacheFault (Bool × CacheInstance) :=
  match inst.item index with
  | .error fault => .error fault
  | .ok item => .ok (true, inst.setItem index { item with doNOTCacheRule := true })

def cacheAddDoNOTCacheRuleForResource (qsort : Qsort HashMapEntry.keyHash)
    (bsearch : Bsearch HashMapEntry.keyHash) (inst : CacheInstance) (filename : List UInt8)
    (heap : Heap) : Except CacheFault (Bool × CacheInstance) :=
  match findResource qsort bsearch inst filename 0 with
  | ((true, index), inst) => markDoNOTCache inst index
  | ((false, index), inst) =>
    match cacheCreateResource inst filename index heap with
    | .error fault => .error fault
    | .ok ((false, _), inst) => .ok (false, inst)
    | .ok ((true, index), inst) =>
      match findResource qsort bsearch inst filename index with
      | ((true, index), inst) => markDoNOTCache inst index
      | ((false, _), inst) => .ok (false, inst)

/-! Removal. -/

def cacheRemoveResource (inst : CacheInstance) (index : ℕ) : Except CacheFault CacheInstance :=
  match inst.item index with
  | .error fault => .error fault
  | .ok item =>
    let removed := { item with content := 0, contentSize := none }
    if item.dynamicRequestCallbackFunction ≠ 0 then
      .ok (inst.setItem index { removed with dynamicRequestCallbackFunction := 0 })
    else
      match item.contentSize with
      | none => .ok (inst.setItem index removed)
      | some (.malloced size) =>
        let inst := if item.content ≠ 0 then instanceCountFreeOP inst size else inst
        .ok (inst.setItem index removed)
      -- the size of a context is inside of it
      | some (.ofContext _) => .error .invalidFree

/-- The answer is that of `cache_RemoveResource`, which is always 0. -/
def cacheRemoveContextAndResource (qsort : Qsort HashMapEntry.keyHash)
    (bsearch : Bsearch HashMapEntry.keyHash) (inst : CacheInstance) (context : RHContext)
    (free_mem : Bool) : Except CacheFault (CacheInstance × RHContext) :=
  let context := if free_mem then { context with content := 0 } else context
  match findResource qsort bsearch inst (cstring context.resource_name) 0 with
  | ((false, _), inst) => .ok (inst, context)
  | ((true, index), inst) =>
    match cacheRemoveResource inst index with
    | .error fault => .error fault
    | .ok inst => .ok (inst, context)

/-- The loop of `cache_Destroy`. -/
def removeAll (inst : CacheInstance) (items : ℕ) : Except CacheFault CacheInstance :=
  (List.range items).foldl
    (fun s i => match s with
      | .error fault => .error fault
      | .ok inst => cacheRemoveResource inst i)
    (.ok inst)

def cacheDestroy (inst : CacheInstance) : Except CacheFault CacheInstance :=
  match inst.cache with
  | .null => .ok { inst with loaded_cache_items := 0, loaded_cache_items_Kbytes := 0 }
  | _ =>
    match removeAll inst inst.loaded_cache_items with
    | .error fault => .error fault
    | .ok inst =>
      match inst.cache with
      | .freed => .error .invalidFree
      -- the pointer that is set to null is a copy of `instance->cache`
      | _ => .ok { inst with
          cache := .freed
          cacheHashMap := noHashMap
          loaded_cache_items := 0
          loaded_cache_items_Kbytes := 0 }

end AmmarServer.Cache.Items
