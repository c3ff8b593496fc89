import AmmarServer.Cache.CacheSteps

/-! The kilobytes that the server counts for the files of its cache, over histories of loads and
removals. -/

namespace AmmarServer.Cache.Items
open Hashmap

/-! What is held. -/

/-- The whole kilobytes of the file that an item holds. -/
def CacheItem.kilobytes (item : CacheItem) : ℕ :=
  if item.content = 0 then 0
  else
    match item.contentSize with
    | some (.malloced size) => size / 1024
    | _ => 0

def CacheArray.kilobytes : CacheArray → ℕ
  | .items cache => (cache.map (·.kilobytes)).sum
  | _ => 0

/-- An item without a callback and without the size of a context. -/
structure CacheItem.Plain (item : CacheItem) : Prop where
  callback : item.dynamicRequestCallbackFunction = 0
  owned : ∀ context, item.contentSize ≠ some (.ofContext context)

theorem plain_zero : CacheItem.zero.Plain := ⟨rfl, fun _ h => (by cases h)⟩

theorem sum_set {α : Type*} {f : α → ℕ} {l : List α} {i : ℕ} {old : α} (new : α)
    (h : l[i]? = some old) : ((l.set i new).map f).sum + f old = (l.map f).sum + f new := by
  induction l generalizing i with
  | nil => cases h
  | cons a l ih =>
    cases i with
    | zero =>
      obtain rfl := Option.some.inj h
      simp only [List.set_cons_zero, List.map_cons, List.sum_cons]
      omega
    | succ i =>
      have hrest := ih (List.getElem?_cons_succ.symm.trans h)
      simp only [List.set_cons_succ, List.map_cons, List.sum_cons]
      omega

theorem kilobytes_setItem {inst : CacheInstance} {index : ℕ} {item : CacheItem} (new : CacheItem)
    (h : inst.item index = .ok item) :
    (inst.setItem index new).cache.kilobytes + item.kilobytes =
      inst.cache.kilobytes + new.kilobytes := by
  unfold CacheInstance.item at h
  unfold CacheInstance.setItem
  split at h
  · cases h
  · cases h
  · rename_i cache hcache
    split at h
    · cases h
    · rename_i found hfound
      obtain rfl := Except.ok.inj h
      rw [hcache]
      exact sum_set new hfound

theorem kilobytes_le {inst : CacheInstance} {index : ℕ} {item : CacheItem}
    (h : inst.item index = .ok item) : item.kilobytes ≤ inst.cache.kilobytes := by
  have hemptied := kilobytes_setItem .zero h
  have hzero : CacheItem.zero.kilobytes = 0 := rfl
  omega

/-! Histories. -/

inductive Call
  | addFile (filename : List UInt8) (heap : Heap) (reading : Reading)
  | loadResourceFromDisk (index : ℕ) (reading : Reading)
  | removeResource (index : ℕ)
  | destroy

namespace Call

def apply (inst : CacheInstance) : Call → Except CacheFault CacheInstance
  | addFile filename heap reading => (cacheAddFile inst filename 0 heap reading).map (·.2)
  | loadResourceFromDisk index reading => (cacheLoadResourceFromDisk inst index reading).map (·.2)
  | removeResource index => cacheRemoveResource inst index
  | destroy => cacheDestroy inst

/-- The file that is to be loaded, and the index of its item. -/
def file (inst : CacheInstance) : Call → Option (ℕ × Reading)
  | addFile _ _ reading => if HasSlot inst then some (inst.loaded_cache_items, reading) else none
  | loadResourceFromDisk index reading => some (index, reading)
  | _ => none

end Call

/-- A fault ends a history. -/
def call (s : Except CacheFault CacheInstance) (c : Call) : Except CacheFault CacheInstance :=
  match s with
  | .error fault => .error fault
  | .ok inst => c.apply inst

/-- A file within the limit for each file and within what is left of the limit for all of them. -/
def FitsLimits (inst : CacheInstance) (size : ℕ) : Prop :=
  size ≤ inst.MAX_CACHE_SIZE_FOR_EACH_FILE_IN_MB * 2 ^ 20 ∧
    inst.loaded_cache_items_Kbytes * 1024 + size ≤ inst.MAX_CACHE_SIZE_IN_MB * 2 ^ 20

/-- What is promised of a call that leads from one instance to another. -/
structure Exact (inst : CacheInstance) (c : Call) (inst' : CacheInstance) : Prop where
  counted : inst'.loaded_cache_items_Kbytes = inst'.cache.kilobytes
  admitted : ∀ index reading size, c.file inst = some (index, reading) → reading.size = some size →
    (instanceWeCanCommitMoreMemory inst size = true ↔ FitsLimits inst size)
  restored : ∀ index reading removed, c.file inst = some (index, reading) →
    Succeeds inst reading → cacheRemoveResource inst' index = .ok removed →
    removed.loaded_cache_items_Kbytes = inst.loaded_cache_items_Kbytes
  removed : ∀ index, c = .removeResource index →
    inst'.loaded_cache_items_Kbytes ≤ inst.loaded_cache_items_Kbytes
  destroyed : c = .destroy → ∀ items removed, removeAll inst items = .ok removed →
    removed.loaded_cache_items_Kbytes ≤ inst.loaded_cache_items_Kbytes

/-- Each call that returns is exact. -/
def CallExact : Except CacheFault CacheInstance → Call → Prop
  | .error _, _ => True
  | .ok inst, c => ∀ inst', c.apply inst = .ok inst' → Exact inst c inst'

/-! The condition. -/

/-- A file within the limits is also within them where they are multiplied in 32 bits. -/
def Unwrapped (inst : CacheInstance) (size : ℕ) : Prop :=
  FitsLimits inst size →
    size ≤ inst.MAX_CACHE_SIZE_FOR_EACH_FILE_IN_MB * 1024 * 1024 % 2 ^ 32 ∧
      inst.loaded_cache_items_Kbytes + size / 1024 ≤ inst.MAX_CACHE_SIZE_IN_MB * 1024 % 2 ^ 32

/-- A file that reaches the limit for all files consists of whole kilobytes. -/
def Unrounded (inst : CacheInstance) (size : ℕ) : Prop :=
  size ≤ inst.MAX_CACHE_SIZE_FOR_EACH_FILE_IN_MB * 1024 * 1024 % 2 ^ 32 →
    inst.MAX_CACHE_SIZE_IN_MB * 1024 < 2 ^ 32 →
    inst.loaded_cache_items_Kbytes + size / 1024 = inst.MAX_CACHE_SIZE_IN_MB * 1024 → 1024 ∣ size

/-- A file that is admitted and gets its memory is read in full if it has a kilobyte with its end
marker, and the marker does not complete one. -/
structure Whole (reading : Reading) (size : ℕ) : Prop where
  short : reading.fread ≠ size → size + 1 < 1024
  marked : reading.fread = size → ¬ 1024 ∣ size + 1

/-- The condition on a call that returns. -/
structure CallMeets (inst : CacheInstance) (c : Call) : Prop where
  limits : ∀ index reading size, c.file inst = some (index, reading) → reading.size = some size →
    Unwrapped inst size ∧ Unrounded inst size
  whole : ∀ index reading size, c.file inst = some (index, reading) → reading.size = some size →
    instanceWeCanCommitMoreMemory inst size = true → reading.buffer ≠ 0 → Whole reading size
  /-- An item that is loaded again, and one that is cleared for a new file, hold no kilobyte. -/
  replaced : ∀ index reading item, c.file inst = some (index, reading) →
    inst.item index = .ok item →
    (Succeeds inst reading ∨ ∃ filename heap, c = .addFile filename heap reading) →
    item.kilobytes = 0

def StepMeets : Except CacheFault CacheInstance → Call → Prop
  | .error _, _ => True
  | .ok inst, c => ∀ inst', c.apply inst = .ok inst' → CallMeets inst c

/-! The limits. -/

theorem weCanCommit_iff {inst : CacheInstance} (h : inst.loaded_cache_items_Kbytes < 2 ^ 32)
    (size : ℕ) :
    instanceWeCanCommitMoreMemory inst size = true ↔
      size ≤ inst.MAX_CACHE_SIZE_FOR_EACH_FILE_IN_MB * 1024 * 1024 % 2 ^ 32 ∧
        inst.loaded_cache_items_Kbytes + size / 1024 ≤ inst.MAX_CACHE_SIZE_IN_MB * 1024 % 2 ^ 32 := by
  have hlimit := Nat.mod_lt (inst.MAX_CACHE_SIZE_FOR_EACH_FILE_IN_MB * 1024 * 1024)
    (show 2 ^ 32 > 0 by decide)
  unfold instanceWeCanCommitMoreMemory
  split
  · rename_i hlarge
    exact iff_of_false (by decide) fun hboth => absurd hboth.1 (not_le.mpr hlarge)
  · rename_i hsize
    have hexact : (inst.loaded_cache_items_Kbytes + size / 1024) % 2 ^ 64 =
        inst.loaded_cache_items_Kbytes + size / 1024 := Nat.mod_eq_of_lt (by omega)
    rw [hexact]
    split
    · rename_i hfull
      exact iff_of_false (by decide) fun hboth => absurd hboth.2 (not_le.mpr hfull)
    · rename_i hroom
      exact iff_of_true rfl ⟨not_lt.mp hsize, not_lt.mp hroom⟩

/-- Files are admitted just as they fit if neither the limits wrap nor a remainder is left out. -/
theorem admitted_iff {inst : CacheInstance} (h : inst.loaded_cache_items_Kbytes < 2 ^ 32)
    (size : ℕ) :
    (instanceWeCanCommitMoreMemory inst size = true ↔ FitsLimits inst size) ↔
      Unwrapped inst size ∧ Unrounded inst size := by
  rw [weCanCommit_iff h]
  unfold Unwrapped Unrounded
  constructor
  · intro hiff
    refine ⟨hiff.mpr, fun heach htotal hreached => ?_⟩
    have hfits := (hiff.mp ⟨heach, by rw [Nat.mod_eq_of_lt htotal, hreached]⟩).2
    exact Nat.dvd_of_mod_eq_zero (by omega)
  · rintro ⟨hunwrapped, hunrounded⟩
    refine ⟨fun hboth => ⟨?_, ?_⟩, hunwrapped⟩
    · have heach := hboth.1.trans (Nat.mod_le ..)
      rwa [mul_assoc] at heach
    · obtain ⟨heach, htotal⟩ := hboth
      by_cases hwrap : inst.MAX_CACHE_SIZE_IN_MB * 1024 < 2 ^ 32
      · rw [Nat.mod_eq_of_lt hwrap] at htotal
        rcases htotal.lt_or_eq with hbelow | hreached
        · omega
        · have hwhole := Nat.mod_eq_zero_of_dvd (hunrounded heach hwrap hreached)
          omega
      · have hbelow := Nat.mod_lt (inst.MAX_CACHE_SIZE_IN_MB * 1024) (show 2 ^ 32 > 0 by decide)
        omega

/-! What a load does. -/

/-- What is counted and what is held behind a load. -/
inductive Counts (inst : CacheInstance) (index : ℕ) (reading : Reading) (inst' : CacheInstance) : Prop
  | nothing (hKbytes : inst'.loaded_cache_items_Kbytes = inst.loaded_cache_items_Kbytes)
      (hheld : inst'.cache.kilobytes = inst.cache.kilobytes)
      (hrefused : ∀ size, reading.size = some size →
        instanceWeCanCommitMoreMemory inst size = true → reading.buffer = 0)
  | short {size : ℕ} (hsize : reading.size = some size)
      (hcan : instanceWeCanCommitMoreMemory inst size = true) (hbuffer : reading.buffer ≠ 0)
      (hfread : reading.fread ≠ size)
      (hKbytes : inst'.loaded_cache_items_Kbytes =
        inst.loaded_cache_items_Kbytes + (size + 1) / 1024)
      (hheld : inst'.cache.kilobytes = inst.cache.kilobytes)
  | whole {size : ℕ} {item item' : CacheItem} (hsize : reading.size = some size)
      (hcan : instanceWeCanCommitMoreMemory inst size = true) (hbuffer : reading.buffer ≠ 0)
      (hfread : reading.fread = size) (hitem : inst.item index = .ok item)
      (hKbytes : inst'.loaded_cache_items_Kbytes =
        inst.loaded_cache_items_Kbytes + (size + 1) / 1024)
      (hheld : inst'.cache.kilobytes + item.kilobytes = inst.cache.kilobytes + size / 1024)
      (hitem' : inst'.item index = .ok item') (hcontent : item'.content ≠ 0)
      (hcontentSize : item'.contentSize = some (.malloced size))

theorem Stamped.holds {inst inst' : CacheInstance} {index : ℕ} (h : Stamped inst index inst') :
    inst'.loaded_cache_items_Kbytes = inst.loaded_cache_items_Kbytes ∧
      inst'.cache.kilobytes = inst.cache.kilobytes ∧
      ∀ i item', inst'.item i = .ok item' → ∃ item, inst.item i = .ok item ∧
        item'.kilobytes = item.kilobytes ∧ (item.Plain → item'.Plain) := by
  rcases h with rfl | ⟨item, time, hitem, rfl⟩
  · exact ⟨rfl, rfl, fun i item' h => ⟨item', h, rfl, id⟩⟩
  · refine ⟨setItem_Kbytes .., ?_, fun i item' h => ?_⟩
    · have hset := kilobytes_setItem { item with modification_time := time } hitem
      exact Nat.add_right_cancel hset
    · rw [item_setItem _ hitem] at h
      split at h
      · rename_i hi
        obtain rfl := Except.ok.inj h
        exact ⟨item, hi ▸ hitem, rfl, fun hplain => ⟨hplain.callback, hplain.owned⟩⟩
      · exact ⟨item', h, rfl, id⟩

theorem counted_eq {inst : CacheInstance} {size : ℕ} (h : inst.loaded_cache_items_Kbytes < 2 ^ 32)
    (hcan : instanceWeCanCommitMoreMemory inst size = true) :
    (inst.loaded_cache_items_Kbytes + (size + 1) / 1024) % 2 ^ 64 =
      inst.loaded_cache_items_Kbytes + (size + 1) / 1024 := by
  have hroom := ((weCanCommit_iff h size).mp hcan).2
  have hlimit := Nat.mod_lt (inst.MAX_CACHE_SIZE_IN_MB * 1024) (show 2 ^ 32 > 0 by decide)
  exact Nat.mod_eq_of_lt (by omega)

theorem kilobytes_counted (inst : CacheInstance) (Kbytes : ℕ) :
    ({ inst with loaded_cache_items_Kbytes := Kbytes } : CacheInstance).cache.kilobytes =
      inst.cache.kilobytes := rfl

theorem kilobytes_countNewMalloc (inst : CacheInstance) (size : ℕ) :
    (instanceCountNewMallocOP inst size).cache.kilobytes = inst.cache.kilobytes :=
  kilobytes_counted inst _

theorem kilobytes_countFree (inst : CacheInstance) (size : ℕ) :
    (instanceCountFreeOP inst size).cache.kilobytes = inst.cache.kilobytes :=
  kilobytes_counted inst _

theorem countFree_Kbytes {inst : CacheInstance} {size : ℕ}
    (hle : size / 1024 ≤ inst.loaded_cache_items_Kbytes)
    (hbound : inst.loaded_cache_items_Kbytes < 2 ^ 64) :
    (instanceCountFreeOP inst size).loaded_cache_items_Kbytes =
      inst.loaded_cache_items_Kbytes - size / 1024 := by
  unfold instanceCountFreeOP
  simp only
  omega

theorem kilobytes_malloced {item : CacheItem} {size : ℕ} (hcontent : item.content ≠ 0)
    (hsize : item.contentSize = some (.malloced size)) : item.kilobytes = size / 1024 := by
  unfold CacheItem.kilobytes
  rw [if_neg hcontent, hsize]

section Load
variable {inst inst' : CacheInstance} {index : ℕ} {reading : Reading} {answer : Bool}

theorem Loads.counts (h : Loads inst index reading answer inst')
    (hbound : inst.loaded_cache_items_Kbytes < 2 ^ 32) : Counts inst index reading inst' := by
  cases h with
  | unmeasured hsize =>
    exact .nothing rfl rfl fun size hmeasured => absurd (hsize.symm.trans hmeasured) (by simp)
  | refused hsize hstamped hcan =>
    obtain ⟨hKbytes, hheld, -⟩ := hstamped.holds
    refine .nothing hKbytes hheld fun size hmeasured hadmitted => ?_
    obtain rfl := Option.some.inj (hsize.symm.trans hmeasured)
    exact absurd (hadmitted.symm.trans hcan) (by decide)
  | unbuffered _ hstamped _ hbuffer =>
    obtain ⟨hKbytes, hheld, -⟩ := hstamped.holds
    exact .nothing hKbytes hheld fun _ _ _ => hbuffer
  | short hsize hstamped hcan hbuffer hfread =>
    obtain ⟨hKbytes, hheld, -⟩ := hstamped.holds
    refine .short hsize hcan hbuffer hfread ?_ hheld
    rw [← counted_eq hbound hcan, ← hKbytes]
    rfl
  | @whole size stamped item hsize hstamped hcan hbuffer hfread hitem =>
    obtain ⟨hKbytes, hheld, hitems⟩ := hstamped.holds
    obtain ⟨before, hbefore, hkilobytes, -⟩ := hitems index item hitem
    have hcounted := (item_countNewMalloc stamped (size + 1) index).trans hitem
    refine .whole hsize hcan hbuffer hfread hbefore ?_ ?_
      ((item_setItem _ hcounted index).trans (if_pos rfl)) hbuffer rfl
    · rw [setItem_Kbytes, ← counted_eq hbound hcan, ← hKbytes]
      rfl
    · have hset := kilobytes_setItem
        { item with content := reading.buffer, contentSize := some (.malloced size) } hcounted
      rw [kilobytes_countNewMalloc, hheld, hkilobytes] at hset
      exact hset.trans (congrArg _ (kilobytes_malloced hbuffer rfl))

/-- Where an item was cleared before, the count is the sum behind a load just if the item held no
kilobyte and the load meets the condition. -/
theorem Loads.counted_iff (h : Loads inst index reading answer inst') {cleared : ℕ}
    (hbound : inst.loaded_cache_items_Kbytes < 2 ^ 32)
    (hcounted : inst.loaded_cache_items_Kbytes = inst.cache.kilobytes + cleared) :
    inst'.loaded_cache_items_Kbytes = inst'.cache.kilobytes ↔
      cleared = 0 ∧
      (∀ size, reading.size = some size → instanceWeCanCommitMoreMemory inst size = true →
        reading.buffer ≠ 0 → Whole reading size) ∧
      (Succeeds inst reading → ∀ item, inst.item index = .ok item → item.kilobytes = 0) := by
  cases h.counts hbound with
  | nothing hKbytes hheld hrefused =>
    rw [hKbytes, hheld, hcounted]
    constructor
    · intro hsum
      refine ⟨by omega, fun size hsize hcan hbuffer => absurd (hrefused size hsize hcan) hbuffer, ?_⟩
      rintro ⟨size, hsize, hcan, hbuffer, -⟩
      exact absurd (hrefused size hsize hcan) hbuffer
    · rintro ⟨rfl, -⟩
      rfl
  | @short size hsize hcan hbuffer hfread hKbytes hheld =>
    rw [hKbytes, hheld, hcounted]
    constructor
    · intro hsum
      refine ⟨by omega, fun size' hsize' _ _ => ?_, ?_⟩
      · obtain rfl := Option.some.inj (hsize.symm.trans hsize')
        exact ⟨fun _ => by omega, fun hread => absurd hread hfread⟩
      · rintro ⟨size', hsize', -, -, hread⟩
        obtain rfl := Option.some.inj (hsize.symm.trans hsize')
        exact absurd hread hfread
    · rintro ⟨rfl, hwhole, -⟩
      have hsmall := (hwhole size hsize hcan hbuffer).short hfread
      omega
  | @whole size item _ hsize hcan hbuffer hfread hitem hKbytes hheld =>
    rw [hKbytes, hcounted]
    constructor
    · intro hsum
      refine ⟨by omega, fun size' hsize' _ _ => ?_, fun _ item' hitem' => ?_⟩
      · obtain rfl := Option.some.inj (hsize.symm.trans hsize')
        exact ⟨fun hread => absurd hfread hread, fun _ ⟨k, hk⟩ => by omega⟩
      · obtain rfl := Except.ok.inj (hitem.symm.trans hitem')
        omega
    · rintro ⟨rfl, hwhole, hreplaced⟩
      have hmarked := (hwhole size hsize hcan hbuffer).marked hfread
      have hempty := hreplaced ⟨size, hsize, hcan, hbuffer, hfread⟩ item hitem
      have hsame : (size + 1) / 1024 = size / 1024 := by
        rw [Nat.dvd_iff_mod_eq_zero] at hmarked
        omega
      omega

end Load

/-! What holds behind every call that meets the condition. -/

structure Accounted (inst : CacheInstance) : Prop where
  counted : inst.loaded_cache_items_Kbytes = inst.cache.kilobytes
  bounded : inst.loaded_cache_items_Kbytes < 2 ^ 32
  plain : ∀ index item, inst.item index = .ok item → item.Plain

theorem Loads.plain {inst inst' : CacheInstance} {index : ℕ} {reading : Reading} {answer : Bool}
    (h : Loads inst index reading answer inst')
    (hplain : ∀ index item, inst.item index = .ok item → item.Plain) :
    ∀ i item, inst'.item i = .ok item → item.Plain := by
  have hstamp : ∀ {stamped : CacheInstance}, Stamped inst index stamped →
      ∀ i item, stamped.item i = .ok item → item.Plain := by
    intro stamped hstamped i item hitem
    obtain ⟨before, hbefore, -, hkeeps⟩ := hstamped.holds.2.2 i item hitem
    exact hkeeps (hplain i before hbefore)
  cases h with
  | unmeasured => exact hplain
  | refused _ hstamped => exact hstamp hstamped
  | unbuffered _ hstamped => exact hstamp hstamped
  | short _ hstamped =>
    intro i item hitem
    exact hstamp hstamped i item ((item_countNewMalloc ..).symm.trans hitem)
  | whole _ hstamped _ _ _ hitem =>
    intro i new hnew
    rw [item_setItem _ ((item_countNewMalloc ..).trans hitem)] at hnew
    split at hnew
    · obtain rfl := Except.ok.inj hnew
      exact ⟨(hstamp hstamped index _ hitem).callback, fun _ h => (by cases h)⟩
    · exact hstamp hstamped i new hnew

theorem Loads.bounded {inst inst' : CacheInstance} {index : ℕ} {reading : Reading} {answer : Bool}
    (h : Loads inst index reading answer inst')
    (hbound : inst.loaded_cache_items_Kbytes < 2 ^ 32) :
    inst'.loaded_cache_items_Kbytes < 2 ^ 32 := by
  have hroom : ∀ {size : ℕ}, instanceWeCanCommitMoreMemory inst size = true →
      inst.loaded_cache_items_Kbytes + (size + 1) / 1024 < 2 ^ 32 := by
    intro size hcan
    have htotal := ((weCanCommit_iff hbound size).mp hcan).2
    omega
  cases h.counts hbound with
  | nothing hKbytes => exact hKbytes ▸ hbound
  | short _ hcan _ _ hKbytes => exact hKbytes ▸ hroom hcan
  | whole _ hcan _ _ _ hKbytes => exact hKbytes ▸ hroom hcan

namespace Accounted
variable {inst inst' : CacheInstance}

theorem remove (h : Accounted inst) {index : ℕ} (hremoves : Removes inst index inst') :
    Accounted inst' ∧ inst'.loaded_cache_items_Kbytes ≤ inst.loaded_cache_items_Kbytes := by
  obtain ⟨removed, hcontent, hsize, hcallback, hitems⟩ := hremoves.item_eq
  have hplain : ∀ i item, inst'.item i = .ok item → item.Plain := by
    intro i item hitem
    rw [hitems] at hitem
    split at hitem
    · obtain rfl := Except.ok.inj hitem
      exact ⟨hcallback, fun _ howned => by rw [hsize] at howned; cases howned⟩
    · exact h.plain i item hitem
  cases hremoves with
  | dereferenced hitem hdynamic => exact absurd (h.plain index _ hitem).callback hdynamic
  | @empty item hitem _ hempty =>
    have hnone : item.kilobytes = 0 := by
      unfold CacheItem.kilobytes
      split
      · rfl
      · rename_i hheld
        rcases hempty with hempty | ⟨hempty, -⟩
        · rw [hempty]
        · exact absurd hempty hheld
    have hset := kilobytes_setItem item.removed hitem
    have hzero : item.removed.kilobytes = 0 := rfl
    refine ⟨⟨?_, (setItem_Kbytes ..).symm ▸ h.bounded, hplain⟩, (setItem_Kbytes ..).le⟩
    rw [setItem_Kbytes, h.counted]
    omega
  | @freed item size hitem _ hsize hheld =>
    have hset := kilobytes_setItem item.removed ((item_countFree inst size index).trans hitem)
    have hzero : item.removed.kilobytes = 0 := rfl
    have hkilobytes := kilobytes_malloced hheld hsize
    have hcounted := h.counted
    have hle := kilobytes_le hitem
    have hbound := h.bounded
    have hfree : (instanceCountFreeOP inst size).loaded_cache_items_Kbytes =
        inst.loaded_cache_items_Kbytes - size / 1024 := countFree_Kbytes (by omega) (by omega)
    have hkept := kilobytes_countFree inst size
    refine ⟨⟨?_, ?_, hplain⟩, ?_⟩
    · rw [setItem_Kbytes, hfree]
      omega
    · rw [setItem_Kbytes, hfree]
      omega
    · rw [setItem_Kbytes, hfree]
      omega

theorem removeAll (h : Accounted inst) {items : ℕ} (hremove : removeAll inst items = .ok inst') :
    Accounted inst' ∧ inst'.loaded_cache_items_Kbytes ≤ inst.loaded_cache_items_Kbytes := by
  unfold Items.removeAll at hremove
  induction items generalizing inst' with
  | zero =>
    obtain rfl := Except.ok.inj hremove
    exact ⟨h, le_rfl⟩
  | succ n ih =>
    rw [List.range_succ, List.foldl_append] at hremove
    simp only [List.foldl_cons, List.foldl_nil] at hremove
    split at hremove
    · cases hremove
    · rename_i before hbefore
      obtain ⟨hbefore, hle⟩ := ih hbefore
      obtain ⟨hafter, hle'⟩ := hbefore.remove (removes_of_removeResource hremove)
      exact ⟨hafter, hle'.trans hle⟩

theorem destroy (h : Accounted inst) (hdestroy : cacheDestroy inst = .ok inst') :
    Accounted inst' := by
  unfold cacheDestroy at hdestroy
  split at hdestroy
  · rename_i hnull
    obtain rfl := Except.ok.inj hdestroy
    refine ⟨?_, Nat.two_pow_pos 32, h.plain⟩
    rw [hnull]
    rfl
  · split at hdestroy
    · cases hdestroy
    · split at hdestroy
      · cases hdestroy
      · obtain rfl := Except.ok.inj hdestroy
        exact ⟨rfl, Nat.two_pow_pos 32, fun _ _ hitem => (by cases hitem)⟩

end Accounted

/-! Each call. -/

theorem Loads.restored {inst inst' removed : CacheInstance} {index : ℕ} {reading : Reading}
    {answer : Bool} (h : Loads inst index reading answer inst')
    (hbound : inst.loaded_cache_items_Kbytes < 2 ^ 32)
    (hplain : ∀ index item, inst.item index = .ok item → item.Plain)
    (hwhole : ∀ size, reading.size = some size → instanceWeCanCommitMoreMemory inst size = true →
      reading.buffer ≠ 0 → Whole reading size)
    (hsucceeds : Succeeds inst reading) (hremove : cacheRemoveResource inst' index = .ok removed) :
    removed.loaded_cache_items_Kbytes = inst.loaded_cache_items_Kbytes := by
  obtain ⟨size, hsize, hcan, hbuffer, hfread⟩ := hsucceeds
  cases h.counts hbound with
  | nothing _ _ hrefused => exact absurd (hrefused size hsize hcan) hbuffer
  | short hsize' _ _ hfread' =>
    obtain rfl := Option.some.inj (hsize.symm.trans hsize')
    exact absurd hfread hfread'
  | @whole size' _ item' hsize' _ _ _ _ hKbytes _ hitem' hcontent hcontentSize =>
    obtain rfl := Option.some.inj (hsize.symm.trans hsize')
    have hmarked := (hwhole size hsize hcan hbuffer).marked hfread
    have hbound' := h.bounded hbound
    cases removes_of_removeResource hremove with
    | dereferenced hitem hdynamic =>
      exact absurd (h.plain hplain index _ hitem).callback hdynamic
    | empty hitem _ hempty =>
      obtain rfl := Except.ok.inj (hitem'.symm.trans hitem)
      rcases hempty with hempty | ⟨hempty, -⟩
      · rw [hempty] at hcontentSize
        cases hcontentSize
      · exact absurd hempty hcontent
    | @freed item freedSize hitem _ hfreed =>
      obtain rfl := Except.ok.inj (hitem'.symm.trans hitem)
      obtain rfl := ContentSize.malloced.inj (Option.some.inj (hcontentSize.symm.trans hfreed))
      rw [setItem_Kbytes, countFree_Kbytes (by omega) (by omega), hKbytes]
      rw [Nat.dvd_iff_mod_eq_zero] at hmarked
      omega

theorem emptied_Kbytes (inst : CacheInstance) (hm : HashMap) :
    (inst.emptied hm).loaded_cache_items_Kbytes = inst.loaded_cache_items_Kbytes := by
  unfold CacheInstance.emptied
  rw [setItem_Kbytes]
  rfl

theorem item_emptied {inst : CacheInstance} {item : CacheItem} (hm : HashMap)
    (hitem : inst.item inst.loaded_cache_items = .ok item) (i : ℕ) :
    (inst.emptied hm).item i =
      if i = inst.loaded_cache_items then .ok .zero else inst.item i := by
  have hcreated : (inst.created hm).item inst.loaded_cache_items = .ok item := hitem
  exact item_setItem _ hcreated i

theorem kilobytes_emptied {inst : CacheInstance} {item : CacheItem} (hm : HashMap)
    (hitem : inst.item inst.loaded_cache_items = .ok item) :
    (inst.emptied hm).cache.kilobytes + item.kilobytes = inst.cache.kilobytes := by
  have hcreated : (inst.created hm).item inst.loaded_cache_items = .ok item := hitem
  exact kilobytes_setItem .zero hcreated

/-- The instance that a file is read in counts and admits what the one before the call does. -/
structure ReadIn (inst base : CacheInstance) (cleared : ℕ) : Prop where
  Kbytes : base.loaded_cache_items_Kbytes = inst.loaded_cache_items_Kbytes
  held : base.loaded_cache_items_Kbytes = base.cache.kilobytes + cleared
  admits : ∀ size, instanceWeCanCommitMoreMemory base size = instanceWeCanCommitMoreMemory inst size
  plain : ∀ index item, base.item index = .ok item → item.Plain

theorem Accounted.readIn {inst : CacheInstance} (h : Accounted inst) : ReadIn inst inst 0 :=
  ⟨rfl, h.counted, fun _ => rfl, h.plain⟩

theorem Accounted.readInEmptied {inst : CacheInstance} (h : Accounted inst) {item : CacheItem}
    (hm : HashMap) (hitem : inst.item inst.loaded_cache_items = .ok item) :
    ReadIn inst (inst.emptied hm) item.kilobytes := by
  refine ⟨emptied_Kbytes inst hm, ?_, fun size => emptied_weCanCommit inst hm size, ?_⟩
  · rw [emptied_Kbytes, kilobytes_emptied hm hitem]
    exact h.counted
  · intro i new hnew
    rw [item_emptied hm hitem] at hnew
    split at hnew
    · obtain rfl := Except.ok.inj hnew
      exact plain_zero
    · exact h.plain i new hnew

section Step
variable {inst base inst' : CacheInstance} {c : Call} {index cleared : ℕ} {reading : Reading}
  {answer : Bool}

theorem ReadIn.succeeds_iff (h : ReadIn inst base cleared) :
    Succeeds base reading ↔ Succeeds inst reading := by
  unfold Succeeds
  simp only [h.admits]

/-- A call that loads a file is exact just if the limits, the file and the items that it replaces
meet the condition. -/
theorem ReadIn.exact_iff (h : ReadIn inst base cleared) (hinst : Accounted inst)
    (hfile : c.file inst = some (index, reading)) (hloads : Loads base index reading answer inst') :
    Exact inst c inst' ↔
      (∀ size, reading.size = some size → Unwrapped inst size ∧ Unrounded inst size) ∧
      cleared = 0 ∧
      (∀ size, reading.size = some size → instanceWeCanCommitMoreMemory inst size = true →
        reading.buffer ≠ 0 → Whole reading size) ∧
      (Succeeds inst reading → ∀ item, base.item index = .ok item → item.kilobytes = 0) := by
  have hbound : base.loaded_cache_items_Kbytes < 2 ^ 32 := h.Kbytes ▸ hinst.bounded
  have hcounted := hloads.counted_iff hbound h.held
  simp only [h.admits, h.succeeds_iff] at hcounted
  constructor
  · intro hexact
    refine ⟨fun size hsize => ?_, hcounted.mp hexact.counted⟩
    exact (admitted_iff hinst.bounded size).mp (hexact.admitted index reading size hfile hsize)
  · rintro ⟨hlimits, hsum⟩
    refine ⟨hcounted.mpr hsum, ?_, ?_, ?_, ?_⟩
    · intro index' reading' size hfile' hsize
      obtain ⟨rfl, rfl⟩ := Prod.mk.inj (Option.some.inj (hfile.symm.trans hfile'))
      exact (admitted_iff hinst.bounded size).mpr (hlimits size hsize)
    · intro index' reading' removed hfile' hsucceeds hremove
      obtain ⟨rfl, rfl⟩ := Prod.mk.inj (Option.some.inj (hfile.symm.trans hfile'))
      refine (hloads.restored hbound h.plain ?_ (h.succeeds_iff.mpr hsucceeds) hremove).trans h.Kbytes
      simp only [h.admits]
      exact hsum.2.1
    · rintro i rfl
      cases hfile
    · rintro rfl
      cases hfile

theorem callMeets_of_file_none (hfile : c.file inst = none) : CallMeets inst c := by
  constructor
  · intro index reading size hsome
    rw [hfile] at hsome
    cases hsome
  · intro index reading size hsome
    rw [hfile] at hsome
    cases hsome
  · intro index reading item hsome
    rw [hfile] at hsome
    cases hsome

theorem callMeets_iff (hfile : c.file inst = some (index, reading)) :
    CallMeets inst c ↔
      (∀ size, reading.size = some size → Unwrapped inst size ∧ Unrounded inst size) ∧
      (∀ size, reading.size = some size → instanceWeCanCommitMoreMemory inst size = true →
        reading.buffer ≠ 0 → Whole reading size) ∧
      ∀ item, inst.item index = .ok item →
        (Succeeds inst reading ∨ ∃ filename heap, c = .addFile filename heap reading) →
        item.kilobytes = 0 := by
  constructor
  · intro h
    exact ⟨fun size => h.limits index reading size hfile,
      fun size => h.whole index reading size hfile, fun item => h.replaced index reading item hfile⟩
  · rintro ⟨hlimits, hwhole, hreplaced⟩
    constructor
    · intro index' reading' size hfile'
      obtain ⟨rfl, rfl⟩ := Prod.mk.inj (Option.some.inj (hfile.symm.trans hfile'))
      exact hlimits size
    · intro index' reading' size hfile'
      obtain ⟨rfl, rfl⟩ := Prod.mk.inj (Option.some.inj (hfile.symm.trans hfile'))
      exact hwhole size
    · intro index' reading' item hfile'
      obtain ⟨rfl, rfl⟩ := Prod.mk.inj (Option.some.inj (hfile.symm.trans hfile'))
      exact hreplaced item

theorem map_snd_eq {α : Type*} {s : Except CacheFault (α × CacheInstance)}
    (h : s.map (·.2) = .ok inst') : ∃ a, s = .ok (a, inst') := by
  cases s with
  | error fault => cases h
  | ok answer =>
    obtain rfl := Except.ok.inj h
    exact ⟨answer.1, rfl⟩

/-- A call that returns is exact just if it meets the condition. -/
theorem Accounted.exact_iff (h : Accounted inst) (hcall : c.apply inst = .ok inst') :
    Exact inst c inst' ↔ CallMeets inst c := by
  cases c with
  | addFile filename heap reading =>
    obtain ⟨⟨answer, idx⟩, hadd⟩ := map_snd_eq hcall
    by_cases hslot : HasSlot inst
    · obtain ⟨added, hm, -, ⟨item, hitem⟩, hloads⟩ := addFile_loads hslot hadd
      have hfile : (Call.addFile filename heap reading).file inst =
          some (inst.loaded_cache_items, reading) := if_pos hslot
      rw [(h.readInEmptied hm hitem).exact_iff h hfile hloads, callMeets_iff hfile]
      constructor
      · rintro ⟨hlimits, hcleared, hwhole, -⟩
        refine ⟨hlimits, hwhole, fun item' hitem' _ => ?_⟩
        obtain rfl := Except.ok.inj (hitem.symm.trans hitem')
        exact hcleared
      · rintro ⟨hlimits, hwhole, hreplaced⟩
        refine ⟨hlimits, hreplaced item hitem (.inr ⟨_, _, rfl⟩), hwhole, fun _ new hnew => ?_⟩
        rw [item_emptied hm hitem, if_pos rfl] at hnew
        obtain rfl := Except.ok.inj hnew
        rfl
    · have hfile : (Call.addFile filename heap reading).file inst = none := if_neg hslot
      unfold cacheAddFile at hadd
      rw [createResource_full hslot] at hadd
      obtain ⟨-, rfl⟩ := Prod.mk.inj (Except.ok.inj hadd)
      refine iff_of_true ?_ (callMeets_of_file_none hfile)
      refine ⟨h.counted, ?_, ?_, fun _ hother => (by cases hother), fun hother => (by cases hother)⟩
      · intro index reading size hsome
        cases hfile.symm.trans hsome
      · intro index reading removed hsome
        cases hfile.symm.trans hsome
  | loadResourceFromDisk index reading =>
    obtain ⟨answer, hload⟩ := map_snd_eq hcall
    have hloads := loads_of_loadResource hload
    have hfile : (Call.loadResourceFromDisk index reading).file inst = some (index, reading) := rfl
    rw [h.readIn.exact_iff h hfile hloads, callMeets_iff hfile]
    constructor
    · rintro ⟨hlimits, -, hwhole, hreplaced⟩
      refine ⟨hlimits, hwhole, fun item hitem hor => ?_⟩
      rcases hor with hsucceeds | ⟨_, _, hother⟩
      · exact hreplaced hsucceeds item hitem
      · cases hother
    · rintro ⟨hlimits, hwhole, hreplaced⟩
      exact ⟨hlimits, rfl, hwhole, fun hsucceeds item hitem => hreplaced item hitem (.inl hsucceeds)⟩
  | removeResource index =>
    obtain ⟨hafter, hle⟩ := h.remove (removes_of_removeResource hcall)
    refine iff_of_true ⟨hafter.counted, ?_, ?_, fun _ _ => hle, fun hother => (by cases hother)⟩
      (callMeets_of_file_none rfl)
    · intro index' reading size hsome
      cases hsome
    · intro index' reading removed hsome
      cases hsome
  | destroy =>
    refine iff_of_true ⟨(h.destroy hcall).counted, ?_, ?_, fun _ hother => (by cases hother), ?_⟩
      (callMeets_of_file_none rfl)
    · intro index reading size hsome
      cases hsome
    · intro index reading removed hsome
      cases hsome
    · intro _ items removed hremove
      exact (h.removeAll hremove).2

theorem Accounted.call (h : Accounted inst) (hcall : c.apply inst = .ok inst')
    (hexact : Exact inst c inst') : Accounted inst' := by
  cases c with
  | addFile filename heap reading =>
    obtain ⟨⟨answer, idx⟩, hadd⟩ := map_snd_eq hcall
    by_cases hslot : HasSlot inst
    · obtain ⟨added, hm, -, ⟨item, hitem⟩, hloads⟩ := addFile_loads hslot hadd
      have hbase := h.readInEmptied hm hitem
      exact ⟨hexact.counted, hloads.bounded (hbase.Kbytes ▸ h.bounded), hloads.plain hbase.plain⟩
    · unfold cacheAddFile at hadd
      rw [createResource_full hslot] at hadd
      obtain ⟨-, rfl⟩ := Prod.mk.inj (Except.ok.inj hadd)
      exact h
  | loadResourceFromDisk index reading =>
    obtain ⟨answer, hload⟩ := map_snd_eq hcall
    have hloads := loads_of_loadResource hload
    exact ⟨hexact.counted, hloads.bounded h.bounded, hloads.plain h.plain⟩
  | removeResource index => exact (h.remove (removes_of_removeResource hcall)).1
  | destroy => exact h.destroy hcall

end Step

theorem Accounted.startup {max_seperate_items max_total_allocation_MB
    max_allocation_per_entry_MB : ℕ} {cacheMemory hashMapMemory : Bool} {inst : CacheInstance}
    (h : cacheInitialize .fresh max_seperate_items max_total_allocation_MB
      max_allocation_per_entry_MB cacheMemory hashMapMemory = (true, inst)) : Accounted inst := by
  cases cacheMemory with
  | false => cases (Prod.mk.inj h).1
  | true =>
    obtain ⟨-, rfl⟩ := Prod.mk.inj h
    refine ⟨?_, Nat.two_pow_pos 32, fun index item hitem => ?_⟩
    · show 0 = ((List.replicate _ CacheItem.zero).map (·.kilobytes)).sum
      rw [List.map_replicate, List.sum_replicate_nat]
      rfl
    · unfold CacheInstance.item at hitem
      simp only at hitem
      split at hitem
      · cases hitem
      · rename_i found hfound
        obtain rfl := Except.ok.inj hitem
        obtain rfl := List.eq_of_mem_replicate (List.mem_of_getElem? hfound)
        exact plain_zero

/-- For every configuration that is accepted, the memory accounting is exact over a history just if
each of its calls that return meets the condition in the state that it comes to. -/
theorem accounting_exact_iff {max_seperate_items max_total_allocation_MB
    max_allocation_per_entry_MB : ℕ} {cacheMemory hashMapMemory : Bool} {inst : CacheInstance}
    (hinit : cacheInitialize .fresh max_seperate_items max_total_allocation_MB
      max_allocation_per_entry_MB cacheMemory hashMapMemory = (true, inst)) (history : List Call) :
    Run.Allowed call CallExact (.ok inst) history ↔ Run.Allowed call StepMeets (.ok inst) history := by
  let Holds : Except CacheFault CacheInstance → Prop := fun s => ∀ inst, s = .ok inst → Accounted inst
  have hkeep : ∀ s c, Holds s → CallExact s c → Holds (call s c) := by
    intro s c hholds hexact inst' hcall
    cases s with
    | error fault => cases hcall
    | ok inst => exact (hholds inst rfl).call hcall (hexact inst' hcall)
  have hiff : ∀ s c, Holds s → (CallExact s c ↔ StepMeets s c) := by
    intro s c hholds
    cases s with
    | error fault => exact Iff.rfl
    | ok inst => exact forall₂_congr fun inst' hcall => (hholds inst rfl).exact_iff hcall
  refine Run.allowed_congr hkeep hiff history fun inst' hinst => ?_
  obtain rfl := Except.ok.inj hinst
  exact .startup hinit

/-- A file that is read in full. -/
def readInFull (size : ℕ) : Reading :=
  { fopen := true
    stat := some (size, 0)
    fseek := true
    ftell := 0
    buffer := 4096
    fread := size
    contentSize := true }

/-- A cache of four items of up to 3 MB. -/
def fourItems : CacheInstance := (cacheInitialize .fresh 4 128 3 true true).2

theorem accounting_exact_iff_fourItems :
    Run.Allowed call CallExact (.ok fourItems)
        [.addFile [] ⟨true, true, none⟩ (readInFull 5), .removeResource 0, .destroy] ↔
      Run.Allowed call StepMeets (.ok fourItems)
        [.addFile [] ⟨true, true, none⟩ (readInFull 5), .removeResource 0, .destroy] := by
  have hinit : cacheInitialize .fresh 4 128 3 true true = (true, fourItems) := rfl
  exact accounting_exact_iff hinit _

/-- A file of 1023 bytes is counted as a kilobyte, and its removal takes none back. -/
theorem endMarker_counted :
    ¬ ∀ (max_seperate_items max_total_allocation_MB max_allocation_per_entry_MB : ℕ)
      (cacheMemory hashMapMemory : Bool) (inst : CacheInstance),
      cacheInitialize .fresh max_seperate_items max_total_allocation_MB
        max_allocation_per_entry_MB cacheMemory hashMapMemory = (true, inst) →
      ∀ history : List Call, Run.Allowed call CallExact (.ok inst) history := by
  intro h
  have hrun := h 4 128 3 true true fourItems rfl
    [.addFile [] ⟨true, true, none⟩ (readInFull 1023)]
  have hcounted := (hrun.1 _ rfl).counted
  exact absurd hcounted (by decide)

end AmmarServer.Cache.Items
