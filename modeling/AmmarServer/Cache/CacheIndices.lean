import AmmarServer.Cache.CacheSteps
import AmmarServer.Hashmap.Unsorted
import Mathlib.Data.List.Nodup

/-! The indices that the cache gives out, over every sequence of insertions. -/

namespace AmmarServer.Cache.Items
open CString Hashmap Searching

variable (qsort : Qsort HashMapEntry.keyHash) (bsearch : Bsearch HashMapEntry.keyHash)

inductive Insertion
  | createResource (resource : List UInt8) (heap : Heap)
  | addFile (filename : List UInt8) (heap : Heap) (reading : Reading)
  | addMemoryBlock (context : RHContext) (heap : Heap)
  | addDoNOTCacheRule (filename : List UInt8) (heap : Heap)

namespace Insertion

/-- The key that an insertion asks an index for. -/
def key : Insertion → List UInt8
  | createResource resource _ => resource
  | addFile filename _ _ => filename
  | addMemoryBlock context _ => fullFilename context
  | addDoNOTCacheRule filename _ => filename

def heap : Insertion → Heap
  | createResource _ heap => heap
  | addFile _ heap _ => heap
  | addMemoryBlock _ heap => heap
  | addDoNOTCacheRule _ heap => heap

def call (inst : CacheInstance) : Insertion → Except CacheFault CacheInstance
  | createResource resource heap => (cacheCreateResource inst resource 0 heap).map (·.2)
  | addFile filename heap reading => (cacheAddFile inst filename 0 heap reading).map (·.2)
  | addMemoryBlock context heap => (cacheAddMemoryBlock inst context heap).map (·.2)
  | addDoNOTCacheRule filename heap =>
    (cacheAddDoNOTCacheRuleForResource qsort bsearch inst filename heap).map (·.2)

/-- A rule is for an item that is there, if there is one. -/
def Creates (inst : CacheInstance) : Insertion → Prop
  | addDoNOTCacheRule filename _ => (findResource qsort bsearch inst filename 0).1.1 = false
  | _ => True

instance (inst : CacheInstance) (e : Insertion) : Decidable (e.Creates qsort bsearch inst) := by
  cases e <;> unfold Creates <;> infer_instance

/-- The index that `cache_CreateResource` gives out, with its key. -/
def handedOut (inst : CacheInstance) (e : Insertion) : List (List UInt8 × ℕ) :=
  if e.Creates qsort bsearch inst then
    match cacheCreateResource inst e.key 0 e.heap with
    | .ok ((true, index), _) => [(e.key, index)]
    | _ => []
  else []

end Insertion

/-- An instance, and the indices that it has given out. -/
structure Indexed where
  inst : CacheInstance
  handed : List (List UInt8 × ℕ)

def insert (s : Except CacheFault Indexed) (e : Insertion) : Except CacheFault Indexed :=
  s.bind fun s => (e.call qsort bsearch s.inst).map fun inst =>
    ⟨inst, s.handed ++ e.handedOut qsort bsearch s.inst⟩

/-- Every index that was given out is one of the array and the position of its key, and no two of
them are the same. -/
structure IndicesSound (s : Indexed) : Prop where
  inArray : ∀ p ∈ s.handed,
    p.2 ≤ s.inst.MAX_SEPERATE_CACHE_ITEMS ∧ ∃ item, s.inst.item p.2 = .ok item
  position : ∀ p ∈ s.handed, hashMapFindIndexSerial s.inst.cacheHashMap p.1 0 = (true, p.2)
  distinct : (s.handed.map (·.2)).Nodup

def Sound : Except CacheFault Indexed → Prop
  | .ok s => IndicesSound s
  | .error _ => False

/-- The names that the cache knows. -/
def keysOf (hm : HashMap) : List (List UInt8) := hm.entries.map (·.key)

/-- The next index is in the array, the key is new, and there is memory for it in the table. -/
structure Fits (inst : CacheInstance) (key : List UInt8) (heap : Heap) : Prop where
  le : inst.loaded_cache_items ≤ inst.MAX_SEPERATE_CACHE_ITEMS
  inArray : ∃ item, inst.item inst.loaded_cache_items = .ok item
  new : key ∉ keysOf inst.cacheHashMap
  takes : Takes inst.cacheHashMap heap

/-- There is memory for the size of a file that is read. -/
def Insertion.Survives (inst : CacheInstance) : Insertion → Prop
  | .addFile _ _ reading => Succeeds inst reading → reading.contentSize = true
  | _ => True

/-- What an insertion needs. -/
def Meets : Except CacheFault Indexed → Insertion → Prop
  | .ok s, e => e.Creates qsort bsearch s.inst → HasSlot s.inst →
      Fits s.inst e.key e.heap ∧ e.Survives s.inst
  | .error _, _ => True

/-! What holds behind insertions that meet the condition. -/

/-- Each entry of the table has its position for payload. -/
structure Numbered (hm : HashMap) (n : ℕ) : Prop extends Unsorted hm where
  keys : (keysOf hm).Nodup
  length : hm.entries.length = n
  payload : ∀ (i : ℕ) (e : HashMapEntry), hm.entries[i]? = some e → e.payload = i

structure Inv (s : Indexed) : Prop where
  array : ∃ n, s.inst.cache.length = some n ∧ s.inst.loaded_cache_items ≤ n ∧ n < 2 ^ 32
  numbered : Numbered s.inst.cacheHashMap s.inst.loaded_cache_items
  handed : s.handed = s.inst.cacheHashMap.entries.map fun e => (e.key, e.payload)
  le : s.inst.loaded_cache_items ≤ s.inst.MAX_SEPERATE_CACHE_ITEMS + 1

namespace Numbered
variable {qsort bsearch} {hm hm' : HashMap} {n : ℕ} {key : List UInt8}

theorem serial (h : Numbered hm n) {i : ℕ} {e : HashMapEntry} (he : hm.entries[i]? = some e) :
    hashMapFindIndexSerial hm e.key 0 = (true, i) := by
  rcases serial_cases hm e.key 0 with ⟨j, f, hfound, hf, hkey, -⟩ | ⟨-, hnone⟩
  · have hsame : (keysOf hm)[j]? = (keysOf hm)[i]? := by
      unfold keysOf
      rw [List.getElem?_map, List.getElem?_map, hf, he]
      exact congrArg some hkey
    have hj : j < (keysOf hm).length := by
      rw [keysOf, List.length_map]
      exact (List.getElem?_eq_some_iff.mp hf).1
    rw [hfound, (List.getElem?_inj hj h.keys).mp hsame]
  · have hmem := List.mem_of_getElem? he
    exact absurd rfl (hnone e hmem (h.hashed e hmem))

theorem appended (h : Numbered hm n) (hunsorted : Unsorted hm')
    (happended : Appended hm hm' key n) (hnew : key ∉ keysOf hm) : Numbered hm' (n + 1) where
  toUnsorted := hunsorted
  keys := by
    unfold keysOf
    rw [happended.entries, List.map_append]
    refine List.nodup_append.mpr ⟨h.keys, List.nodup_singleton _, fun a ha b hb hsame => ?_⟩
    rw [hsame, List.mem_singleton.mp hb] at ha
    exact hnew ha
  length := by
    rw [happended.entries, List.length_append, h.length]
    rfl
  payload i e he := by
    rw [happended.entries] at he
    rcases Nat.lt_or_ge i hm.entries.length with hlt | hge
    · rw [List.getElem?_append_left hlt] at he
      exact h.payload i e he
    · rw [List.getElem?_append_right hge] at he
      obtain ⟨hi, rfl⟩ := List.getElem?_eq_some_iff.mp he
      rw [List.length_singleton] at hi
      have hsame : i = n := by
        have := h.length
        omega
      subst hsame
      simp

variable (qsort bsearch) in
/-- A lookup leaves the table as it is and answers with a position in it, or else the key is not
there. -/
theorem find (h : Numbered hm n) (key : List UInt8) (index : ℕ) :
    (hashMapFindIndex qsort bsearch hm key index).2 = hm ∧
      ((∃ i < n, (hashMapFindIndex qsort bsearch hm key index).1 = (true, i)) ∨
        ((hashMapFindIndex qsort bsearch hm key index).1 = (false, index) ∧ key ∉ keysOf hm)) := by
  obtain ⟨hsame, hfinds⟩ :=
    findIndex_finds qsort bsearch key index h.toUnsorted
  refine ⟨hsame, ?_⟩
  generalize (hashMapFindIndex qsort bsearch hm key index).1 = answer at hfinds
  cases hfinds with
  | hinted he _ => exact .inl ⟨_, h.length ▸ (List.getElem?_eq_some_iff.mp he).1, rfl⟩
  | searched he => exact .inl ⟨_, h.length ▸ (List.getElem?_eq_some_iff.mp he).1, rfl⟩
  | missed hnone =>
    refine .inr ⟨rfl, fun hkey => ?_⟩
    obtain ⟨e, he, rfl⟩ := List.mem_map.mp hkey
    exact hnone e he (h.hashed e he) rfl

end Numbered

variable {qsort bsearch} {s : Indexed} {e : Insertion} {inst inst' : CacheInstance} {hm : HashMap}
  {key : List UInt8}

theorem Inv.congr {handed : List (List UInt8 × ℕ)} (h : Inv ⟨inst, handed⟩)
    (hsame : SameIndex inst inst') : Inv ⟨inst', handed⟩ where
  array := by
    obtain ⟨n, hlength, hle, hlt⟩ := h.array
    exact ⟨n, hsame.length.trans hlength, hsame.loaded_cache_items.trans_le hle, hlt⟩
  numbered := by
    show Numbered inst'.cacheHashMap inst'.loaded_cache_items
    rw [hsame.cacheHashMap, hsame.loaded_cache_items]
    exact h.numbered
  handed := by
    show handed = inst'.cacheHashMap.entries.map _
    rw [hsame.cacheHashMap]
    exact h.handed
  le := by
    show inst'.loaded_cache_items ≤ inst'.MAX_SEPERATE_CACHE_ITEMS + 1
    rw [hsame.loaded_cache_items, hsame.MAX_SEPERATE_CACHE_ITEMS]
    exact h.le

theorem Inv.cache_ne (h : Inv s) : s.inst.cache ≠ .null := by
  obtain ⟨n, hlength, -⟩ := h.array
  intro hnull
  rw [hnull] at hlength
  cases hlength

theorem Inv.sound (h : Inv s) : IndicesSound s := by
  have hentry : ∀ p ∈ s.handed, ∃ e, s.inst.cacheHashMap.entries[p.2]? = some e ∧ e.key = p.1 := by
    intro p hp
    rw [h.handed] at hp
    obtain ⟨e, he, rfl⟩ := List.mem_map.mp hp
    obtain ⟨i, hi⟩ := List.mem_iff_getElem?.mp he
    rw [← h.numbered.payload i e hi] at hi
    exact ⟨e, hi, rfl⟩
  have hlt : ∀ p ∈ s.handed, p.2 < s.inst.loaded_cache_items := by
    intro p hp
    obtain ⟨e, he, -⟩ := hentry p hp
    exact h.numbered.length ▸ (List.getElem?_eq_some_iff.mp he).1
  refine ⟨fun p hp => ⟨?_, ?_⟩, fun p hp => ?_, ?_⟩
  · exact Nat.lt_succ_iff.mp ((hlt p hp).trans_le h.le)
  · obtain ⟨n, hlength, hle, -⟩ := h.array
    exact item_isOk_iff.mpr ⟨n, hlength, (hlt p hp).trans_le hle⟩
  · obtain ⟨e, he, hkey⟩ := hentry p hp
    rw [← hkey]
    exact h.numbered.serial he
  · rw [h.handed, List.map_map]
    have hpositions : s.inst.cacheHashMap.entries.map (·.payload) =
        List.range s.inst.cacheHashMap.entries.length := by
      apply List.ext_getElem?
      intro i
      rw [List.getElem?_map]
      cases he : s.inst.cacheHashMap.entries[i]? with
      | none => simp [List.getElem?_eq_none_iff.mp he]
      | some e =>
        rw [List.getElem?_range (List.getElem?_eq_some_iff.mp he).1]
        exact congrArg some (h.numbered.payload i e he)
    show (s.inst.cacheHashMap.entries.map (·.payload)).Nodup
    rw [hpositions]
    exact List.nodup_range

variable (qsort bsearch) in
/-- A lookup in the cache answers with an index that was given out, or else the key is not there. -/
theorem Inv.find (h : Inv s) (key : List UInt8) (index : ℕ) :
    (findResource qsort bsearch s.inst key index).2 = s.inst ∧
      ((∃ i < s.inst.loaded_cache_items,
          (findResource qsort bsearch s.inst key index).1 = (true, i)) ∨
        ((findResource qsort bsearch s.inst key index).1 = (false, index) ∧
          key ∉ keysOf s.inst.cacheHashMap)) := by
  obtain ⟨hsame, hfind⟩ := h.numbered.find qsort bsearch key index
  obtain ⟨n, -, hle, hlt⟩ := h.array
  unfold findResource cacheFindResource hashMapGetULongPayload
  rw [if_neg (by simpa using h.cache_ne)]
  generalize hashMapFindIndex qsort bsearch s.inst.cacheHashMap key index = answer at hsame hfind
  obtain ⟨⟨found, i⟩, hm'⟩ := answer
  simp only at hsame hfind
  subst hsame
  rcases hfind with ⟨j, hj, hanswer⟩ | ⟨hanswer, hmissing⟩
  · obtain ⟨rfl, rfl⟩ := Prod.mk.inj hanswer
    have hentry : s.inst.cacheHashMap.entries[i]?.map (·.payload) = some i := by
      rw [List.getElem?_eq_getElem (h.numbered.length.symm ▸ hj)]
      exact congrArg some (h.numbered.payload i _ (List.getElem?_eq_getElem _))
    refine ⟨rfl, .inl ⟨i, hj, ?_⟩⟩
    simp only [hentry, Option.getD_some]
    rw [Nat.mod_eq_of_lt (by omega)]
  · obtain ⟨rfl, rfl⟩ := Prod.mk.inj hanswer
    exact ⟨rfl, .inr ⟨rfl, hmissing⟩⟩

/-! One insertion. -/

theorem map_snd_ok {α β : Type} {r : Except CacheFault (α × β)} {b : β}
    (h : r.map (·.2) = .ok b) : ∃ a, r = .ok (a, b) := by
  cases r with
  | error fault => cases h
  | ok p => exact ⟨p.1, congrArg Except.ok (Prod.ext rfl (Except.ok.inj h))⟩

theorem markDoNOTCache_sameIndex {index : ℕ} {answer : Bool}
    (h : markDoNOTCache inst index = .ok (answer, inst')) : SameIndex inst inst' := by
  unfold markDoNOTCache at h
  split at h
  · cases h
  · obtain ⟨-, rfl⟩ := Prod.mk.inj (Except.ok.inj h)
    exact .setItem ..

theorem markDoNOTCache_returns {index : ℕ} (h : ∃ item, inst.item index = .ok item) :
    ∃ inst', markDoNOTCache inst index = .ok (true, inst') := by
  obtain ⟨item, hitem⟩ := h
  unfold markDoNOTCache
  rw [hitem]
  exact ⟨_, rfl⟩

theorem Inv.call_of_not_creates (h : Inv s)
    (hno : ¬ (e.Creates qsort bsearch s.inst ∧ HasSlot s.inst)) :
    e.handedOut qsort bsearch s.inst = [] ∧
      ∃ inst', e.call qsort bsearch s.inst = .ok inst' ∧ SameIndex s.inst inst' := by
  have hfull : e.Creates qsort bsearch s.inst →
      ∀ key index heap, cacheCreateResource s.inst key index heap = .ok ((false, index), s.inst) :=
    fun hcreates key index heap => createResource_full (fun hslot => hno ⟨hcreates, hslot⟩) ..
  constructor
  · unfold Insertion.handedOut
    split
    · rename_i hcreates
      rw [hfull hcreates]
    · rfl
  · cases e with
    | createResource resource heap =>
      refine ⟨s.inst, ?_, .refl _⟩
      show (cacheCreateResource s.inst resource 0 heap).map (·.2) = _
      rw [hfull trivial]
      rfl
    | addFile filename heap reading =>
      refine ⟨s.inst, ?_, .refl _⟩
      show (cacheAddFile s.inst filename 0 heap reading).map (·.2) = _
      unfold cacheAddFile
      rw [hfull trivial]
      rfl
    | addMemoryBlock context heap =>
      refine ⟨s.inst, ?_, .refl _⟩
      show (cacheAddMemoryBlock s.inst context heap).map (·.2) = _
      unfold cacheAddMemoryBlock
      rw [hfull trivial]
      rfl
    | addDoNOTCacheRule filename heap =>
      obtain ⟨hsame, hfind⟩ := h.find qsort bsearch filename 0
      show ∃ inst', (cacheAddDoNOTCacheRuleForResource qsort bsearch s.inst filename heap).map
        (·.2) = .ok inst' ∧ _
      unfold cacheAddDoNOTCacheRuleForResource
      rcases hfind with ⟨i, hi, hanswer⟩ | ⟨hanswer, -⟩
      · rw [Prod.ext (y := ((true, i), s.inst)) hanswer hsame]
        obtain ⟨n, hlength, hle, -⟩ := h.array
        obtain ⟨inst', hmark⟩ := markDoNOTCache_returns
          (item_isOk_iff.mpr ⟨n, hlength, hi.trans_le hle⟩)
        refine ⟨inst', ?_, markDoNOTCache_sameIndex hmark⟩
        simp only
        rw [hmark]
        rfl
      · have hcreates :
            (Insertion.addDoNOTCacheRule filename heap).Creates qsort bsearch s.inst := by
          show (findResource qsort bsearch s.inst filename 0).1.1 = false
          rw [hanswer]
        rw [Prod.ext (y := ((false, 0), s.inst)) hanswer hsame]
        refine ⟨s.inst, ?_, .refl _⟩
        simp only
        rw [hfull hcreates]
        rfl

theorem handedOut_of_creates {added : Bool} (hcreates : e.Creates qsort bsearch s.inst)
    (hslot : HasSlot s.inst)
    (hadd : hashMapAddULong s.inst.cacheHashMap e.key s.inst.loaded_cache_items e.heap =
      .ok (added, hm)) :
    e.handedOut qsort bsearch s.inst = [(e.key, s.inst.loaded_cache_items)] := by
  unfold Insertion.handedOut
  rw [if_pos hcreates, createResource_free hslot, hadd]

variable (qsort bsearch) in
theorem findResource_created {added : Bool} {heap : Heap} (h : Inv s)
    (hadd : hashMapAddULong s.inst.cacheHashMap key s.inst.loaded_cache_items heap =
      .ok (added, hm)) (index : ℕ) :
    (findResource qsort bsearch (s.inst.created hm) key index).2 = s.inst.created hm := by
  have hsame := (findIndex_finds qsort bsearch key index (h.numbered.of_add hadd).1).1
  unfold findResource cacheFindResource hashMapGetULongPayload
  have hcache : (s.inst.created hm).cache ≠ .null := h.cache_ne
  rw [if_neg (by simpa using hcache)]
  simp only [CacheInstance.created]
  generalize hashMapFindIndex qsort bsearch hm key index = answer at hsame
  obtain ⟨⟨found, i⟩, hm'⟩ := answer
  simp only at hsame
  subst hsame
  cases found <;> rfl

theorem createResource_ok {index : ℕ} {heap : Heap} {answer : Bool × ℕ} (hslot : HasSlot inst)
    (h : cacheCreateResource inst key index heap = .ok (answer, inst')) :
    ∃ added hm, hashMapAddULong inst.cacheHashMap key inst.loaded_cache_items heap =
        .ok (added, hm) ∧
      answer = (true, inst.loaded_cache_items) ∧ inst' = inst.created hm := by
  rw [createResource_free hslot] at h
  split at h
  · cases h
  · rename_i added hm hadd
    obtain ⟨rfl, rfl⟩ := Prod.mk.inj (Except.ok.inj h)
    exact ⟨added, hm, hadd, rfl, rfl⟩

theorem Inv.missed {filename : List UInt8} {heap : Heap} (h : Inv s)
    (hcreates : (Insertion.addDoNOTCacheRule filename heap).Creates qsort bsearch s.inst) :
    findResource qsort bsearch s.inst filename 0 = ((false, 0), s.inst) := by
  obtain ⟨hsame, hfind⟩ := h.find qsort bsearch filename 0
  have hfalse : (findResource qsort bsearch s.inst filename 0).1.1 = false := hcreates
  rcases hfind with ⟨i, -, hanswer⟩ | ⟨hanswer, -⟩
  · rw [hanswer] at hfalse
    cases hfalse
  · exact Prod.ext hanswer hsame

theorem Inv.call_of_creates (h : Inv s) (hcreates : e.Creates qsort bsearch s.inst)
    (hslot : HasSlot s.inst) (hcall : e.call qsort bsearch s.inst = .ok inst') :
    ∃ added hm, hashMapAddULong s.inst.cacheHashMap e.key s.inst.loaded_cache_items e.heap =
        .ok (added, hm) ∧
      SameIndex (s.inst.created hm) inst' ∧ e.Survives s.inst := by
  cases e with
  | createResource resource heap =>
    obtain ⟨answer, hcreate⟩ := map_snd_ok hcall
    obtain ⟨added, hm, hadd, -, rfl⟩ := createResource_ok hslot hcreate
    exact ⟨added, hm, hadd, .refl _, trivial⟩
  | addFile filename heap reading =>
    obtain ⟨⟨answer, idx⟩, hfile⟩ := map_snd_ok hcall
    obtain ⟨added, hm, hadd, -, hloads⟩ := addFile_loads hslot hfile
    refine ⟨added, hm, hadd, (SameIndex.setItem ..).trans hloads.sameIndex, fun hsucceeds => ?_⟩
    obtain rfl := hloads.answer_iff.mpr (emptied_succeeds.mpr hsucceeds)
    exact hloads.memory
  | addMemoryBlock context heap =>
    obtain ⟨answer, hblock⟩ := map_snd_ok hcall
    unfold cacheAddMemoryBlock at hblock
    split at hblock
    · cases hblock
    · rename_i hcreate
      obtain ⟨-, -, -, hanswer, -⟩ := createResource_ok hslot hcreate
      cases hanswer
    · rename_i hcreate
      obtain ⟨added, hm, hadd, -, rfl⟩ := createResource_ok hslot hcreate
      refine ⟨added, hm, hadd, ?_, trivial⟩
      split at hblock
      · cases hblock
      · obtain ⟨-, rfl⟩ := Prod.mk.inj (Except.ok.inj hblock)
        exact .setItem ..
  | addDoNOTCacheRule filename heap =>
    obtain ⟨answer, hrule⟩ := map_snd_ok hcall
    unfold cacheAddDoNOTCacheRuleForResource at hrule
    rw [h.missed hcreates] at hrule
    simp only at hrule
    split at hrule
    · cases hrule
    · rename_i hcreate
      obtain ⟨-, -, -, hanswer, -⟩ := createResource_ok hslot hcreate
      cases hanswer
    · rename_i index after hcreate
      obtain ⟨added, hm, hadd, hanswer, rfl⟩ := createResource_ok hslot hcreate
      refine ⟨added, hm, hadd, ?_, trivial⟩
      have hlookup := findResource_created qsort bsearch h hadd index
      generalize findResource qsort bsearch (s.inst.created hm) filename index =
        found at hlookup hrule
      obtain ⟨⟨found, i⟩, after⟩ := found
      simp only at hlookup
      subst hlookup
      cases found with
      | false =>
        obtain ⟨-, rfl⟩ := Prod.mk.inj (Except.ok.inj hrule)
        exact .refl _
      | true => exact markDoNOTCache_sameIndex hrule

theorem Inv.created (h : Inv s) {heap : Heap} (hfits : Fits s.inst key heap)
    (hunsorted : Unsorted hm)
    (happended : Appended s.inst.cacheHashMap hm key s.inst.loaded_cache_items) :
    Inv ⟨s.inst.created hm, s.handed ++ [(key, s.inst.loaded_cache_items)]⟩ := by
  obtain ⟨n, hlength, -, hlt⟩ := h.array
  have hinArray : s.inst.loaded_cache_items < n := by
    obtain ⟨n', hlength', hlt'⟩ := item_isOk_iff.mp hfits.inArray
    obtain rfl := Option.some.inj (hlength.symm.trans hlength')
    exact hlt'
  have hnext : (s.inst.loaded_cache_items + 1) % 2 ^ 32 = s.inst.loaded_cache_items + 1 :=
    Nat.mod_eq_of_lt (by omega)
  constructor
  · exact ⟨n, hlength, hnext.trans_le hinArray, hlt⟩
  · show Numbered hm ((s.inst.loaded_cache_items + 1) % 2 ^ 32)
    rw [hnext]
    exact h.numbered.appended hunsorted happended hfits.new
  · show s.handed ++ _ = hm.entries.map _
    rw [happended.entries, List.map_append, h.handed]
    rfl
  · show (s.inst.loaded_cache_items + 1) % 2 ^ 32 ≤ s.inst.MAX_SEPERATE_CACHE_ITEMS + 1
    rw [hnext]
    exact Nat.succ_le_succ hfits.le

theorem Inv.call_returns (h : Inv s) (hcreates : e.Creates qsort bsearch s.inst)
    (hslot : HasSlot s.inst) (hfits : Fits s.inst e.key e.heap) (hsurvives : e.Survives s.inst)
    (hadd : hashMapAddULong s.inst.cacheHashMap e.key s.inst.loaded_cache_items e.heap =
      .ok (true, hm))
    (happended : Appended s.inst.cacheHashMap hm e.key s.inst.loaded_cache_items) :
    ∃ inst', e.call qsort bsearch s.inst = .ok inst' := by
  have hcreate : ∀ index, cacheCreateResource s.inst e.key index e.heap =
      .ok ((true, s.inst.loaded_cache_items), s.inst.created hm) := by
    intro index
    rw [createResource_free hslot, hadd]
  cases e with
  | createResource resource heap =>
    simp only [Insertion.key, Insertion.heap] at hcreate
    show ∃ inst', (cacheCreateResource s.inst resource 0 heap).map (·.2) = .ok inst'
    rw [hcreate]
    exact ⟨_, rfl⟩
  | addFile filename heap reading =>
    obtain ⟨answer, inst', hfile⟩ := addFile_returns 0 hslot hadd hfits.inArray hsurvives
    simp only [Insertion.key, Insertion.heap] at hfile
    refine ⟨inst', ?_⟩
    show (cacheAddFile s.inst filename 0 heap reading).map (·.2) = .ok inst'
    rw [hfile]
    rfl
  | addMemoryBlock context heap =>
    obtain ⟨item, hitem⟩ := hfits.inArray
    have hcreated : (s.inst.created hm).item s.inst.loaded_cache_items = .ok item := hitem
    simp only [Insertion.key, Insertion.heap] at hcreate
    show ∃ inst', (cacheAddMemoryBlock s.inst context heap).map (·.2) = .ok inst'
    unfold cacheAddMemoryBlock
    rw [hcreate]
    simp only [hcreated]
    exact ⟨_, rfl⟩
  | addDoNOTCacheRule filename heap =>
    have hafter := h.created hfits (h.numbered.of_add hadd).1 happended
    simp only [Insertion.key, Insertion.heap] at hcreate
    obtain ⟨hsame, hfind⟩ := hafter.find qsort bsearch filename s.inst.loaded_cache_items
    show ∃ inst', (cacheAddDoNOTCacheRuleForResource qsort bsearch s.inst filename heap).map (·.2) =
      .ok inst'
    unfold cacheAddDoNOTCacheRuleForResource
    rw [h.missed hcreates]
    simp only
    rw [hcreate]
    simp only at hsame hfind ⊢
    rcases hfind with ⟨i, hi, hanswer⟩ | ⟨hanswer, -⟩
    · rw [Prod.ext (y := ((true, i), s.inst.created hm)) hanswer hsame]
      obtain ⟨n, hlength, hle, -⟩ := hafter.array
      obtain ⟨inst', hmark⟩ := markDoNOTCache_returns
        (item_isOk_iff.mpr ⟨n, hlength, hi.trans_le hle⟩)
      refine ⟨inst', ?_⟩
      simp only
      rw [hmark]
      rfl
    · rw [Prod.ext (y := ((false, _), s.inst.created hm)) hanswer hsame]
      exact ⟨_, rfl⟩

theorem insert_ok (hcall : e.call qsort bsearch s.inst = .ok inst') :
    insert qsort bsearch (.ok s) e = .ok ⟨inst', s.handed ++ e.handedOut qsort bsearch s.inst⟩ := by
  show (e.call qsort bsearch s.inst).map _ = _
  rw [hcall]
  rfl

/-- An insertion that meets the condition keeps the indices sound. -/
theorem Inv.insert (h : Inv s) (hmeets : Meets qsort bsearch (.ok s) e) :
    ∃ s', Items.insert qsort bsearch (.ok s) e = .ok s' ∧ Inv s' := by
  by_cases hboth : e.Creates qsort bsearch s.inst ∧ HasSlot s.inst
  · obtain ⟨hcreates, hslot⟩ := hboth
    obtain ⟨hfits, hsurvives⟩ := hmeets hcreates hslot
    obtain ⟨hm, hadd, happended⟩ :=
      addULong_takes e.key s.inst.loaded_cache_items hfits.takes h.numbered.room h.numbered.step
    obtain ⟨inst', hcall⟩ := h.call_returns hcreates hslot hfits hsurvives hadd happended
    obtain ⟨added, hm', hadd', hsame, -⟩ := h.call_of_creates hcreates hslot hcall
    obtain ⟨-, rfl⟩ := Prod.mk.inj (Except.ok.inj (hadd.symm.trans hadd'))
    refine ⟨_, insert_ok hcall, ?_⟩
    rw [handedOut_of_creates hcreates hslot hadd]
    exact (h.created hfits (h.numbered.of_add hadd).1 happended).congr hsame
  · obtain ⟨hnone, inst', hcall, hsame⟩ := h.call_of_not_creates hboth
    refine ⟨_, insert_ok hcall, ?_⟩
    rw [hnone, List.append_nil]
    exact Inv.congr h hsame

/-- Behind an insertion that does not meet it, they are not. -/
theorem Inv.meets_of_sound (h : Inv s) (hsound : Sound (Items.insert qsort bsearch (.ok s) e)) :
    Meets qsort bsearch (.ok s) e := by
  intro hcreates hslot
  cases hcall : e.call qsort bsearch s.inst with
  | error fault =>
    have herror : Items.insert qsort bsearch (.ok s) e = .error fault := by
      show (e.call qsort bsearch s.inst).map _ = _
      rw [hcall]
      rfl
    rw [herror] at hsound
    exact hsound.elim
  | ok inst' =>
    rw [insert_ok hcall] at hsound
    obtain ⟨added, hm, hadd, hsame, hsurvives⟩ := h.call_of_creates hcreates hslot hcall
    have hmem : (e.key, s.inst.loaded_cache_items) ∈
        s.handed ++ e.handedOut qsort bsearch s.inst := by
      rw [handedOut_of_creates hcreates hslot hadd]
      exact List.mem_append_right _ (List.mem_singleton_self _)
    obtain ⟨hle, hitem⟩ := hsound.inArray _ hmem
    have hposition := hsound.position _ hmem
    simp only at hle hitem hposition
    rw [hsame.MAX_SEPERATE_CACHE_ITEMS] at hle
    rw [hsame.cacheHashMap] at hposition
    replace hposition : hashMapFindIndexSerial hm e.key 0 = (true, s.inst.loaded_cache_items) :=
      hposition
    rw [item_isOk_iff, hsame.length] at hitem
    -- The key is not at the place of an entry that was there before.
    have hold : ∀ (i : ℕ) (f : HashMapEntry), s.inst.cacheHashMap.entries[i]? = some f →
        hm.entries[i]? = some f → f.key ≠ e.key := by
      intro i f hf hf' hkey
      have hhash := h.numbered.hashed f (List.mem_of_getElem? hf)
      obtain ⟨j, hj, hfound⟩ := serial_le 0 hf' hkey (hhash.trans (congrArg _ hkey))
      have hsame' := hposition.symm.trans hfound
      have hlt := (List.getElem?_eq_some_iff.mp hf).1
      rw [h.numbered.length] at hlt
      have hloaded : s.inst.loaded_cache_items = j := (Prod.mk.inj hsame').2
      omega
    obtain ⟨-, happended, hrefused⟩ := h.numbered.of_add hadd
    have htakes : Takes s.inst.cacheHashMap e.heap := by
      by_contra hno
      rcases serial_cases hm e.key 0 with ⟨i, f, hfound, hf, hkey, -⟩ | ⟨hmissed, -⟩
      · rw [hrefused hno] at hf
        exact hold i f hf (by rw [hrefused hno, hf]) hkey
      · rw [hmissed] at hposition
        cases hposition
    refine ⟨⟨hle, item_isOk_iff.mpr hitem, fun hknown => ?_, htakes⟩, hsurvives⟩
    obtain ⟨f, hf, hkey⟩ := List.mem_map.mp hknown
    obtain ⟨i, hi⟩ := List.mem_iff_getElem?.mp hf
    refine hold i f hi ?_ hkey
    rw [(happended htakes).entries,
      List.getElem?_append_left (List.getElem?_eq_some_iff.mp hi).1, hi]

/-! Every history. -/

theorem Inv.startup {max_seperate_items max_total_allocation_MB max_allocation_per_entry_MB : ℕ}
    {cacheMemory hashMapMemory : Bool} {inst : CacheInstance}
    (h : cacheInitialize .fresh max_seperate_items max_total_allocation_MB
      max_allocation_per_entry_MB cacheMemory hashMapMemory = (true, inst)) : Inv ⟨inst, []⟩ := by
  unfold cacheInitialize at h
  simp only [CacheInstance.fresh, if_true] at h
  split at h
  · obtain ⟨-, rfl⟩ := Prod.mk.inj h
    have hcreated : ∀ initialEntries, Numbered (hashMapCreate initialEntries 1000 false) 0 := by
      intro initialEntries
      exact ⟨unsorted_create _ (Nat.succ_pos 999), List.nodup_nil, rfl, fun i e he => (by cases he)⟩
    have hnumbered : Numbered (if hashMapMemory then hashMapCreate max_seperate_items 1000 false
        else noHashMap) 0 := by
      split
      · exact hcreated _
      · exact hcreated 0
    refine ⟨⟨_, rfl, Nat.zero_le _, ?_⟩, hnumbered, ?_, Nat.zero_le _⟩
    · rw [List.length_replicate]
      unfold cacheLength sizeofCacheItem
      omega
    · rw [List.eq_nil_of_length_eq_zero hnumbered.length]
      rfl
  · cases h

/-- For every configuration that is accepted, the indices that are given out stay sound over a
history of insertions just if each of them meets the condition in the state that it comes to. -/
theorem indices_sound_iff (qsort : Qsort HashMapEntry.keyHash)
    (bsearch : Bsearch HashMapEntry.keyHash)
    {max_seperate_items max_total_allocation_MB max_allocation_per_entry_MB : ℕ}
    {cacheMemory hashMapMemory : Bool} {inst : CacheInstance}
    (hinit : cacheInitialize .fresh max_seperate_items max_total_allocation_MB
      max_allocation_per_entry_MB cacheMemory hashMapMemory = (true, inst))
    (history : List Insertion) :
    Run.Allowed (insert qsort bsearch) (fun s e => Sound (insert qsort bsearch s e))
        (.ok ⟨inst, []⟩) history ↔
      Run.Allowed (insert qsort bsearch) (Meets qsort bsearch) (.ok ⟨inst, []⟩) history := by
  let Holds : Except CacheFault Indexed → Prop := fun s => ∃ s', s = .ok s' ∧ Inv s'
  have hiff : ∀ s e, Holds s →
      (Sound (insert qsort bsearch s e) ↔ Meets qsort bsearch s e) := by
    rintro _ e ⟨s, rfl, h⟩
    refine ⟨h.meets_of_sound, fun hmeets => ?_⟩
    obtain ⟨s', hstep, h'⟩ := h.insert hmeets
    rw [hstep]
    exact h'.sound
  have hkeep : ∀ s e, Holds s → Sound (insert qsort bsearch s e) →
      Holds (insert qsort bsearch s e) := by
    rintro s e hholds hsound
    have hmeets := (hiff s e hholds).mp hsound
    obtain ⟨s, rfl, h⟩ := hholds
    exact h.insert hmeets
  exact Run.allowed_congr hkeep hiff history ⟨_, rfl, .startup hinit⟩

/-- Memory for everything. -/
def granted : Heap := { entries := true, key := true, payload := none }

/-- A cache of one item, with the other limits of the server. -/
def oneItem : CacheInstance := (cacheInitialize .fresh 1 128 3 true true).2

theorem startup_oneItem : cacheInitialize .fresh 1 128 3 true true = (true, oneItem) := rfl

theorem indices_sound_iff_oneItem :
    Run.Allowed (insert .insertion .halving) (fun s e => Sound (insert .insertion .halving s e))
        (.ok ⟨oneItem, []⟩) [.createResource (ascii "a") granted] ↔
      Run.Allowed (insert .insertion .halving) (Meets .insertion .halving) (.ok ⟨oneItem, []⟩)
        [.createResource (ascii "a") granted] :=
  indices_sound_iff .insertion .halving startup_oneItem _

/-- The third name gets an index behind the array, because the number of items is held against the
megabytes. -/
theorem oneItem_handsOutTwo :
    ¬ ∀ (max_seperate_items max_total_allocation_MB max_allocation_per_entry_MB : ℕ)
      (cacheMemory hashMapMemory : Bool) (inst : CacheInstance),
      cacheInitialize .fresh max_seperate_items max_total_allocation_MB
        max_allocation_per_entry_MB cacheMemory hashMapMemory = (true, inst) →
      ∀ history : List Insertion,
        Run.Allowed (insert .insertion .halving) (fun s e => Sound (insert .insertion .halving s e))
          (.ok ⟨inst, []⟩) history := by
  intro h
  have hrun := h 1 128 3 true true _ rfl [.createResource (ascii "a") granted,
    .createResource (ascii "b") granted, .createResource (ascii "c") granted]
  have hthird : (2 : ℕ) ≤ 1 := (hrun.2.2.1.inArray (ascii "c", 2) (by decide)).1
  exact absurd hthird (by decide)

end AmmarServer.Cache.Items
