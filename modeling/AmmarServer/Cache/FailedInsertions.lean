import AmmarServer.Cache.CacheSteps

/-! What a `cache_AddFile` that fails leaves behind. -/

namespace AmmarServer.Cache.Items
open CString Hashmap

/-- The names that the cache knows. -/
def CacheInstance.keys (inst : CacheInstance) : List (List UInt8) :=
  inst.cacheHashMap.entries.map (·.key)

/-- Everything but the item at the next index is as it was. -/
structure LeftAsItWas (before after : CacheInstance) : Prop where
  loaded_cache_items : after.loaded_cache_items = before.loaded_cache_items
  keys : ∀ key, key ∈ after.keys ↔ key ∈ before.keys
  loaded_cache_items_Kbytes : after.loaded_cache_items_Kbytes = before.loaded_cache_items_Kbytes
  items : ∀ i, i ≠ before.loaded_cache_items → after.item i = before.item i

theorem LeftAsItWas.refl (inst : CacheInstance) : LeftAsItWas inst inst :=
  ⟨rfl, fun _ => Iff.rfl, rfl, fun _ _ => rfl⟩

theorem succ_mod_ne (n : ℕ) : (n + 1) % 2 ^ 32 ≠ n := by omega

/-- Behind a slot, a failure has taken it. -/
theorem addFile_loaded {inst inst' : CacheInstance} {filename : List UInt8} {index idx : ℕ}
    {heap : Heap} {reading : Reading} {answer : Bool} (hslot : HasSlot inst)
    (hreturns : cacheAddFile inst filename index heap reading = .ok ((answer, idx), inst')) :
    (answer = true ↔ Succeeds inst reading) ∧
      inst'.loaded_cache_items = (inst.loaded_cache_items + 1) % 2 ^ 32 := by
  obtain ⟨-, hm, -, -, hloads⟩ := addFile_loads hslot hreturns
  exact ⟨hloads.answer_iff.trans emptied_succeeds,
    hloads.sameIndex.loaded_cache_items.trans (setItem_loaded ..)⟩

/-- A `cache_AddFile` leaves the cache as it was if it fails, just if there is no slot or the file is
read, so that it does not fail. -/
theorem addFile_leftAsItWas_iff {inst inst' : CacheInstance} (filename : List UInt8) (index : ℕ)
    (heap : Heap) (reading : Reading) {answer : Bool} {idx : ℕ}
    (hreturns : cacheAddFile inst filename index heap reading = .ok ((answer, idx), inst')) :
    (answer = false → LeftAsItWas inst inst') ↔ ¬ HasSlot inst ∨ Succeeds inst reading := by
  by_cases hslot : HasSlot inst
  · obtain ⟨hanswer, hloaded⟩ := addFile_loaded hslot hreturns
    rw [or_iff_right (not_not.mpr hslot), ← hanswer]
    constructor
    · intro h
      by_contra hfailed
      have hleft := (h (Bool.eq_false_of_not_eq_true hfailed)).loaded_cache_items
      exact succ_mod_ne _ (hloaded.symm.trans hleft)
    · rintro rfl hfailed
      cases hfailed
  · refine iff_of_true (fun _ => ?_) (.inl hslot)
    unfold cacheAddFile at hreturns
    rw [createResource_full hslot] at hreturns
    obtain ⟨-, rfl⟩ := Prod.mk.inj (Except.ok.inj hreturns)
    exact .refl inst

/-- A file that cannot be opened. -/
def missing : Reading :=
  { fopen := false
    stat := none
    fseek := false
    ftell := 0
    buffer := 0
    fread := 0
    contentSize := false }

/-- The cache that the server starts with. -/
def startup : CacheInstance := (cacheInitialize .fresh 1024 128 3 true true).2

theorem addFile_leftAsItWas_iff_missing :
    (false = false → LeftAsItWas startup
      ((startup.created (addEntry startup.cacheHashMap (ascii "a") 0 0)).setItem 0 .zero)) ↔
        ¬ HasSlot startup ∨ Succeeds startup missing :=
  addFile_leftAsItWas_iff (ascii "a") 0 ⟨true, true, none⟩ missing rfl

/-- A request for a file that is not there takes a slot of the cache. -/
theorem missingFile_takesSlot :
    ¬ ∀ (inst : CacheInstance) (filename : List UInt8) (index : ℕ) (heap : Heap) (reading : Reading)
      (idx : ℕ) (inst' : CacheInstance),
      cacheAddFile inst filename index heap reading = .ok ((false, idx), inst') →
        LeftAsItWas inst inst' := by
  intro h
  have hleft := h startup (ascii "a") 0 ⟨true, true, none⟩ missing _ _ rfl
  exact absurd hleft.loaded_cache_items (by decide)

end AmmarServer.Cache.Items
