import Mathlib.Data.Finset.Card
import AmmarServer.Hashmap.Lookups

/-! A table of `Hashmap/hashmap.c` that is only added to: what a lookup with the hint 0 says where
the hash tells the key apart. -/

namespace AmmarServer.Hashmap
open Searching

variable {qsort : Qsort HashMapEntry.keyHash} {bsearch : Bsearch HashMapEntry.keyHash}
  {hm : HashMap} {stored : List UInt8 → Option ℕ} {key : List UInt8}

structure Growing (hm : HashMap) (stored : List UInt8 → Option ℕ) : Prop where
  represents : Represents hm stored
  ok : hashMapIsOK hm = true
  positions : ∀ e ∈ hm.entries, e.index < hm.curNumberOfEntries
  stepsUp : 0 < hm.entryAllocationStep ∧ hm.entryAllocationStep ≤ 1000
  size : hm.maxNumberOfEntries ≤ 10000 + 1000 * hm.curNumberOfEntries

theorem growing_create {initialEntries entryAllocationStep : ℕ}
    (hinitial : 0 < initialEntries ∧ initialEntries ≤ 10000)
    (hstep : 0 < entryAllocationStep ∧ entryAllocationStep ≤ 1000) (useSorting : Bool) :
    Growing (hashMapCreate initialEntries entryAllocationStep useSorting) fun _ => none where
  represents := represents_create ..
  ok := decide_eq_true hinitial.1.ne'
  positions _ he := (by cases he)
  stepsUp := hstep
  size := hinitial.2

/-- No other key of the table has the hash. -/
def Told (hm : HashMap) (key : List UInt8) : Prop :=
  ∀ e ∈ hm.entries, e.keyHash = hashFunction key → e.key = key

namespace Growing

theorem prepare_entries (hm : HashMap) :
    (hashMapPrepareForQueries qsort hm).2.entries.Perm hm.entries ∧
      (hashMapPrepareForQueries qsort hm).2.maxNumberOfEntries = hm.maxNumberOfEntries ∧
        (hashMapPrepareForQueries qsort hm).2.entryAllocationStep = hm.entryAllocationStep := by
  unfold hashMapPrepareForQueries hashMapSort
  split_ifs
  · exact ⟨.refl _, rfl, rfl⟩
  · exact ⟨.refl _, rfl, rfl⟩
  · exact ⟨qsort.perm _, rfl, rfl⟩
  · exact ⟨.refl _, rfl, rfl⟩

theorem prepare (h : Growing hm stored) :
    Growing (hashMapPrepareForQueries qsort hm).2 stored := by
  obtain ⟨hperm, hmax, hstep⟩ := @prepare_entries qsort hm
  have hcount : (hashMapPrepareForQueries qsort hm).2.curNumberOfEntries = hm.curNumberOfEntries :=
    hperm.length_eq
  refine ⟨h.represents.prepare, ?_, fun e he => ?_, ?_, ?_⟩
  · have hok := h.ok
    unfold hashMapIsOK at hok ⊢
    rwa [hmax]
  · rw [hcount]
    exact h.positions e (hperm.mem_iff.mp he)
  · rw [hstep]
    exact h.stepsUp
  · rw [hmax, hcount]
    exact h.size

theorem getULongPayload_snd (h : Growing hm stored) (key : List UInt8) (payload : ℕ) :
    Growing (hashMapGetULongPayload qsort bsearch hm key payload).2 stored := by
  have hsnd := @findIndex_snd qsort bsearch hm key payload
  unfold hashMapGetULongPayload
  generalize hashMapFindIndex qsort bsearch hm key payload = answer at *
  obtain ⟨⟨found, i⟩, hm'⟩ := answer
  obtain rfl : hm' = (hashMapPrepareForQueries qsort hm).2 := hsnd
  cases found with
  | false => exact h.prepare
  | true => exact h.prepare

theorem getULongPayload_fst (h : Growing hm stored) (htold : Told hm key) :
    (hashMapGetULongPayload qsort bsearch hm key 0).1 =
      ((stored key).isSome, (stored key).getD 0) := by
  obtain ⟨hperm, -, -⟩ := @prepare_entries qsort hm
  have hfindable : Findable (hashMapPrepareForQueries qsort hm).2 key 0 :=
    ⟨fun e he => htold e (hperm.mem_iff.mp (List.mem_of_getElem? he)),
      fun _ _ _ _ e he _ => h.prepare.positions e he⟩
  obtain ⟨hfound, hentry⟩ := (findIndex_answers_iff h.represents).mpr hfindable bsearch
  have hsnd := @findIndex_snd qsort bsearch hm key 0
  unfold hashMapGetULongPayload
  generalize hashMapFindIndex qsort bsearch hm key 0 = answer at *
  obtain ⟨⟨found, i⟩, hm'⟩ := answer
  obtain rfl : hm' = (hashMapPrepareForQueries qsort hm).2 := hsnd
  cases found with
  | false =>
    have hnone : stored key = none := by
      cases hstored : stored key with
      | none => rfl
      | some v => exact absurd (hfound.mpr (by rw [hstored]; rfl)) Bool.false_ne_true
    rw [hnone]
    rfl
  | true =>
    obtain ⟨e, hget, hkey⟩ := hentry rfl
    have hstored := h.prepare.represents.payload_eq hget hkey
    dsimp only at hget ⊢
    rw [hstored, hget]
    rfl

theorem count_le (h : Growing hm stored) {n : ℕ} (hlt : ∀ key v, stored key = some v → v < n)
    (hinj : ∀ key key' v, stored key = some v → stored key' = some v → key = key') :
    hm.curNumberOfEntries ≤ n := by
  have hstored : ∀ e ∈ hm.entries, stored e.key = some e.payload := fun e he =>
    (h.represents.stored_iff _ _).mpr ⟨e, he, rfl, rfl⟩
  have hnodup : (hm.entries.map fun e => e.payload).Nodup := by
    refine (List.nodup_map_iff_inj_on h.represents.keys.of_map).mpr fun e he e' he' heq => ?_
    have hkey := hinj e.key e'.key e.payload (hstored e he) (heq ▸ hstored e' he')
    exact List.inj_on_of_nodup_map h.represents.keys he he' hkey
  have hsubset : (hm.entries.map fun e => e.payload).toFinset ⊆ Finset.range n := by
    intro v hv
    obtain ⟨e, he, rfl⟩ := List.mem_map.mp (List.mem_toFinset.mp hv)
    exact Finset.mem_range.mpr (hlt e.key e.payload (hstored e he))
  have hcard := Finset.card_le_card hsubset
  rwa [List.toFinset_card_of_nodup hnodup, List.length_map, Finset.card_range] at hcard

theorem addEntry {hm' : HashMap} (h : Growing hm stored) (h' : Represents hm' stored)
    (hentries : hm'.entries = hm.entries)
    (hstep : hm'.entryAllocationStep = hm.entryAllocationStep)
    (hmax : hm.maxNumberOfEntries ≤ hm'.maxNumberOfEntries ∧
      hm'.maxNumberOfEntries ≤ hm.maxNumberOfEntries + 1000)
    (habsent : stored key = none) (hroom : hm'.curNumberOfEntries < hm'.maxNumberOfEntries)
    (val : ℕ) :
    Growing (Hashmap.addEntry hm' key val 0) (Function.update stored key (some val)) := by
  have hsame : hm'.curNumberOfEntries = hm.curNumberOfEntries := congrArg List.length hentries
  have hcount : (Hashmap.addEntry hm' key val 0).curNumberOfEntries = hm.curNumberOfEntries + 1 :=
    List.length_append.trans (congrArg (· + 1) hsame)
  refine ⟨h'.addEntry habsent hroom val 0, ?_, fun e he => ?_, ?_, ?_⟩
  · exact decide_eq_true (Nat.ne_zero_of_lt hroom)
  · rw [hcount]
    rcases List.mem_append.mp he with he | he
    · exact Nat.lt_succ_of_lt (h.positions e (hentries ▸ he))
    · rw [List.mem_singleton.mp he]
      exact Nat.lt_succ_of_le hsame.le
  · show 0 < hm'.entryAllocationStep ∧ hm'.entryAllocationStep ≤ 1000
    rw [hstep]
    exact h.stepsUp
  · rw [hcount]
    show hm'.maxNumberOfEntries ≤ 10000 + 1000 * (hm.curNumberOfEntries + 1)
    have hsize := h.size
    omega

theorem addULong (h : Growing hm stored) (habsent : stored key = none) (val : ℕ) {heap : Heap}
    (hkey : heap.key = true) (hentries : heap.entries = true)
    (hcount : hm.curNumberOfEntries ≤ 1000000) :
    ∃ hm', hashMapAddULong hm key val heap = .ok (true, hm') ∧
      Growing hm' (Function.update stored key (some val)) := by
  have hclear : ∀ hm' : HashMap, hm'.curNumberOfEntries < hm'.maxNumberOfEntries →
      Hashmap.addWhenClear hm' key val 0 heap = .ok (true, Hashmap.addEntry hm' key val 0) := by
    intro hm' hroom
    unfold Hashmap.addWhenClear
    rw [if_neg (Nat.not_le.mpr hroom), hkey]
    rfl
  have hok : (!hashMapIsOK hm) = false := by rw [h.ok]; rfl
  unfold hashMapAddULong hashMapAdd
  rw [hok, if_neg Bool.false_ne_true]
  split_ifs with hfull
  · obtain ⟨hpos, hstep⟩ := h.stepsUp
    have hsize := h.size
    have hroom := h.represents.room.trans_lt (Nat.lt_add_of_pos_right hpos)
    unfold hashMapGrow
    rw [if_pos hentries, if_pos (by omega)]
    dsimp only
    rw [hclear _ hroom]
    have hgrown : Represents { hm with
        maxNumberOfEntries := hm.maxNumberOfEntries + hm.entryAllocationStep } stored :=
      h.represents.grow rfl (Nat.le_add_right _ _) rfl
    exact ⟨_, rfl, h.addEntry hgrown rfl rfl
      ⟨Nat.le_add_right _ _, Nat.add_le_add_left hstep _⟩ habsent hroom val⟩
  · have hroom := Nat.lt_of_not_le hfull
    rw [hclear _ hroom]
    exact ⟨_, rfl, h.addEntry h.represents rfl rfl ⟨le_rfl, Nat.le_add_right _ _⟩ habsent hroom val⟩

theorem addULong_isOk (h : Growing hm stored) (key : List UInt8) (val : ℕ) {heap : Heap}
    (hentries : heap.entries = true) (hcount : hm.curNumberOfEntries ≤ 1000000) :
    ∃ answer, hashMapAddULong hm key val heap = .ok answer := by
  have hclear : ∀ hm' : HashMap, hm'.curNumberOfEntries < hm'.maxNumberOfEntries →
      ∃ answer, Hashmap.addWhenClear hm' key val 0 heap = .ok answer := by
    intro hm' hroom
    unfold Hashmap.addWhenClear
    rw [if_neg (Nat.not_le.mpr hroom)]
    split_ifs with hkey hzero
    · exact ⟨_, rfl⟩
    · exact ⟨_, rfl⟩
    · exact absurd rfl hzero
  have hok : (!hashMapIsOK hm) = false := by rw [h.ok]; rfl
  unfold hashMapAddULong hashMapAdd
  rw [hok, if_neg Bool.false_ne_true]
  split_ifs with hfull
  · obtain ⟨hpos, hstep⟩ := h.stepsUp
    have hsize := h.size
    unfold hashMapGrow
    rw [if_pos hentries, if_pos (by omega)]
    exact hclear _ (h.represents.room.trans_lt (Nat.lt_add_of_pos_right hpos))
  · exact hclear _ (Nat.lt_of_not_le hfull)

end Growing

end AmmarServer.Hashmap
