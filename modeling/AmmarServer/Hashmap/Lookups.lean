import AmmarServer.Hashmap.HashMap
import AmmarServer.Lib.Run

/-! What a table has stored, and when a lookup finds it. An entry keeps the position it was added
at, and neither sorting nor the removal of another entry brings that up to date. -/

namespace AmmarServer.Hashmap
open Searching

variable {qsort : Qsort HashMapEntry.keyHash} {bsearch : Bsearch HashMapEntry.keyHash}
  {hm : HashMap} {stored : List UInt8 → Option ℕ} {key : List UInt8} {index : ℕ}

structure Represents (hm : HashMap) (stored : List UInt8 → Option ℕ) : Prop where
  room : hm.curNumberOfEntries ≤ hm.maxNumberOfEntries
  hashed : ∀ e ∈ hm.entries, e.keyHash = hashFunction e.key
  keys : (hm.entries.map (·.key)).Nodup
  sorted : hm.isSorted = true → SortedBy HashMapEntry.keyHash hm.entries
  stored_iff : ∀ key v, stored key = some v ↔ ∃ e ∈ hm.entries, e.key = key ∧ e.payload = v

/-- The answer of a lookup is the entry of the very key, if there is one. -/
def Answers (hm : HashMap) (stored : List UInt8 → Option ℕ) (key : List UInt8) (answer : Bool × ℕ) :
    Prop :=
  (answer.1 = true ↔ (stored key).isSome) ∧
    (answer.1 = true → ∃ e, hm.entries[answer.2]? = some e ∧ e.key = key)

/-- The hint does not name another key of the same hash. Where a big table is sorted and the hint
does not settle it, the entries with the hash of a key in the table have positions below its size. -/
def Findable (hm : HashMap) (key : List UInt8) (index : ℕ) : Prop :=
  (∀ e, hm.entries[index]? = some e → e.keyHash = hashFunction key → e.key = key) ∧
    (hm.useSorting = true →
      NUMBER_OF_ENTRIES_BELOW_IT_IS_NOT_WORTH_SORTING < hm.curNumberOfEntries →
      (∃ e ∈ hm.entries, e.key = key) →
      (∀ e, hm.entries[index]? = some e → e.keyHash ≠ hashFunction key) →
      ∀ e ∈ hm.entries, e.keyHash = hashFunction key → e.index < hm.curNumberOfEntries)

namespace Represents

theorem isSome_iff (h : Represents hm stored) (key : List UInt8) :
    (stored key).isSome ↔ ∃ e ∈ hm.entries, e.key = key := by
  rw [Option.isSome_iff_exists]
  constructor
  · rintro ⟨v, hv⟩
    obtain ⟨e, he, hkey, -⟩ := (h.stored_iff key v).mp hv
    exact ⟨e, he, hkey⟩
  · rintro ⟨e, he, hkey⟩
    exact ⟨e.payload, (h.stored_iff key e.payload).mpr ⟨e, he, hkey, rfl⟩⟩

theorem entries_eq_nil (h : Represents hm stored) (hok : hashMapIsOK hm = false) :
    hm.entries = [] := by
  have hmax : hm.maxNumberOfEntries = 0 := by simpa [hashMapIsOK] using hok
  have hroom := h.room
  rw [hmax] at hroom
  exact List.eq_nil_of_length_eq_zero (Nat.le_zero.mp hroom)

theorem perm {hm' : HashMap} (h : Represents hm stored) (hperm : hm'.entries.Perm hm.entries)
    (hmax : hm'.maxNumberOfEntries = hm.maxNumberOfEntries)
    (hsorted : hm'.isSorted = true → SortedBy HashMapEntry.keyHash hm'.entries) :
    Represents hm' stored where
  room := by
    show hm'.entries.length ≤ hm'.maxNumberOfEntries
    rw [hperm.length_eq, hmax]
    exact h.room
  hashed e he := h.hashed e (hperm.mem_iff.mp he)
  keys := (hperm.map _).nodup_iff.mpr h.keys
  sorted := hsorted
  stored_iff key v := by
    rw [h.stored_iff]
    apply exists_congr
    intro e
    rw [hperm.mem_iff]

theorem sort (h : Represents hm stored) : Represents (hashMapSort qsort hm).2 stored := by
  unfold hashMapSort
  split
  · exact h
  · split
    · exact h
    · exact h.perm (qsort.perm hm.entries) rfl (fun _ => qsort.sorted hm.entries)

theorem prepare (h : Represents hm stored) :
    Represents (hashMapPrepareForQueries qsort hm).2 stored := by
  unfold hashMapPrepareForQueries
  split
  · exact h
  · split
    · exact h.sort
    · exact h

theorem payload_eq (h : Represents hm stored) {i : ℕ} {e : HashMapEntry}
    (he : hm.entries[i]? = some e) (hkey : e.key = key) : stored key = some e.payload :=
  (h.stored_iff key e.payload).mpr ⟨e, List.mem_of_getElem? he, hkey, rfl⟩

theorem serial (h : Represents hm stored) (key : List UInt8) (index : ℕ) :
    Answers hm stored key
      (hashMapFindIndexSerialWithPrecomputedHash hm key (hashFunction key) index) := by
  unfold hashMapFindIndexSerialWithPrecomputedHash Answers
  rw [h.isSome_iff]
  split
  · rename_i i hi
    obtain ⟨hlt, hmatch, -⟩ := List.findIdx?_eq_some_iff_getElem.mp hi
    have hkey : hm.entries[i].key = key := by
      have := of_decide_eq_true hmatch
      exact this.2.symm
    exact ⟨iff_of_true rfl ⟨_, List.getElem_mem hlt, hkey⟩,
      fun _ => ⟨_, List.getElem?_eq_getElem hlt, hkey⟩⟩
  · rename_i hnone
    refine ⟨iff_of_false Bool.false_ne_true ?_, fun hfalse => absurd hfalse Bool.false_ne_true⟩
    rintro ⟨e, he, rfl⟩
    have hno := List.findIdx?_eq_none_iff.mp hnone e he
    rw [h.hashed e he] at hno
    simp at hno

end Represents

variable (bsearch key index) in
theorem bsearch_cases (hsorting : hm.useSorting = true) (keyHash : ℕ) :
    (bsearch.search hm.entries keyHash = none ∧
      hashMapBSearch bsearch hm key keyHash index = (false, index)) ∨
    ∃ i pItem, bsearch.search hm.entries keyHash = some i ∧ hm.entries[i]? = some pItem ∧
      pItem.keyHash = keyHash ∧
      ((hm.curNumberOfEntries ≤ pItem.index ∧
          hashMapBSearch bsearch hm key keyHash index = (false, pItem.index)) ∨
        ∃ e, hm.entries[pItem.index]? = some e ∧
          hashMapBSearch bsearch hm key keyHash index =
            if key ≠ e.key then
              hashMapFindIndexSerialWithPrecomputedHash hm key keyHash pItem.index
            else (true, pItem.index)) := by
  unfold hashMapBSearch
  rw [hsorting]
  cases hsearch : bsearch.search hm.entries keyHash with
  | none => exact .inl ⟨rfl, rfl⟩
  | some i =>
    obtain ⟨pItem, hitem, hhash⟩ := bsearch.hit hsearch
    refine .inr ⟨i, pItem, rfl, hitem, hhash, ?_⟩
    cases hentry : hm.entries[pItem.index]? with
    | none =>
      refine .inl ⟨List.getElem?_eq_none_iff.mp hentry, ?_⟩
      simp [hitem, hentry]
    | some e =>
      refine .inr ⟨e, rfl, ?_⟩
      simp [hitem, hentry]

/-- A search by halving that may hit any entry with the hash finds the key if no such entry has a
position that is out of the table. -/
theorem bsearch_answers_iff (h : Represents hm stored) (hsorting : hm.useSorting = true)
    (hsorted : hm.isSorted = true) :
    (∀ bsearch, Answers hm stored key
        (hashMapBSearch bsearch hm key (hashFunction key) index)) ↔
      ((∃ e ∈ hm.entries, e.key = key) →
        ∀ e ∈ hm.entries, e.keyHash = hashFunction key → e.index < hm.curNumberOfEntries) := by
  constructor
  · intro hall hpresent e he hhash
    obtain ⟨i, hi⟩ := List.mem_iff_getElem?.mp he
    obtain ⟨bsearch, hhit⟩ := Bsearch.exists_search hi hhash
    rcases bsearch_cases bsearch key index hsorting
      (hashFunction key) with ⟨hnone, -⟩ | ⟨i', pItem, hsome, hitem, -, hrest⟩
    · rw [hhit] at hnone
      cases hnone
    · rw [hhit] at hsome
      cases hsome
      rw [hi] at hitem
      cases hitem
      rcases hrest with ⟨-, hmiss⟩ | ⟨e', he', -⟩
      · have hfound := (hall bsearch).1.mpr ((h.isSome_iff key).mpr hpresent)
        rw [hmiss] at hfound
        cases hfound
      · exact (List.getElem?_eq_some_iff.mp he').1
  · intro hbelow bsearch
    rcases bsearch_cases bsearch key index hsorting
      (hashFunction key) with ⟨hnone, hmiss⟩ | ⟨i, pItem, -, hitem, hhash, hrest⟩
    · rw [hmiss]
      have habsent := bsearch.miss (h.sorted hsorted) hnone
      refine ⟨iff_of_false Bool.false_ne_true ?_, fun hfalse => absurd hfalse Bool.false_ne_true⟩
      rw [h.isSome_iff]
      rintro ⟨e, he, rfl⟩
      exact habsent e he (h.hashed e he)
    · rcases hrest with ⟨hover, hmiss⟩ | ⟨e, he, hanswer⟩
      · -- the position is out of the table, so the key is not in it
        rw [hmiss]
        refine ⟨iff_of_false Bool.false_ne_true ?_, fun hfalse => absurd hfalse Bool.false_ne_true⟩
        rw [h.isSome_iff]
        intro hpresent
        have hlt := hbelow hpresent pItem (List.mem_of_getElem? hitem) hhash
        exact absurd hover (not_le.mpr hlt)
      · rw [hanswer]
        split
        · exact h.serial key _
        · rename_i hkey
          have hkey : e.key = key := (not_not.mp hkey).symm
          refine ⟨iff_of_true rfl ?_, fun _ => ⟨e, he, hkey⟩⟩
          rw [h.isSome_iff]
          exact ⟨e, List.mem_of_getElem? he, hkey⟩

theorem findIndex_eq (hok : hashMapIsOK hm = true) :
    hashMapFindIndex qsort bsearch hm key index =
      (if ((hashMapPrepareForQueries qsort hm).2.entries[index]?).any
            fun e => e.keyHash = hashFunction key then (true, index)
        else if (hashMapPrepareForQueries qsort hm).2.useSorting &&
            NUMBER_OF_ENTRIES_BELOW_IT_IS_NOT_WORTH_SORTING <
              (hashMapPrepareForQueries qsort hm).2.curNumberOfEntries then
          hashMapBSearch bsearch (hashMapPrepareForQueries qsort hm).2 key (hashFunction key) index
        else hashMapFindIndexSerialWithPrecomputedHash (hashMapPrepareForQueries qsort hm).2 key
          (hashFunction key) index,
        (hashMapPrepareForQueries qsort hm).2) := by
  have hprepared : (if !hm.isSorted && hm.useSorting then (hashMapPrepareForQueries qsort hm).2
      else hm) = (hashMapPrepareForQueries qsort hm).2 := by
    unfold hashMapPrepareForQueries hashMapSort
    cases hm.isSorted <;> cases hm.useSorting <;> simp [hok]
  have hsorts : (hashMapPrepareForQueries qsort hm).2.useSorting = true →
      (hashMapPrepareForQueries qsort hm).2.isSorted = true := by
    unfold hashMapPrepareForQueries hashMapSort
    cases hsorted : hm.isSorted <;> cases hsorting : hm.useSorting <;> simp [hok, hsorted, hsorting]
  unfold hashMapFindIndex
  rw [if_neg (by rw [hok]; decide), hprepared]
  generalize (hashMapPrepareForQueries qsort hm).2 = hm' at hsorts ⊢
  have hboth : (hm'.isSorted && hm'.useSorting) = hm'.useSorting := by
    cases hsorting : hm'.useSorting
    · exact Bool.and_false _
    · rw [hsorts hsorting, Bool.and_self]
  simp only [hboth]
  split
  · rfl
  · split <;> rfl

/-- Lookups with a hint are exact, whichever matching entry a search by halving hits, just in the
tables and for the hints that the key is findable with. -/
theorem findIndex_answers_iff (h : Represents hm stored) :
    (∀ bsearch, Answers (hashMapPrepareForQueries qsort hm).2 stored key
        (hashMapFindIndex qsort bsearch hm key index).1) ↔
      Findable (hashMapPrepareForQueries qsort hm).2 key index := by
  cases hok : hashMapIsOK hm
  · -- nothing is stored where there is no room
    have hnil := h.entries_eq_nil hok
    have hprepared : (hashMapPrepareForQueries qsort hm).2 = hm := by
      unfold hashMapPrepareForQueries
      rw [hok]
      rfl
    rw [hprepared]
    refine iff_of_true (fun bsearch => ?_) ?_
    · unfold hashMapFindIndex
      rw [hok]
      refine ⟨iff_of_false Bool.false_ne_true ?_, fun hfalse => absurd hfalse Bool.false_ne_true⟩
      rw [h.isSome_iff, hnil]
      rintro ⟨e, he, -⟩
      cases he
    · unfold Findable
      rw [hnil]
      refine ⟨fun e he => ?_, fun _ _ _ _ e he => ?_⟩
      · cases he
      · cases he
  · have hsorts : (hashMapPrepareForQueries qsort hm).2.useSorting = true →
        (hashMapPrepareForQueries qsort hm).2.isSorted = true := by
      unfold hashMapPrepareForQueries hashMapSort
      cases hsorted : hm.isSorted <;> cases hsorting : hm.useSorting <;>
        simp [hok, hsorted, hsorting]
    simp only [findIndex_eq hok]
    have h : Represents (hashMapPrepareForQueries qsort hm).2 stored := h.prepare
    generalize (hashMapPrepareForQueries qsort hm).2 = hm' at h hsorts ⊢
    by_cases hnamed : ∃ e, hm'.entries[index]? = some e ∧ e.keyHash = hashFunction key
    · obtain ⟨e, he, hhash⟩ := hnamed
      have hany : ((hm'.entries[index]?).any fun e => e.keyHash = hashFunction key) = true := by
        rw [he]
        exact decide_eq_true hhash
      simp only [hany, if_true]
      constructor
      · intro hall
        obtain ⟨e', he', hkey⟩ := (hall Bsearch.halving).2 rfl
        refine ⟨fun e'' he'' _ => ?_, fun _ _ _ hother => absurd hhash (hother e he)⟩
        rw [he'] at he''
        cases he''
        exact hkey
      · intro hfindable bsearch
        have hkey := hfindable.1 e he hhash
        refine ⟨iff_of_true rfl ?_, fun _ => ⟨e, he, hkey⟩⟩
        rw [h.isSome_iff]
        exact ⟨e, List.mem_of_getElem? he, hkey⟩
    · have hany : ¬ ((hm'.entries[index]?).any fun e => e.keyHash = hashFunction key) = true := by
        intro htrue
        obtain ⟨e, he, hhash⟩ := (Option.any_eq_true _ _).mp htrue
        exact hnamed ⟨e, he, of_decide_eq_true hhash⟩
      have hother : ∀ e, hm'.entries[index]? = some e → e.keyHash ≠ hashFunction key :=
        fun e he hhash => hnamed ⟨e, he, hhash⟩
      simp only [if_neg hany]
      cases hbig : hm'.useSorting && NUMBER_OF_ENTRIES_BELOW_IT_IS_NOT_WORTH_SORTING <
          hm'.curNumberOfEntries
      · refine iff_of_true (fun _ => h.serial key index) ⟨fun e he hhash => ?_, ?_⟩
        · exact absurd hhash (hother e he)
        · intro hsorting hcount
          rw [hsorting, decide_eq_true hcount] at hbig
          cases hbig
      · obtain ⟨hsorting, hcount⟩ := Bool.and_eq_true_iff.mp hbig
        simp only [if_true]
        rw [bsearch_answers_iff h hsorting (hsorts hsorting)]
        constructor
        · intro hbelow
          exact ⟨fun e he hhash => absurd hhash (hother e he), fun _ _ hpresent _ => hbelow hpresent⟩
        · intro hfindable hpresent
          exact hfindable.2 hsorting (of_decide_eq_true hcount) hpresent hother

theorem findIndex_snd :
    (hashMapFindIndex qsort bsearch hm key index).2 = (hashMapPrepareForQueries qsort hm).2 := by
  cases hok : hashMapIsOK hm
  · unfold hashMapFindIndex hashMapPrepareForQueries
    rw [hok]
    rfl
  · rw [findIndex_eq hok]

/-- The memory that an `hashMap_Add` asks for is there: room for a table that is full, and a copy
of the payload. -/
def Granted (hm : HashMap) (valLength : ℕ) (heap : Heap) : Prop :=
  (hashMapIsOK hm = true → hm.maxNumberOfEntries ≤ hm.curNumberOfEntries →
      heap.entries = true ∧ 0 < hm.entryAllocationStep ∧
        hm.maxNumberOfEntries + hm.entryAllocationStep < 2 ^ 32) ∧
    (valLength ≠ 0 → heap.payload ≠ none)

instance (hm : HashMap) (valLength : ℕ) (heap : Heap) : Decidable (Granted hm valLength heap) :=
  inferInstanceAs (Decidable (_ ∧ _))

/-- The word that is kept for a value: itself, or the address of its copy. -/
def payloadWord (val valLength : ℕ) (heap : Heap) : ℕ :=
  if valLength = 0 then val else heap.payload.getD 0

theorem represents_create (initialEntries entryAllocationStep : ℕ) (useSorting : Bool) :
    Represents (hashMapCreate initialEntries entryAllocationStep useSorting) (fun _ => none) where
  room := Nat.zero_le _
  hashed e he := by cases he
  keys := List.nodup_nil
  sorted h := by cases h
  stored_iff key v := by
    constructor
    · intro h
      cases h
    · rintro ⟨e, he, -⟩
      cases he

namespace Represents

theorem addEntry (h : Represents hm stored) (habsent : stored key = none)
    (hroom : hm.curNumberOfEntries < hm.maxNumberOfEntries) (payload valLength : ℕ) :
    Represents (addEntry hm key payload valLength) (Function.update stored key (some payload)) where
  room := by
    show (hm.entries ++ [_]).length ≤ hm.maxNumberOfEntries
    rw [List.length_append]
    exact hroom
  hashed e he := by
    rcases List.mem_append.mp he with he | he
    · exact h.hashed e he
    · rw [List.mem_singleton.mp he]
  keys := by
    have hfresh : key ∉ hm.entries.map (·.key) := by
      intro hmem
      obtain ⟨e, he, hkey⟩ := List.mem_map.mp hmem
      have := (h.isSome_iff key).mpr ⟨e, he, hkey⟩
      rw [habsent] at this
      cases this
    unfold Hashmap.addEntry
    rw [List.map_append]
    exact (List.perm_append_singleton _ _).nodup_iff.mpr (List.nodup_cons.mpr ⟨hfresh, h.keys⟩)
  sorted hsorted := by cases hsorted
  stored_iff key' v := by
    show _ ↔ ∃ e ∈ hm.entries ++ [_], _
    simp only [List.mem_append, List.mem_singleton, or_and_right, exists_or, exists_eq_left]
    rw [← h.stored_iff]
    by_cases hsame : key' = key
    · subst hsame
      simp [habsent]
    · simp [Function.update_of_ne hsame, Ne.symm hsame]

theorem grow {hm' : HashMap} (h : Represents hm stored) (hentries : hm'.entries = hm.entries)
    (hmax : hm.maxNumberOfEntries ≤ hm'.maxNumberOfEntries) (hsorted : hm'.isSorted = hm.isSorted) :
    Represents hm' stored where
  room := by
    show hm'.entries.length ≤ _
    rw [hentries]
    exact h.room.trans hmax
  hashed := by
    rw [hentries]
    exact h.hashed
  keys := by
    rw [hentries]
    exact h.keys
  sorted := by
    rw [hentries, hsorted]
    exact h.sorted
  stored_iff := by
    rw [hentries]
    exact h.stored_iff

theorem addWhenClear (h : Represents hm stored) (habsent : stored key = none)
    (hroom : hm.curNumberOfEntries < hm.maxNumberOfEntries) {val valLength : ℕ} {heap : Heap}
    (hcopy : valLength ≠ 0 → heap.payload ≠ none) :
    ∃ r hm', Hashmap.addWhenClear hm key val valLength heap = .ok (r, hm') ∧
      Represents hm' (if r = true then
        Function.update stored key (some (payloadWord val valLength heap)) else stored) := by
  unfold Hashmap.addWhenClear payloadWord
  rw [if_neg (not_le.mpr hroom)]
  split
  · exact ⟨false, hm, rfl, h⟩
  · split
    · exact ⟨true, _, rfl, h.addEntry habsent hroom val 0⟩
    · rename_i hlength
      cases hpayload : heap.payload with
      | none => exact absurd hpayload (hcopy hlength)
      | some copy => exact ⟨true, _, rfl, h.addEntry habsent hroom copy valLength⟩

/-- What an `hashMap_Add` of an absent key stores, by its answer. -/
theorem add (h : Represents hm stored) (habsent : stored key = none) (val : ℕ) {valLength : ℕ}
    {heap : Heap} (hgranted : Granted hm valLength heap) :
    ∃ r hm', hashMapAdd hm key val valLength heap = .ok (r, hm') ∧
      Represents hm' (if r = true then
        Function.update stored key (some (payloadWord val valLength heap)) else stored) := by
  obtain ⟨hgrows, hcopy⟩ := hgranted
  unfold hashMapAdd
  split
  · exact ⟨false, hm, rfl, h⟩
  · rename_i hok
    split
    · rename_i hfull
      obtain ⟨hentries, hstep, hbound⟩ := hgrows (by simpa using hok) hfull
      unfold hashMapGrow
      rw [if_pos hentries, if_pos hbound]
      have hgrown : Represents { hm with
          maxNumberOfEntries := hm.maxNumberOfEntries + hm.entryAllocationStep } stored :=
        h.grow rfl (Nat.le_add_right _ _) rfl
      refine hgrown.addWhenClear habsent ?_ hcopy
      exact h.room.trans_lt (Nat.lt_add_of_pos_right hstep)
    · rename_i hroom
      exact h.addWhenClear habsent (not_le.mp hroom) hcopy

theorem erase {hm' : HashMap} (h : Represents hm stored) {i : ℕ} (hi : i < hm.entries.length)
    (hperm : hm'.entries.Perm (hm.entries.eraseIdx i))
    (hmax : hm'.maxNumberOfEntries = hm.maxNumberOfEntries) (hsorted : hm'.isSorted = false) :
    Represents hm' (Function.update stored hm.entries[i].key none) := by
  have hall : hm.entries.Perm (hm.entries[i] :: hm'.entries) :=
    (List.getElem_cons_eraseIdx_perm hi).symm.trans (hperm.symm.cons _)
  have hkeys : (hm.entries[i].key :: hm'.entries.map (·.key)).Nodup := by
    have := (hall.map (·.key)).nodup_iff.mp h.keys
    rwa [List.map_cons] at this
  obtain ⟨hfresh, hnodup⟩ := List.nodup_cons.mp hkeys
  refine ⟨?_, fun e he => ?_, hnodup, fun htrue => ?_, fun key v => ?_⟩
  · have hroom := h.room
    unfold HashMap.curNumberOfEntries at hroom ⊢
    rw [hall.length_eq, List.length_cons] at hroom
    rw [hmax]
    exact (Nat.le_succ _).trans hroom
  · exact h.hashed e (hall.mem_iff.mpr (List.mem_cons_of_mem _ he))
  · rw [hsorted] at htrue
    cases htrue
  · by_cases hsame : key = hm.entries[i].key
    · subst hsame
      rw [Function.update_self]
      constructor
      · intro hnone
        cases hnone
      · rintro ⟨e, he, hkey, -⟩
        exact absurd (List.mem_map.mpr ⟨e, he, hkey⟩) hfresh
    · rw [Function.update_of_ne hsame, h.stored_iff]
      constructor
      · rintro ⟨e, he, rfl, hv⟩
        rcases List.mem_cons.mp (hall.mem_iff.mp he) with rfl | he'
        · exact absurd rfl hsame
        · exact ⟨e, he', rfl, hv⟩
      · rintro ⟨e, he, hkey, hv⟩
        exact ⟨e, hall.mem_iff.mpr (List.mem_cons_of_mem _ he), hkey, hv⟩

theorem removeKey (h : Represents hm stored) (key : List UInt8) :
    Represents (hashMapRemoveKey hm key).2 (Function.update stored key none) := by
  have habsent : ¬ (stored key).isSome → Function.update stored key none = stored := by
    intro hnone
    rw [Option.not_isSome_iff_eq_none] at hnone
    rw [← hnone, Function.update_eq_self]
  unfold hashMapRemoveKey
  split
  · rename_i hok
    rw [habsent]
    · exact h
    · rw [h.isSome_iff, h.entries_eq_nil (by simpa using hok)]
      rintro ⟨e, he, -⟩
      cases he
  · obtain ⟨hfound, hentry⟩ := h.serial key 0
    rw [← hashMapFindIndexSerial] at hfound hentry
    cases hanswer : hashMapFindIndexSerial hm key 0 with
    | mk found i =>
      rw [hanswer] at hfound hentry
      cases found with
      | false =>
        rw [habsent (fun hsome => Bool.false_ne_true (hfound.mpr hsome))]
        exact h
      | true =>
        obtain ⟨e, he, hkey⟩ := hentry rfl
        obtain ⟨hi, rfl⟩ := List.getElem?_eq_some_iff.mp he
        have hne : hm.entries ≠ [] := List.ne_nil_of_length_pos (Nat.zero_lt_of_lt hi)
        have hlast := List.getLast?_eq_some_getLast hne
        rw [← hkey]
        refine h.erase hi ?_ rfl rfl
        simp only [hlast]
        exact set_getLast_dropLast_perm hlast hi

end Represents

end AmmarServer.Hashmap
