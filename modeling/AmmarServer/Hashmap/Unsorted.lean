import AmmarServer.Hashmap.Lookups

/-! Lookups and additions in a table that is created without sorting, where an entry keeps its
position. -/

namespace AmmarServer.Hashmap
open Searching

variable {qsort : Qsort HashMapEntry.keyHash} {bsearch : Bsearch HashMapEntry.keyHash}
  {hm hm' : HashMap} {key : List UInt8} {index val : ℕ} {heap : Heap}

theorem findIndex_unsorted (hok : hashMapIsOK hm = true) (hsorting : hm.useSorting = false) :
    hashMapFindIndex qsort bsearch hm key index =
      (if (hm.entries[index]?).any fun e => e.keyHash = hashFunction key then (true, index)
        else hashMapFindIndexSerial hm key index, hm) := by
  unfold hashMapFindIndex hashMapFindIndexSerial
  rw [if_neg (by rw [hok]; decide)]
  simp only [hsorting, Bool.and_false, Bool.false_eq_true, if_false, Bool.false_and]
  split <;> rfl

/-- What a lookup can answer: the hinted entry, if its key has the hash of `key`, or else the first
entry of the key. -/
inductive Finds (hm : HashMap) (key : List UInt8) (index : ℕ) : Bool × ℕ → Prop
  | hinted {e : HashMapEntry} (he : hm.entries[index]? = some e)
      (hhash : e.keyHash = hashFunction key) : Finds hm key index (true, index)
  | searched {i : ℕ} {e : HashMapEntry} (he : hm.entries[i]? = some e) (hkey : e.key = key)
      (hhash : e.keyHash = hashFunction key)
      (hserial : hashMapFindIndexSerial hm key index = (true, i))
      (hhint : ∀ e, hm.entries[index]? = some e → e.keyHash ≠ hashFunction key) :
      Finds hm key index (true, i)
  | missed (hnone : ∀ e ∈ hm.entries, e.keyHash = hashFunction key → e.key ≠ key) :
      Finds hm key index (false, index)

theorem serial_cases (hm : HashMap) (key : List UInt8) (index : ℕ) :
    (∃ i e, hashMapFindIndexSerial hm key index = (true, i) ∧ hm.entries[i]? = some e ∧
      e.key = key ∧ e.keyHash = hashFunction key) ∨
    (hashMapFindIndexSerial hm key index = (false, index) ∧
      ∀ e ∈ hm.entries, e.keyHash = hashFunction key → e.key ≠ key) := by
  unfold hashMapFindIndexSerial hashMapFindIndexSerialWithPrecomputedHash
  split
  · rename_i i hfound
    obtain ⟨hi, hmatch, -⟩ := List.findIdx?_eq_some_iff_getElem.mp hfound
    obtain ⟨hhash, hkey⟩ := of_decide_eq_true hmatch
    exact .inl ⟨i, _, rfl, List.getElem?_eq_getElem hi, hkey.symm, hhash⟩
  · rename_i hnone
    refine .inr ⟨rfl, fun e he hhash hkey => ?_⟩
    have hmiss := List.findIdx?_eq_none_iff.mp hnone e he
    exact of_decide_eq_false hmiss ⟨hhash, hkey.symm⟩

/-- A table without sorting, as additions keep it. -/
structure Unsorted (hm : HashMap) : Prop where
  useSorting : hm.useSorting = false
  step : 0 < hm.entryAllocationStep
  room : hm.curNumberOfEntries ≤ hm.maxNumberOfEntries
  hashed : ∀ e ∈ hm.entries, e.keyHash = hashFunction e.key

theorem Unsorted.empty (h : Unsorted hm) (hok : hashMapIsOK hm = false) : hm.entries = [] := by
  have hzero : hm.maxNumberOfEntries = 0 := by simpa [hashMapIsOK] using hok
  have hroom := h.room
  rw [hzero] at hroom
  exact List.eq_nil_of_length_eq_zero (Nat.le_zero.mp hroom)

theorem unsorted_create (initialEntries : ℕ) {step : ℕ} (hstep : 0 < step) :
    Unsorted (hashMapCreate initialEntries step false) :=
  ⟨rfl, hstep, Nat.zero_le _, fun e he => (by cases he)⟩

variable (qsort bsearch) in
theorem findIndex_finds (key : List UInt8) (index : ℕ) (h : Unsorted hm) :
    (hashMapFindIndex qsort bsearch hm key index).2 = hm ∧
      Finds hm key index (hashMapFindIndex qsort bsearch hm key index).1 := by
  cases hok : hashMapIsOK hm with
  | false =>
    have hfind : hashMapFindIndex qsort bsearch hm key index = ((false, index), hm) := by
      unfold hashMapFindIndex
      rw [hok]
      rfl
    rw [hfind]
    refine ⟨rfl, .missed fun e he => ?_⟩
    rw [h.empty hok] at he
    cases he
  | true =>
    rw [findIndex_unsorted hok h.useSorting]
    refine ⟨rfl, ?_⟩
    simp only
    split
    · rename_i hhint
      cases he : hm.entries[index]? with
      | none =>
        rw [he] at hhint
        cases hhint
      | some e =>
        rw [he] at hhint
        exact .hinted he (of_decide_eq_true hhint)
    · rename_i hhint
      have hother : ∀ e, hm.entries[index]? = some e → e.keyHash ≠ hashFunction key := by
        intro e he hhash
        exact hhint (by rw [he]; exact decide_eq_true hhash)
      rcases serial_cases hm key index with ⟨i, e, hfound, he, hkey, hhash⟩ | ⟨hmissed, hnone⟩
      · rw [hfound]
        exact .searched he hkey hhash hfound hother
      · rw [hmissed]
        exact .missed hnone

/-- There is memory for another entry. -/
def Takes (hm : HashMap) (heap : Heap) : Prop :=
  hashMapIsOK hm = true ∧
    (hm.maxNumberOfEntries ≤ hm.curNumberOfEntries →
      heap.entries = true ∧ hm.maxNumberOfEntries + hm.entryAllocationStep < 2 ^ 32) ∧
    heap.key = true

instance (hm : HashMap) (heap : Heap) : Decidable (Takes hm heap) :=
  inferInstanceAs (Decidable (_ ∧ _))

/-- An addition at the end of the table. -/
structure Appended (hm hm' : HashMap) (key : List UInt8) (val : ℕ) : Prop where
  entries : hm'.entries = hm.entries ++
    [{ index := hm.curNumberOfEntries, keyHash := hashFunction key, key, payloadLength := 0,
       payload := val }]
  useSorting : hm'.useSorting = hm.useSorting
  entryAllocationStep : hm'.entryAllocationStep = hm.entryAllocationStep
  room : hm'.curNumberOfEntries ≤ hm'.maxNumberOfEntries
  ok : hashMapIsOK hm' = true

theorem addWhenClear_appended (key : List UInt8) (val : ℕ) (hok : hashMapIsOK hm = true)
    (hroom : hm.curNumberOfEntries < hm.maxNumberOfEntries) (hkey : heap.key = true) :
    ∃ hm', addWhenClear hm key val 0 heap = .ok (true, hm') ∧ Appended hm hm' key val := by
  unfold addWhenClear
  rw [if_neg (not_le.mpr hroom), hkey]
  refine ⟨_, rfl, rfl, rfl, rfl, ?_, hok⟩
  show (hm.entries ++ [_]).length ≤ hm.maxNumberOfEntries
  rw [List.length_append]
  exact hroom

theorem addULong_takes (key : List UInt8) (val : ℕ) (htakes : Takes hm heap)
    (hroom : hm.curNumberOfEntries ≤ hm.maxNumberOfEntries)
    (hstep : 0 < hm.entryAllocationStep) :
    ∃ hm', hashMapAddULong hm key val heap = .ok (true, hm') ∧ Appended hm hm' key val := by
  obtain ⟨hok, hgrows, hkey⟩ := htakes
  unfold hashMapAddULong hashMapAdd
  rw [if_neg (by rw [hok]; decide)]
  split
  · rename_i hfull
    obtain ⟨hentries, hbound⟩ := hgrows hfull
    unfold hashMapGrow
    rw [if_pos hentries, if_pos hbound]
    have hlt : hm.curNumberOfEntries < hm.maxNumberOfEntries + hm.entryAllocationStep :=
      hroom.trans_lt (Nat.lt_add_of_pos_right hstep)
    have hok' : hashMapIsOK { hm with
        maxNumberOfEntries := hm.maxNumberOfEntries + hm.entryAllocationStep } = true :=
      decide_eq_true (Nat.ne_of_gt (Nat.zero_lt_of_lt hlt))
    obtain ⟨hm', hadd, happended⟩ := addWhenClear_appended key val hok' hlt hkey
    exact ⟨hm', hadd, happended.entries, happended.useSorting, happended.entryAllocationStep,
      happended.room, happended.ok⟩
  · rename_i hroom'
    exact addWhenClear_appended key val hok (not_le.mp hroom') hkey

/-- An addition that is not made. -/
structure Kept (hm hm' : HashMap) : Prop where
  entries : hm'.entries = hm.entries
  useSorting : hm'.useSorting = hm.useSorting
  entryAllocationStep : hm'.entryAllocationStep = hm.entryAllocationStep
  le : hm.maxNumberOfEntries ≤ hm'.maxNumberOfEntries

theorem addULong_refuses (htakes : ¬ Takes hm heap) {answer : Bool}
    (h : hashMapAddULong hm key val heap = .ok (answer, hm')) : Kept hm hm' := by
  unfold hashMapAddULong hashMapAdd at h
  split at h
  · obtain ⟨-, rfl⟩ := Prod.mk.inj (Except.ok.inj h)
    exact ⟨rfl, rfl, rfl, le_rfl⟩
  · rename_i hok
    replace hok : hashMapIsOK hm = true := by simpa using hok
    have hclear : ∀ grown : HashMap, addWhenClear grown key val 0 heap = .ok (answer, hm') →
        Kept hm grown → (heap.key = true → False) → Kept hm hm' := by
      intro grown hadd hgrown hkey
      unfold addWhenClear at hadd
      split at hadd
      · cases hadd
      · split at hadd
        · obtain ⟨-, rfl⟩ := Prod.mk.inj (Except.ok.inj hadd)
          exact hgrown
        · rename_i hgranted
          exact (hkey (by simpa using hgranted)).elim
    split at h
    · rename_i hfull
      split at h
      · cases h
      · obtain ⟨-, rfl⟩ := Prod.mk.inj (Except.ok.inj h)
        rename_i hgrow
        unfold hashMapGrow at hgrow
        split at hgrow
        · split at hgrow <;> cases hgrow
        · obtain ⟨-, rfl⟩ := Prod.mk.inj (Except.ok.inj hgrow)
          exact ⟨rfl, rfl, rfl, le_rfl⟩
      · rename_i hgrow
        unfold hashMapGrow at hgrow
        split at hgrow
        · rename_i hentries
          split at hgrow
          · rename_i hbound
            obtain ⟨-, rfl⟩ := Prod.mk.inj (Except.ok.inj hgrow)
            exact hclear _ h ⟨rfl, rfl, rfl, Nat.le_add_right _ _⟩ fun hkey =>
              htakes ⟨hok, fun _ => ⟨hentries, hbound⟩, hkey⟩
          · cases hgrow
        · cases hgrow
    · rename_i hroom
      exact hclear _ h ⟨rfl, rfl, rfl, le_rfl⟩ fun hkey =>
        htakes ⟨hok, fun hfull => absurd hfull hroom, hkey⟩

theorem Unsorted.of_add (h : Unsorted hm) {added : Bool}
    (hadd : hashMapAddULong hm key val heap = .ok (added, hm')) :
    Unsorted hm' ∧ (Takes hm heap → Appended hm hm' key val) ∧
      (¬ Takes hm heap → hm'.entries = hm.entries) := by
  by_cases htakes : Takes hm heap
  · obtain ⟨hm'', hadd', happended⟩ := addULong_takes key val htakes h.room h.step
    obtain ⟨-, rfl⟩ := Prod.mk.inj (Except.ok.inj (hadd.symm.trans hadd'))
    refine ⟨⟨happended.useSorting.trans h.useSorting, happended.entryAllocationStep ▸ h.step,
      happended.room, fun e he => ?_⟩, fun _ => happended, fun hno => absurd htakes hno⟩
    rw [happended.entries] at he
    rcases List.mem_append.mp he with he | he
    · exact h.hashed e he
    · rw [List.mem_singleton.mp he]
  · have hkept := addULong_refuses htakes hadd
    refine ⟨⟨hkept.useSorting.trans h.useSorting, hkept.entryAllocationStep ▸ h.step, ?_, ?_⟩,
      fun hyes => absurd hyes htakes, fun _ => hkept.entries⟩
    · unfold HashMap.curNumberOfEntries
      rw [hkept.entries]
      exact h.room.trans hkept.le
    · rw [hkept.entries]
      exact h.hashed

theorem serial_le (index : ℕ) {i : ℕ} {e : HashMapEntry} (he : hm.entries[i]? = some e) (hkey : e.key = key)
    (hhash : e.keyHash = hashFunction key) :
    ∃ j ≤ i, hashMapFindIndexSerial hm key index = (true, j) := by
  obtain ⟨hi, rfl⟩ := List.getElem?_eq_some_iff.mp he
  unfold hashMapFindIndexSerial hashMapFindIndexSerialWithPrecomputedHash
  have hmatch :
      decide (hm.entries[i].keyHash = hashFunction key ∧ key = hm.entries[i].key) = true :=
    decide_eq_true ⟨hhash, hkey.symm⟩
  split
  · rename_i j hfound
    obtain ⟨_, _, hfirst⟩ := List.findIdx?_eq_some_iff_getElem.mp hfound
    exact ⟨j, not_lt.mp fun hlt => hfirst i hlt hmatch, rfl⟩
  · rename_i hnone
    have hmiss := List.findIdx?_eq_none_iff.mp hnone _ (List.getElem_mem hi)
    exact absurd hmatch (by rw [hmiss]; decide)

end AmmarServer.Hashmap
