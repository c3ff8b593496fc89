import AmmarServer.Hashmap.Lookups

/-! What is in a table that is not sorted, and how an addition and a removal change it. -/

namespace AmmarServer.Hashmap
open Searching

/-- The payload that is kept for a key. -/
def HashMap.payloadOf (hm : HashMap) (key : List UInt8) : Option ℕ :=
  (hm.entries.find? fun e => e.key = key).map (·.payload)

/-- A table that was created without sorting. -/
structure Plain (hm : HashMap) : Prop where
  ok : hashMapIsOK hm = true
  useSorting : hm.useSorting = false
  isSorted : hm.isSorted = false
  room : hm.curNumberOfEntries ≤ hm.maxNumberOfEntries
  hashed : ∀ e ∈ hm.entries, e.keyHash = hashFunction e.key
  keys : (hm.entries.map (·.key)).Nodup

variable {qsort : Qsort HashMapEntry.keyHash} {bsearch : Bsearch HashMapEntry.keyHash}
  {hm : HashMap} {key : List UInt8} {index : ℕ}

theorem plain_create {initialEntries : ℕ} (hpos : initialEntries ≠ 0) (step : ℕ) :
    Plain (hashMapCreate initialEntries step false) where
  ok := decide_eq_true hpos
  useSorting := rfl
  isSorted := rfl
  room := Nat.zero_le _
  hashed e he := by cases he
  keys := List.nodup_nil

theorem payloadOf_isSome_iff : (hm.payloadOf key).isSome ↔ ∃ e ∈ hm.entries, e.key = key := by
  unfold HashMap.payloadOf
  rw [Option.isSome_map, List.find?_isSome]
  simp only [decide_eq_true_eq]

theorem payloadOf_eq_none_iff : hm.payloadOf key = none ↔ ∀ e ∈ hm.entries, e.key ≠ key := by
  rw [← Option.not_isSome_iff_eq_none, payloadOf_isSome_iff]
  push Not
  rfl

namespace Plain

theorem payloadOf_eq (h : Plain hm) {e : HashMapEntry} (he : e ∈ hm.entries) :
    hm.payloadOf e.key = some e.payload := by
  unfold HashMap.payloadOf
  cases hfind : hm.entries.find? fun f => f.key = e.key with
  | none => exact absurd rfl (of_decide_eq_false (Bool.eq_false_iff.mpr
      (List.find?_eq_none.mp hfind e he)))
  | some f =>
    have hkey : f.key = e.key := by simpa using List.find?_some hfind
    have hmem := List.mem_of_find?_eq_some hfind
    rw [List.inj_on_of_nodup_map h.keys hmem he hkey]
    rfl

theorem payloadOf_eq_some_iff (h : Plain hm) {v : ℕ} :
    hm.payloadOf key = some v ↔ ∃ e ∈ hm.entries, e.key = key ∧ e.payload = v := by
  constructor
  · intro hsome
    unfold HashMap.payloadOf at hsome
    obtain ⟨e, hfind, rfl⟩ := Option.map_eq_some_iff.mp hsome
    exact ⟨e, List.mem_of_find?_eq_some hfind, by simpa using List.find?_some hfind, rfl⟩
  · rintro ⟨e, he, rfl, rfl⟩
    exact h.payloadOf_eq he

theorem represents (h : Plain hm) : Represents hm hm.payloadOf where
  room := h.room
  hashed := h.hashed
  keys := h.keys
  sorted htrue := by
    rw [h.isSorted] at htrue
    cases htrue
  stored_iff key v := h.payloadOf_eq_some_iff

theorem perm {hm' : HashMap} (h : Plain hm) (hsub : hm'.entries.Subperm hm.entries)
    (hmax : hm'.maxNumberOfEntries = hm.maxNumberOfEntries)
    (hsorting : hm'.useSorting = hm.useSorting) (hsorted : hm'.isSorted = false) : Plain hm' where
  ok := by
    unfold hashMapIsOK
    rw [hmax]
    exact h.ok
  useSorting := hsorting.trans h.useSorting
  isSorted := hsorted
  room := by
    rw [hmax]
    exact hsub.length_le.trans h.room
  hashed e he := h.hashed e (hsub.subset he)
  keys := by
    obtain ⟨l, hperm, hsublist⟩ := hsub
    exact (hperm.map _).nodup_iff.mp ((hsublist.map _).nodup h.keys)

theorem findIndexSerial (h : Plain hm) (key : List UInt8) (index : ℕ) :
    (hashMapFindIndexSerial hm key index = (false, index) ∧ hm.payloadOf key = none) ∨
      ∃ i e, hashMapFindIndexSerial hm key index = (true, i) ∧ hm.entries[i]? = some e ∧
        e.key = key ∧ hm.payloadOf key = some e.payload := by
  obtain ⟨hfound, hentry⟩ := h.represents.serial key index
  rw [← hashMapFindIndexSerial] at hfound hentry
  cases hanswer : hashMapFindIndexSerial hm key index with
  | mk found i =>
    rw [hanswer] at hfound hentry
    cases found with
    | false =>
      refine .inl ⟨?_, Option.not_isSome_iff_eq_none.mp fun hsome =>
        Bool.false_ne_true (hfound.mpr hsome)⟩
      unfold hashMapFindIndexSerial hashMapFindIndexSerialWithPrecomputedHash at hanswer
      split at hanswer
      · cases hanswer
      · rw [← hanswer]
    | true =>
      obtain ⟨e, he, hkey⟩ := hentry rfl
      exact .inr ⟨i, e, rfl, he, hkey, h.represents.payload_eq he hkey⟩

/-- A removal takes out the entry of the key and no other. -/
theorem removeKey (h : Plain hm) (key : List UInt8) :
    Plain (hashMapRemoveKey hm key).2 ∧
      ((hm.payloadOf key = none ∧ hashMapRemoveKey hm key = (false, hm)) ∨
        ∃ e, (hashMapRemoveKey hm key).1 = true ∧ e ∈ hm.entries ∧ e.key = key ∧
          hm.entries.Perm (e :: (hashMapRemoveKey hm key).2.entries)) := by
  unfold hashMapRemoveKey
  rw [if_neg (by rw [h.ok]; decide)]
  rcases h.findIndexSerial key 0 with ⟨hmiss, hnone⟩ | ⟨i, e, hhit, he, hkey, -⟩
  · rw [hmiss]
    exact ⟨h, .inl ⟨hnone, rfl⟩⟩
  · rw [hhit]
    obtain ⟨hi, rfl⟩ := List.getElem?_eq_some_iff.mp he
    have hne : hm.entries ≠ [] := List.ne_nil_of_length_pos (Nat.zero_lt_of_lt hi)
    have hlast := List.getLast?_eq_some_getLast hne
    have hperm := set_getLast_dropLast_perm hlast hi
    simp only [hlast]
    have hall : hm.entries.Perm (hm.entries[i] ::
        (hm.entries.set i (hm.entries.getLast hne)).dropLast) :=
      (List.getElem_cons_eraseIdx_perm hi).symm.trans (hperm.symm.cons _)
    refine ⟨h.perm ?_ rfl rfl rfl, .inr ⟨hm.entries[i], trivial, List.getElem_mem hi, hkey, hall⟩⟩
    exact hperm.subperm.trans (List.eraseIdx_sublist hm.entries i).subperm

/-- Nothing that is in the table is missed by a lookup with a hint. -/
theorem containsKey (h : Plain hm) {e : HashMapEntry} (he : e ∈ hm.entries) :
    (hashMapContainsKey qsort bsearch hm e.key).1 = true := by
  have hserial := h.represents.serial e.key 0
  have hsome := (h.represents.isSome_iff e.key).mpr ⟨e, he, rfl⟩
  unfold hashMapContainsKey hashMapFindIndex
  rw [if_neg (by rw [h.ok]; decide), h.useSorting]
  simp only [Bool.and_false, Bool.false_eq_true, if_false]
  split
  · rfl
  · rw [h.useSorting, Bool.and_false, Bool.false_and, if_neg Bool.false_ne_true]
    exact hserial.1.mpr hsome

/-- The entry that an addition appends. -/
def entryFor (hm : HashMap) (key : List UInt8) (val valLength : ℕ) (heap : Heap) : HashMapEntry :=
  { index := hm.curNumberOfEntries
    keyHash := hashFunction key
    key
    payloadLength := valLength
    payload := payloadWord val valLength heap }

theorem addWhenClear (h : Plain hm) (habsent : hm.payloadOf key = none) {val valLength : ℕ}
    {heap : Heap} {r : Bool} {hm' : HashMap}
    (hadd : Hashmap.addWhenClear hm key val valLength heap = .ok (r, hm')) :
    Plain hm' ∧ ((hm'.entries = hm.entries ∧ r = false ∧ heap.key = false) ∨
      (hm'.entries = hm.entries ++ [entryFor hm key val valLength heap] ∧ r = true)) := by
  have happended : ∀ payload, hm.curNumberOfEntries < hm.maxNumberOfEntries →
      Plain (addEntry hm key payload valLength) := by
    intro payload hroom
    have hafter := h.represents.addEntry habsent hroom payload valLength
    exact ⟨h.ok, h.useSorting, rfl, hafter.room, hafter.hashed, hafter.keys⟩
  unfold Hashmap.addWhenClear at hadd
  split at hadd
  · cases hadd
  · rename_i hroom
    have hroom := not_le.mp hroom
    split at hadd
    · rename_i hkey
      cases hadd
      exact ⟨h, .inl ⟨rfl, rfl, by simpa using hkey⟩⟩
    · split at hadd
      · rename_i hlength
        subst hlength
        cases hadd
        exact ⟨happended val hroom, .inr ⟨rfl, rfl⟩⟩
      · rename_i hlength
        cases hpayload : heap.payload with
        | none =>
          rw [hpayload] at hadd
          cases hadd
        | some copy =>
          rw [hpayload] at hadd
          cases hadd
          refine ⟨happended copy hroom, .inr ⟨?_, rfl⟩⟩
          unfold entryFor payloadWord
          rw [if_neg hlength, hpayload]
          rfl

/-- An addition that does not fault appends the entry, or for want of memory leaves the entries as
they are. -/
theorem add (h : Plain hm) (habsent : hm.payloadOf key = none) {val valLength : ℕ} {heap : Heap}
    {r : Bool} {hm' : HashMap} (hadd : hashMapAdd hm key val valLength heap = .ok (r, hm')) :
    Plain hm' ∧ ((hm'.entries = hm.entries ∧ (heap.entries = false ∨ heap.key = false)) ∨
      (hm'.entries = hm.entries ++ [entryFor hm key val valLength heap] ∧ r = true)) := by
  unfold hashMapAdd at hadd
  rw [if_neg (by rw [h.ok]; decide)] at hadd
  have hclear : ∀ {hm₁ : HashMap}, Plain hm₁ → hm₁.entries = hm.entries →
      Hashmap.addWhenClear hm₁ key val valLength heap = .ok (r, hm') →
      Plain hm' ∧ ((hm'.entries = hm.entries ∧ (heap.entries = false ∨ heap.key = false)) ∨
        (hm'.entries = hm.entries ++ [entryFor hm key val valLength heap] ∧ r = true)) := by
    intro hm₁ h₁ hsame hadd
    have habsent₁ : hm₁.payloadOf key = none := by
      unfold HashMap.payloadOf at habsent ⊢
      rw [hsame]
      exact habsent
    have hentry : entryFor hm₁ key val valLength heap = entryFor hm key val valLength heap := by
      unfold entryFor HashMap.curNumberOfEntries
      rw [hsame]
    obtain ⟨hplain, ⟨hunchanged, -, hkey⟩ | ⟨happended, hr⟩⟩ := h₁.addWhenClear habsent₁ hadd
    · exact ⟨hplain, .inl ⟨hunchanged.trans hsame, .inr hkey⟩⟩
    · exact ⟨hplain, .inr ⟨by rw [happended, hsame, hentry], hr⟩⟩
  split at hadd
  · unfold hashMapGrow at hadd
    by_cases hgrows : heap.entries = true
    · rw [if_pos hgrows] at hadd
      by_cases hbound : hm.maxNumberOfEntries + hm.entryAllocationStep < 2 ^ 32
      · rw [if_pos hbound] at hadd
        simp only at hadd
        have hgrown : Plain { hm with
            maxNumberOfEntries := hm.maxNumberOfEntries + hm.entryAllocationStep } := by
          refine ⟨?_, h.useSorting, h.isSorted, h.room.trans (Nat.le_add_right _ _), h.hashed,
            h.keys⟩
          have hok := h.ok
          unfold hashMapIsOK at hok ⊢
          simp only [ne_eq, decide_not, Bool.not_eq_true', decide_eq_false_iff_not] at hok ⊢
          omega
        exact hclear hgrown rfl hadd
      · rw [if_neg hbound] at hadd
        cases hadd
    · rw [if_neg hgrows] at hadd
      cases hadd
      exact ⟨⟨h.ok, h.useSorting, rfl, h.room, h.hashed, h.keys⟩,
        .inl ⟨rfl, .inl (by simpa using hgrows)⟩⟩
  · exact hclear h rfl hadd

/-- Why an addition that answers has left the entries as they are, or what it has appended. -/
theorem add_cases (h : Plain hm) {val valLength : ℕ} {heap : Heap} {r : Bool} {hm' : HashMap}
    (hadd : hashMapAdd hm key val valLength heap = .ok (r, hm')) :
    (hm'.entries = hm.entries ∧ ((r = true ∧ hm.maxNumberOfEntries ≤ hm.curNumberOfEntries ∧
        heap.entries = false) ∨ (r = false ∧ heap.key = false))) ∨
      (hm'.entries = hm.entries ++ [entryFor hm key val valLength heap] ∧ r = true ∧
        (valLength ≠ 0 → heap.payload ≠ none)) := by
  have hclear : ∀ {hm₁ : HashMap}, hm₁.entries = hm.entries →
      Hashmap.addWhenClear hm₁ key val valLength heap = .ok (r, hm') →
      (hm'.entries = hm.entries ∧ r = false ∧ heap.key = false) ∨
        (hm'.entries = hm.entries ++ [entryFor hm key val valLength heap] ∧ r = true ∧
          (valLength ≠ 0 → heap.payload ≠ none)) := by
    intro hm₁ hsame hdone
    unfold Hashmap.addWhenClear at hdone
    split at hdone
    · cases hdone
    split at hdone
    · rename_i hkey
      cases hdone
      exact .inl ⟨hsame, rfl, by simpa using hkey⟩
    have happended : ∀ payload, payload = payloadWord val valLength heap →
        (addEntry hm₁ key payload valLength).entries =
          hm.entries ++ [entryFor hm key val valLength heap] := by
      intro payload hpayload
      unfold addEntry entryFor HashMap.curNumberOfEntries
      rw [hsame, hpayload]
    split at hdone
    · rename_i hlength
      subst hlength
      cases hdone
      exact .inr ⟨happended val rfl, rfl, fun hne => absurd rfl hne⟩
    · rename_i hlength
      cases hpayload : heap.payload with
      | none =>
        rw [hpayload] at hdone
        cases hdone
      | some copy =>
        rw [hpayload] at hdone
        cases hdone
        refine .inr ⟨happended copy ?_, rfl, fun _ => Option.some_ne_none _⟩
        unfold payloadWord
        rw [if_neg hlength, hpayload]
        rfl
  unfold hashMapAdd at hadd
  rw [if_neg (by rw [h.ok]; decide)] at hadd
  split at hadd
  · rename_i hfull
    unfold hashMapGrow at hadd
    by_cases hgrows : heap.entries = true
    · rw [if_pos hgrows] at hadd
      by_cases hbound : hm.maxNumberOfEntries + hm.entryAllocationStep < 2 ^ 32
      · rw [if_pos hbound] at hadd
        simp only at hadd
        rcases hclear (by rfl) hadd with ⟨hsame, hkey⟩ | happended
        · exact .inl ⟨hsame, .inr hkey⟩
        · exact .inr happended
      · rw [if_neg hbound] at hadd
        cases hadd
    · rw [if_neg hgrows] at hadd
      cases hadd
      exact .inl ⟨rfl, .inl ⟨rfl, hfull, by simpa using hgrows⟩⟩
  · rcases hclear rfl hadd with ⟨hsame, hkey⟩ | happended
    · exact .inl ⟨hsame, .inr hkey⟩
    · exact .inr happended

theorem payloadOf_add {hm' : HashMap} (h' : Plain hm') {added : HashMapEntry}
    (hentries : hm'.entries = hm.entries ++ [added]) (key : List UInt8) :
    hm'.payloadOf key = if key = added.key then some added.payload else hm.payloadOf key := by
  split
  · rename_i hkey
    subst hkey
    exact h'.payloadOf_eq (by rw [hentries]; exact List.mem_append_right _ (List.mem_singleton_self _))
  · rename_i hkey
    unfold HashMap.payloadOf
    rw [hentries, List.find?_append, List.find?_singleton,
      if_neg (by simpa using Ne.symm hkey), Option.or_none]

theorem payloadOf_removeKey (h : Plain hm) (key other : List UInt8) :
    (hashMapRemoveKey hm key).2.payloadOf other =
      if other = key then none else hm.payloadOf other := by
  have hafter := (h.represents.removeKey key).stored_iff other
  have hplain := (h.removeKey key).1
  apply Option.ext
  intro v
  rw [hplain.payloadOf_eq_some_iff, ← hafter, Function.update_apply]

end Plain

end AmmarServer.Hashmap
