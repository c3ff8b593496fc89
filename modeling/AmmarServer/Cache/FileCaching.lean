import AmmarServer.Hashmap.Lookups

/-! The index of the cache in `cache/file_caching.c`, and the lookups of a table behind every
sequence of calls. -/

namespace AmmarServer.Cache
open Searching Hashmap CString

/-- What the index needs of a server instance. -/
structure Instance where
  cache : Bool
  cacheHashMap : HashMap

variable (qsort : Qsort HashMapEntry.keyHash) (bsearch : Bsearch HashMapEntry.keyHash)

def cacheFindResource (inst : Instance) (resource : List UInt8) (index : ℕ) :
    (Bool × ℕ) × Instance :=
  if !inst.cache then ((false, index), inst)
  else
    match hashMapGetULongPayload qsort bsearch inst.cacheHashMap resource index with
    | ((true, i), hm) => ((true, i % 2 ^ 32), { inst with cacheHashMap := hm })
    | ((false, _), hm) => ((false, index), { inst with cacheHashMap := hm })

inductive Call
  | add (key : List UInt8) (val valLength : ℕ) (heap : Heap)
  | addULong (key : List UInt8) (val : ℕ) (heap : Heap)
  | removeKey (key : List UInt8)
  | sort
  | prepareForQueries
  | findIndex (key : List UInt8) (index : ℕ)

/-- A table, and what the answers to the calls say that it has stored last for each key. -/
structure Table where
  hm : HashMap
  stored : List UInt8 → Option ℕ

def Table.create (initialEntries entryAllocationStep : ℕ) (useSorting : Bool) : Table :=
  { hm := hashMapCreate initialEntries entryAllocationStep useSorting
    stored := fun _ => none }

def Table.added (t : Table) (key : List UInt8) (word : ℕ) (answer : Bool × HashMap) : Table :=
  { hm := answer.2
    stored := if answer.1 = true then Function.update t.stored key (some word) else t.stored }

def Table.call (t : Table) : Call → Except Fault Table
  | .add key val valLength heap =>
    (hashMapAdd t.hm key val valLength heap).map (t.added key (payloadWord val valLength heap))
  | .addULong key val heap => (hashMapAddULong t.hm key val heap).map (t.added key val)
  | .removeKey key => .ok ⟨(hashMapRemoveKey t.hm key).2, Function.update t.stored key none⟩
  | .sort => .ok ⟨(hashMapSort qsort t.hm).2, t.stored⟩
  | .prepareForQueries => .ok ⟨(hashMapPrepareForQueries qsort t.hm).2, t.stored⟩
  | .findIndex key index => .ok ⟨(hashMapFindIndex qsort bsearch t.hm key index).2, t.stored⟩

def step (s : Except Fault Table) (c : Call) : Except Fault Table :=
  s.bind fun t => t.call qsort bsearch c

/-- Only absent keys are added, and the memory that takes is there. -/
def Allowed (s : Except Fault Table) (c : Call) : Prop :=
  match s, c with
  | .ok t, .add key _ valLength heap => t.stored key = none ∧ Granted t.hm valLength heap
  | .ok t, .addULong key _ heap => t.stored key = none ∧ Granted t.hm 0 heap
  | _, _ => True

structure Exact (hm : HashMap) (stored : List UInt8 → Option ℕ) (key : List UInt8) (index : ℕ) :
    Prop where
  findIndex : Answers (hashMapFindIndex qsort bsearch hm key index).2 stored key
    (hashMapFindIndex qsort bsearch hm key index).1
  getULongPayload : (hashMapGetULongPayload qsort bsearch hm key index).1 =
    match stored key with
    | some v => (true, v)
    | none => (false, index)
  containsKey : index = 0 → (hashMapContainsKey qsort bsearch hm key).1 = (stored key).isSome
  /-- The cache keeps its indices as `unsigned int`. -/
  findResource : ∀ inst : Instance, inst.cache = true → inst.cacheHashMap = hm →
    (∀ v < 2 ^ 32, stored key = some v →
      (cacheFindResource qsort bsearch inst key index).1 = (true, v)) ∧
    (stored key = none → (cacheFindResource qsort bsearch inst key index).1 = (false, index))

variable {qsort bsearch} {hm : HashMap} {stored : List UInt8 → Option ℕ} {key : List UInt8}
  {index : ℕ}

/-- An exact `hashMap_FindIndex` makes the lookups above it exact. -/
theorem exact_iff_answers (h : Represents hm stored) :
    Exact qsort bsearch hm stored key index ↔
      Answers (hashMapPrepareForQueries qsort hm).2 stored key
        (hashMapFindIndex qsort bsearch hm key index).1 := by
  constructor
  · intro hexact
    have := hexact.findIndex
    rwa [findIndex_snd] at this
  · intro hanswers
    have hpayload : (hashMapGetULongPayload qsort bsearch hm key index).1 =
        match stored key with
        | some v => (true, v)
        | none => (false, index) := by
      unfold hashMapGetULongPayload
      obtain ⟨hfound, hentry⟩ := hanswers
      have hsnd := @findIndex_snd qsort bsearch hm key index
      generalize hashMapFindIndex qsort bsearch hm key index = answer at hfound hentry hsnd ⊢
      obtain ⟨⟨found, i⟩, hm'⟩ := answer
      cases found with
      | false =>
        cases hstored : stored key with
        | none => rfl
        | some v =>
          rw [hstored] at hfound
          exact absurd (hfound.mpr rfl) Bool.false_ne_true
      | true =>
        obtain ⟨e, he, hkey⟩ := hentry rfl
        have hsome := h.prepare.payload_eq he hkey
        simp only at hsnd he
        rw [hsome, hsnd]
        simp only
        rw [he]
        rfl
    refine ⟨?_, hpayload, ?_, ?_⟩
    · rwa [findIndex_snd]
    · rintro rfl
      exact Bool.eq_iff_iff.mpr hanswers.1
    · intro inst hcache hsame
      unfold cacheFindResource
      rw [if_neg (by rw [hcache]; decide), hsame]
      generalize hashMapGetULongPayload qsort bsearch hm key index = answer at hpayload ⊢
      obtain ⟨answer, hm'⟩ := answer
      simp only at hpayload
      subst hpayload
      refine ⟨fun v hv hstored => ?_, fun hstored => ?_⟩
      · rw [hstored]
        simp only
        rw [Nat.mod_eq_of_lt hv]
      · rw [hstored]

theorem represents_call {t : Table} {c : Call} (h : Represents t.hm t.stored)
    (hallowed : Allowed (.ok t) c) :
    ∃ t', t.call qsort bsearch c = .ok t' ∧ Represents t'.hm t'.stored := by
  have hadds : ∀ key val valLength heap, t.stored key = none → Granted t.hm valLength heap →
      ∃ t', (hashMapAdd t.hm key val valLength heap).map
          (t.added key (payloadWord val valLength heap)) = .ok t' ∧
        Represents t'.hm t'.stored := by
    intro key val valLength heap habsent hgranted
    obtain ⟨r, hm', hadd, hafter⟩ := h.add habsent val hgranted
    rw [hadd]
    exact ⟨_, rfl, hafter⟩
  cases c with
  | add key val valLength heap => exact hadds key val valLength heap hallowed.1 hallowed.2
  | addULong key val heap => exact hadds key val 0 heap hallowed.1 hallowed.2
  | removeKey key => exact ⟨_, rfl, h.removeKey key⟩
  | sort => exact ⟨_, rfl, h.sort⟩
  | prepareForQueries => exact ⟨_, rfl, h.prepare⟩
  | findIndex key index =>
    refine ⟨_, rfl, ?_⟩
    show Represents (hashMapFindIndex qsort bsearch t.hm key index).2 t.stored
    rw [findIndex_snd]
    exact h.prepare

/-- Behind every run of calls, the lookups of a key with a hint are exact, for every `bsearch`, just
if the key is findable with the hint. -/
theorem lookups_exact_iff {initialEntries entryAllocationStep : ℕ} {useSorting : Bool}
    {s : Except Fault Table}
    (hrun : Run.Reaches (step qsort bsearch) Allowed
      (.ok (Table.create initialEntries entryAllocationStep useSorting)) s) :
    ∃ t, s = .ok t ∧ ∀ key index,
      (∀ bsearch, Exact qsort bsearch t.hm t.stored key index) ↔
        Findable (hashMapPrepareForQueries qsort t.hm).2 key index := by
  have hinv : ∃ t, s = .ok t ∧ Represents t.hm t.stored := by
    refine @Run.Reaches.invariant _ _ _ _ _ (fun s => ∃ t, s = .ok t ∧ Represents t.hm t.stored)
      ⟨_, rfl, represents_create _ _ _⟩ ?_ _ hrun
    rintro _ c ⟨t, rfl, h⟩ hallowed
    exact represents_call h hallowed
  obtain ⟨t, rfl, h⟩ := hinv
  refine ⟨t, rfl, fun key index => ?_⟩
  rw [← findIndex_answers_iff h]
  exact forall_congr' fun bsearch => exact_iff_answers h

/-- One resource in an index of the size that the server takes. -/
def oneResource : Except Fault Table :=
  step Qsort.insertion Bsearch.halving (.ok (Table.create 1000 1000 false))
    (.addULong (ascii "aB") 7 ⟨true, true, none⟩)

theorem oneResource_exact_iff :
    ∃ t, oneResource = .ok t ∧ ∀ key index,
      (∀ bsearch, Exact Qsort.insertion bsearch t.hm t.stored key index) ↔
        Findable (hashMapPrepareForQueries Qsort.insertion t.hm).2 key index :=
  lookups_exact_iff (.step _ .start ⟨rfl, by decide⟩)

/-- The hint names the only resource, whose name has the hash of another name, and the cache answers
a request for that one with it. -/
theorem oneResource_answersAnother :
    ∃ t, oneResource = .ok t ∧ t.stored (ascii "b!") = none ∧
      (cacheFindResource Qsort.insertion Bsearch.halving ⟨true, t.hm⟩ (ascii "b!") 0).1 =
        (true, 7) ∧
      ¬ Exact Qsort.insertion Bsearch.halving t.hm t.stored (ascii "b!") 0 := by
  refine ⟨_, rfl, by decide, by decide, fun hexact => ?_⟩
  have hsome := hexact.findIndex.1.mp (by decide)
  revert hsome
  decide

-- 32 keys in a sorted table, of which the removal of one leaves another behind its position
example :
    let keys : List (List UInt8) := (List.range 32).map fun i => [65, UInt8.ofNat (65 + i)]
    let calls := keys.map (fun key => Call.addULong key 7 ⟨true, true, none⟩) ++ [.removeKey [65, 65]]
    (calls.foldl (step Qsort.insertion Bsearch.halving) (.ok (Table.create 64 64 true))).map
        (fun t => (t.stored [65, 96],
          (hashMapFindIndex Qsort.insertion Bsearch.halving t.hm [65, 96] 99).1)) =
      .ok (some 7, false, 31) := by
  decide

end AmmarServer.Cache
