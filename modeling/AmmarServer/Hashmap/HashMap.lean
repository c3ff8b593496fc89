import AmmarServer.Lib.CString
import AmmarServer.Lib.Searching

/-! The table of `Hashmap/hashmap.c`, as the list of its entries in use. The `hits` and the key
lengths are left out because no lookup reads them. A key is the bytes before its NUL, fewer than
2^32 of them, and a payload is the word that is kept for it, the address of the copy where one is
made. -/

namespace AmmarServer.Hashmap
open Searching

inductive Fault
  | outOfBounds
  | nullDereference
deriving DecidableEq, Repr

structure HashMapEntry where
  index : ℕ
  keyHash : ℕ
  key : List UInt8
  payloadLength : ℕ
  payload : ℕ
deriving DecidableEq, Repr

structure HashMap where
  maxNumberOfEntries : ℕ
  entryAllocationStep : ℕ
  entries : List HashMapEntry
  isSorted : Bool
  useSorting : Bool
deriving DecidableEq, Repr

def HashMap.curNumberOfEntries (hm : HashMap) : ℕ := hm.entries.length

/-- What the allocator answers during one call. -/
structure Heap where
  entries : Bool
  key : Bool
  payload : Option ℕ
deriving DecidableEq, Repr

def NUMBER_OF_ENTRIES_BELOW_IT_IS_NOT_WORTH_SORTING : ℕ := 30

/-- A `char` as it is added to an `unsigned long`. -/
def signExtend (c : UInt8) : ℕ := if c < 128 then c.toNat else 2 ^ 64 - 256 + c.toNat

def hashFunction (str : List UInt8) : ℕ :=
  match str with
  | [] => 0
  | _ => (str ++ [0]).foldl (fun hash c => (hash * 33 + signExtend c) % 2 ^ 64) 5381

def hashMapIsOK (hm : HashMap) : Bool := hm.maxNumberOfEntries ≠ 0

def hashMapGrow (hm : HashMap) (growthSize : ℕ) (heap : Heap) : Except Fault (Bool × HashMap) :=
  if heap.entries then
    -- the new size is an `unsigned int`, and the memory behind the old size is cleared
    if hm.maxNumberOfEntries + growthSize < 2 ^ 32 then
      .ok (true, { hm with maxNumberOfEntries := hm.maxNumberOfEntries + growthSize })
    else .error .outOfBounds
  else .ok (false, hm)

def hashMapCreate (initialEntries entryAllocationStep : ℕ) (useSorting : Bool) : HashMap :=
  { maxNumberOfEntries := initialEntries
    entryAllocationStep
    entries := []
    isSorted := false
    useSorting }

variable (qsort : Qsort HashMapEntry.keyHash) (bsearch : Bsearch HashMapEntry.keyHash)

def hashMapSort (hm : HashMap) : Bool × HashMap :=
  if !hm.useSorting then (false, hm)
  else if !hashMapIsOK hm then (false, hm)
  else (true, { hm with entries := qsort.sort hm.entries, isSorted := true })

def hashMapFindIndexSerialWithPrecomputedHash (hm : HashMap) (key : List UInt8) (keyHash index : ℕ) :
    Bool × ℕ :=
  match hm.entries.findIdx? fun e => e.keyHash = keyHash ∧ key = e.key with
  | some i => (true, i)
  | none => (false, index)

def hashMapFindIndexSerial (hm : HashMap) (key : List UInt8) (index : ℕ) : Bool × ℕ :=
  hashMapFindIndexSerialWithPrecomputedHash hm key (hashFunction key) index

def hashMapBSearch (hm : HashMap) (key : List UInt8) (keyHash index : ℕ) : Bool × ℕ :=
  if !hm.useSorting then (false, index)
  else
    match (bsearch.search hm.entries keyHash).bind (hm.entries[·]?) with
    | none => (false, index)
    | some pItem =>
      match hm.entries[pItem.index]? with
      | none => (false, pItem.index)
      | some e =>
        if key ≠ e.key then hashMapFindIndexSerialWithPrecomputedHash hm key keyHash pItem.index
        else (true, pItem.index)

def addEntry (hm : HashMap) (key : List UInt8) (payload valLength : ℕ) : HashMap :=
  { hm with
    entries := hm.entries ++
      [{ index := hm.curNumberOfEntries, keyHash := hashFunction key, key,
         payloadLength := valLength, payload }]
    isSorted := false }

/-- `hashMap_Add` where it is clear to add. -/
def addWhenClear (hm : HashMap) (key : List UInt8) (val valLength : ℕ) (heap : Heap) :
    Except Fault (Bool × HashMap) :=
  if hm.maxNumberOfEntries ≤ hm.curNumberOfEntries then .error .outOfBounds
  else if !heap.key then .ok (false, hm)
  else if valLength = 0 then .ok (true, addEntry hm key val 0)
  else
    match heap.payload with
    | none => .error .nullDereference
    | some copy => .ok (true, addEntry hm key copy valLength)

def hashMapAdd (hm : HashMap) (key : List UInt8) (val valLength : ℕ) (heap : Heap) :
    Except Fault (Bool × HashMap) :=
  if !hashMapIsOK hm then .ok (false, hm)
  else if hm.maxNumberOfEntries ≤ hm.curNumberOfEntries then
    match hashMapGrow hm hm.entryAllocationStep heap with
    | .error fault => .error fault
    -- a table that could not grow answers that it has the key
    | .ok (false, hm) => .ok (true, { hm with isSorted := false })
    | .ok (true, hm) => addWhenClear hm key val valLength heap
  else addWhenClear hm key val valLength heap

def hashMapAddULong (hm : HashMap) (key : List UInt8) (val : ℕ) (heap : Heap) :
    Except Fault (Bool × HashMap) :=
  hashMapAdd hm key val 0 heap

def hashMapPrepareForQueries (hm : HashMap) : Bool × HashMap :=
  if !hashMapIsOK hm then (false, hm)
  else if !hm.isSorted then (true, (hashMapSort qsort hm).2)
  else (true, hm)

def hashMapFindIndex (hm : HashMap) (key : List UInt8) (index : ℕ) : (Bool × ℕ) × HashMap :=
  if !hashMapIsOK hm then ((false, index), hm)
  else
    let hm := if !hm.isSorted && hm.useSorting then (hashMapPrepareForQueries qsort hm).2 else hm
    let keyHash := hashFunction key
    if (hm.entries[index]?).any fun e => e.keyHash = keyHash then ((true, index), hm)
    else if hm.isSorted && hm.useSorting &&
        NUMBER_OF_ENTRIES_BELOW_IT_IS_NOT_WORTH_SORTING < hm.curNumberOfEntries then
      (hashMapBSearch bsearch hm key keyHash index, hm)
    else (hashMapFindIndexSerialWithPrecomputedHash hm key keyHash index, hm)

def hashMapGetULongPayload (hm : HashMap) (key : List UInt8) (payload : ℕ) :
    (Bool × ℕ) × HashMap :=
  match hashMapFindIndex qsort bsearch hm key payload with
  | ((false, _), hm) => ((false, payload), hm)
  | ((true, i), hm) => ((true, (hm.entries[i]?.map (·.payload)).getD 0), hm)

def hashMapRemoveKey (hm : HashMap) (key : List UInt8) : Bool × HashMap :=
  if !hashMapIsOK hm then (false, hm)
  else
    match hashMapFindIndexSerial hm key 0 with
    | (false, _) => (false, hm)
    | (true, index) =>
      -- the last entry takes the place of the removed one, its `index` as it was
      let entries :=
        match hm.entries.getLast? with
        | some last => (hm.entries.set index last).dropLast
        | none => hm.entries
      (true, { hm with entries, isSorted := false })

def hashMapContainsKey (hm : HashMap) (key : List UInt8) : Bool × HashMap :=
  let ((found, _), hm) := hashMapFindIndex qsort bsearch hm key 0
  (found, hm)

end AmmarServer.Hashmap
