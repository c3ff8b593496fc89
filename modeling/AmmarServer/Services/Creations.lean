import AmmarServer.HabChan.Tables
import AmmarServer.Lib.TextFiles

/-! The records that `Services/Availability/state.c` and `Services/ShareTex/state.c` create, each in a
directory of its own that is named by a counter. The site is what the process holds and the names that
there are in the directory of the service. -/

namespace AmmarServer.Services
open Bytes CString TextFile Hashmap Searching

/-- The letter in front of the counter, and how many records there may be. -/
structure Service where
  letter : UInt8
  limit : ℕ
  plain : isDigit letter = false
  bounded : limit ≤ 1000

structure Site (ρ : Type) where
  records : List ρ
  nextUID : UInt32
  table : HashMap
  present : List (List UInt8)

/-- The allocations of a table are granted. -/
def memory : Heap := { entries := true, key := true, payload := none }

variable {ρ : Type} (service : Service)

/-- The letter and `%06u`. -/
def Service.identifier (uid : UInt32) : List UInt8 :=
  service.letter :: (List.replicate (6 - (decimal uid.toNat).length) 48 ++ decimal uid.toNat)

/-- What a call is given: whether `mkdir` can make the directory and the one inside it, and the record
that is made of the identifier. -/
structure Call (ρ : Type) where
  directory : Bool
  inside : Bool
  build : List UInt8 → ρ

def createRecord (call : Call ρ) (s : Site ρ) : Except Fault (Option (List UInt8) × Site ρ) :=
  if service.limit ≤ s.records.length then .ok (none, s)
  else
    let id := service.identifier s.nextUID
    if call.directory = false ∨ id ∈ s.present then .ok (none, s)
    else
      let s := { s with present := s.present ++ [id] }
      if call.inside = false then .ok (none, s)
      else
        (hashMapAddULong s.table id s.records.length memory).map fun (_, table) =>
          (some id,
            { s with records := s.records ++ [call.build id], nextUID := s.nextUID + 1, table })

/-- The number in a name. -/
def Service.numericPart (name : List UInt8) : UInt32 :=
  atoi (if name.head? = some service.letter then name.tail else name)

/-- The loop over what `readdir` returns, each with the record that is loaded from it if there is
one. -/
def loadLoop : List (List UInt8 × Option ρ) → List ρ → HashMap → UInt32 →
    Except Fault (List ρ × HashMap × UInt32)
  | [], records, table, highest => .ok (records, table, highest)
  | (name, loaded) :: entries, records, table, highest =>
    if service.limit ≤ records.length then .ok (records, table, highest)
    else
      match loaded with
      | none => loadLoop entries records table highest
      | some record =>
        (hashMapAddULong table name records.length memory).bind fun (_, table) =>
          let numericPart := service.numericPart name
          loadLoop entries (records ++ [record]) table
            (if highest < numericPart then numericPart else highest)

/-- A process begins. `listing` is `none` where the directory of the service cannot be opened. -/
def loadAll (listing : Option (List (List UInt8 × Option ρ))) (present : List (List UInt8)) :
    Except Fault (Site ρ) :=
  match listing with
  | none => .ok { records := [], nextUID := 1, table := hashMapCreate 100 100 true, present }
  | some entries =>
    (loadLoop service entries [] (hashMapCreate 100 100 true) 0).map
      fun (records, table, highest) => { records, nextUID := highest + 1, table, present }

variable (qsort : Qsort HashMapEntry.keyHash) (bsearch : Bsearch HashMapEntry.keyHash)

def findRecord (s : Site ρ) (id : List UInt8) : Option ρ × Site ρ :=
  match hashMapGetULongPayload qsort bsearch s.table id 0 with
  | ((false, _), table) => (none, { s with table })
  | ((true, slot), table) => (s.records[slot]?, { s with table })

end AmmarServer.Services
