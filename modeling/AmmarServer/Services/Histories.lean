import AmmarServer.Services.Creations

/-! Histories of creations, lookups and restarts. A lookup finds the record of its identifier and a
creation takes a name that there is not. Which name the counter leads to depends on what was loaded. -/

namespace AmmarServer.Services
open Bytes CString TextFile Hashmap Searching

inductive Event (ρ : Type)
  | create (call : Call ρ)
  | find (id : List UInt8)
  | restart (listing : Option (List (List UInt8 × Option ρ)))

variable {ρ : Type} (service : Service) (qsort : Qsort HashMapEntry.keyHash)
  (bsearch : Bsearch HashMapEntry.keyHash)

/-- What is listed is what there is, in any order. -/
def Possible (present : List (List UInt8)) : Event ρ → Prop
  | .restart (some entries) => (entries.map (·.1)).Perm present
  | _ => True

def step (s : Site ρ) : Event ρ → Except Fault (Option (List UInt8) × Site ρ)
  | .create call => createRecord service call s
  | .find id => .ok (none, (findRecord qsort bsearch s id).2)
  | .restart listing => (loadAll service listing s.present).map fun s => (none, s)

/-- The names from which a record is loaded, with their records. -/
def loadable (entries : List (List UInt8 × Option ρ)) : List (List UInt8 × ρ) :=
  (entries.filterMap fun e => e.2.map (e.1, ·)).take service.limit

/-- The records behind an event, with their names. -/
def remember (named : List (List UInt8 × ρ)) (answer : Option (List UInt8)) :
    Event ρ → List (List UInt8 × ρ)
  | .create call => named ++ answer.toList.map fun id => (id, call.build id)
  | .find _ => named
  | .restart listing => loadable service (listing.getD [])

/-- Before anything is loaded. -/
def boot (present : List (List UInt8)) : Site ρ where
  records := []
  nextUID := 1
  table := hashMapCreate 100 100 true
  present

/-- A history, with the identifiers that were returned and the records that there are by their
names. -/
inductive History (guard : Site ρ → Event ρ → Prop) :
    List (List UInt8) → List (List UInt8 × ρ) → Site ρ → Prop
  | start {present : List (List UInt8)} {listing : Option (List (List UInt8 × Option ρ))} {s : Site ρ}
      (hpresent : present.Nodup) (hpossible : Possible present (.restart listing))
      (hguard : guard (boot present) (.restart listing))
      (h : loadAll service listing present = .ok s) :
      History guard [] (loadable service (listing.getD [])) s
  | step {ids : List (List UInt8)} {named : List (List UInt8 × ρ)} {s s' : Site ρ}
      {answer : Option (List UInt8)} (event : Event ρ) (before : History guard ids named s)
      (hpossible : Possible s.present event) (hguard : guard s event)
      (h : step service qsort bsearch s event = .ok (answer, s')) :
      History guard (ids ++ answer.toList) (remember service named answer event) s'

/-- What is claimed of a state of a history. -/
structure Sound (ids : List (List UInt8)) (named : List (List UInt8 × ρ)) (s : Site ρ) : Prop where
  distinct : ids.Nodup
  kept : ∀ id ∈ ids, id ∈ s.present
  fresh : ∀ call id s', createRecord service call s = .ok (some id, s') → id ∉ s.present
  progress : s.records.length < service.limit → ∀ call : Call ρ, call.directory = true →
    call.inside = true → ∃ id s', createRecord service call s = .ok (some id, s')
  found : ∀ id, (∀ e ∈ named, hashFunction e.1 = hashFunction id → e.1 = id) →
    (findRecord qsort bsearch s id).1 = (named.find? (·.1 = id)).map (·.2)

/-! What holds in every history. -/

/-- The places of the names. -/
def slotOf (named : List (List UInt8 × ρ)) (name : List UInt8) : Option ℕ :=
  named.findIdx? (·.1 = name)

structure Inv (ids : List (List UInt8)) (named : List (List UInt8 × ρ)) (s : Site ρ) : Prop where
  records : s.records = named.map (·.2)
  table : Growing s.table (slotOf named)
  names : (named.map (·.1)).Nodup
  listed : ∀ name ∈ named.map (·.1), name ∈ s.present
  room : named.length ≤ service.limit
  present : s.present.Nodup
  distinct : ids.Nodup
  kept : ∀ id ∈ ids, id ∈ s.present

section Slots
variable {named : List (List UInt8 × ρ)} {name : List UInt8}

theorem slotOf_none (h : name ∉ named.map (·.1)) : slotOf named name = none := by
  apply List.findIdx?_eq_none_iff.mpr
  intro e he
  apply decide_eq_false
  rintro rfl
  exact h (List.mem_map_of_mem he)

theorem slotOf_append (h : name ∉ named.map (·.1)) (record : ρ) :
    slotOf (named ++ [(name, record)]) =
      Function.update (slotOf named) name (some named.length) := by
  funext other
  rw [slotOf, List.findIdx?_append]
  by_cases hother : other = name
  · rw [hother, Function.update_self]
    have hnone := slotOf_none h
    rw [slotOf] at hnone
    rw [hnone]
    simp
  · rw [Function.update_of_ne hother, slotOf]
    have hne : ¬name = other := fun heq => hother heq.symm
    simp [hne]

theorem getElem_slotOf (named : List (List UInt8 × ρ)) (name : List UInt8) :
    (slotOf named name).bind (fun slot => (named.map (·.2))[slot]?) =
      (named.find? (·.1 = name)).map (·.2) := by
  induction named with
  | nil => rfl
  | cons e named ih =>
    by_cases he : e.1 = name
    · rw [slotOf, List.findIdx?_cons, List.find?_cons, decide_eq_true he]
      rfl
    · rw [slotOf, List.findIdx?_cons, List.find?_cons, decide_eq_false he]
      rw [slotOf] at ih
      dsimp only
      rw [← ih, if_neg Bool.false_ne_true, Option.bind_map]
      rfl

theorem getElem_of_slotOf {slot : ℕ} (h : slotOf named name = some slot) :
    (named.map (·.1))[slot]? = some name := by
  obtain ⟨hlt, hname, -⟩ := List.findIdx?_eq_some_iff_getElem.mp h
  rw [List.getElem?_map, List.getElem?_eq_getElem hlt]
  exact congrArg some (of_decide_eq_true hname)

theorem count_named {table : HashMap} (h : Growing table (slotOf named)) :
    table.curNumberOfEntries ≤ named.length := by
  apply h.count_le
  · intro key slot hslot
    obtain ⟨hlt, -⟩ := List.findIdx?_eq_some_iff_getElem.mp hslot
    exact hlt
  · intro key key' slot hkey hkey'
    have heq := (getElem_of_slotOf hkey).symm.trans (getElem_of_slotOf hkey')
    exact Option.some.inj heq

theorem add_named {table : HashMap} (h : Growing table (slotOf named)) (hnew : name ∉ named.map (·.1))
    (hroom : named.length ≤ 1000) (record : ρ) :
    ∃ table', hashMapAddULong table name named.length memory = .ok (true, table') ∧
      Growing table' (slotOf (named ++ [(name, record)])) := by
  have hcount := (count_named h).trans hroom
  rw [slotOf_append hnew]
  exact h.addULong (slotOf_none hnew) named.length rfl rfl (hcount.trans (by decide))

end Slots

section Loading
variable {named : List (List UInt8 × ρ)} {entries : List (List UInt8 × Option ρ)}

/-- What is read of the entries when there is room for so many records. -/
def loadedOf (entries : List (List UInt8 × Option ρ)) (room : ℕ) : List (List UInt8 × ρ) :=
  (entries.filterMap fun e => e.2.map (e.1, ·)).take room

theorem names_loadedOf (entries : List (List UInt8 × Option ρ)) (room : ℕ) :
    ((loadedOf entries room).map (·.1)).Sublist (entries.map (·.1)) := by
  have hall : ((entries.filterMap fun e => e.2.map (e.1, ·)).map (·.1)).Sublist
      (entries.map (·.1)) := by
    induction entries with
    | nil => exact List.Sublist.refl _
    | cons e entries ih =>
      obtain ⟨name, loaded⟩ := e
      cases loaded with
      | none => exact ih.trans (List.sublist_cons_self ..)
      | some record => exact ih.cons_cons name
  exact (List.Sublist.map _ (List.take_sublist room _)).trans hall

/-- The records, the table and the highest number behind the loop. -/
structure Loaded (service : Service) (named more : List (List UInt8 × ρ)) (highest : UInt32)
    (result : List ρ × HashMap × UInt32) : Prop where
  records : result.1 = (named ++ more).map (·.2)
  table : Growing result.2.1 (slotOf (named ++ more))
  above : ∀ e ∈ more, service.numericPart e.1 ≤ result.2.2
  atLeast : highest ≤ result.2.2
  reached : result.2.2 = highest ∨ ∃ e ∈ more, result.2.2 = service.numericPart e.1

theorem Loaded.cons {name : List UInt8} {record : ρ} {more : List (List UInt8 × ρ)} {highest : UInt32}
    {result : List ρ × HashMap × UInt32}
    (h : Loaded service (named ++ [(name, record)]) more
      (if highest < service.numericPart name then service.numericPart name else highest) result) :
    Loaded service named ((name, record) :: more) highest result := by
  have hnames : named ++ [(name, record)] ++ more = named ++ (name, record) :: more := by
    rw [List.append_assoc, List.singleton_append]
  have hleast := h.atLeast
  have hreached := h.reached
  refine ⟨hnames ▸ h.records, hnames ▸ h.table, ?_, ?_, ?_⟩
  · intro e he
    rcases List.mem_cons.mp he with rfl | he
    · refine UInt32.le_trans ?_ hleast
      split
      · exact UInt32.le_refl _
      · rename_i hnot
        exact UInt32.not_lt.mp hnot
    · exact h.above e he
  · refine UInt32.le_trans ?_ hleast
    split
    · rename_i hlt
      exact UInt32.le_of_lt hlt
    · exact UInt32.le_refl _
  · rcases hreached with heq | ⟨e, he, heq⟩
    · split at heq
      · exact .inr ⟨_, List.mem_cons_self .., heq⟩
      · exact .inl heq
    · exact .inr ⟨e, List.mem_cons_of_mem _ he, heq⟩

theorem loadLoop_loaded {table : HashMap} (h : Growing table (slotOf named))
    (hroom : named.length ≤ service.limit)
    (hnew : (named.map (·.1) ++ entries.map (·.1)).Nodup) (highest : UInt32) :
    ∃ result, loadLoop service entries (named.map (·.2)) table highest = .ok result ∧
      Loaded service named (loadedOf entries (service.limit - named.length)) highest
        result := by
  induction entries generalizing named table highest with
  | nil =>
    refine ⟨_, rfl, ?_⟩
    have hmore : loadedOf ([] : List (List UInt8 × Option ρ)) (service.limit - named.length) = [] :=
      List.take_nil
    rw [hmore]
    exact ⟨by rw [List.append_nil], by rwa [List.append_nil], fun e he => (by cases he), UInt32.le_refl _,
      .inl rfl⟩
  | cons e entries ih =>
    obtain ⟨name, loaded⟩ := e
    rw [List.map_cons] at hnew
    unfold loadLoop
    by_cases hfull : service.limit ≤ (named.map (·.2)).length
    · -- the loop ends, and nothing more is read of the list
      rw [if_pos hfull]
      have hzero : service.limit - named.length = 0 := by
        rw [List.length_map] at hfull
        omega
      rw [hzero, loadedOf, List.take_zero]
      refine ⟨_, rfl, by rw [List.append_nil], by rwa [List.append_nil], fun e he => (by cases he),
        UInt32.le_refl _, .inl rfl⟩
    · rw [if_neg hfull]
      rw [List.length_map, Nat.not_le] at hfull
      cases loaded with
      | none =>
        have hrest : (named.map (·.1) ++ entries.map (·.1)).Nodup :=
          hnew.sublist (List.Sublist.append_left (List.sublist_cons_self ..) _)
        exact ih h hroom hrest highest
      | some record =>
        have hname : name ∉ named.map (·.1) := by
          intro hmem
          exact (List.nodup_append.mp hnew).2.2 name hmem name (List.mem_cons_self ..) rfl
        obtain ⟨table', hadd, hgrowing⟩ :=
          add_named h hname (hroom.trans service.bounded) record
        have hrest : ((named ++ [(name, record)]).map (·.1) ++ entries.map (·.1)).Nodup := by
          rw [List.map_append, List.append_assoc]
          exact hnew
        have hlength : (named ++ [(name, record)]).length = named.length + 1 := List.length_append
        have hroom' : (named ++ [(name, record)]).length ≤ service.limit := by
          rw [hlength]
          exact hfull
        have hlater := ih hgrowing hroom' hrest
          (if highest < service.numericPart name then service.numericPart name else highest)
        rw [hlength] at hlater
        obtain ⟨result, hrun, hloaded⟩ := hlater
        have hmore : loadedOf ((name, some record) :: entries) (service.limit - named.length) =
            (name, record) :: loadedOf entries (service.limit - (named.length + 1)) := by
          have hsize : service.limit - named.length = service.limit - (named.length + 1) + 1 := by
            omega
          rw [hsize]
          rfl
        refine ⟨result, ?_, ?_⟩
        · dsimp only
          rw [List.length_map, hadd]
          rw [List.map_append] at hrun
          exact hrun
        · rw [hmore]
          exact hloaded.cons

end Loading

/-! Identifiers. -/

theorem numericPart_identifier (uid : UInt32) : service.numericPart (service.identifier uid) = uid := by
  rw [Service.numericPart, Service.identifier, List.head?_cons, if_pos rfl, List.tail_cons]
  exact atoi_zeros _ uid

theorem identifier_injective : Function.Injective service.identifier :=
  Function.LeftInverse.injective (numericPart_identifier service)

/-! One event. -/

section Events
variable {service} {qsort} {bsearch} {ids : List (List UInt8)} {named : List (List UInt8 × ρ)}
  {s s' : Site ρ} {call : Call ρ} {answer : Option (List UInt8)}

/-- What a creation does. -/
inductive Creation (service : Service) (call : Call ρ) (s : Site ρ) : Option (List UInt8) → Site ρ → Prop
  | refused (hrefused : service.limit ≤ s.records.length ∨ call.directory = false ∨
      service.identifier s.nextUID ∈ s.present) : Creation service call s none s
  | halted (hroom : s.records.length < service.limit) (hdirectory : call.directory = true)
      (hnew : service.identifier s.nextUID ∉ s.present) (hinside : call.inside = false) :
      Creation service call s none
        { s with present := s.present ++ [service.identifier s.nextUID] }
  | created (hroom : s.records.length < service.limit) (hdirectory : call.directory = true)
      (hnew : service.identifier s.nextUID ∉ s.present) (hinside : call.inside = true)
      {added : Bool} {table : HashMap}
      (hadd : hashMapAddULong s.table (service.identifier s.nextUID) s.records.length memory =
        .ok (added, table)) :
      Creation service call s (some (service.identifier s.nextUID))
        { records := s.records ++ [call.build (service.identifier s.nextUID)]
          nextUID := s.nextUID + 1
          table
          present := s.present ++ [service.identifier s.nextUID] }

theorem creation_of_createRecord (h : createRecord service call s = .ok (answer, s')) :
    Creation service call s answer s' := by
  unfold createRecord at h
  split at h
  · rename_i hfull
    cases h
    exact .refused (.inl hfull)
  · rename_i hroom
    dsimp only at h
    split at h
    · rename_i hrefused
      cases h
      exact .refused (.inr hrefused)
    · rename_i hmade
      obtain ⟨hdirectory, hnew⟩ := not_or.mp hmade
      rw [Bool.not_eq_false] at hdirectory
      split at h
      · rename_i hinside
        cases h
        exact .halted (Nat.not_le.mp hroom) hdirectory hnew hinside
      · rename_i hinside
        rw [Bool.not_eq_false] at hinside
        cases hadd : hashMapAddULong s.table (service.identifier s.nextUID) s.records.length memory with
        | error fault =>
          rw [hadd] at h
          cases h
        | ok answer =>
          obtain ⟨added, table⟩ := answer
          rw [hadd] at h
          cases h
          exact .created (Nat.not_le.mp hroom) hdirectory hnew hinside hadd

theorem Inv.create (h : Inv service ids named s) (hroom : s.records.length < service.limit)
    (hdirectory : call.directory = true) (hinside : call.inside = true)
    (hnew : service.identifier s.nextUID ∉ s.present) :
    ∃ id s', createRecord service call s = .ok (some id, s') := by
  have hcount : s.records.length = named.length := by rw [h.records, List.length_map]
  have hname : service.identifier s.nextUID ∉ named.map (·.1) := fun hmem => hnew (h.listed _ hmem)
  have hbound : named.length ≤ 1000 := h.room.trans service.bounded
  obtain ⟨table, hadd, -⟩ := add_named h.table hname hbound (call.build (service.identifier s.nextUID))
  unfold createRecord
  rw [if_neg (Nat.not_le.mpr hroom)]
  dsimp only
  rw [if_neg (by rw [hdirectory]; exact fun hor => hor.elim Bool.noConfusion hnew),
    if_neg (by rw [hinside]; exact Bool.noConfusion), hcount, hadd]
  exact ⟨_, _, rfl⟩

theorem nodup_snoc {names : List (List UInt8)} {name : List UInt8} (h : names.Nodup)
    (hname : name ∉ names) : (names ++ [name]).Nodup := by
  rw [← List.concat_eq_append]
  exact h.concat hname

theorem Inv.created (h : Inv service ids named s)
    (hcreate : createRecord service call s = .ok (answer, s')) :
    Inv service (ids ++ answer.toList)
      (named ++ answer.toList.map fun id => (id, call.build id)) s' := by
  cases creation_of_createRecord hcreate with
  | refused hrefused =>
    rw [Option.toList_none, List.map_nil, List.append_nil, List.append_nil]
    exact h
  | halted hroom hdirectory hnew hinside =>
    rw [Option.toList_none, List.map_nil, List.append_nil, List.append_nil]
    exact { h with
      listed := fun name hname => List.mem_append_left _ (h.listed name hname)
      present := nodup_snoc h.present hnew
      kept := fun id hid => List.mem_append_left _ (h.kept id hid) }
  | created hroom hdirectory hnew hinside hadd =>
    have hcount : s.records.length = named.length := by rw [h.records, List.length_map]
    have hname : service.identifier s.nextUID ∉ named.map (·.1) := fun hmem => hnew (h.listed _ hmem)
    have hbound : named.length ≤ 1000 := h.room.trans service.bounded
    obtain ⟨table, hadd', hgrowing⟩ :=
      add_named h.table hname hbound (call.build (service.identifier s.nextUID))
    rw [hcount, hadd'] at hadd
    cases hadd
    rw [Option.toList_some, List.map_singleton]
    refine ⟨?_, hgrowing, ?_, ?_, ?_, nodup_snoc h.present hnew, ?_, ?_⟩
    · rw [List.map_append, h.records]
      rfl
    · rw [List.map_append]
      exact nodup_snoc h.names hname
    · intro name hmem
      rw [List.map_append] at hmem
      rcases List.mem_append.mp hmem with hmem | hmem
      · exact List.mem_append_left _ (h.listed name hmem)
      · exact List.mem_append_right _ hmem
    · rw [List.length_append, ← hcount]
      exact hroom
    · exact nodup_snoc h.distinct fun hmem => hnew (h.kept _ hmem)
    · intro id hid
      rcases List.mem_append.mp hid with hid | hid
      · exact List.mem_append_left _ (h.kept id hid)
      · exact List.mem_append_right _ hid

variable (qsort bsearch) in
theorem Inv.find (h : Inv service ids named s) (id : List UInt8) :
    Inv service ids named (findRecord qsort bsearch s id).2 := by
  have htable := @Growing.getULongPayload_snd qsort bsearch s.table _ h.table id 0
  unfold findRecord
  generalize hashMapGetULongPayload qsort bsearch s.table id 0 = found at *
  obtain ⟨⟨isFound, slot⟩, table⟩ := found
  cases isFound with
  | false => exact { h with table := htable }
  | true => exact { h with table := htable }

variable (qsort bsearch) in
theorem Inv.found (h : Inv service ids named s) {id : List UInt8}
    (hapart : ∀ e ∈ named, hashFunction e.1 = hashFunction id → e.1 = id) :
    (findRecord qsort bsearch s id).1 = (named.find? (·.1 = id)).map (·.2) := by
  have htold : Told s.table id := by
    intro e he hhash
    have hslot := (h.table.represents.stored_iff e.key e.payload).mpr ⟨e, he, rfl, rfl⟩
    obtain ⟨hlt, hname, -⟩ := List.findIdx?_eq_some_iff_getElem.mp hslot
    have hkey := of_decide_eq_true hname
    rw [h.table.represents.hashed e he, ← hkey] at hhash
    rw [← hkey]
    exact hapart _ (List.getElem_mem hlt) hhash
  have hanswer := @Growing.getULongPayload_fst qsort bsearch s.table _ id h.table htold
  rw [← getElem_slotOf, ← h.records]
  unfold findRecord
  generalize hashMapGetULongPayload qsort bsearch s.table id 0 = found at *
  obtain ⟨⟨isFound, slot⟩, table⟩ := found
  cases hslot : slotOf named id with
  | none =>
    rw [hslot] at hanswer
    cases hanswer
    rfl
  | some place =>
    rw [hslot] at hanswer
    cases hanswer
    rfl

/-- What a start leaves, with the highest number that it has seen. -/
structure Started (service : Service) (named : List (List UInt8 × ρ)) (highest : UInt32) (s : Site ρ) :
    Prop where
  above : ∀ e ∈ named, service.numericPart e.1 ≤ highest
  reached : highest = 0 ∨ ∃ e ∈ named, highest = service.numericPart e.1
  next : s.nextUID = highest + 1

theorem growing_empty : Growing (hashMapCreate 100 100 true) (slotOf ([] : List (List UInt8 × ρ))) :=
  growing_create (by decide) (by decide) true

theorem Inv.loadAll {present : List (List UInt8)}
    {listing : Option (List (List UInt8 × Option ρ))} (hpresent : present.Nodup)
    (hpossible : Possible present (.restart listing)) (hdistinct : ids.Nodup)
    (hkept : ∀ id ∈ ids, id ∈ present) :
    ∃ s highest, loadAll service listing present = .ok s ∧ s.present = present ∧
      Inv service ids (loadable service (listing.getD [])) s ∧
        Started service (loadable service (listing.getD [])) highest s := by
  cases listing with
  | none =>
    have hnone : @loadable ρ service (Option.getD none []) = [] := List.take_nil
    rw [hnone]
    exact ⟨_, 0, rfl, rfl, ⟨rfl, growing_empty, List.nodup_nil, fun name hname => (by cases hname),
      Nat.zero_le _, hpresent, hdistinct, hkept⟩, ⟨fun e he => (by cases he), .inl rfl, rfl⟩⟩
  | some entries =>
    have hnames : (entries.map (·.1)).Nodup := hpossible.nodup_iff.mpr hpresent
    obtain ⟨result, hrun, hloaded⟩ :=
      @loadLoop_loaded ρ service [] entries _ growing_empty (Nat.zero_le _) hnames 0
    obtain ⟨records, table, highest⟩ := result
    have hsublist := names_loadedOf entries service.limit
    refine ⟨{ records, nextUID := highest + 1, table, present }, highest, ?_, rfl,
      ⟨hloaded.records, hloaded.table, hnames.sublist hsublist, ?_, List.length_take_le _ _, hpresent,
        hdistinct, hkept⟩, ⟨hloaded.above, hloaded.reached, rfl⟩⟩
    · rw [Services.loadAll]
      dsimp only
      rw [List.map_nil] at hrun
      rw [hrun]
      rfl
    · intro name hname
      exact hpossible.mem_iff.mp (hsublist.subset hname)

end Events

/-! Whole histories. -/

section Whole
variable {service} {qsort} {bsearch} {guard : Site ρ → Event ρ → Prop} {ids : List (List UInt8)}
  {named : List (List UInt8 × ρ)} {s : Site ρ}

theorem History.inv (h : History service qsort bsearch guard ids named s) :
    Inv service ids named s := by
  induction h with
  | start hpresent hpossible hguard h =>
    obtain ⟨s', highest, hload, -, hinv, -⟩ :=
      Inv.loadAll hpresent hpossible List.nodup_nil fun id hid => (by cases hid)
    cases hload.symm.trans h
    exact hinv
  | step event before hpossible hguard h ih =>
    cases event with
    | create call => exact ih.created h
    | find id =>
      cases h
      rw [Option.toList_none, List.append_nil]
      exact ih.find qsort bsearch id
    | restart listing =>
      obtain ⟨s', highest, hload, -, hinv, -⟩ :=
        Inv.loadAll ih.present hpossible ih.distinct ih.kept
      rw [Services.step, hload] at h
      cases h
      rw [Option.toList_none, List.append_nil]
      exact hinv

/-- No name that there is has a number that the counter comes to. -/
def Counted (service : Service) (s : Site ρ) : Prop :=
  service.limit ≤ s.records.length ∨ ∀ uid, service.identifier uid ∈ s.present → uid < s.nextUID

/-- What the counter needs. The directory inside is made if the one of the record is, and the counter has
not come to its end. At a restart the identifiers that there are have numbers that are not above those of
the records that are loaded. -/
def Meets (service : Service) (s : Site ρ) : Event ρ → Prop
  | .create call => s.records.length < service.limit → call.directory = true →
      call.inside = true ∧ s.nextUID ≠ 0xffffffff
  | .find _ => True
  | .restart listing =>
    let named := loadable service (listing.getD [])
    service.limit ≤ named.length ∨
      (∀ uid, service.identifier uid ∈ s.present →
        uid = 0 ∨ ∃ e ∈ named, uid ≤ service.numericPart e.1) ∧
      ∀ e ∈ named, service.numericPart e.1 ≠ 0xffffffff

theorem lt_add_one_of_ne {uid next : UInt32} (hle : uid ≤ next) (hne : next ≠ 0xffffffff) :
    uid < next + 1 := by
  have hlast : next.toNat ≠ 4294967295 := fun heq => hne (UInt32.toNat.inj heq)
  have hbound := next.toNat_lt
  have hsum : (next + 1).toNat = next.toNat + 1 := by
    rw [UInt32.toNat_add]
    exact Nat.mod_eq_of_lt (by rw [show (1 : UInt32).toNat = 1 from rfl]; omega)
  rw [UInt32.lt_iff_toNat_lt, hsum]
  exact Nat.lt_succ_of_le (UInt32.le_iff_toNat_le.mp hle)

theorem Counted.loadAll {present : List (List UInt8)} {highest : UInt32} (hinv : Inv service ids named s)
    (hstarted : Started service named highest s) (hpresent : s.present = present)
    (hmeets : service.limit ≤ named.length ∨
      (∀ uid, service.identifier uid ∈ present →
        uid = 0 ∨ ∃ e ∈ named, uid ≤ service.numericPart e.1) ∧
      ∀ e ∈ named, service.numericPart e.1 ≠ 0xffffffff) : Counted service s := by
  rcases hmeets with hfull | ⟨hbelow, hlast⟩
  · left
    rw [hinv.records, List.length_map]
    exact hfull
  · right
    have hne : highest ≠ 0xffffffff := by
      rcases hstarted.reached with rfl | ⟨e, he, rfl⟩
      · decide
      · exact hlast e he
    intro uid huid
    rw [hstarted.next]
    apply lt_add_one_of_ne _ hne
    rcases hbelow uid (hpresent ▸ huid) with rfl | ⟨e, he, hle⟩
    · exact UInt32.zero_le
    · exact UInt32.le_trans hle (hstarted.above e he)

theorem Counted.created {s' : Site ρ} {call : Call ρ} {answer : Option (List UInt8)}
    (h : Counted service s) (hmeets : Meets service s (.create call))
    (hcreate : createRecord service call s = .ok (answer, s')) : Counted service s' := by
  cases creation_of_createRecord hcreate with
  | refused hrefused => exact h
  | halted hroom hdirectory hnew hinside =>
    rw [(hmeets hroom hdirectory).1] at hinside
    cases hinside
  | created hroom hdirectory hnew hinside hadd =>
    rcases h with hfull | hbelow
    · exact absurd hroom (Nat.not_lt.mpr hfull)
    · right
      intro uid huid
      apply lt_add_one_of_ne _ (hmeets hroom hdirectory).2
      rcases List.mem_append.mp huid with huid | huid
      · exact UInt32.le_of_lt (hbelow uid huid)
      · rw [identifier_injective service (List.mem_singleton.mp huid)]
        exact UInt32.le_refl _

theorem findRecord_site (s : Site ρ) (id : List UInt8) :
    ∃ table, (findRecord qsort bsearch s id).2 = { s with table } := by
  unfold findRecord
  split
  · exact ⟨_, rfl⟩
  · exact ⟨_, rfl⟩

theorem History.counted (h : History service qsort bsearch (Meets service) ids named s) :
    Counted service s := by
  induction h with
  | start hpresent hpossible hguard h =>
    obtain ⟨s', highest, hload, hsame, hinv, hstarted⟩ :=
      Inv.loadAll hpresent hpossible List.nodup_nil fun id hid => (by cases hid)
    cases hload.symm.trans h
    exact Counted.loadAll hinv hstarted hsame hguard
  | @step ids named s s' answer event before hpossible hguard h ih =>
    cases event with
    | create call => exact ih.created hguard h
    | find id =>
      obtain ⟨table, hsite⟩ := @findRecord_site ρ qsort bsearch s id
      cases h
      rw [hsite]
      exact ih
    | restart listing =>
      have hbefore := before.inv
      obtain ⟨s', highest, hload, hsame, hinv, hstarted⟩ :=
        Inv.loadAll hbefore.present hpossible hbefore.distinct hbefore.kept
      rw [Services.step, hload] at h
      cases h
      exact Counted.loadAll hinv hstarted hsame hguard

theorem Counted.new (h : Counted service s) (hroom : s.records.length < service.limit) :
    service.identifier s.nextUID ∉ s.present := by
  intro hmem
  rcases h with hfull | hbelow
  · exact absurd hroom (Nat.not_lt.mpr hfull)
  · exact UInt32.lt_irrefl _ (hbelow _ hmem)

/-- What is returned by a creation was not there before. -/
theorem fresh_of_createRecord {s' : Site ρ} {call : Call ρ} {id : List UInt8}
    (h : createRecord service call s = .ok (some id, s')) : id ∉ s.present := by
  cases creation_of_createRecord h with
  | created hroom hdirectory hnew hinside hadd => exact hnew

end Whole

end AmmarServer.Services
