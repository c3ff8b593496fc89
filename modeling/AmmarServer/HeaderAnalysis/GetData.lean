import AmmarServer.HeaderAnalysis.FirstLine

/-! The fields of a query: `header_analysis/get_data.c`. A pointer into the query is the offset from
where it starts, and the query is what the array holds in front of its first NUL. -/

namespace AmmarServer.HeaderAnalysis
open CString

def MAX_HTTP_GET_VARIABLE_COUNT : Nat := 128

/-- The entries of `GETItem`. -/
def getItemRoom : Nat := MAX_HTTP_GET_VARIABLE_COUNT + 1

structure GETRequestContent where
  name : Option Nat := none
  nameSize : Nat := 0
  value : Option Nat := none
  valueSize : Nat := 0
  reallocateOnHeaderRAWResize : Bool := false
  deriving DecidableEq, Repr

/-- An entry of a wiped table. -/
def GETRequestContent.wiped : GETRequestContent := {}

inductive GETAutomatonStates
  | FOUND_NOTHING
  | SEEKING_NAME
  | SEEKING_VALUE
  deriving DecidableEq, Repr

/-- What ends the parser without an answer. -/
inductive GetFault
  | outOfBounds
  | nullDereference
  deriving DecidableEq, Repr

structure GetParser where
  raw : List UInt8
  GETPtr : Nat := 0
  startOfPTR : Nat := 0
  state : GETAutomatonStates := .FOUND_NOTHING
  target : List GETRequestContent
  targetNumber : Nat := 0
  deriving DecidableEq, Repr

namespace GetParser

/-- A write to `target[*targetNumber]`. -/
def put (s : GetParser) (f : GETRequestContent → GETRequestContent) : Except GetFault GetParser :=
  if s.targetNumber < s.target.length then
    .ok { s with target := s.target.modify s.targetNumber f }
  else .error .outOfBounds

def putName (s : GetParser) : Except GetFault GetParser :=
  s.put fun item => { item with name := some s.startOfPTR, value := none }

def putValue (s : GetParser) : Except GetFault GetParser :=
  s.put fun item => { item with value := some s.startOfPTR }

def nulTerminate (s : GetParser) : GetParser := { s with raw := s.raw.set s.GETPtr 0 }

/-- CR, LF or NUL: the loop is left. -/
def payloadEnd (s : GetParser) : Except GetFault GetParser :=
  match s.state with
  | .FOUND_NOTHING => .ok s
  | .SEEKING_NAME =>
    s.putName.map fun s => { s.nulTerminate with targetNumber := s.targetNumber + 1 }
  | .SEEKING_VALUE =>
    s.putValue.map fun s => { s.nulTerminate with targetNumber := s.targetNumber + 1 }

/-- Any other byte. -/
def payload (s : GetParser) (c : UInt8) : Except GetFault GetParser :=
  let s := if s.state = .FOUND_NOTHING then { s with state := .SEEKING_NAME } else s
  if c = 61 then
    if s.state = .SEEKING_NAME then
      s.putName.map fun s =>
        { s.nulTerminate with state := .SEEKING_VALUE, startOfPTR := s.GETPtr + 1 }
    else .ok s
  else if c = 38 then
    if s.state = .SEEKING_NAME then
      s.putName.map fun s =>
        { s.nulTerminate with targetNumber := s.targetNumber + 1, startOfPTR := s.GETPtr + 1 }
    else
      s.putValue.map fun s => { s.nulTerminate with
        targetNumber := s.targetNumber + 1
        state := .SEEKING_NAME
        startOfPTR := s.GETPtr + 1 }
  else .ok s

/-- The loop of `finalizeGenericGETField`. -/
def loop (GETPtrEnd : Nat) : Nat → GetParser → Except GetFault GetParser
  | 0, s => .ok s
  | fuel + 1, s =>
    if s.GETPtr < GETPtrEnd then
      let c := charAt s.raw s.GETPtr
      if c = 10 ∨ c = 13 ∨ c = 0 then s.payloadEnd
      else
        match s.payload c with
        | .error fault => .error fault
        | .ok s => loop GETPtrEnd fuel { s with GETPtr := s.GETPtr + 1 }
    else .ok s

/-- The value that the end of the query leaves open. -/
def finish (s : GetParser) : Except GetFault GetParser :=
  if s.state = .SEEKING_VALUE then
    s.putValue.map fun s => { s.nulTerminate with targetNumber := s.targetNumber + 1 }
  else .ok s

end GetParser

/-- The two `strlen` of the last loop. -/
def measureItem (raw : List UInt8) (item : GETRequestContent) :
    Except GetFault GETRequestContent :=
  match item.name, item.value with
  | some name, some value => .ok { item with
      nameSize := strlen (raw.drop name)
      valueSize := strlen (raw.drop value)
      reallocateOnHeaderRAWResize := true }
  | _, _ => .error .nullDereference

def measureItems (raw : List UInt8) :
    List GETRequestContent → Except GetFault (List GETRequestContent)
  | [] => .ok []
  | item :: items =>
    match measureItem raw item with
    | .error fault => .error fault
    | .ok item => (measureItems raw items).map (item :: ·)

/-- What is returned, `GETItem` up to `GETItemNumber`, and the array the items point into. -/
structure GETData where
  success : Bool
  raw : List UInt8
  items : List GETRequestContent
  deriving DecidableEq, Repr

def GETData.GETItemNumber (data : GETData) : Nat := data.items.length

/-- `finalizeGenericGETField` over the entries of a wiped table. -/
def finalizeGenericGETField (value : List UInt8) (valueLength : Nat) : Except GetFault GETData :=
  if valueLength = 0 then .ok { success := false, raw := value, items := [] }
  else
    let start : GetParser := { raw := value, target := List.replicate getItemRoom .wiped }
    match start.loop valueLength valueLength with
    | .error fault => .error fault
    | .ok s =>
      match s.finish with
      | .error fault => .error fault
      | .ok s =>
        (measureItems s.raw (s.target.take s.targetNumber)).map fun items =>
          { success := true, raw := s.raw, items := items }

/-- `finalizeGETData`. -/
def finalizeGETData (GETrequest : Option (List UInt8)) (GETrequestSize : Nat) :
    Except GetFault GETData :=
  match GETrequest with
  | none => .ok { success := false, raw := [], items := [] }
  | some request => finalizeGenericGETField request (min (strlen request) GETrequestSize)

/-! ## The fields of a query -/

/-- Name and value of a field: what is in front of its first `=`, and what is behind it. -/
def nameOf (field : List UInt8) : List UInt8 := field.takeWhile (· ≠ 61)

def valueOf (field : List UInt8) : List UInt8 := (field.dropWhile (· ≠ 61)).drop 1

def fieldsOf (query : List UInt8) : List (List UInt8) := query.splitOn 38

/-- An item gives the name and the value of a field, with their lengths. -/
def Gives (raw : List UInt8) (item : GETRequestContent) (field : List UInt8) : Prop :=
  ∃ name value, item.name = some name ∧ item.value = some value ∧
    cstring (raw.drop name) = nameOf field ∧ item.nameSize = (nameOf field).length ∧
    cstring (raw.drop value) = valueOf field ∧ item.valueSize = (valueOf field).length

/-- The first fields of the query are in the table, as many as it is meant for. -/
def Stores (data : GETData) (query : List UInt8) : Prop :=
  data.GETItemNumber ≤ MAX_HTTP_GET_VARIABLE_COUNT ∧
    List.Forall₂ (Gives data.raw) data.items
      ((fieldsOf query).take MAX_HTTP_GET_VARIABLE_COUNT)

/-! ## One field -/

/-- No byte of a field ends it or the query. -/
def FieldBytes (field : List UInt8) : Prop := ∀ c ∈ field, c ≠ 38 ∧ c ≠ 10 ∧ c ≠ 13 ∧ c ≠ 0

/-- A field with its first `=` overwritten. -/
def nulField (field : List UInt8) : List UInt8 :=
  if 61 ∈ field then nameOf field ++ 0 :: valueOf field else field

/-- The entry of a field that stands at `start`. -/
def entry (start : Nat) (field : List UInt8) (item : GETRequestContent) : GETRequestContent :=
  { item with
    name := some start
    value := if 61 ∈ field then some (start + (nameOf field).length + 1) else none }

theorem field_split {field : List UInt8} (h : 61 ∈ field) :
    field = nameOf field ++ 61 :: valueOf field := by
  induction field with
  | nil => cases h
  | cons c field ih =>
    by_cases hc : c = 61
    · subst hc
      rfl
    · have hfield := ih ((List.mem_cons.mp h).resolve_left fun hcon => hc hcon.symm)
      rw [nameOf, valueOf, List.takeWhile_cons_of_pos (by simpa using hc),
        List.dropWhile_cons_of_pos (by simpa using hc)]
      exact congrArg (c :: ·) hfield

theorem equals_notMem_nameOf (field : List UInt8) : 61 ∉ nameOf field := by
  intro h
  have hne := List.mem_takeWhile_imp h
  simp at hne

theorem nulField_length (field : List UInt8) : (nulField field).length = field.length := by
  unfold nulField
  split
  · rename_i h
    conv_rhs => rw [field_split h]
    simp
  · rfl

namespace GetParser

/-- In the name of a field. -/
def inName (raw : List UInt8) (target : List GETRequestContent) (nameStart ptr number : Nat) :
    GetParser where
  raw := raw
  GETPtr := ptr
  startOfPTR := nameStart
  state := .SEEKING_NAME
  target := target
  targetNumber := number

/-- In the value of a field. -/
def inValue (raw : List UInt8) (target : List GETRequestContent) (valueStart ptr number : Nat) :
    GetParser where
  raw := raw
  GETPtr := ptr
  startOfPTR := valueStart
  state := .SEEKING_VALUE
  target := target
  targetNumber := number

section Separators
variable (raw : List UInt8) (target : List GETRequestContent) (start ptr number : Nat)

theorem payload_equals :
    (inName raw target start ptr number).payload 61 =
      if number < target.length then
        .ok (inValue (raw.set ptr 0)
          (target.modify number fun item => { item with name := some start, value := none })
          (ptr + 1) ptr number)
      else .error .outOfBounds := by
  by_cases h : number < target.length
  · simp [payload, inName, inValue, putName, put, nulTerminate, h, Except.map]
  · simp [payload, inName, putName, put, h, Except.map]

theorem payload_amp_inName :
    (inName raw target start ptr number).payload 38 =
      if number < target.length then
        .ok (inName (raw.set ptr 0)
          (target.modify number fun item => { item with name := some start, value := none })
          (ptr + 1) ptr (number + 1))
      else .error .outOfBounds := by
  by_cases h : number < target.length
  · simp [payload, inName, putName, put, nulTerminate, h, Except.map]
  · simp [payload, inName, putName, put, h, Except.map]

theorem payload_amp_inValue :
    (inValue raw target start ptr number).payload 38 =
      if number < target.length then
        .ok (inName (raw.set ptr 0)
          (target.modify number fun item => { item with value := some start })
          (ptr + 1) ptr (number + 1))
      else .error .outOfBounds := by
  by_cases h : number < target.length
  · simp [payload, inName, inValue, putValue, put, nulTerminate, h, Except.map]
  · simp [payload, inValue, putValue, put, h, Except.map]

theorem finish_inValue (h : number < target.length) :
    (inValue raw target start ptr number).finish =
      .ok (inValue (raw.set ptr 0)
        (target.modify number fun item => { item with value := some start }) start ptr
        (number + 1)) := by
  simp [finish, inValue, putValue, put, nulTerminate, h, Except.map]

end Separators

theorem loop_plain {s : GetParser} {GETPtrEnd n : Nat} (fuel : Nat) (hstate : s.state ≠ .FOUND_NOTHING)
    (hend : s.GETPtr + n ≤ GETPtrEnd)
    (hplain : ∀ j < n, charAt s.raw (s.GETPtr + j) ≠ 38 ∧ charAt s.raw (s.GETPtr + j) ≠ 10 ∧
      charAt s.raw (s.GETPtr + j) ≠ 13 ∧ charAt s.raw (s.GETPtr + j) ≠ 0)
    (hname : s.state = .SEEKING_NAME → ∀ j < n, charAt s.raw (s.GETPtr + j) ≠ 61) :
    s.loop GETPtrEnd (n + fuel) = { s with GETPtr := s.GETPtr + n }.loop GETPtrEnd fuel := by
  induction n generalizing s with
  | zero => rw [Nat.zero_add]; rfl
  | succ n ih =>
    obtain ⟨hamp, hlf, hcr, hnul⟩ := hplain 0 (Nat.succ_pos n)
    rw [Nat.add_zero] at hamp hlf hcr hnul
    have hpayload : s.payload (charAt s.raw s.GETPtr) = .ok s := by
      rw [payload]
      simp only [hstate, if_false, hamp]
      split
      · rename_i heq
        rw [if_neg]
        intro hseeking
        exact hname hseeking 0 (Nat.succ_pos n) heq
      · rfl
    rw [Nat.add_right_comm, loop, if_pos (by omega)]
    simp only [hlf, hcr, hnul, or_self, if_false, hpayload]
    have hnext : ∀ j, s.GETPtr + 1 + j = s.GETPtr + (j + 1) := by
      intro j
      omega
    have hrest := @ih { s with GETPtr := s.GETPtr + 1 } hstate (by simp only; omega)
      (fun j hj => by simp only [hnext]; exact hplain (j + 1) (by omega))
      (fun hseeking j hj => by simp only [hnext]; exact hname hseeking (j + 1) (by omega))
    rw [hrest]
    simp only [hnext]

theorem loop_payload {s : GetParser} {GETPtrEnd : Nat} {c : UInt8} (fuel : Nat)
    (hend : s.GETPtr < GETPtrEnd) (hbyte : charAt s.raw s.GETPtr = c)
    (hc : c ≠ 10 ∧ c ≠ 13 ∧ c ≠ 0) :
    s.loop GETPtrEnd (fuel + 1) =
      match s.payload c with
      | .error fault => .error fault
      | .ok s => loop GETPtrEnd fuel { s with GETPtr := s.GETPtr + 1 } := by
  rw [loop, if_pos hend, hbyte]
  simp only [hc, or_self, if_false]

theorem loop_first {s : GetParser} {GETPtrEnd : Nat} (fuel : Nat) (hstate : s.state = .FOUND_NOTHING)
    (hbyte : charAt s.raw s.GETPtr ≠ 10 ∧ charAt s.raw s.GETPtr ≠ 13 ∧
      charAt s.raw s.GETPtr ≠ 0) (hend : s.GETPtr < GETPtrEnd) :
    s.loop GETPtrEnd (fuel + 1) = { s with state := .SEEKING_NAME }.loop GETPtrEnd (fuel + 1) := by
  rw [loop, loop, if_pos hend, if_pos hend]
  simp only [hbyte, or_self, if_false]
  rw [payload, if_pos hstate]
  rfl

theorem charAt_part {front part behind : List UInt8} {j : Nat} (hj : j < part.length) :
    charAt (front ++ (part ++ behind)) (front.length + j) = charAt part j := by
  rw [← charAt_drop, List.drop_left, charAt_append_left hj]

theorem plain_part {front part behind : List UInt8} (hpart : FieldBytes part) :
    ∀ j < part.length, charAt (front ++ (part ++ behind)) (front.length + j) ≠ 38 ∧
      charAt (front ++ (part ++ behind)) (front.length + j) ≠ 10 ∧
      charAt (front ++ (part ++ behind)) (front.length + j) ≠ 13 ∧
      charAt (front ++ (part ++ behind)) (front.length + j) ≠ 0 := by
  intro j hj
  rw [charAt_part hj, charAt_eq hj]
  exact hpart _ (List.getElem_mem hj)

theorem named_part {front part behind : List UInt8} (hpart : 61 ∉ part) :
    ∀ j < part.length, charAt (front ++ (part ++ behind)) (front.length + j) ≠ 61 := by
  intro j hj hcon
  rw [charAt_part hj, charAt_eq hj] at hcon
  rw [← hcon] at hpart
  exact hpart (List.getElem_mem hj)

theorem loop_inName {raw : List UInt8} {target : List GETRequestContent}
    {start ptr number GETPtrEnd n : Nat} (fuel : Nat) (hend : ptr + n ≤ GETPtrEnd)
    (hplain : ∀ j < n, charAt raw (ptr + j) ≠ 38 ∧ charAt raw (ptr + j) ≠ 10 ∧
      charAt raw (ptr + j) ≠ 13 ∧ charAt raw (ptr + j) ≠ 0)
    (hname : ∀ j < n, charAt raw (ptr + j) ≠ 61) :
    (inName raw target start ptr number).loop GETPtrEnd (n + fuel) =
      (inName raw target start (ptr + n) number).loop GETPtrEnd fuel :=
  @loop_plain (inName raw target start ptr number) GETPtrEnd n fuel (fun hcon => by cases hcon)
    hend hplain fun _ => hname

theorem loop_inValue {raw : List UInt8} {target : List GETRequestContent}
    {start ptr number GETPtrEnd n : Nat} (fuel : Nat) (hend : ptr + n ≤ GETPtrEnd)
    (hplain : ∀ j < n, charAt raw (ptr + j) ≠ 38 ∧ charAt raw (ptr + j) ≠ 10 ∧
      charAt raw (ptr + j) ≠ 13 ∧ charAt raw (ptr + j) ≠ 0) :
    (inValue raw target start ptr number).loop GETPtrEnd (n + fuel) =
      (inValue raw target start (ptr + n) number).loop GETPtrEnd fuel :=
  @loop_plain (inValue raw target start ptr number) GETPtrEnd n fuel (fun hcon => by cases hcon)
    hend hplain fun hcon => by cases hcon

theorem charAt_behind (front : List UInt8) (c : UInt8) (behind : List UInt8) :
    charAt (front ++ c :: behind) front.length = c := by
  simp [charAt]

/-- A field with a `=`: its name is in the table. -/
theorem loop_pair {done field behind : List UInt8} {target : List GETRequestContent}
    {GETPtrEnd number : Nat} (fuel : Nat) (hfield : FieldBytes field) (hpair : 61 ∈ field)
    (hend : done.length + field.length ≤ GETPtrEnd) :
    (inName (done ++ (field ++ behind)) target done.length done.length number).loop GETPtrEnd
        (field.length + fuel) =
      if number < target.length then
        (inValue (done ++ (nulField field ++ behind))
          (target.modify number fun item => { item with name := some done.length, value := none })
          (done.length + (nameOf field).length + 1) (done.length + field.length) number).loop
            GETPtrEnd fuel
      else .error .outOfBounds := by
  have hsplit := field_split hpair
  have hlength := congrArg List.length hsplit
  rw [List.length_append, List.length_cons] at hlength
  have hnul : nulField field = nameOf field ++ 0 :: valueOf field := if_pos hpair
  have hnameBytes : FieldBytes (nameOf field) := fun c hc => hfield c <| by
    rw [hsplit]
    exact List.mem_append_left _ hc
  have hvalueBytes : FieldBytes (valueOf field) := fun c hc => hfield c <| by
    rw [hsplit]
    exact List.mem_append_right _ (List.mem_cons_of_mem 61 hc)
  have hpart : field ++ behind = nameOf field ++ (61 :: (valueOf field ++ behind)) := by
    conv_lhs => rw [hsplit]
    simp
  have hnamed := equals_notMem_nameOf field
  rw [hnul, hpart, hlength]
  generalize nameOf field = name at *
  generalize valueOf field = value at *
  have hfuel : name.length + (value.length + 1) + fuel = name.length + (value.length + fuel + 1) := by
    omega
  have hequals : charAt (done ++ (name ++ 61 :: (value ++ behind))) (done.length + name.length) =
      61 := by
    have hat := charAt_behind (done ++ name) 61 (value ++ behind)
    rwa [List.append_assoc, List.length_append] at hat
  have hset : (done ++ (name ++ 61 :: (value ++ behind))).set (done.length + name.length) 0 =
      (done ++ (name ++ [0])) ++ (value ++ behind) := by
    simp
  rw [hfuel, loop_inName _ (by omega) (plain_part hnameBytes) (named_part hnamed),
    loop_payload _ (by simp only [inName]; omega) hequals (by decide), payload_equals]
  by_cases hroom : number < target.length
  · rw [if_pos hroom, if_pos hroom, hset]
    have hfront : (done ++ (name ++ [0])).length = done.length + name.length + 1 := by
      simp [Nat.add_assoc]
    have hvalue := @plain_part (done ++ (name ++ [0])) value behind hvalueBytes
    rw [hfront] at hvalue
    have hrun := @loop_inValue (done ++ (name ++ [0]) ++ (value ++ behind))
      (target.modify number fun item => { item with name := some done.length, value := none })
      (done.length + name.length + 1) (done.length + name.length + 1) number GETPtrEnd value.length
      fuel (by omega) hvalue
    have hraw : done ++ (name ++ [0]) ++ (value ++ behind) =
        done ++ (name ++ 0 :: value ++ behind) := by
      simp
    have hptr : done.length + name.length + 1 + value.length =
        done.length + (name.length + (value.length + 1)) := by
      omega
    rw [hraw, hptr] at hrun
    rw [hraw]
    exact hrun
  · rw [if_neg hroom, if_neg hroom]

/-- A field and the `&` behind it are an entry of the table. -/
theorem loop_field {done field behind : List UInt8} {target : List GETRequestContent}
    {GETPtrEnd number : Nat} (fuel : Nat) (hfield : FieldBytes field)
    (hend : done.length + field.length + 1 ≤ GETPtrEnd) :
    (inName (done ++ (field ++ 38 :: behind)) target done.length done.length number).loop GETPtrEnd
        (field.length + (fuel + 1)) =
      if number < target.length then
        (inName (done ++ (nulField field ++ 0 :: behind))
          (target.modify number (entry done.length field))
          (done.length + field.length + 1) (done.length + field.length + 1) (number + 1)).loop
            GETPtrEnd fuel
      else .error .outOfBounds := by
  by_cases hpair : 61 ∈ field
  · have hamp : charAt (done ++ (nulField field ++ 38 :: behind)) (done.length + field.length) =
        38 := by
      have hat := charAt_behind (done ++ nulField field) 38 behind
      rwa [List.append_assoc, List.length_append, nulField_length] at hat
    have hset : (done ++ (nulField field ++ 38 :: behind)).set (done.length + field.length) 0 =
        done ++ (nulField field ++ 0 :: behind) := by
      rw [← nulField_length field]
      simp
    rw [loop_pair _ hfield hpair (by omega)]
    by_cases hroom : number < target.length
    · rw [if_pos hroom, if_pos hroom, loop_payload _ (by simp only [inValue]; omega) hamp (by decide),
        payload_amp_inValue, List.length_modify, if_pos hroom, hset, List.modify_modify_eq]
      have hentry : entry done.length field = (fun item : GETRequestContent => { item with
          value := some (done.length + (nameOf field).length + 1) }) ∘
            fun item => { item with name := some done.length, value := none } := by
        funext item
        simp [entry, hpair]
      rw [hentry]
      rfl
    · rw [if_neg hroom, if_neg hroom]
  · have hnul : nulField field = field := if_neg hpair
    have hamp : charAt (done ++ (field ++ 38 :: behind)) (done.length + field.length) = 38 := by
      have hat := charAt_behind (done ++ field) 38 behind
      rwa [List.append_assoc, List.length_append] at hat
    have hset : (done ++ (field ++ 38 :: behind)).set (done.length + field.length) 0 =
        done ++ (field ++ 0 :: behind) := by
      simp
    rw [loop_inName _ (by omega) (plain_part hfield) (named_part hpair),
      loop_payload _ (by simp only [inName]; omega) hamp (by decide), payload_amp_inName, hset, hnul]
    by_cases hroom : number < target.length
    · have hentry : entry done.length field = fun item : GETRequestContent =>
          { item with name := some done.length, value := none } := by
        funext item
        simp [entry, hpair]
      rw [if_pos hroom, if_pos hroom, hentry]
      rfl
    · rw [if_neg hroom, if_neg hroom]

end GetParser

/-! ## All fields -/

/-- The fields of a query that a `&` ends. -/
def ended (fields : List (List UInt8)) : List UInt8 := (fields.map (· ++ [38])).flatten

def nulEnded (fields : List (List UInt8)) : List UInt8 :=
  (fields.map fun field => nulField field ++ [0]).flatten

theorem ended_cons (field : List UInt8) (fields : List (List UInt8)) :
    ended (field :: fields) = field ++ 38 :: ended fields := by
  simp [ended]

theorem nulEnded_cons (field : List UInt8) (fields : List (List UInt8)) :
    nulEnded (field :: fields) = nulField field ++ 0 :: nulEnded fields := by
  simp [nulEnded]

theorem nulEnded_length (fields : List (List UInt8)) :
    (nulEnded fields).length = (ended fields).length := by
  induction fields with
  | nil => rfl
  | cons field fields ih =>
    rw [ended_cons, nulEnded_cons, List.length_append, List.length_append, List.length_cons,
      List.length_cons, nulField_length, ih]

/-- The entries of fields that stand one behind the other. -/
def entriesFrom : Nat → List (List UInt8) → List GETRequestContent
  | _, [] => []
  | start, field :: fields => entry start field .wiped :: entriesFrom (start + field.length + 1) fields

theorem entriesFrom_length (start : Nat) (fields : List (List UInt8)) :
    (entriesFrom start fields).length = fields.length := by
  induction fields generalizing start with
  | nil => rfl
  | cons field fields ih => rw [entriesFrom, List.length_cons, List.length_cons, ih]

/-- The fields of a query that get an entry: a last one without `=` gets none. -/
def entered (fields : List (List UInt8)) (last : List UInt8) : List (List UInt8) :=
  if 61 ∈ last then fields ++ [last] else fields

theorem entriesFrom_concat (start : Nat) (fields : List (List UInt8)) (last : List UInt8) :
    entriesFrom start (fields ++ [last]) =
      entriesFrom start fields ++ [entry (start + (ended fields).length) last .wiped] := by
  induction fields generalizing start with
  | nil => rfl
  | cons field fields ih =>
    have hstart : start + field.length + 1 + (ended fields).length =
        start + (ended (field :: fields)).length := by
      rw [ended_cons, List.length_append, List.length_cons]
      omega
    rw [List.cons_append, entriesFrom, ih, entriesFrom, List.cons_append, hstart]

theorem modify_behind (items : List GETRequestContent) (f : GETRequestContent → GETRequestContent)
    (item : GETRequestContent) (behind : List GETRequestContent) :
    (items ++ item :: behind).modify items.length f = items ++ f item :: behind := by
  induction items with
  | nil => rfl
  | cons first items ih => exact congrArg (first :: ·) ih

namespace GetParser

theorem loop_fields {fields : List (List UInt8)} (hfields : ∀ f ∈ fields, FieldBytes f)
    (done behind : List UInt8) (items : List GETRequestContent) (room fuel : Nat) {GETPtrEnd : Nat}
    (hend : done.length + (ended fields).length ≤ GETPtrEnd) :
    (inName (done ++ (ended fields ++ behind)) (items ++ List.replicate room .wiped) done.length
        done.length items.length).loop GETPtrEnd ((ended fields).length + fuel) =
      if fields.length ≤ room then
        (inName (done ++ (nulEnded fields ++ behind))
          (items ++ (entriesFrom done.length fields ++ List.replicate (room - fields.length) .wiped))
          (done.length + (ended fields).length) (done.length + (ended fields).length)
          (items.length + fields.length)).loop GETPtrEnd fuel
      else .error .outOfBounds := by
  induction fields generalizing done items room with
  | nil =>
    simp [ended, nulEnded, entriesFrom]
  | cons field fields ih =>
    have hlength : (ended (field :: fields)).length =
        field.length + ((ended fields).length + 1) := by
      rw [ended_cons, List.length_append, List.length_cons]
    have hraw : ended (field :: fields) ++ behind = field ++ 38 :: (ended fields ++ behind) := by
      rw [ended_cons, List.append_assoc, List.cons_append]
    rw [hlength] at hend ⊢
    have hfuel : field.length + ((ended fields).length + 1) + fuel =
        field.length + ((ended fields).length + fuel + 1) := by
      omega
    rw [hraw, hfuel, loop_field _ (hfields field (List.mem_cons_self ..)) (by omega)]
    cases room with
    | zero =>
      rw [if_neg (by simp), if_neg (by simp)]
    | succ room =>
      have hmodify : (items ++ List.replicate (room + 1) GETRequestContent.wiped).modify items.length
          (entry done.length field) =
          (items ++ [entry done.length field .wiped]) ++ List.replicate room .wiped := by
        rw [List.replicate_succ, modify_behind, List.append_assoc]
        rfl
      have hdone : (done ++ (nulField field ++ [0])).length = done.length + field.length + 1 := by
        simp [nulField_length, Nat.add_assoc]
      have hrest := ih (fun f hf => hfields f (List.mem_cons_of_mem field hf))
        (done ++ (nulField field ++ [0])) (items ++ [entry done.length field .wiped]) room
        (by rw [hdone]; omega)
      rw [hdone, List.length_append, List.length_singleton] at hrest
      have hbytes : done ++ (nulField field ++ 0 :: (ended fields ++ behind)) =
          done ++ (nulField field ++ [0]) ++ (ended fields ++ behind) := by
        simp
      have hplace : items.length <
          (items ++ List.replicate (room + 1) GETRequestContent.wiped).length := by
        simp
      rw [if_pos hplace, hmodify, hbytes, hrest]
      by_cases hroom : fields.length ≤ room
      · have hbytes' : done ++ (nulField field ++ [0]) ++ (nulEnded fields ++ behind) =
            done ++ (nulEnded (field :: fields) ++ behind) := by
          rw [nulEnded_cons]
          simp
        have hitems : items ++ [entry done.length field .wiped] ++
            (entriesFrom (done.length + field.length + 1) fields ++
              List.replicate (room - fields.length) .wiped) =
            items ++ (entriesFrom done.length (field :: fields) ++
              List.replicate (room + 1 - (field :: fields).length) .wiped) := by
          rw [entriesFrom, List.length_cons, Nat.add_sub_add_right]
          simp
        have hptr : done.length + field.length + 1 + (ended fields).length =
            done.length + (field.length + ((ended fields).length + 1)) := by
          omega
        have hnumber : items.length + 1 + fields.length =
            items.length + (field :: fields).length := by
          rw [List.length_cons]
          omega
        have hroom' : (field :: fields).length ≤ room + 1 := Nat.succ_le_succ hroom
        rw [if_pos hroom, if_pos hroom', hbytes', hitems, hptr, hnumber]
      · have hroom' : ¬ (field :: fields).length ≤ room + 1 :=
          fun h => hroom (Nat.le_of_succ_le_succ h)
        rw [if_neg hroom, if_neg hroom']

theorem parsed {fields : List (List UInt8)} {last behind : List UInt8}
    (hfields : ∀ f ∈ fields, FieldBytes f) (hlast : FieldBytes last) (room : Nat) :
    let query := ended fields ++ last
    let start := inName (query ++ 0 :: behind) (List.replicate room .wiped) 0 0 0
    if (entered fields last).length ≤ room then
      ∃ s s', start.loop query.length query.length = .ok s ∧ s.finish = .ok s' ∧
        s'.raw = nulEnded fields ++ (nulField last ++ 0 :: behind) ∧
        s'.target.take s'.targetNumber = entriesFrom 0 (entered fields last)
    else
      start.loop query.length query.length = .error .outOfBounds := by
  have hall := @loop_fields fields hfields [] (last ++ 0 :: behind) [] room last.length
    (ended fields ++ last).length (by simp)
  simp only [List.nil_append, List.length_nil, Nat.zero_add] at hall
  simp only
  rw [List.append_assoc, List.length_append]
  rw [List.length_append] at hall
  rw [hall]
  have hentries := entriesFrom_length 0 fields
  by_cases hroom : fields.length ≤ room
  · rw [if_pos hroom, ← nulEnded_length]
    by_cases hpair : 61 ∈ last
    · have hrun := @loop_pair (nulEnded fields) last (0 :: behind)
        (entriesFrom 0 fields ++ List.replicate (room - fields.length) .wiped)
        ((nulEnded fields).length + last.length) fields.length 0 hlast hpair le_rfl
      rw [Nat.add_zero] at hrun
      rw [hrun, entered, if_pos hpair, List.length_append, List.length_singleton]
      rw [List.length_append, hentries, List.length_replicate]
      by_cases hmore : fields.length + 1 ≤ room
      · rw [if_pos hmore, if_pos (by omega)]
        obtain ⟨k, hk⟩ : ∃ k, room - fields.length = k + 1 := ⟨room - fields.length - 1, by omega⟩
        have hfinish := finish_inValue (nulEnded fields ++ (nulField last ++ 0 :: behind))
          ((entriesFrom 0 fields ++
              List.replicate (room - fields.length) GETRequestContent.wiped).modify
            fields.length fun item => { item with
              name := some (nulEnded fields).length, value := none })
          ((nulEnded fields).length + (nameOf last).length + 1)
          ((nulEnded fields).length + last.length) fields.length (by
            rw [List.length_modify, List.length_append, List.length_replicate, hentries]
            omega)
        refine ⟨_, _, rfl, hfinish, ?_, ?_⟩
        · have hset : (nulEnded fields ++ (nulField last ++ 0 :: behind)).set
              ((nulEnded fields).length + (nulField last).length) 0 =
              nulEnded fields ++ (nulField last ++ 0 :: behind) := by
            simp
          rw [nulField_length] at hset
          exact hset
        · rw [hk, List.replicate_succ]
          simp only [inValue]
          rw [List.modify_modify_eq, ← hentries, modify_behind, entriesFrom_concat]
          have htake : ∀ (items : List GETRequestContent) (item : GETRequestContent) behind,
              (items ++ item :: behind).take (items.length + 1) = items ++ [item] := by
            intro items item behind
            exact List.take_length_add_append 1
          rw [htake]
          simp [entry, hpair, nulEnded_length]
      · rw [if_neg hmore, if_neg (by omega)]
    · have hrun := @loop_inName (nulEnded fields ++ (last ++ 0 :: behind))
        (entriesFrom 0 fields ++ List.replicate (room - fields.length) .wiped)
        (nulEnded fields).length (nulEnded fields).length fields.length
        ((nulEnded fields).length + last.length) last.length 0 le_rfl (plain_part hlast)
        (named_part hpair)
      rw [Nat.add_zero] at hrun
      rw [hrun, entered, if_neg hpair, if_pos hroom]
      refine ⟨_, _, rfl, rfl, ?_, ?_⟩
      · rw [nulField, if_neg hpair]
        rfl
      · exact List.take_left' hentries
  · have hmore : ¬ (entered fields last).length ≤ room := by
      unfold entered
      split
      · rw [List.length_append]
        omega
      · exact hroom
    rw [if_neg hroom, if_neg hmore]

end GetParser

/-! ## Measuring -/

theorem measureItems_bare {raw : List UInt8} {fields : List (List UInt8)} (start : Nat)
    {field : List UInt8} (hmem : field ∈ fields) (hbare : 61 ∉ field) :
    measureItems raw (entriesFrom start fields) = .error .nullDereference := by
  induction fields generalizing start with
  | nil => cases hmem
  | cons first fields ih =>
    rw [entriesFrom, measureItems, measureItem]
    by_cases hfirst : 61 ∈ first
    · have hrest := ih (start + first.length + 1)
        ((List.mem_cons.mp hmem).resolve_left fun heq => hbare (heq ▸ hfirst))
      simp only [entry, hfirst, if_true, hrest, Except.map]
    · simp only [entry, hfirst, if_false]

theorem measureItems_pairs {fields : List (List UInt8)} (hfields : ∀ f ∈ fields, FieldBytes f)
    (hpairs : ∀ f ∈ fields, 61 ∈ f) (done behind : List UInt8) :
    ∃ items, measureItems (done ++ (nulEnded fields ++ behind))
        (entriesFrom done.length fields) = .ok items ∧
      List.Forall₂ (Gives (done ++ (nulEnded fields ++ behind))) items fields := by
  induction fields generalizing done with
  | nil => exact ⟨[], rfl, .nil⟩
  | cons field fields ih =>
    have hpair := hpairs field (List.mem_cons_self ..)
    have hdone : (done ++ (nulField field ++ [0])).length = done.length + field.length + 1 := by
      simp [nulField_length, Nat.add_assoc]
    obtain ⟨items, hitems, hgives⟩ := ih (fun f hf => hfields f (List.mem_cons_of_mem _ hf))
      (fun f hf => hpairs f (List.mem_cons_of_mem _ hf)) (done ++ (nulField field ++ [0]))
    have hraw : done ++ (nulField field ++ [0]) ++ (nulEnded fields ++ behind) =
        done ++ (nulEnded (field :: fields) ++ behind) := by
      rw [nulEnded_cons]
      simp
    rw [hraw, hdone] at hitems
    rw [hraw] at hgives
    have hbytes : ∀ c ∈ nameOf field ++ valueOf field, c ≠ 0 := by
      intro c hc
      refine (hfields field (List.mem_cons_self ..) c ?_).2.2.2
      rw [field_split hpair]
      rcases List.mem_append.mp hc with hname | hvalue
      · exact List.mem_append_left _ hname
      · exact List.mem_append_right _ (List.mem_cons_of_mem 61 hvalue)
    have hnul : nulEnded (field :: fields) ++ behind =
        nameOf field ++ 0 :: (valueOf field ++ 0 :: (nulEnded fields ++ behind)) := by
      rw [nulEnded_cons, nulField, if_pos hpair]
      simp
    have hname : cstring ((done ++ (nulEnded (field :: fields) ++ behind)).drop done.length) =
        nameOf field := by
      rw [List.drop_left, hnul]
      exact cstring_append (fun hzero => hbytes 0 (List.mem_append_left _ hzero) rfl) _
    have hvalue : cstring ((done ++ (nulEnded (field :: fields) ++ behind)).drop
        (done.length + (nameOf field).length + 1)) = valueOf field := by
      rw [hnul, Nat.add_assoc, ← List.drop_drop, List.drop_left, ← List.drop_drop, List.drop_left]
      exact cstring_append (fun hzero => hbytes 0 (List.mem_append_right _ hzero) rfl) _
    rw [entriesFrom, measureItems, measureItem]
    simp only [entry, hpair, if_true, hitems, Except.map]
    refine ⟨_, rfl, .cons ⟨_, _, rfl, rfl, hname, ?_, hvalue, ?_⟩ hgives⟩
    · exact congrArg List.length hname
    · exact congrArg List.length hvalue

/-! ## The fields of a query and those that are parsed -/

theorem fieldsOf_cons (c : UInt8) (query : List UInt8) :
    fieldsOf (c :: query) =
      if c = 38 then [] :: fieldsOf query else (fieldsOf query).modifyHead (c :: ·) := by
  rw [fieldsOf, List.splitOn_cons_eq_if_modifyHead, fieldsOf]
  by_cases hc : c = 38 <;> simp [hc]

theorem fieldsOf_eq (query : List UInt8) :
    ∃ fields last, fieldsOf query = fields ++ [last] ∧ query = ended fields ++ last := by
  induction query with
  | nil => exact ⟨[], [], rfl, rfl⟩
  | cons c query ih =>
    obtain ⟨fields, last, hfields, hquery⟩ := ih
    rw [fieldsOf_cons]
    by_cases hc : c = 38
    · refine ⟨[] :: fields, last, ?_, ?_⟩
      · rw [if_pos hc, hfields, List.cons_append]
      · rw [ended_cons, hc, hquery]
        rfl
    · rw [if_neg hc, hfields]
      cases fields with
      | nil => exact ⟨[], c :: last, rfl, congrArg (c :: ·) hquery⟩
      | cons first fields =>
        refine ⟨(c :: first) :: fields, last, rfl, ?_⟩
        rw [ended_cons] at hquery ⊢
        exact congrArg (c :: ·) hquery

theorem mem_fieldsOf {query f : List UInt8} (hf : f ∈ fieldsOf query) :
    ∀ c ∈ f, c ≠ 38 ∧ c ∈ query := by
  induction query generalizing f with
  | nil =>
    obtain rfl := List.mem_singleton.mp hf
    intro c hc
    cases hc
  | cons d query ih =>
    rw [fieldsOf_cons] at hf
    by_cases hd : d = 38
    · rw [if_pos hd] at hf
      intro c hc
      rcases List.mem_cons.mp hf with rfl | hf
      · cases hc
      · exact ⟨(ih hf c hc).1, List.mem_cons_of_mem d (ih hf c hc).2⟩
    · rw [if_neg hd] at hf
      have hne : fieldsOf query ≠ [] := List.splitOn_ne_nil 38 query
      obtain ⟨first, others, hsplit⟩ := List.exists_cons_of_ne_nil hne
      rw [hsplit] at hf ih
      intro c hc
      rcases List.mem_cons.mp hf with rfl | hf
      · rcases List.mem_cons.mp hc with rfl | hc
        · exact ⟨hd, List.mem_cons_self ..⟩
        · have hfirst := ih (List.mem_cons_self ..) c hc
          exact ⟨hfirst.1, List.mem_cons_of_mem d hfirst.2⟩
      · have hother := ih (List.mem_cons_of_mem first hf) c hc
        exact ⟨hother.1, List.mem_cons_of_mem d hother.2⟩

section Query
variable {query : List UInt8} (hquery : ∀ c ∈ query, c ≠ 10 ∧ c ≠ 13 ∧ c ≠ 0) (behind : List UInt8)
  {fields : List (List UInt8)} {last : List UInt8} (hfields : fieldsOf query = fields ++ [last])
include hquery hfields

theorem fields_bytes : (∀ f ∈ fields, FieldBytes f) ∧ FieldBytes last := by
  have hbytes : ∀ f ∈ fieldsOf query, FieldBytes f := by
    intro f hf c hc
    obtain ⟨hamp, hmem⟩ := mem_fieldsOf hf c hc
    exact ⟨hamp, hquery c hmem⟩
  rw [hfields] at hbytes
  exact ⟨fun f hf => hbytes f (List.mem_append_left _ hf),
    hbytes last (List.mem_append_right _ (List.mem_singleton_self last))⟩

theorem finalizeGETData_eq (hne : query ≠ []) :
    finalizeGETData (some (query ++ 0 :: behind)) query.length =
      if (entered fields last).length ≤ getItemRoom then
        (measureItems (nulEnded fields ++ (nulField last ++ 0 :: behind))
          (entriesFrom 0 (entered fields last))).map fun items => {
            success := true
            raw := nulEnded fields ++ (nulField last ++ 0 :: behind)
            items := items }
      else .error .outOfBounds := by
  obtain ⟨hbytes, hlast⟩ := fields_bytes hquery hfields
  have hnul : 0 ∉ query := fun hcon => (hquery 0 hcon).2.2 rfl
  have hlength : strlen (query ++ 0 :: behind) = query.length := by
    rw [strlen, cstring_append hnul]
  have hjoin : query = ended fields ++ last := by
    obtain ⟨fields', last', hfields', hjoin⟩ := fieldsOf_eq query
    rw [hfields] at hfields'
    obtain ⟨rfl, hsame⟩ := List.append_inj' hfields' rfl
    rw [List.singleton_inj.mp hsame]
    exact hjoin
  have hfirst : ∀ target : List GETRequestContent,
      ({ raw := query ++ 0 :: behind, target := target } : GetParser).loop query.length
          query.length =
        (GetParser.inName (query ++ 0 :: behind) target 0 0 0).loop query.length query.length := by
    intro target
    obtain ⟨c, rest, rfl⟩ := List.exists_cons_of_ne_nil hne
    exact GetParser.loop_first rest.length rfl (hquery c (List.mem_cons_self ..)) (Nat.succ_pos _)
  have hparsed := @GetParser.parsed fields last behind hbytes hlast getItemRoom
  rw [← hjoin] at hparsed
  rw [finalizeGETData]
  rw [hlength, Nat.min_self, finalizeGenericGETField, if_neg]
  · simp only
    rw [hfirst]
    split at hparsed
    · rename_i hroom
      obtain ⟨s, s', hloop, hfinish, hraw, htake⟩ := hparsed
      rw [if_pos hroom, hloop]
      simp only
      rw [hfinish]
      simp only
      rw [hraw, htake]
    · rename_i hroom
      rw [if_neg hroom, hparsed]
  · exact fun hzero => hne (List.length_eq_zero_iff.mp hzero)

/-- A query is parsed if there is room for its entered fields and each of them has a `=`. -/
theorem finalizeGETData_ok
    (hroom : (entered fields last).length ≤ getItemRoom)
    (hpairs : ∀ f ∈ entered fields last, 61 ∈ f) :
    ∃ data, finalizeGETData (some (query ++ 0 :: behind)) query.length = .ok data ∧
      List.Forall₂ (Gives data.raw) data.items (entered fields last) := by
  obtain ⟨hbytes, hlast⟩ := fields_bytes hquery hfields
  by_cases hne : query = []
  · subst hne
    obtain ⟨rfl, hsame⟩ := List.append_inj' (show [] ++ [[]] = fields ++ [last] from hfields) rfl
    obtain rfl := List.singleton_inj.mp hsame
    exact ⟨{ success := false, raw := 0 :: behind, items := [] }, rfl, .nil⟩
  · have hraw : ∃ tail, nulEnded fields ++ (nulField last ++ 0 :: behind) =
        nulEnded (entered fields last) ++ tail := by
      unfold entered
      split
      · refine ⟨behind, ?_⟩
        simp [nulEnded]
      · exact ⟨_, rfl⟩
    obtain ⟨tail, htail⟩ := hraw
    have hentered : ∀ f ∈ entered fields last, FieldBytes f := by
      intro f hf
      unfold entered at hf
      split at hf
      · rcases List.mem_append.mp hf with hf | hf
        · exact hbytes f hf
        · rw [List.mem_singleton.mp hf]
          exact hlast
      · exact hbytes f hf
    obtain ⟨items, hitems, hgives⟩ := measureItems_pairs hentered hpairs [] tail
    rw [List.nil_append, List.length_nil, ← htail] at hitems
    rw [List.nil_append, ← htail] at hgives
    rw [finalizeGETData_eq hquery behind hfields hne, if_pos hroom, hitems]
    exact ⟨_, rfl, hgives⟩

theorem finalizeGETData_error
    (h : ¬ ((entered fields last).length ≤ getItemRoom ∧ ∀ f ∈ entered fields last, 61 ∈ f)) :
    ∃ fault, finalizeGETData (some (query ++ 0 :: behind)) query.length = .error fault := by
  by_cases hne : query = []
  · subst hne
    obtain ⟨rfl, hsame⟩ := List.append_inj' (show [] ++ [[]] = fields ++ [last] from hfields) rfl
    obtain rfl := List.singleton_inj.mp hsame
    exact absurd ⟨Nat.zero_le _, fun f hf => by cases hf⟩ h
  · rw [finalizeGETData_eq hquery behind hfields hne]
    split
    · rename_i hroom
      obtain ⟨f, hf, hbare⟩ : ∃ f ∈ entered fields last, 61 ∉ f := by
        by_contra hall
        exact h ⟨hroom, fun f hf => by_contra fun hbare => hall ⟨f, hf, hbare⟩⟩
      rw [measureItems_bare _ hf hbare]
      exact ⟨_, rfl⟩
    · exact ⟨_, rfl⟩

end Query

/-- Each field that belongs in the table has a `=`, and at most one field without a `=` is behind
them. -/
def Parsable (query : List UInt8) : Prop :=
  (∀ f ∈ (fieldsOf query).take MAX_HTTP_GET_VARIABLE_COUNT, 61 ∈ f) ∧
    ((fieldsOf query).drop MAX_HTTP_GET_VARIABLE_COUNT).length ≤ 1 ∧
    ∀ f ∈ (fieldsOf query).drop MAX_HTTP_GET_VARIABLE_COUNT, 61 ∉ f

instance (query : List UInt8) : Decidable (Parsable query) := by
  unfold Parsable
  infer_instance

theorem parsable_iff {query last : List UInt8} {fields : List (List UInt8)}
    (hfields : fieldsOf query = fields ++ [last]) :
    Parsable query ↔
      (fields.length < MAX_HTTP_GET_VARIABLE_COUNT ∧ (∀ f ∈ fields, 61 ∈ f) ∧ 61 ∈ last) ∨
        (fields.length = MAX_HTTP_GET_VARIABLE_COUNT ∧ (∀ f ∈ fields, 61 ∈ f) ∧ 61 ∉ last) := by
  rw [Parsable, hfields]
  rcases Nat.lt_trichotomy fields.length MAX_HTTP_GET_VARIABLE_COUNT with hlt | heq | hgt
  · have hall : (fields ++ [last]).length ≤ MAX_HTTP_GET_VARIABLE_COUNT := by
      rw [List.length_append, List.length_singleton]
      exact hlt
    rw [List.take_of_length_le hall, List.drop_of_length_le hall]
    constructor
    · rintro ⟨hpairs, _, _⟩
      exact .inl ⟨hlt, fun f hf => hpairs f (List.mem_append_left _ hf),
        hpairs last (List.mem_append_right _ (List.mem_singleton_self last))⟩
    · rintro (⟨_, hpairs, hlast⟩ | ⟨hcon, _⟩)
      · refine ⟨fun f hf => ?_, Nat.zero_le 1, fun f hf => by cases hf⟩
        rcases List.mem_append.mp hf with hf | hf
        · exact hpairs f hf
        · rw [List.mem_singleton.mp hf]
          exact hlast
      · omega
  · rw [List.take_left' heq, List.drop_left' heq]
    constructor
    · rintro ⟨hpairs, _, hbare⟩
      exact .inr ⟨heq, hpairs, hbare last (List.mem_singleton_self last)⟩
    · rintro (⟨hcon, _⟩ | ⟨_, hpairs, hbare⟩)
      · omega
      · refine ⟨hpairs, le_rfl, fun f hf => ?_⟩
        rw [List.mem_singleton.mp hf]
        exact hbare
  · refine iff_of_false (fun h => ?_) (by rintro (⟨hcon, _⟩ | ⟨hcon, _⟩) <;> omega)
    have hmany := h.2.1
    rw [List.length_drop, List.length_append, List.length_singleton] at hmany
    omega

/-- The query is parsed and its first fields are stored exactly where each of them has a `=`. -/
theorem finalizeGETData_stores_iff {query : List UInt8}
    (hquery : ∀ c ∈ query, c ≠ 10 ∧ c ≠ 13 ∧ c ≠ 0) (behind : List UInt8) :
    (∃ data, finalizeGETData (some (query ++ 0 :: behind)) query.length = .ok data ∧
      Stores data query) ↔ Parsable query := by
  obtain ⟨fields, last, hfields, _⟩ := fieldsOf_eq query
  rw [parsable_iff hfields]
  by_cases hgood : (entered fields last).length ≤ getItemRoom ∧ ∀ f ∈ entered fields last, 61 ∈ f
  · obtain ⟨data, hdata, hgives⟩ :=
      finalizeGETData_ok hquery behind hfields hgood.1 hgood.2
    have hstores : (∃ data, finalizeGETData (some (query ++ 0 :: behind)) query.length = .ok data ∧
        Stores data query) ↔ Stores data query := by
      rw [hdata]
      constructor
      · rintro ⟨data', hsame, hstores⟩
        rwa [Except.ok.inj hsame]
      · exact fun hstores => ⟨data, rfl, hstores⟩
    have hnumber := hgives.length_eq
    rw [hstores, Stores, GETData.GETItemNumber, hnumber, hfields]
    have hpairs := hgood.2
    unfold entered at hgives hpairs ⊢
    split at hgives
    · rename_i hlast
      rw [if_pos hlast] at hpairs ⊢
      rw [List.length_append, List.length_singleton]
      constructor
      · rintro ⟨hle, _⟩
        exact .inl ⟨hle, fun f hf => hpairs f (List.mem_append_left _ hf), hlast⟩
      · rintro (⟨hlt, _⟩ | ⟨_, _, hbare⟩)
        · refine ⟨hlt, ?_⟩
          rw [List.take_of_length_le (by rw [List.length_append, List.length_singleton]; exact hlt)]
          exact hgives
        · exact absurd hlast hbare
    · rename_i hbare
      rw [if_neg hbare] at hpairs ⊢
      constructor
      · rintro ⟨hle, hforall⟩
        have hcount := hforall.length_eq
        rw [hgives.length_eq, List.length_take, List.length_append, List.length_singleton]
          at hcount
        exact .inr ⟨by omega, hpairs, hbare⟩
      · rintro (⟨_, _, hlast⟩ | ⟨heq, _⟩)
        · exact absurd hlast hbare
        · rw [List.take_left' heq]
          exact ⟨heq.le, hgives⟩
  · obtain ⟨fault, hfault⟩ := finalizeGETData_error hquery behind hfields hgood
    refine iff_of_false ?_ (fun hparsable => hgood ?_)
    · rintro ⟨data, hdata, _⟩
      rw [hfault] at hdata
      cases hdata
    · unfold entered
      rcases hparsable with ⟨hlt, hpairs, hlast⟩ | ⟨heq, hpairs, hbare⟩
      · rw [if_pos hlast]
        refine ⟨?_, fun f hf => ?_⟩
        · rw [List.length_append, List.length_singleton, getItemRoom]
          omega
        · rcases List.mem_append.mp hf with hf | hf
          · exact hpairs f hf
          · rw [List.mem_singleton.mp hf]
            exact hlast
      · rw [if_neg hbare]
        exact ⟨by rw [heq, getItemRoom]; omega, hpairs⟩

theorem finalizeGETData_stores_pair :
    (∃ data, finalizeGETData (some (ascii "a=1&b=" ++ [0])) (ascii "a=1&b=").length = .ok data ∧
      Stores data (ascii "a=1&b=")) ↔ Parsable (ascii "a=1&b=") :=
  @finalizeGETData_stores_iff (ascii "a=1&b=") (by decide +kernel) []

/-- A request for a page with a bare name in its query is accepted, and its parsing runs into a null
pointer. -/
theorem bareName_faults :
    let line := ascii "GET /page?name&b=1 HTTP/1.1\r\n"
    (processFirstHTTPLine true line line.length (ascii "public_html/")).toOption.map
        (fun header => (header.GETrequest.map cstring,
          finalizeGETData header.GETrequest header.GETrequestSize)) =
      some (some (ascii "name&b=1"), .error .nullDereference) := by
  decide +kernel

end AmmarServer.HeaderAnalysis
