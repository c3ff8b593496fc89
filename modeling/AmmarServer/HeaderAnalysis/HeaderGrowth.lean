import Mathlib.Data.UInt
import AmmarServer.Lib.CString
import Mathlib.Data.List.GetD
import Mathlib.Tactic.Common

/-! The request buffer grows and the pointers into it follow: `growHeader` and
`recalculateHeaderFieldsBasedOnANewBaseAddress` of `header_analysis/generic_header_tools.c`. An
address is 64 bits wide and 0 is the null pointer. -/

namespace AmmarServer.HeaderGrowth
open CString (ascii)

def HTTP_POST_GROWTH_STEP_REQUEST_HEADER : UInt32 := 512 * 1024

structure POSTRequestBoundaryContent where
  pointerStart : UInt64 := 0
  pointerEnd : UInt64 := 0
  name : UInt64 := 0
  value : UInt64 := 0
  filename : UInt64 := 0
  contentDisposition : UInt64 := 0
  contentType : UInt64 := 0
  reallocateOnHeaderRAWResize : Bool := false
  deriving DecidableEq

structure GETRequestContent where
  name : UInt64 := 0
  value : UInt64 := 0
  reallocateOnHeaderRAWResize : Bool := false
  deriving DecidableEq

/-- The fields of `struct HTTPHeader` that the buffer and its growth need. The items are the
entries in front of `GETItemNumber`, `POSTItemNumber` and `COOKIEItemNumber`. -/
structure HTTPHeader where
  failed : Bool := false
  dumpedToFile : Bool := false
  headerRAW : UInt64 := 0
  headerRAWSize : UInt32 := 0
  headerRAWRequestedSize : UInt32 := 0
  MAXheaderRAWSize : UInt32 := 0
  GETrequest : UInt64 := 0
  POSTrequest : UInt64 := 0
  POSTrequestBody : UInt64 := 0
  cookie : UInt64 := 0
  host : UInt64 := 0
  referer : UInt64 := 0
  eTag : UInt64 := 0
  userAgent : UInt64 := 0
  contentType : UInt64 := 0
  contentDisposition : UInt64 := 0
  boundary : UInt64 := 0
  GETItem : List GETRequestContent := []
  POSTItem : List POSTRequestBoundaryContent := []
  COOKIEItem : List GETRequestContent := []
  deriving DecidableEq

/-- `memory` is the block that `headerRAW` points to. -/
structure HTTPTransaction where
  incomingHeader : HTTPHeader
  memory : List UInt8
  deriving DecidableEq

def _recalculatePosition (oldPosition oldBaseAddress newAddress : UInt64) : UInt64 :=
  if oldPosition = 0 then 0
  else newAddress + (oldPosition - oldBaseAddress).toUInt32.toUInt64

/-- What the loops over the GET and the COOKIE items do to one of them. -/
def GETRequestContent.recalculate (oldBaseAddress newBaseAddress : UInt64)
    (item : GETRequestContent) : GETRequestContent :=
  if item.reallocateOnHeaderRAWResize then
    { item with
      name := _recalculatePosition item.name oldBaseAddress newBaseAddress
      value := _recalculatePosition item.value oldBaseAddress newBaseAddress }
  else item

def POSTRequestBoundaryContent.recalculate (oldBaseAddress newBaseAddress : UInt64)
    (item : POSTRequestBoundaryContent) : POSTRequestBoundaryContent :=
  if item.reallocateOnHeaderRAWResize then
    { item with
      pointerStart := _recalculatePosition item.pointerStart oldBaseAddress newBaseAddress
      pointerEnd := _recalculatePosition item.pointerEnd oldBaseAddress newBaseAddress
      name := _recalculatePosition item.name oldBaseAddress newBaseAddress
      value := _recalculatePosition item.value oldBaseAddress newBaseAddress
      filename := _recalculatePosition item.filename oldBaseAddress newBaseAddress
      contentDisposition :=
        _recalculatePosition item.contentDisposition oldBaseAddress newBaseAddress
      contentType := _recalculatePosition item.contentType oldBaseAddress newBaseAddress }
  else item

def recalculateHeaderFieldsBasedOnANewBaseAddress (oldBaseAddress : UInt64) (hdr : HTTPHeader) :
    HTTPHeader :=
  if hdr.headerRAW = 0 then hdr
  else
    let newBaseAddress := hdr.headerRAW
    { hdr with
      cookie := _recalculatePosition hdr.cookie oldBaseAddress newBaseAddress
      host := _recalculatePosition hdr.host oldBaseAddress newBaseAddress
      referer := _recalculatePosition hdr.referer oldBaseAddress newBaseAddress
      eTag := _recalculatePosition hdr.eTag oldBaseAddress newBaseAddress
      userAgent := _recalculatePosition hdr.userAgent oldBaseAddress newBaseAddress
      contentType := _recalculatePosition hdr.contentType oldBaseAddress newBaseAddress
      contentDisposition :=
        _recalculatePosition hdr.contentDisposition oldBaseAddress newBaseAddress
      boundary := _recalculatePosition hdr.boundary oldBaseAddress newBaseAddress
      POSTItem := hdr.POSTItem.map (·.recalculate oldBaseAddress newBaseAddress)
      GETItem := hdr.GETItem.map (·.recalculate oldBaseAddress newBaseAddress)
      COOKIEItem := hdr.COOKIEItem.map (·.recalculate oldBaseAddress newBaseAddress) }

/-- A block that `realloc` has found, and what its bytes are where nothing was copied to. -/
structure Block where
  address : UInt64
  fresh : ℕ → UInt8
  address_ne_zero : address ≠ 0

/-- The contents of a block of `size` bytes into which `realloc` has moved `memory`. -/
def reallocated (memory : List UInt8) (size : ℕ) (block : Block) : List UInt8 :=
  (List.range size).map fun i => memory.getD i (block.fresh i)

/-- `count` bytes from `start` on are zeroed; `none` is a write outside of the block. -/
def memset (memory : List UInt8) (start count : ℕ) : Option (List UInt8) :=
  if start + count ≤ memory.length then
    some (memory.take start ++ List.replicate count 0 ++ memory.drop (start + count))
  else none

/-- What `growHeader` answers and leaves, with `answer` for its one call of `realloc`; `none` is a
write outside of the block. -/
def growHeader (MAX_POST_TRANSACTION_SIZE : UInt32) (answer : Option Block)
    (transaction : HTTPTransaction) : Option (Bool × HTTPTransaction) :=
  let hdr := transaction.incomingHeader
  let dumped := { transaction with incomingHeader := { hdr with dumpedToFile := true } }
  if hdr.failed then some (false, transaction)
  else if hdr.headerRAWRequestedSize ≠ 0 ∧
      MAX_POST_TRANSACTION_SIZE < hdr.headerRAWRequestedSize then some (false, dumped)
  else
    let wannabeHeaderSize :=
      if hdr.headerRAWRequestedSize ≠ 0 then hdr.headerRAWRequestedSize
      else hdr.MAXheaderRAWSize + HTTP_POST_GROWTH_STEP_REQUEST_HEADER
    if hdr.headerRAW = 0 then
      match answer with
      | none => some (false, transaction)
      | some block =>
        let size := (wannabeHeaderSize + 1).toNat
        (memset (reallocated transaction.memory size block) 0 size).map fun memory =>
          (true, { incomingHeader := { hdr with headerRAW := block.address,
                                                MAXheaderRAWSize := wannabeHeaderSize }
                   memory := memory })
    else if hdr.MAXheaderRAWSize < MAX_POST_TRANSACTION_SIZE then
      let wannabeHeaderSize :=
        if MAX_POST_TRANSACTION_SIZE < wannabeHeaderSize then MAX_POST_TRANSACTION_SIZE
        else wannabeHeaderSize
      match answer with
      | none => some (false, dumped)
      | some block =>
        let grown := { hdr with headerRAW := block.address, MAXheaderRAWSize := wannabeHeaderSize }
        -- one write for the last byte, then the bytes behind the old ones
        (memset (reallocated transaction.memory (wannabeHeaderSize + 1).toNat block)
            wannabeHeaderSize.toNat 1).bind fun memory =>
          (memset memory hdr.MAXheaderRAWSize.toNat
              (wannabeHeaderSize - hdr.MAXheaderRAWSize).toNat).map fun memory =>
            (true, { incomingHeader :=
                       if hdr.headerRAW = block.address then grown
                       else recalculateHeaderFieldsBasedOnANewBaseAddress hdr.headerRAW grown
                     memory := memory })
    else some (false, dumped)

/-! An item is registered: `header_analysis/post_data.c`. -/

def MAX_HTTP_POST_BOUNDARY_COUNT : ℕ := 32

def HTTPTransaction.byteAt (t : HTTPTransaction) (ptr : UInt64) : UInt8 :=
  t.memory.getD (ptr - t.incomingHeader.headerRAW).toNat 0

/-- One `if` of those that get rid of the new line. -/
def HTTPTransaction.skip (t : HTTPTransaction) (c : UInt8) (ptr : UInt64) : UInt64 :=
  if t.byteAt ptr = c then ptr + 1 else ptr

def addPOSTDataBoundary (t : HTTPTransaction) (ptr : UInt64) : Bool × HTTPTransaction :=
  let hdr := t.incomingHeader
  if MAX_HTTP_POST_BOUNDARY_COUNT ≤ hdr.POSTItem.length then (false, t)
  else
    let ptr := t.skip 10 (t.skip 13 (t.skip 10 (t.skip 13 ptr)))
    let item := { pointerStart := ptr, pointerEnd := ptr, reallocateOnHeaderRAWResize := true }
    (true, { t with incomingHeader := { hdr with POSTItem := hdr.POSTItem ++ [item] } })

/-! The pointers into the buffer, by the field that holds them. -/

inductive HeaderField
  | GETrequest | POSTrequest | POSTrequestBody | cookie | host | referer | eTag | userAgent
  | contentType | contentDisposition | boundary
  deriving DecidableEq

inductive GETField
  | name | value
  deriving DecidableEq

inductive POSTField
  | pointerStart | pointerEnd | name | value | filename | contentDisposition | contentType
  deriving DecidableEq

inductive PointerField
  | header (f : HeaderField)
  | getItem (i : ℕ) (f : GETField)
  | postItem (i : ℕ) (f : POSTField)
  | cookieItem (i : ℕ) (f : GETField)
  deriving DecidableEq

def HeaderField.read (hdr : HTTPHeader) : HeaderField → UInt64
  | .GETrequest => hdr.GETrequest
  | .POSTrequest => hdr.POSTrequest
  | .POSTrequestBody => hdr.POSTrequestBody
  | .cookie => hdr.cookie
  | .host => hdr.host
  | .referer => hdr.referer
  | .eTag => hdr.eTag
  | .userAgent => hdr.userAgent
  | .contentType => hdr.contentType
  | .contentDisposition => hdr.contentDisposition
  | .boundary => hdr.boundary

def GETField.read (item : GETRequestContent) : GETField → UInt64
  | .name => item.name
  | .value => item.value

def POSTField.read (item : POSTRequestBoundaryContent) : POSTField → UInt64
  | .pointerStart => item.pointerStart
  | .pointerEnd => item.pointerEnd
  | .name => item.name
  | .value => item.value
  | .filename => item.filename
  | .contentDisposition => item.contentDisposition
  | .contentType => item.contentType

/-- `none` for the fields of an item that is not registered. -/
def HTTPHeader.pointer (hdr : HTTPHeader) : PointerField → Option UInt64
  | .header f => some (f.read hdr)
  | .getItem i f => hdr.GETItem[i]?.map (f.read ·)
  | .postItem i f => hdr.POSTItem[i]?.map (f.read ·)
  | .cookieItem i f => hdr.COOKIEItem[i]?.map (f.read ·)

/-- Where the byte at `offset` of the buffer stands. -/
def HTTPHeader.position (hdr : HTTPHeader) (offset : ℕ) : UInt64 :=
  hdr.headerRAW + UInt64.ofNat offset

/-- A transaction while it is received: any of the pointers are set, each to a byte that has been
received. -/
structure Received (t : HTTPTransaction) : Prop where
  stored : t.incomingHeader.headerRAWSize.toNat ≤ t.memory.length
  room : t.incomingHeader.headerRAWSize ≤ t.incomingHeader.MAXheaderRAWSize
  addressable : t.incomingHeader.headerRAW.toNat + t.memory.length ≤ 2 ^ 64
  unallocated : t.incomingHeader.headerRAW = 0 → t.memory = []
  pointers : ∀ f p, t.incomingHeader.pointer f = some p → p = 0 ∨
    ∃ k < t.incomingHeader.headerRAWSize.toNat, p = t.incomingHeader.position k

/-- Every pointer that pointed at an offset of the old buffer points at it in the new one. -/
structure Relocates (t t' : HTTPTransaction) : Prop where
  size : t'.incomingHeader.headerRAWSize = t.incomingHeader.headerRAWSize
  bytes : t'.memory.take t.incomingHeader.headerRAWSize.toNat =
    t.memory.take t.incomingHeader.headerRAWSize.toNat
  null : ∀ f, t.incomingHeader.pointer f = some 0 → t'.incomingHeader.pointer f = some 0
  moved : ∀ f, ∀ k < t.incomingHeader.headerRAWSize.toNat,
    t.incomingHeader.pointer f = some (t.incomingHeader.position k) →
      t'.incomingHeader.pointer f = some (t'.incomingHeader.position k)

/-- The pointers that the relocation passes over are not set. -/
structure Followed (hdr : HTTPHeader) : Prop where
  GETrequest : hdr.GETrequest = 0
  POSTrequest : hdr.POSTrequest = 0
  POSTrequestBody : hdr.POSTrequestBody = 0
  getItems : ∀ item ∈ hdr.GETItem, item.reallocateOnHeaderRAWResize = true ∨
    ∀ f : GETField, f.read item = 0
  postItems : ∀ item ∈ hdr.POSTItem, item.reallocateOnHeaderRAWResize = true ∨
    ∀ f : POSTField, f.read item = 0
  cookieItems : ∀ item ∈ hdr.COOKIEItem, item.reallocateOnHeaderRAWResize = true ∨
    ∀ f : GETField, f.read item = 0

variable {limit : UInt32} {answer : Option Block} {block : Block} {t t' : HTTPTransaction}
variable {hdr : HTTPHeader} {memory memory' : List UInt8} {start count size n : ℕ}

/-! The bytes of the buffer. -/

theorem reallocated_length : (reallocated memory size block).length = size := by
  rw [reallocated, List.length_map, List.length_range]

theorem take_reallocated (hsize : n ≤ size) (hn : n ≤ memory.length) :
    (reallocated memory size block).take n = memory.take n := by
  apply List.ext_getElem?
  intro i
  rw [List.getElem?_take, List.getElem?_take]
  split
  · rename_i hi
    rw [reallocated, List.getElem?_map, List.getElem?_range (hi.trans_le hsize), Option.map_some,
      List.getElem?_eq_getElem (hi.trans_le hn), List.getD_eq_getElem _ _ (hi.trans_le hn)]
  · rfl

theorem memset_le (h : memset memory start count = some memory') :
    start + count ≤ memory.length := by
  unfold memset at h
  split at h
  · assumption
  · cases h

theorem memset_of_le (memory : List UInt8) (start count : ℕ) (h : start + count ≤ memory.length) :
    ∃ memory', memset memory start count = some memory' := ⟨_, if_pos h⟩

theorem memset_length (h : memset memory start count = some memory') :
    memory'.length = memory.length := by
  have hle := memset_le h
  rw [memset, if_pos hle, Option.some.injEq] at h
  rw [← h]
  simp only [List.length_append, List.length_take, List.length_replicate, List.length_drop]
  omega

theorem take_memset (h : memset memory start count = some memory') (hn : n ≤ start) :
    memory'.take n = memory.take n := by
  have hle := memset_le h
  rw [memset, if_pos hle, Option.some.injEq] at h
  have hstart : n ≤ (memory.take start).length := by
    rw [List.length_take]
    exact Nat.le_min.mpr ⟨hn, by omega⟩
  rw [← h, List.append_assoc, List.take_append_of_le_length hstart, List.take_take,
    Nat.min_eq_left hn]

/-! What a growth does. -/

/-- The header behind a growth, before its pointers are looked at. -/
def HTTPHeader.grown (hdr : HTTPHeader) (address : UInt64) (size : UInt32) : HTTPHeader :=
  { hdr with headerRAW := address, MAXheaderRAWSize := size }

theorem le_of_memset {old wannabe : UInt32}
    (h : old.toNat + (wannabe - old).toNat ≤ (wannabe + 1).toNat) : old ≤ wannabe := by
  rw [UInt32.le_iff_toNat_le]
  have hadd : (wannabe + 1).toNat ≤ wannabe.toNat + 1 := by
    rw [UInt32.toNat_add]
    exact Nat.mod_le _ _
  have hsub := UInt32.toNat_sub wannabe old
  have hold := old.toNat_lt
  have hwannabe := wannabe.toNat_lt
  omega

theorem growHeader_cases (h : growHeader limit answer t = some (true, t')) :
    ∃ block size, answer = some block ∧
      (t.incomingHeader.headerRAW = 0 ∧
          t'.incomingHeader = t.incomingHeader.grown block.address size ∨
        t.incomingHeader.headerRAW ≠ 0 ∧
          t'.incomingHeader = (if t.incomingHeader.headerRAW = block.address then
              t.incomingHeader.grown block.address size
            else recalculateHeaderFieldsBasedOnANewBaseAddress t.incomingHeader.headerRAW
              (t.incomingHeader.grown block.address size)) ∧
          t.incomingHeader.MAXheaderRAWSize ≤ size ∧ size.toNat ≤ t'.memory.length ∧
          ∀ n ≤ t.incomingHeader.MAXheaderRAWSize.toNat, n ≤ t.memory.length →
            t'.memory.take n = t.memory.take n) := by
  unfold growHeader at h
  dsimp only at h
  split at h
  · cases h
  · split at h
    · cases h
    · split at h
      · rename_i hnull
        cases answer with
        | none => cases h
        | some block =>
          obtain ⟨memory, -, heq⟩ := Option.map_eq_some_iff.mp h
          cases heq
          exact ⟨block, _, rfl, .inl ⟨hnull, rfl⟩⟩
      · rename_i hset
        split at h
        · cases answer with
          | none => cases h
          | some block =>
            obtain ⟨terminated, hterminated, h⟩ := Option.bind_eq_some_iff.mp h
            obtain ⟨memory, hcleared, heq⟩ := Option.map_eq_some_iff.mp h
            cases heq
            have hfits := memset_le hcleared
            rw [memset_length hterminated, reallocated_length] at hfits
            have hle := le_of_memset hfits
            have hsize := memset_le hterminated
            have hlength := memset_length hcleared
            rw [memset_length hterminated] at hlength
            rw [← hlength] at hsize
            refine ⟨block, _, rfl, .inr ⟨hset, rfl, hle, Nat.le_of_succ_le hsize,
              fun n hmax hn => ?_⟩⟩
            have hbelow := hmax.trans (UInt32.le_iff_toNat_le.mp hle)
            rw [hlength, reallocated_length] at hsize
            rw [take_memset hcleared hmax, take_memset hterminated hbelow,
              take_reallocated (by omega) hn]
        · cases h

/-! The pointers of the buffer that the relocation looks at, and those that it passes over. -/

theorem recalculatePosition_zero (oldBaseAddress newAddress : UInt64) :
    _recalculatePosition 0 oldBaseAddress newAddress = 0 := if_pos rfl

theorem recalculatePosition_add {base k : ℕ} {oldBaseAddress : UInt64} (newAddress : UInt64)
    (hbase : oldBaseAddress.toNat = base) (hpos : 0 < base) (hk : k < 2 ^ 32)
    (hfits : base + k < 2 ^ 64) :
    _recalculatePosition (oldBaseAddress + UInt64.ofNat k) oldBaseAddress newAddress =
      newAddress + UInt64.ofNat k := by
  have hoffset : (UInt64.ofNat k).toNat = k := UInt64.toNat_ofNat_of_lt (hk.trans (by decide))
  have hset : oldBaseAddress + UInt64.ofNat k ≠ 0 := by
    intro hcon
    have hzero := congrArg UInt64.toNat hcon
    rw [UInt64.toNat_add, hbase, hoffset, Nat.mod_eq_of_lt hfits, UInt64.toNat_zero] at hzero
    omega
  have hback : (UInt64.ofNat k).toUInt32.toUInt64 = UInt64.ofNat k := by
    apply UInt64.toNat.inj
    rw [UInt32.toNat_toUInt64, UInt64.toNat_toUInt32, hoffset, Nat.mod_eq_of_lt hk]
  rw [_recalculatePosition, if_neg hset, add_sub_cancel_left, hback]

theorem GETField.read_recalculate {item : GETRequestContent}
    (h : item.reallocateOnHeaderRAWResize = true) (f : GETField) (old new : UInt64) :
    f.read (item.recalculate old new) = _recalculatePosition (f.read item) old new := by
  rw [GETRequestContent.recalculate, if_pos h]
  cases f <;> rfl

theorem POSTField.read_recalculate {item : POSTRequestBoundaryContent}
    (h : item.reallocateOnHeaderRAWResize = true) (f : POSTField) (old new : UInt64) :
    f.read (item.recalculate old new) = _recalculatePosition (f.read item) old new := by
  rw [POSTRequestBoundaryContent.recalculate, if_pos h]
  cases f <;> rfl

theorem GETRequestContent.recalculate_of_not {item : GETRequestContent}
    (h : item.reallocateOnHeaderRAWResize ≠ true) (old new : UInt64) :
    item.recalculate old new = item := if_neg h

theorem POSTRequestBoundaryContent.recalculate_of_not {item : POSTRequestBoundaryContent}
    (h : item.reallocateOnHeaderRAWResize ≠ true) (old new : UInt64) :
    item.recalculate old new = item := if_neg h

theorem GETField.read_followed {item : GETRequestContent}
    (h : item.reallocateOnHeaderRAWResize = true ∨ ∀ f : GETField, f.read item = 0) (f : GETField)
    (old new : UInt64) :
    f.read (item.recalculate old new) = _recalculatePosition (f.read item) old new := by
  by_cases hflag : item.reallocateOnHeaderRAWResize = true
  · exact f.read_recalculate hflag old new
  · have hunset := (h.resolve_left hflag) f
    rw [GETRequestContent.recalculate_of_not hflag, hunset, recalculatePosition_zero]

theorem POSTField.read_followed {item : POSTRequestBoundaryContent}
    (h : item.reallocateOnHeaderRAWResize = true ∨ ∀ f : POSTField, f.read item = 0)
    (f : POSTField) (old new : UInt64) :
    f.read (item.recalculate old new) = _recalculatePosition (f.read item) old new := by
  by_cases hflag : item.reallocateOnHeaderRAWResize = true
  · exact f.read_recalculate hflag old new
  · have hunset := (h.resolve_left hflag) f
    rw [POSTRequestBoundaryContent.recalculate_of_not hflag, hunset, recalculatePosition_zero]

theorem Followed.pointer (h : Followed hdr) (hset : hdr.headerRAW ≠ 0) (old : UInt64)
    {f : PointerField} {p : UInt64} (hp : hdr.pointer f = some p) :
    (recalculateHeaderFieldsBasedOnANewBaseAddress old hdr).pointer f =
      some (_recalculatePosition p old hdr.headerRAW) := by
  rw [recalculateHeaderFieldsBasedOnANewBaseAddress, if_neg hset]
  cases f with
  | header f =>
    cases hp
    cases f with
    | GETrequest => exact congrArg some (by
        rw [HeaderField.read, HeaderField.read, h.GETrequest, recalculatePosition_zero])
    | POSTrequest => exact congrArg some (by
        rw [HeaderField.read, HeaderField.read, h.POSTrequest, recalculatePosition_zero])
    | POSTrequestBody => exact congrArg some (by
        rw [HeaderField.read, HeaderField.read, h.POSTrequestBody, recalculatePosition_zero])
    | _ => rfl
  | getItem i f =>
    obtain ⟨item, hitem, rfl⟩ := Option.map_eq_some_iff.mp hp
    have hfollowed := f.read_followed (h.getItems item (List.mem_of_getElem? hitem)) old
    rw [HTTPHeader.pointer, List.getElem?_map, hitem, Option.map_some, Option.map_some, hfollowed]
  | postItem i f =>
    obtain ⟨item, hitem, rfl⟩ := Option.map_eq_some_iff.mp hp
    have hfollowed := f.read_followed (h.postItems item (List.mem_of_getElem? hitem)) old
    rw [HTTPHeader.pointer, List.getElem?_map, hitem, Option.map_some, Option.map_some, hfollowed]
  | cookieItem i f =>
    obtain ⟨item, hitem, rfl⟩ := Option.map_eq_some_iff.mp hp
    have hfollowed := f.read_followed (h.cookieItems item (List.mem_of_getElem? hitem)) old
    rw [HTTPHeader.pointer, List.getElem?_map, hitem, Option.map_some, Option.map_some, hfollowed]

theorem Followed.of_unmoved (hset : hdr.headerRAW ≠ 0) (old : UInt64)
    (h : ∀ f p, hdr.pointer f = some p →
      (recalculateHeaderFieldsBasedOnANewBaseAddress old hdr).pointer f = some p → p = 0) :
    Followed hdr := by
  rw [recalculateHeaderFieldsBasedOnANewBaseAddress, if_neg hset] at h
  refine ⟨h (.header .GETrequest) _ rfl rfl, h (.header .POSTrequest) _ rfl rfl,
    h (.header .POSTrequestBody) _ rfl rfl, fun item hitem => ?_, fun item hitem => ?_,
    fun item hitem => ?_⟩
  all_goals
    refine or_iff_not_imp_left.mpr fun hflag f => ?_
    obtain ⟨i, hi⟩ := List.mem_iff_getElem?.mp hitem
  · refine h (.getItem i f) _ (by rw [HTTPHeader.pointer, hi, Option.map_some]) ?_
    rw [HTTPHeader.pointer, List.getElem?_map, hi, Option.map_some, Option.map_some,
      GETRequestContent.recalculate_of_not hflag]
  · refine h (.postItem i f) _ (by rw [HTTPHeader.pointer, hi, Option.map_some]) ?_
    rw [HTTPHeader.pointer, List.getElem?_map, hi, Option.map_some, Option.map_some,
      POSTRequestBoundaryContent.recalculate_of_not hflag]
  · refine h (.cookieItem i f) _ (by rw [HTTPHeader.pointer, hi, Option.map_some]) ?_
    rw [HTTPHeader.pointer, List.getElem?_map, hi, Option.map_some, Option.map_some,
      GETRequestContent.recalculate_of_not hflag]

/-- An item that is registered is one that the relocation looks at. -/
theorem Followed.addPOSTDataBoundary (h : Followed t.incomingHeader) (ptr : UInt64) :
    Followed (addPOSTDataBoundary t ptr).2.incomingHeader := by
  unfold HeaderGrowth.addPOSTDataBoundary
  dsimp only
  split
  · exact h
  · refine ⟨h.GETrequest, h.POSTrequest, h.POSTrequestBody, h.getItems, fun item hitem => ?_,
      h.cookieItems⟩
    rcases List.mem_append.mp hitem with hitem | hitem
    · exact h.postItems item hitem
    · rw [List.mem_singleton.mp hitem]
      exact .inl rfl

/-! The relocation as a whole. -/

theorem Received.null_of_unallocated (h : Received t) (hnull : t.incomingHeader.headerRAW = 0) :
    t.incomingHeader.headerRAWSize.toNat = 0 := by
  have hstored := h.stored
  rw [h.unallocated hnull] at hstored
  exact Nat.le_zero.mp hstored

theorem Received.recalculatePosition (h : Received t) (hset : t.incomingHeader.headerRAW ≠ 0)
    {k : ℕ} (hk : k < t.incomingHeader.headerRAWSize.toNat) (new : UInt64) :
    _recalculatePosition (t.incomingHeader.position k) t.incomingHeader.headerRAW new =
      new + UInt64.ofNat k := by
  have hpos : 0 < t.incomingHeader.headerRAW.toNat :=
    Nat.pos_of_ne_zero fun hcon => hset (UInt64.toNat.inj hcon)
  have hstored := h.stored
  have haddressable := h.addressable
  exact recalculatePosition_add new rfl hpos
    (hk.trans t.incomingHeader.headerRAWSize.toNat_lt) (by omega)

theorem pointer_grown (f : PointerField) (address : UInt64) (size : UInt32) :
    (hdr.grown address size).pointer f = hdr.pointer f := by
  cases f with
  | header f => cases f <;> rfl
  | _ => rfl

theorem Followed.grown_iff {address : UInt64} {size : UInt32} :
    Followed (hdr.grown address size) ↔ Followed hdr :=
  ⟨fun h => ⟨h.1, h.2, h.3, h.4, h.5, h.6⟩, fun h => ⟨h.1, h.2, h.3, h.4, h.5, h.6⟩⟩

theorem Relocates.of_same (h : Received t) {size : UInt32}
    (heq : t'.incomingHeader = t.incomingHeader.grown t.incomingHeader.headerRAW size)
    (hbytes : ∀ n ≤ t.incomingHeader.MAXheaderRAWSize.toNat, n ≤ t.memory.length →
      t'.memory.take n = t.memory.take n) : Relocates t t' := by
  refine ⟨by rw [heq]; rfl, hbytes _ (UInt32.le_iff_toNat_le.mp h.room) h.stored, fun f hf => ?_,
    fun f k _ hf => ?_⟩
  · rw [heq, pointer_grown, hf]
  · rw [heq, pointer_grown, hf]
    rfl

/-- No pointer is set before the buffer is allocated. -/
theorem Relocates.of_unallocated (h : Received t) (hnull : t.incomingHeader.headerRAW = 0)
    {address : UInt64} {size : UInt32}
    (heq : t'.incomingHeader = t.incomingHeader.grown address size) : Relocates t t' := by
  have hsize := h.null_of_unallocated hnull
  refine ⟨by rw [heq]; rfl, by rw [hsize, List.take_zero, List.take_zero], fun f hf => ?_,
    fun f k hk => ?_⟩
  · rw [heq, pointer_grown, hf]
  · rw [hsize] at hk
    exact absurd hk (Nat.not_lt_zero k)

theorem Received.followed_of_unallocated (h : Received t)
    (hnull : t.incomingHeader.headerRAW = 0) : Followed t.incomingHeader := by
  have hsize := h.null_of_unallocated hnull
  have hzero : ∀ f p, t.incomingHeader.pointer f = some p → p = 0 := fun f p hp => by
    rcases h.pointers f p hp with hp | ⟨k, hk, -⟩
    · exact hp
    · rw [hsize] at hk
      exact absurd hk (Nat.not_lt_zero k)
  refine ⟨hzero (.header .GETrequest) _ rfl, hzero (.header .POSTrequest) _ rfl,
    hzero (.header .POSTrequestBody) _ rfl, fun item hitem => .inr fun f => ?_,
    fun item hitem => .inr fun f => ?_, fun item hitem => .inr fun f => ?_⟩
  all_goals obtain ⟨i, hi⟩ := List.mem_iff_getElem?.mp hitem
  · exact hzero (.getItem i f) _ (by rw [HTTPHeader.pointer, hi, Option.map_some])
  · exact hzero (.postItem i f) _ (by rw [HTTPHeader.pointer, hi, Option.map_some])
  · exact hzero (.cookieItem i f) _ (by rw [HTTPHeader.pointer, hi, Option.map_some])

section Moved

variable {address : UInt64} {size : UInt32}

theorem headerRAW_recalculated (old : UInt64) :
    (recalculateHeaderFieldsBasedOnANewBaseAddress old hdr).headerRAW = hdr.headerRAW := by
  rw [recalculateHeaderFieldsBasedOnANewBaseAddress]
  split <;> rfl

theorem headerRAWSize_recalculated (old : UInt64) :
    (recalculateHeaderFieldsBasedOnANewBaseAddress old hdr).headerRAWSize =
      hdr.headerRAWSize := by
  rw [recalculateHeaderFieldsBasedOnANewBaseAddress]
  split <;> rfl

theorem MAXheaderRAWSize_recalculated (old : UInt64) :
    (recalculateHeaderFieldsBasedOnANewBaseAddress old hdr).MAXheaderRAWSize =
      hdr.MAXheaderRAWSize := by
  rw [recalculateHeaderFieldsBasedOnANewBaseAddress]
  split <;> rfl

theorem Relocates.moved_iff (h : Received t) (hset : t.incomingHeader.headerRAW ≠ 0)
    (haddress : address ≠ 0) (hmoved : t.incomingHeader.headerRAW ≠ address)
    (heq : t'.incomingHeader = recalculateHeaderFieldsBasedOnANewBaseAddress
      t.incomingHeader.headerRAW (t.incomingHeader.grown address size))
    (hbytes : ∀ n ≤ t.incomingHeader.MAXheaderRAWSize.toNat, n ≤ t.memory.length →
      t'.memory.take n = t.memory.take n) :
    Relocates t t' ↔ Followed t.incomingHeader := by
  have hnew : t'.incomingHeader.headerRAW = address := by
    rw [heq, headerRAW_recalculated]
    rfl
  have hgrown : (t.incomingHeader.grown address size).headerRAW ≠ 0 := haddress
  constructor
  · intro hrelocates
    apply Followed.grown_iff.mp
    apply Followed.of_unmoved hgrown t.incomingHeader.headerRAW
    intro f p hp hstays
    rw [pointer_grown] at hp
    rcases h.pointers f p hp with hnull | ⟨k, hk, rfl⟩
    · exact hnull
    · -- it would have to be at the same offset in both blocks
      have hthere := hrelocates.moved f k hk hp
      rw [heq, hstays, ← heq, HTTPHeader.position, HTTPHeader.position, hnew,
        Option.some.injEq] at hthere
      exact absurd (add_right_cancel hthere) hmoved
  · intro hfollowed
    have hpointer := fun f p hp => (Followed.grown_iff.mpr hfollowed).pointer hgrown
      t.incomingHeader.headerRAW ((pointer_grown f address size).trans hp : _ = some p)
    refine ⟨by rw [heq, headerRAWSize_recalculated]; rfl,
      hbytes _ (UInt32.le_iff_toNat_le.mp h.room) h.stored, fun f hf => ?_, fun f k hk hf => ?_⟩
    · rw [heq, hpointer f _ hf, recalculatePosition_zero]
    · rw [heq, hpointer f _ hf, h.recalculatePosition hset hk, ← heq, HTTPHeader.position, hnew]
      rfl

end Moved

theorem pointer_recalculated_isSome (old : UInt64) (f : PointerField) :
    ((recalculateHeaderFieldsBasedOnANewBaseAddress old hdr).pointer f).isSome =
      (hdr.pointer f).isSome := by
  rw [recalculateHeaderFieldsBasedOnANewBaseAddress]
  split
  · rfl
  · cases f with
    | header f => rfl
    | _ => simp only [HTTPHeader.pointer, List.getElem?_map, Option.isSome_map]

/-- What the relocation keeps is what every later growth relies on. -/
theorem Relocates.received (h : Received t)
    (hgrow : growHeader limit (some block) t = some (true, t')) (hrelocates : Relocates t t')
    (haddressable : t'.incomingHeader.headerRAW.toNat + t'.memory.length ≤ 2 ^ 64) :
    Received t' := by
  have hkept : t'.incomingHeader.headerRAW ≠ 0 ∧
      t.incomingHeader.headerRAWSize ≤ t'.incomingHeader.MAXheaderRAWSize ∧
      t.incomingHeader.headerRAWSize.toNat ≤ t'.memory.length ∧
      ∀ f, (t'.incomingHeader.pointer f).isSome = (t.incomingHeader.pointer f).isSome := by
    obtain ⟨_, size, hanswer, ⟨hnull, heq⟩ | ⟨hset, heq, hle, hlength, -⟩⟩ :=
      growHeader_cases hgrow
    · cases hanswer
      have hsize := h.null_of_unallocated hnull
      rw [UInt32.le_iff_toNat_le, hsize, heq]
      exact ⟨block.address_ne_zero, Nat.zero_le _, Nat.zero_le _, fun f => by rw [pointer_grown]⟩
    · cases hanswer
      have hroom := UInt32.le_trans h.room hle
      have hstored := (UInt32.le_iff_toNat_le.mp hroom).trans hlength
      split at heq
      · rw [heq]
        exact ⟨block.address_ne_zero, hroom, hstored, fun f => by rw [pointer_grown]⟩
      · rw [heq, headerRAW_recalculated, MAXheaderRAWSize_recalculated]
        exact ⟨block.address_ne_zero, hroom, hstored,
          fun f => by rw [pointer_recalculated_isSome, pointer_grown]⟩
  obtain ⟨hset, hroom, hstored, hregistered⟩ := hkept
  refine ⟨?_, ?_, haddressable, fun hcon => absurd hcon hset, fun f p hp => ?_⟩
  · rw [hrelocates.size]
    exact hstored
  · rw [hrelocates.size]
    exact hroom
  · obtain ⟨q, hq⟩ : ∃ q, t.incomingHeader.pointer f = some q := by
      rw [← Option.isSome_iff_exists, ← hregistered f, hp]
      rfl
    rw [hrelocates.size]
    rcases h.pointers f q hq with rfl | ⟨k, hk, rfl⟩
    · rw [hrelocates.null f hq] at hp
      exact .inl (Option.some.inj hp).symm
    · rw [hrelocates.moved f k hk hq] at hp
      exact .inr ⟨k, hk, (Option.some.inj hp).symm⟩

/-- Where a growth goes through. -/
theorem growHeader_succeeds (hfailed : t.incomingHeader.failed = false)
    (hset : t.incomingHeader.headerRAW ≠ 0)
    (hrequested : t.incomingHeader.MAXheaderRAWSize < t.incomingHeader.headerRAWRequestedSize)
    (hlimit : t.incomingHeader.headerRAWRequestedSize ≤ limit) (hroom : limit.toNat + 1 < 2 ^ 32)
    (block : Block) : ∃ t', growHeader limit (some block) t = some (true, t') := by
  have hmore := UInt32.lt_iff_toNat_lt.mp hrequested
  have hle := UInt32.le_iff_toNat_le.mp hlimit
  have hnonzero : t.incomingHeader.headerRAWRequestedSize ≠ 0 := by
    intro hcon
    rw [hcon, UInt32.toNat_zero] at hmore
    exact Nat.not_lt_zero _ hmore
  have hsize : (t.incomingHeader.headerRAWRequestedSize + 1).toNat =
      t.incomingHeader.headerRAWRequestedSize.toNat + 1 := by
    rw [UInt32.toNat_add]
    exact Nat.mod_eq_of_lt (lt_of_le_of_lt (Nat.succ_le_succ hle) hroom)
  have hrest := UInt32.toNat_sub_of_le _ _ (UInt32.le_of_lt hrequested)
  unfold growHeader
  dsimp only
  rw [if_neg (Bool.eq_false_iff.mp hfailed), if_neg fun hcon => UInt32.not_lt.mpr hlimit hcon.2,
    if_neg hset, if_pos (UInt32.lt_of_lt_of_le hrequested hlimit), if_pos hnonzero,
    if_neg (UInt32.not_lt.mpr hlimit)]
  obtain ⟨terminated, hterminated⟩ := memset_of_le
    (reallocated t.memory (t.incomingHeader.headerRAWRequestedSize + 1).toNat block)
    t.incomingHeader.headerRAWRequestedSize.toNat 1 (by rw [reallocated_length, hsize])
  have hlength := memset_length hterminated
  rw [reallocated_length, hsize] at hlength
  obtain ⟨cleared, hcleared⟩ := memset_of_le terminated t.incomingHeader.MAXheaderRAWSize.toNat
    (t.incomingHeader.headerRAWRequestedSize - t.incomingHeader.MAXheaderRAWSize).toNat (by omega)
  rw [hterminated, Option.bind_some, hcleared, Option.map_some]
  exact ⟨_, rfl⟩

/-- Behind a growth every pointer into the buffer has followed it exactly where the buffer has not
moved, or where the pointers that the relocation passes over are not set. -/
theorem growHeader_relocates_iff (h : Received t)
    (hgrow : growHeader limit (some block) t = some (true, t')) :
    Relocates t t' ↔
      block.address = t.incomingHeader.headerRAW ∨ Followed t.incomingHeader := by
  obtain ⟨_, size, hanswer, ⟨hnull, heq⟩ | ⟨hset, heq, -, -, hbytes⟩⟩ := growHeader_cases hgrow
  · exact iff_of_true (Relocates.of_unallocated h hnull heq)
      (.inr (h.followed_of_unallocated hnull))
  · cases hanswer
    split at heq
    · rename_i hsame
      rw [← hsame] at heq
      exact iff_of_true (Relocates.of_same h heq hbytes) (.inl hsame.symm)
    · rename_i hmoved
      rw [Relocates.moved_iff h hset block.address_ne_zero hmoved heq hbytes,
        or_iff_right fun hcon => hmoved hcon.symm]

/-- The header of a `POST`, its first line taken apart. -/
def postHead : List UInt8 :=
  ascii "POST /a" ++ 0 :: ascii "b=c" ++ 0 ::
    ascii "HTTP/1.1\r\nHost: example\r\nContent-Length: 30000\r\n\r\n"

/-- A `POST` that fills the first buffer; `query` is where `GETrequest` points to. -/
def receiving (query : UInt64) : HTTPTransaction :=
  { incomingHeader :=
      { headerRAW := 4096, headerRAWSize := 8192, headerRAWRequestedSize := 30062
        MAXheaderRAWSize := 8192, GETrequest := query, host := 4096 + 28 }
    memory := postHead ++ (List.replicate 8130 120 ++ List.replicate 32 0) }

theorem receiving_received {query : UInt64} (h : query = 0 ∨ query = 4096 + 8) :
    Received (receiving query) := by
  have hlength : (receiving query).memory.length = 8224 := by
    have hhead : postHead.length = 62 := by decide
    rw [receiving, List.length_append, List.length_append, List.length_replicate,
      List.length_replicate, hhead]
  refine ⟨?_, UInt32.le_refl 8192, ?_, fun hcon => (by cases hcon), fun f p hp => ?_⟩
  · rw [hlength]
    show (8192 : UInt32).toNat ≤ 8224
    decide
  · rw [hlength]
    show (4096 : UInt64).toNat + 8224 ≤ 2 ^ 64
    decide
  · cases f with
    | header f =>
      cases hp
      cases f with
      | GETrequest => exact h.imp_right fun heq => ⟨8, by show 8 < 8192; decide, heq⟩
      | host => exact .inr ⟨28, by show 28 < 8192; decide, rfl⟩
      | _ => exact .inl rfl
    | _ => cases hp

def elsewhere : Block := ⟨65536, fun _ => 0, by decide⟩

theorem receiving_grows (query : UInt64) :
    ∃ t', growHeader 4194304 (some elsewhere) (receiving query) = some (true, t') := by
  apply growHeader_succeeds
  · rfl
  · show (4096 : UInt64) ≠ 0
    decide
  · show (8192 : UInt32) < 30062
    decide
  · show (30062 : UInt32) ≤ 4194304
    decide
  · decide

theorem receiving_relocates : ∃ t',
    growHeader 4194304 (some elsewhere) (receiving 0) = some (true, t') ∧
      (Relocates (receiving 0) t' ↔
        elsewhere.address = (receiving 0).incomingHeader.headerRAW ∨
          Followed (receiving 0).incomingHeader) := by
  obtain ⟨t', hgrow⟩ := receiving_grows 0
  exact ⟨t', hgrow, growHeader_relocates_iff (receiving_received (.inl rfl)) hgrow⟩

/-- The query of a `POST` whose buffer is moved is left behind. -/
theorem query_left_behind : ¬ ∀ limit block t t', Received t →
    growHeader limit (some block) t = some (true, t') → Relocates t t' := by
  intro h
  obtain ⟨t', hgrow⟩ := receiving_grows (4096 + 8)
  have hreceived := receiving_received (.inr rfl)
  have hrelocates := h _ _ _ _ hreceived hgrow
  obtain ⟨block, size, hblock, ⟨hnull, -⟩ | ⟨hset, heq, -, -, hbytes⟩⟩ := growHeader_cases hgrow
  · exact absurd hnull (by decide)
  · cases hblock
    have hmoved : (receiving (4096 + 8)).incomingHeader.headerRAW ≠ elsewhere.address := by decide
    rw [if_neg hmoved] at heq
    have hfollowed := (Relocates.moved_iff hreceived hset elsewhere.address_ne_zero hmoved heq
      hbytes).mp hrelocates
    exact absurd hfollowed.GETrequest (by decide)

end AmmarServer.HeaderGrowth
