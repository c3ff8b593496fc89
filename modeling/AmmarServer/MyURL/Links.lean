import Mathlib.Logic.Function.Basic
import AmmarServer.Lib.CString
import AmmarServer.Lib.TextFiles

/-! `Services/MyURL/main.c`: the short links and their file. -/

namespace AmmarServer.MyURL
open CString Bytes TextFile

def MAX_TO_SIZE : ℕ := 32
def MAX_LONG_URL_SIZE : ℕ := 2048
def MAX_LINKS : ℕ := 200000
def LINK_ALLOCATION_STEP : ℕ := 5000
def REGROUP_AFTER_X_UNSORTED_LINKS : ℕ := 1000

def default_failed : List UInt8 := ascii "http://myurl.ammar.gr/error.html"

/-- A `char`, which is signed, as an `unsigned long`. -/
def signExtend (c : UInt8) : UInt64 := if c < 128 then c.toUInt64 else c.toUInt64 - 256

/-- The NUL is hashed too. -/
def hashURL (str : List UInt8) : UInt64 :=
  if str = [] then 0
  else (str ++ [0]).foldl (fun hash c => (hash <<< 5) + hash + signExtend c) 5381

/-- `struct URLDB`. -/
structure Link where
  longURL : List UInt8
  shortURL : List UInt8
  shortURLHash : UInt64
deriving DecidableEq, Repr

def newLink (longURL shortURL : List UInt8) : Link := ⟨longURL, shortURL, hashURL shortURL⟩

/-- An element of the array, and whether `Add_MyURL` has filled it. -/
structure Slot where
  link : Link
  written : Bool
deriving DecidableEq, Repr

/-- How far a call of `Add_MyURL` has come. -/
inductive Stage
  | checked
  | indexed (our_index : ℕ)
  | written
  | saved
deriving DecidableEq, Repr

structure Adding where
  longURL : List UInt8
  shortURL : List UInt8
  saveit : Bool
  stage : Stage
deriving DecidableEq, Repr

def Adding.link (a : Adding) : Link := newLink a.longURL a.shortURL

/-- The array has `slots.length` loaded links. `reading` is what `LoadMyURLDBFile` has still to
read, `adding` are the calls of the threads, and `added` the links of the calls that came through, each of
them once and the first ones first. -/
structure DB where
  slots : List Slot
  sorted_links : ℕ
  allocated_links : ℕ
  file : Option (List UInt8)
  reading : Option (List UInt8)
  adding : ℕ → Option Adding
  added : List Link

def DB.empty : DB where
  slots := []
  sorted_links := 0
  allocated_links := 0
  file := none
  reading := none
  adding := fun _ => none
  added := []

/-! The search. -/

def hashAt (slots : List Slot) (i : ℕ) : UInt64 :=
  (slots[i]?).elim 0 fun slot => slot.link.shortURLHash

/-- The loop of `Find_longURLSerial` from `i` down, and the look at the first link behind it. -/
def serialFrom (slots : List Slot) (our_hash : UInt64) : ℕ → Option ℕ
  | 0 => if our_hash = hashAt slots 0 then some 0 else none
  | i + 1 => if our_hash = hashAt slots (i + 1) then some (i + 1) else serialFrom slots our_hash i

def findLongURLSerial (slots : List Slot) (our_hash : UInt64) : Option ℕ :=
  if slots = [] then none else serialFrom slots our_hash (slots.length - 1)

/-- The loop of the binary search, with fuel: the index that it found, if it did. The bounds are
`unsigned int`s. -/
def searchLoop (slots : List Slot) (our_hash : UInt64) (lastElement : ℕ) :
    ℕ → ℕ → ℕ → Option (Option ℕ)
  | 0, _, _ => none
  | fuel + 1, beg, fin =>
    if fin < beg then some none
    else
      let mid := beg + (fin - beg) / 2
      if lastElement ≤ mid then some none
      else if our_hash < hashAt slots mid then
        searchLoop slots our_hash lastElement fuel beg ((mid + (2 ^ 32 - 1)) % 2 ^ 32)
      else if hashAt slots mid < our_hash then
        searchLoop slots our_hash lastElement fuel (mid + 1) fin
      else some (some mid)

def binarySearch (slots : List Slot) (sorted_links : ℕ) (our_hash : UInt64) : Option ℕ :=
  if sorted_links = 0 then none
  else (searchLoop slots our_hash sorted_links (sorted_links + 2) 0 (sorted_links - 1)).join

def findLongURL (slots : List Slot) (sorted_links : ℕ) (shortURL : List UInt8) : Option ℕ :=
  if slots = [] then none
  else
    (binarySearch slots sorted_links (hashURL shortURL)).or
      (findLongURLSerial slots (hashURL shortURL))

def getLongURL (db : DB) (shortURL : List UInt8) : List UInt8 :=
  ((findLongURL db.slots db.sorted_links shortURL).bind (db.slots[·]?)).elim default_failed
    fun slot => slot.link.longURL

/-! The order. -/

/-- The first index whose hash is below the one before. -/
def firstUnsorted : ℕ → List UInt64 → Option ℕ
  | i, a :: b :: hashes => if b < a then some i else firstUnsorted (i + 1) (b :: hashes)
  | _, _ => none

def hashes (slots : List Slot) : List UInt64 := slots.map fun slot => slot.link.shortURLHash

/-- The answer, and what it makes of `sorted_links`. -/
def isURLDBSorted (slots : List Slot) (sorted_links : ℕ) : Bool × ℕ :=
  if slots.length ≤ 1 then (true, sorted_links)
  else
    match firstUnsorted 1 (hashes slots) with
    | some i => (false, i - 1)
    | none => (true, slots.length - 1)

/-! The file. -/

def linkText (link : Link) : List UInt8 := link.longURL ++ LF :: (link.shortURL ++ [LF])

def fileText (links : List Link) : List UInt8 := links.flatMap linkText

/-- `fscanf(pFile, "%s\n", ..)` into an empty buffer: the word, and what is left in front of which
the end of the file may have been seen. -/
def scanLine (file : List UInt8) : List UInt8 × List UInt8 :=
  let file := file.dropWhile isSpace
  (file.takeWhile fun c => !isSpace c, (file.dropWhile fun c => !isSpace c).dropWhile isSpace)

namespace DB
variable (db : DB)

/-! `Add_MyURL`, as far as it goes without another thread in between. -/

def allocateLinksIfNeeded (realloc : Bool) : DB :=
  if db.allocated_links < MAX_LINKS ∧ db.allocated_links ≤ db.slots.length ∧ realloc then
    { db with allocated_links := db.allocated_links + LINK_ALLOCATION_STEP }
  else db

def set (thread : ℕ) (a : Option Adding) : DB :=
  { db with adding := Function.update db.adding thread a }

/-- The search and the checks. -/
def check (thread : ℕ) (longURL shortURL : List UInt8) (saveit realloc : Bool) : DB :=
  if (findLongURL db.slots db.sorted_links shortURL).isSome ∨ MAX_LINKS ≤ db.slots.length then db
  else
    let db := db.allocateLinksIfNeeded realloc
    if MAX_LONG_URL_SIZE ≤ longURL.length ∨ MAX_TO_SIZE ≤ shortURL.length then db
    else db.set thread (some ⟨longURL, shortURL, saveit, .checked⟩)

/-- Under `db_addIDLock`; `junk` is what was in the memory. -/
def index (thread : ℕ) (junk : Link) (a : Adding) : DB :=
  { db.set thread (some { a with stage := .indexed db.slots.length }) with
    slots := db.slots ++ [⟨junk, false⟩] }

/-- The link is filled in. It is none when the index is behind the array. -/
def write (thread our_index : ℕ) (a : Adding) : Option DB :=
  if db.allocated_links ≤ our_index then none
  else some
    { db.set thread (some { a with stage := .written }) with
      slots := db.slots.set our_index ⟨a.link, true⟩
      added := if a.link ∈ db.added then db.added else db.added ++ [a.link] }

/-- `Append2MyURLDBFile`, if it is to be saved. -/
def append (thread : ℕ) (opened : Bool) (a : Adding) : DB :=
  { db.set thread (some { a with stage := .saved }) with
    file :=
      if a.saveit ∧ opened then some (db.file.getD [] ++ linkText a.link) else db.file }

/-- The end of `Add_MyURL`, with `ResortDB` and `ReWriteMyURLDBFile` if there is need: `sorted` is
what `qsort` makes of the array. -/
def regroup (thread : ℕ) (sorted : List Slot) (opened : Bool) : DB :=
  let db := db.set thread none
  if REGROUP_AFTER_X_UNSORTED_LINKS ≤ db.slots.length - db.sorted_links then
    let check := isURLDBSorted db.slots db.sorted_links
    if check.1 then { db with sorted_links := check.2 }
    else
      let again := isURLDBSorted sorted check.2
      { db with
        slots := sorted
        sorted_links := again.2
        file :=
          if again.1 ∧ opened then some (fileText (sorted.map Slot.link)) else db.file }
  else db

/-- The process starts again and opens the file. -/
def restart : DB :=
  { db with
    slots := []
    sorted_links := 0
    allocated_links := 0
    reading := db.file
    adding := fun _ => none }

/-- One turn of the loop of `LoadMyURLDBFile`, as far as `Add_MyURL` has checked. -/
def read (thread : ℕ) (realloc : Bool) (file : List UInt8) : DB :=
  let (longURL, file) := scanLine file
  let (shortURL, file) := scanLine file
  { db with reading := if file = [] then none else some file }.check thread longURL shortURL false
    realloc

end DB

inductive Event
  | add (thread : ℕ) (longURL shortURL : List UInt8) (realloc : Bool)
  | index (thread : ℕ) (junk : Link)
  | write (thread : ℕ) (malloc : Bool)
  | append (thread : ℕ) (opened : Bool)
  | regroup (thread : ℕ) (sorted : List Slot) (opened : Bool)
  | restart
  | read (thread : ℕ) (realloc : Bool)

/-- A thread does what comes next in its call. -/
def act (db : DB) : Event → Option DB
  | .add thread longURL shortURL realloc =>
    match db.adding thread with
    | none => some (db.check thread longURL shortURL true realloc)
    | some _ => some db
  | .index thread junk =>
    match db.adding thread with
    | some ⟨longURL, shortURL, saveit, .checked⟩ =>
      some (db.index thread junk ⟨longURL, shortURL, saveit, .checked⟩)
    | _ => some db
  | .write thread malloc =>
    match db.adding thread with
    | some ⟨longURL, shortURL, saveit, .indexed our_index⟩ =>
      if malloc then db.write thread our_index ⟨longURL, shortURL, saveit, .indexed our_index⟩
      else some (db.set thread none)
    | _ => some db
  | .append thread opened =>
    match db.adding thread with
    | some ⟨longURL, shortURL, saveit, .written⟩ =>
      some (db.append thread opened ⟨longURL, shortURL, saveit, .written⟩)
    | _ => some db
  | .regroup thread sorted opened =>
    match db.adding thread with
    | some ⟨_, _, _, .saved⟩ => some (db.regroup thread sorted opened)
    | _ => some db
  | .restart => some db.restart
  | .read thread realloc =>
    match db.reading, db.adding thread with
    | some file, none => some (db.read thread realloc file)
    | _, _ => some db

/-- A write behind the array ends the run. -/
def step (db : Option DB) (e : Event) : Option DB := db.bind fun db => act db e

/-! What the links are for. -/

/-- The file is loaded. -/
def Loaded (db : DB) : Prop := db.reading = none ∧ ∀ t a, db.adding t = some a → a.saveit = true

/-- Where the first link with a short URL leads. -/
def wantedURL (db : DB) (shortURL : List UInt8) : List UInt8 :=
  (db.added.find? fun link => link.shortURL = shortURL).elim default_failed Link.longURL

/-- No other link has the hash. -/
def Clear (db : DB) (shortURL : List UInt8) : Prop :=
  ∀ slot ∈ db.slots, slot.link.shortURLHash = hashURL shortURL →
    slot.written = true ∧ slot.link.shortURL = shortURL

/-- The short URLs lead where they are to lead, as far as `looked` goes. -/
structure Mapped (db : DB) (looked : List UInt8 → Prop) : Prop where
  returns : db.sorted_links ≠ 0 → ∀ our_hash,
    (searchLoop db.slots our_hash db.sorted_links (db.sorted_links + 2) 0
      (db.sorted_links - 1)).isSome
  once : ((db.slots.filter Slot.written).map fun slot => slot.link.shortURL).Nodup
  get : Loaded db → ∀ shortURL, looked shortURL → getLongURL db shortURL = wantedURL db shortURL

/-- What `%s` reads back. -/
def Word (s : List UInt8) : Prop := s ≠ [] ∧ ∀ c ∈ s, isSpace c = false

/-- A call that has not filled its link in. -/
def Adding.Unwritten (a : Adding) : Prop :=
  match a.stage with
  | .checked | .indexed _ => True
  | .written | .saved => False

/-- The service loads the file before its threads start, one link behind the other, and `qsort`
rearranges. -/
def Ordered (db : DB) : Event → Prop
  | .add .. => Loaded db
  | .regroup _ sorted _ => sorted.Perm db.slots
  | .restart => ∀ t, db.adding t = none
  | .read .. => ∀ t, db.adding t = none
  | _ => True

/-- There is memory, the URLs are words, calls for one short URL do not overlap, a call between its
index and its link is not caught by the sorting, neither is a file that is read, and the hash of
what is read is no other link's. -/
def Calm (db : DB) : Event → Prop
  | .add _ longURL shortURL _ => Word longURL ∧ Word shortURL ∧
      ∀ t a, db.adding t = some a → a.Unwritten → a.shortURL ≠ shortURL
  | .index .. => db.slots.length < db.allocated_links
  | .write _ malloc => malloc = true
  | .append _ opened => opened = true
  | .regroup .. =>
    REGROUP_AFTER_X_UNSORTED_LINKS ≤ db.slots.length - db.sorted_links →
      (isURLDBSorted db.slots db.sorted_links).1 = false →
        db.reading = none ∧ ∀ t a, db.adding t = some a → ∀ i, a.stage ≠ .indexed i
  | .restart => True
  | .read .. => db.slots.length < MAX_LINKS ∧
      ∀ file, db.reading = some file → Clear db (scanLine (scanLine file).2).1

def Starts (db : Option DB) (e : Event) : Prop := ∀ s, db = some s → Ordered s e

def Meets (db : Option DB) (e : Event) : Prop := ∀ s, db = some s → Ordered s e ∧ Calm s e

end AmmarServer.MyURL
