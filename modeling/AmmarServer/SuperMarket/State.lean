import Mathlib.Data.List.DropRight
import AmmarServer.Lib.CString
import AmmarServer.Lib.PercentCoding
import AmmarServer.Lib.TextFiles

/-! `Services/SuperMarket/state.c`: the shopping lists in their files. -/

namespace AmmarServer.SuperMarket
open CString Bytes TextFile PercentCoding

def MAX_ITEMS : ℕ := 800
def ID_BUF_SIZE : ℕ := 17
def NAME_BUF_SIZE : ℕ := 512
def TITLE_BUF_SIZE : ℕ := 256
def NORM_BUF_SIZE : ℕ := 512
def MAX_QTY : ℕ := 999
def MAX_NAME_LEN : ℕ := 100
def MAX_TITLE_LEN : ℕ := 60

/-- The bytes of a literal. -/
def utf8 (s : String) : List UInt8 := s.toByteArray.data.toList

def SEED_STAPLES : List (List UInt8) :=
  ["ψωμί", "γάλα", "αυγά", "φέτα", "γιαούρτι", "βούτυρο", "τυρί τοστ", "ζαμπόν", "κοτόπουλο",
   "κιμάς", "ρύζι", "μακαρόνια", "φακές", "φασόλια", "αλεύρι", "ζάχαρη", "αλάτι", "πιπέρι",
   "ελαιόλαδο", "ξύδι", "ντομάτες", "πατάτες", "κρεμμύδια", "σκόρδο", "λεμόνια", "μπανάνες",
   "μήλα", "πορτοκάλια", "καρότα", "σαλάτα", "καφές", "τσάι", "χυμός", "νερό", "δημητριακά",
   "μέλι", "μαρμελάδα", "σοκολάτα", "μπισκότα", "κατεψυγμένα λαχανικά", "χαρτί υγείας",
   "χαρτί κουζίνας", "χαρτομάντηλα", "οδοντόκρεμα", "σαμπουάν", "σαπούνι",
   "απορρυπαντικό πλυντηρίου", "υγρό πιάτων", "χλωρίνη", "σακούλες σκουπιδιών", "αλουμινόχαρτο",
   "λαδόκολλα"].map utf8

structure Item where
  id : List UInt8
  name : List UInt8
  qty : UInt32
  checked : Bool
deriving DecidableEq, Repr

structure Cart where
  title : List UInt8
  rev : UInt32
  items : List Item
deriving DecidableEq, Repr

/-- What `memset` leaves of a cart. -/
def Cart.empty : Cart := { title := [], rev := 0, items := [] }

/-- A string in an array of `size` bytes. -/
structure Text (size : ℕ) where
  bytes : List UInt8
  fits : bytes.length < size
  nonzero : 0 ∉ bytes

inductive Action
  | noop
  | add
  | qty
  | toggle
  | del
  | imgdel
  | name
deriving DecidableEq, Repr

structure Params where
  action : Action
  itemID : Text ID_BUF_SIZE
  text : Text NAME_BUF_SIZE
  hasDelta : Bool
  delta : Int32
  hasValue : Bool
  value : Int32

def hexAlphabet : List UInt8 := ascii "0123456789abcdef"

/-- `rand` is what the calls of `rand()` return. -/
def generateHexID (rand : ℕ → ℕ) (hexChars : ℕ) : List UInt8 :=
  (List.range hexChars).map fun i => hexAlphabet.getD (rand i % 16) 0

/-! The keys of the names. -/

structure ByteRule where
  needle : List UInt8
  replacement : List UInt8

def byteRules (rules : List (String × String)) : List ByteRule :=
  rules.map fun rule => ⟨utf8 rule.1, utf8 rule.2⟩

/-- The loop of `applyByteRules`, with fuel for the bytes of `s` and `room` bytes left in `out`, its
NUL included. -/
def applyByteRules (rules : List ByteRule) : ℕ → ℕ → List UInt8 → List UInt8
  | 0, _, _ => []
  | _, _, [] => []
  | fuel + 1, room, c :: s =>
    if room ≤ 1 then []
    else
      match rules.find? fun rule => !rule.needle.isEmpty && rule.needle.isPrefixOf (c :: s) with
      | some rule =>
        let replacement := rule.replacement.take (room - 1)
        replacement ++ applyByteRules rules fuel (room - replacement.length)
          ((c :: s).drop rule.needle.length)
      | none => c :: applyByteRules rules fuel (room - 1) s

def GREEK_CASEFOLD : List ByteRule := byteRules
  [("Α", "α"), ("Β", "β"), ("Γ", "γ"), ("Δ", "δ"), ("Ε", "ε"), ("Ζ", "ζ"), ("Η", "η"), ("Θ", "θ"),
   ("Ι", "ι"), ("Κ", "κ"), ("Λ", "λ"), ("Μ", "μ"), ("Ν", "ν"), ("Ξ", "ξ"), ("Ο", "ο"), ("Π", "π"),
   ("Ρ", "ρ"), ("Σ", "σ"), ("Τ", "τ"), ("Υ", "υ"), ("Φ", "φ"), ("Χ", "χ"), ("Ψ", "ψ"), ("Ω", "ω"),
   ("Ά", "ά"), ("Έ", "έ"), ("Ή", "ή"), ("Ί", "ί"), ("Ό", "ό"), ("Ύ", "ύ"), ("Ώ", "ώ"), ("Ϊ", "ϊ"),
   ("Ϋ", "ϋ")]

def GREEK_STRIP_ACCENTS : List ByteRule := byteRules
  [("ά", "α"), ("έ", "ε"), ("ή", "η"), ("ί", "ι"), ("ό", "ο"), ("ύ", "υ"), ("ώ", "ω"), ("ϊ", "ι"),
   ("ϋ", "υ"), ("ΐ", "ι"), ("ΰ", "υ"), ("ς", "σ")]

def GREEKLISH : List ByteRule := byteRules
  [("ου", "u"), ("ει", "i"), ("οι", "i"), ("υι", "i"), ("αι", "e"), ("α", "a"), ("β", "v"),
   ("γ", "g"), ("δ", "d"), ("ε", "e"), ("ζ", "z"), ("η", "i"), ("θ", "th"), ("ι", "i"),
   ("κ", "k"), ("λ", "l"), ("μ", "m"), ("ν", "n"), ("ξ", "ks"), ("ο", "o"), ("π", "p"),
   ("ρ", "r"), ("σ", "s"), ("τ", "t"), ("υ", "i"), ("φ", "f"), ("χ", "x"), ("ψ", "ps"), ("ω", "o")]

/-- The bytes between the spaces at both ends. -/
def trim (s : List UInt8) : List UInt8 := (s.dropWhile isSpace).rdropWhile isSpace

def normGreeklish (name : List UInt8) (outSize : ℕ) : List UInt8 :=
  let stage := ((trim name).map toLower).take (NORM_BUF_SIZE - 1)
  let stage2 := applyByteRules GREEK_CASEFOLD stage.length NORM_BUF_SIZE stage
  let stage3 := applyByteRules GREEK_STRIP_ACCENTS stage2.length NORM_BUF_SIZE stage2
  applyByteRules GREEKLISH stage3.length outSize stage3

/-! The file. -/

/-- `ids` are the numbers for the ids of the items. -/
def seedCart (ids : ℕ → ℕ → ℕ) : Cart :=
  { title := []
    rev := 0
    items := (SEED_STAPLES.take MAX_ITEMS).mapIdx fun i name =>
      { id := generateHexID (ids i) 8
        name := name.take (NAME_BUF_SIZE - 1)
        qty := 1
        checked := true } }

/-- `sscanf(.., "%16s %15s %3s %1535s")`. -/
def scanItem (s : List UInt8) : Option Item :=
  (scanWord 16 s).bind fun (id, s) =>
    (scanWord 15 s).bind fun (qty, s) =>
      (scanWord 3 s).bind fun (checked, s) =>
        (scanWord 1535 s).map fun (name, _) =>
          { id := id.take (ID_BUF_SIZE - 1)
            name := cstring (decode (NAME_BUF_SIZE - 1) name)
            qty := UInt32.ofNat (strtoul qty)
            checked := strtoul checked ≠ 0 }

/-- The line of a buffer without its end. -/
def chomp (buffer : List UInt8) : List UInt8 := (cstring buffer).rdropWhile isNewline

/-- What a line makes of the cart, and of `sawHeader`. -/
def parseLine (read : Cart × Bool) (line : List UInt8) : Cart × Bool :=
  let cart := read.1
  if (ascii "REV ").isPrefixOf line then
    ({ cart with rev := UInt32.ofNat (strtoul (line.drop 4)) }, true)
  else if (ascii "NAME ").isPrefixOf line then
    let title := cstring (decode (TITLE_BUF_SIZE - 1) (line.drop 5))
    ({ cart with title := if title = ascii "-" then [] else title }, true)
  else if (ascii "ITEM ").isPrefixOf line then
    if MAX_ITEMS ≤ cart.items.length then (cart, true)
    else
      match scanItem (line.drop 5) with
      | some item => ({ cart with items := cart.items ++ [item] }, true)
      | none => (cart, true)
  else read

/-- `char line[2048]`. -/
def LINE_SIZE : ℕ := 2048

def parseCartStream (file : List UInt8) : Cart × Bool :=
  ((readLines (LINE_SIZE - 1) file.length file).map chomp).foldl parseLine (Cart.empty, false)

def revLine (cart : Cart) : List UInt8 := ascii "REV " ++ decimal cart.rev.toNat

def titleLine (cart : Cart) : List UInt8 :=
  ascii "NAME " ++
    if cart.title ≠ [] then encode (TITLE_BUF_SIZE * 3) cart.title else ascii "-"

def itemLine (it : Item) : List UInt8 :=
  ascii "ITEM " ++ it.id ++ ascii " " ++ decimal it.qty.toNat ++ ascii " " ++
    ascii (if it.checked then "1" else "0") ++ ascii " " ++ encode (NAME_BUF_SIZE * 3) it.name

def cartLines (cart : Cart) : List (List UInt8) :=
  revLine cart :: titleLine cart :: cart.items.map itemLine

def serializeCartStream (cart : Cart) : List UInt8 := (cartLines cart).flatMap (· ++ [LF])

/-! The actions. -/

def findItemIndex (cart : Cart) (id : List UInt8) : Option ℕ :=
  cart.items.findIdx? fun it => it.id = id

/-- An `unsigned int` as an `int`. -/
def asInt (n : UInt32) : ℤ := if n.toNat < 2 ^ 31 then n.toNat else n.toNat - 2 ^ 32

/-- The sum of two `int`s, unless it overflows. -/
def addInt (a b : ℤ) : Option ℤ :=
  if -2 ^ 31 ≤ a + b ∧ a + b < 2 ^ 31 then some (a + b) else none

def newQty (it : Item) (params : Params) : Option UInt32 :=
  let wanted :=
    if params.hasDelta then addInt (asInt it.qty) params.delta.toInt
    else if params.hasValue then some params.value.toInt
    else some (asInt it.qty)
  wanted.map fun newQty =>
    let newQty := if newQty < 1 then 1 else newQty
    UInt32.ofNat (if (MAX_QTY : ℤ) < newQty then (MAX_QTY : ℤ) else newQty).toNat

/-- `none` is an overflow. The photos are left out. -/
def applyAction (newID : List UInt8) (cart : Cart) (params : Params) : Option Cart :=
  match params.action with
  | .add =>
    let trimmed := (trim params.text.bytes).take (NAME_BUF_SIZE - 1)
    if trimmed = [] ∨ MAX_NAME_LEN * 4 < trimmed.length then some cart
    else
      let newKey := normGreeklish trimmed NORM_BUF_SIZE
      match cart.items.findIdx? fun it => normGreeklish it.name NORM_BUF_SIZE = newKey with
      | some i =>
        some { cart with items := cart.items.modify i fun it => { it with checked := false } }
      | none =>
        if MAX_ITEMS ≤ cart.items.length then some cart
        else
          let item : Item := { id := newID, name := trimmed, qty := 1, checked := false }
          some { cart with items := item :: cart.items }
  | .qty =>
    match findItemIndex cart params.itemID.bytes with
    | none => some cart
    | some i =>
      (cart.items[i]?).bind fun it => (newQty it params).map fun qty =>
        { cart with items := cart.items.set i { it with qty } }
  | .toggle =>
    match findItemIndex cart params.itemID.bytes with
    | none => some cart
    | some i =>
      some { cart with items := cart.items.modify i fun it => { it with checked := !it.checked } }
  | .del =>
    match findItemIndex cart params.itemID.bytes with
    | none => some cart
    | some i => some { cart with items := cart.items.eraseIdx i }
  | .name =>
    let trimmed := (trim params.text.bytes).take (TITLE_BUF_SIZE - 1)
    if trimmed = [] ∨ trimmed.length ≤ MAX_TITLE_LEN * 4 then some { cart with title := trimmed }
    else some cart
  | .imgdel => some cart
  | .noop => some cart

/-- The arguments of `withCart`, and the numbers of `rand()` for the ids that it may generate. -/
structure Call where
  params : Option Params
  seedIDs : ℕ → ℕ → ℕ
  newID : ℕ → ℕ

/-- The cart that `withCart` finds. -/
def openCart (file : List UInt8) (seedIDs : ℕ → ℕ → ℕ) : Cart :=
  if (parseCartStream file).2 then (parseCartStream file).1 else seedCart seedIDs

/-- What `withCart` makes of the cart that it has found. -/
def mutate (cart : Cart) (call : Call) : Option Cart :=
  match call.params with
  | none => some cart
  | some params =>
    (applyAction (generateHexID call.newID 8) cart params).map fun cart =>
      { cart with rev := cart.rev + 1 }

/-- The file and the cart that the last `withCart` has handed out. -/
structure Shop where
  file : List UInt8
  outCart : Option Cart
deriving DecidableEq

def withCart (shop : Shop) (call : Call) : Option Shop :=
  (mutate (openCart shop.file call.seedIDs) call).map fun cart =>
    { file := serializeCartStream cart
      outCart := some cart }

/-- A run ends with an overflow. -/
def step (shop : Option Shop) (call : Call) : Option Shop := shop.bind fun shop => withCart shop call

def start : Option Shop := some { file := [], outCart := none }

/-! What the carts are to keep. -/

structure Kept (cart : Cart) : Prop where
  items_le : cart.items.length ≤ MAX_ITEMS
  qty : ∀ it ∈ cart.items, 1 ≤ it.qty.toNat ∧ it.qty.toNat ≤ MAX_QTY
  keys : (cart.items.map fun it => normGreeklish it.name NORM_BUF_SIZE).Nodup
  ids : (cart.items.map Item.id).Nodup

/-- The quantity that an action asks for, as it is to be stored. -/
def clampedQty (params : Params) (it : Item) : UInt32 :=
  let wanted : ℤ :=
    if params.hasDelta then it.qty.toNat + params.delta.toInt
    else if params.hasValue then params.value.toInt
    else it.qty.toNat
  UInt32.ofNat (max 1 (min (MAX_QTY : ℤ) wanted)).toNat

/-- What a call makes of the cart that it has found. -/
structure Acts (cart : Cart) (call : Call) (cart' : Cart) : Prop where
  read : call.params = none → cart' = cart
  rev : call.params ≠ none → cart'.rev.toNat = cart.rev.toNat + 1
  qty : ∀ params, call.params = some params → params.action = .qty →
    cart' = { cart with
      rev := cart.rev + 1
      items := cart.items.map fun it =>
        if it.id = params.itemID.bytes then { it with qty := clampedQty params it } else it }
  unknown : ∀ params, call.params = some params →
    params.action ∈ [Action.qty, .toggle, .del, .imgdel] →
    (∀ it ∈ cart.items, it.id ≠ params.itemID.bytes) →
    cart' = { cart with rev := cart.rev + 1 }

/-- The last cart is kept, and the file has it for the next call. -/
structure Stored (shop : Shop) : Prop where
  kept : ∀ cart, shop.outCart = some cart → Kept cart
  restored : ∀ cart, shop.outCart = some cart → parseCartStream shop.file = (cart, true)

/-- The ids that are generated for a cart are distinct. -/
structure Distinct (cart : Cart) (call : Call) : Prop where
  ids : (cart.items.map Item.id).Nodup
  newID : ∀ params, call.params = some params → params.action = .add →
    generateHexID call.newID 8 ∉ cart.items.map Item.id

/-- No title `-`, no sum beyond an `int`, no revision behind the last one. -/
structure Fine (cart : Cart) (params : Params) : Prop where
  title : params.action = .name → trim params.text.bytes ≠ ascii "-"
  qty : params.action = .qty → params.hasDelta → ∀ it ∈ cart.items, it.id = params.itemID.bytes →
    it.qty.toNat + params.delta.toInt < 2 ^ 31
  rev : cart.rev ≠ 2 ^ 32 - 1

def Draws (shop : Option Shop) (call : Call) : Prop :=
  ∀ s, shop = some s → Distinct (openCart s.file call.seedIDs) call

/-- What a call meets in the file. -/
def Meets (shop : Option Shop) (call : Call) : Prop :=
  Draws shop call ∧ ∀ s, shop = some s → ∀ params, call.params = some params →
    Fine (openCart s.file call.seedIDs) params

/-- What holds of a run that has come to `shop`, and of the next call. -/
structure Served (shop : Option Shop) (guard : Option Shop → Call → Prop) : Prop where
  stored : ∃ s, shop = some s ∧ Stored s
  acts : ∀ s, shop = some s → ∀ call, guard shop call →
    ∃ s' cart, step shop call = some s' ∧ s'.outCart = some cart ∧
      Acts (openCart s.file call.seedIDs) call cart

end AmmarServer.SuperMarket
