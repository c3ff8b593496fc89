import AmmarServer.Lib.Run
import AmmarServer.UserAccounts.Sha256
import Mathlib.Data.List.DropRight
import Mathlib.Data.List.TakeWhile
import Mathlib.Logic.Function.Iterate

/-! The accounts of `UserAccounts/userAccounts.c` and the file they are kept in. A string is the list
of its bytes before the NUL. -/

namespace AmmarServer.UserAccounts
open Sha256 Run

inductive Fault
  /-- A word that is longer than the array it is read into. -/
  | overflow
  /-- A field that the end of the file leaves as it was. -/
  | uninitialized
  | outOfBounds
deriving DecidableEq, Repr

def PASSWORD_HASH_ITERATIONS : ℕ := 10000

def PASSWORD_SALT_BYTES : ℕ := 16

/-- What `getRandomBytes` gives for a salt. -/
structure Salt where
  bytes : List UInt8
  length : bytes.length = PASSWORD_SALT_BYTES

/-- What a session id is made of: the bytes of `getRandomBytes`, or 31 letters of `rand`. -/
inductive SessionSeed
  | bytes (bytes : List UInt8) (length : bytes.length = 15)
  | digits (letters : List UInt8) (length : letters.length = 31)
      (range : ∀ c ∈ letters, 97 ≤ c ∧ c ≤ 121)

structure RegisteredUser where
  username : List UInt8
  password : List UInt8
  sessionID : List UInt8
deriving DecidableEq, Repr

structure UserAccountDatabase where
  userList : List RegisteredUser
  userListMaxSize : ℕ
  /-- The contents of the file, if it is there. -/
  file : Option (List UInt8)
deriving DecidableEq, Repr

def saltedPassword (password salt : List UInt8) : List UInt8 := salt ++ password.take 256

def stretch (mixed : List UInt8) : List UInt8 :=
  sha256Hash^[PASSWORD_HASH_ITERATIONS - 1] (sha256Hash mixed)

def hashPassword (password salt : List UInt8) (outStorageStringSize : ℕ) : List UInt8 :=
  let digest := stretch (saltedPassword password salt)
  let saltHex := sha256ToHex salt (PASSWORD_SALT_BYTES * 2 + 1)
  let hashHex := sha256ToHex digest (SHA256_DIGEST_SIZE * 2 + 1)
  (saltHex ++ 58 :: hashHex).take (outStorageStringSize - 1)

def isSpace (c : UInt8) : Bool := c = 32 ∨ 9 ≤ c ∧ c ≤ 13

/-- `sscanf(s, "%2x", ..)`; the digits it is for have no sign and no `0x`. -/
def scanHexByte (s : List UInt8) : Option UInt8 :=
  match (s.dropWhile isSpace).take 2 with
  | [] => none
  | [c] => Sha256.hexValue c
  | c :: d :: _ =>
    (Sha256.hexValue c).map fun high =>
      match Sha256.hexValue d with
      | some low => high * 16 + low
      | none => high

def scanSalt (storedValue : List UInt8) : ℕ → Option (List UInt8)
  | 0 => some []
  | n + 1 =>
    match scanHexByte storedValue, scanSalt (storedValue.drop 2) n with
    | some byte, some salt => some (byte :: salt)
    | _, _ => none

def verifyPassword (password storedValue : List UInt8) : Bool :=
  match storedValue.findIdx? (· = 58) with
  | none => false
  | some saltHexLen =>
    if saltHexLen ≠ PASSWORD_SALT_BYTES * 2 then false
    else
      match scanSalt storedValue PASSWORD_SALT_BYTES with
      | none => false
      | some salt =>
        hashPassword password salt
          (PASSWORD_SALT_BYTES * 2 + 1 + SHA256_DIGEST_SIZE * 2 + 1) = storedValue

def uadbAuthenticateUser (uadb : UserAccountDatabase) (username password : List UInt8) : Option ℕ :=
  uadb.userList.findIdx? fun user =>
    user.username = username ∧ verifyPassword password user.password

def decimal (n : ℕ) : List UInt8 := (Nat.toDigits 10 n).map fun c => UInt8.ofNat c.toNat

/-- `%d` of an `unsigned int`. -/
def printInt (n : ℕ) : List UInt8 :=
  if n < 2 ^ 31 then decimal n else 45 :: decimal (2 ^ 32 - n)

def saveUser (user : RegisteredUser) : List UInt8 :=
  user.username ++ 10 :: (user.password ++ 10 :: (user.sessionID ++ [10]))

/-- What `uadb_saveUserAccountDatabase` writes. -/
def savedFile (uadb : UserAccountDatabase) : List UInt8 :=
  printInt uadb.userList.length ++ 10 :: uadb.userList.flatMap saveUser

def uadbSaveUserAccountDatabase (uadb : UserAccountDatabase) (opens : Bool) :
    Bool × UserAccountDatabase :=
  if opens then (true, { uadb with file := some (savedFile uadb) }) else (false, uadb)

def isDigit (c : UInt8) : Bool := 48 ≤ c ∧ c ≤ 57

def readDigits (s : List UInt8) : ℕ := s.foldl (fun n c => n * 10 + (c.toNat - 48)) 0

/-- `fscanf(.., "%d\n", ..)` into an `unsigned int`. -/
def scanInt (file : List UInt8) : Option (ℕ × List UInt8) :=
  let file := file.dropWhile isSpace
  let negative := file.head? = some 45
  let file := if file.head? = some 45 ∨ file.head? = some 43 then file.tail else file
  let digits := file.takeWhile isDigit
  if digits = [] then none
  else
    let n := readDigits digits % 2 ^ 32
    some (if negative then (2 ^ 32 - n) % 2 ^ 32 else n,
      (file.dropWhile isDigit).dropWhile isSpace)

/-- `fscanf(.., "%s\n", ..)` into an array of `size` bytes. -/
def scanWord (size : ℕ) (file : List UInt8) : Except Fault (List UInt8 × List UInt8) :=
  let file := file.dropWhile isSpace
  let word := file.takeWhile (!isSpace ·)
  if word = [] then .error .uninitialized
  else if size ≤ word.length then .error .overflow
  else .ok (word, (file.dropWhile (!isSpace ·)).dropWhile isSpace)

def scanUsers : ℕ → List UInt8 → Except Fault (List RegisteredUser)
  | 0, _ => .ok []
  | n + 1, file => do
    let (username, file) ← scanWord 32 file
    let (password, file) ← scanWord 128 file
    let (sessionID, file) ← scanWord 32 file
    let users ← scanUsers n file
    return ⟨username, password, sessionID⟩ :: users

def uadbInitializeUserAccountDatabase (file : Option (List UInt8)) :
    Except Fault UserAccountDatabase :=
  match file with
  | some file =>
    match scanInt file with
    | none => .error .uninitialized
    | some (userListSize, rest) => do
      let userList ← scanUsers userListSize rest
      return ⟨userList, (userListSize + 100) % 2 ^ 32, file⟩
  -- the first run
  | none => .ok ⟨[], 100, none⟩

/-- One registration, with what the allocator, the generator and the file system answer. -/
structure Registration where
  username : List UInt8
  password : List UInt8
  realloc : Bool
  salt : Option Salt
  session : SessionSeed
  opens : Bool

def SessionSeed.text : SessionSeed → List UInt8
  | .bytes seed _ => sha256ToHex seed 32
  | .digits letters .. => letters

def newUser (r : Registration) (salt : Salt) : RegisteredUser :=
  { username := r.username.take 31
    password := hashPassword r.password salt.bytes 128
    sessionID := r.session.text }

def uadbAddUser (uadb : UserAccountDatabase) (r : Registration) :
    Except Fault (Bool × UserAccountDatabase) :=
  if uadb.userList.any fun user => user.username = r.username then .ok (false, uadb)
  else
    let grows := uadb.userListMaxSize ≤ uadb.userList.length
    if grows ∧ !r.realloc then .ok (false, uadb)
    else
      let userListMaxSize :=
        if grows then (uadb.userListMaxSize + 100) % 2 ^ 32 else uadb.userListMaxSize
      if userListMaxSize ≤ uadb.userList.length then .error .outOfBounds
      else
        let uadb := { uadb with userListMaxSize }
        match r.salt with
        | none => .ok (false, uadb)
        | some salt =>
          let uadb := { uadb with userList := uadb.userList ++ [newUser r salt] }
          .ok (true, (uadbSaveUserAccountDatabase uadb r.opens).2)

/-- What `%s` reads back from a line of its own. -/
structure Word (size : ℕ) (s : List UInt8) : Prop where
  ne_nil : s ≠ []
  noSpace : ∀ c ∈ s, isSpace c = false
  fits : s.length < size

theorem isDigit_decimal {n : ℕ} : ∀ c ∈ decimal n, isDigit c = true := by
  intro c hc
  obtain ⟨d, hd, rfl⟩ := List.mem_map.mp hc
  obtain ⟨hnat, hlow, hhigh⟩ :=
    Bytes.toNat_ofNat_digit (Nat.isDigit_of_mem_toDigits (by decide) (by decide) hd)
  refine decide_eq_true ⟨?_, ?_⟩
  · rw [UInt8.le_iff_toNat_le, hnat]
    exact hlow
  · rw [UInt8.le_iff_toNat_le, hnat]
    exact hhigh

theorem readDigits_decimal (n : ℕ) : readDigits (decimal n) = n :=
  Bytes.foldl_toDigits n

theorem decimal_ne_nil (n : ℕ) : decimal n ≠ [] := by
  unfold decimal
  rw [Ne, List.map_eq_nil_iff]
  exact Nat.toDigits_ne_nil

theorem isSpace_of_isDigit {c : UInt8} (h : isDigit c = true) : isSpace c = false := by
  revert c
  apply Bytes.forall_byte
  decide +kernel

theorem sign_of_isDigit {c : UInt8} (h : isDigit c = true) : c ≠ 45 ∧ c ≠ 43 := by
  revert c
  apply Bytes.forall_byte
  decide +kernel

theorem digits_of_line (n : ℕ) (rest : List UInt8) :
    (decimal n ++ 10 :: rest).takeWhile isDigit = decimal n ∧
      (decimal n ++ 10 :: rest).dropWhile isDigit = 10 :: rest := by
  constructor
  · rw [List.takeWhile_append_of_pos isDigit_decimal]
    exact List.append_nil _
  · rw [List.dropWhile_append_of_pos isDigit_decimal]
    rfl

theorem scanInt_printInt {n : ℕ} (hn : n < 2 ^ 32) (rest : List UInt8) :
    scanInt (printInt n ++ 10 :: rest) = some (n, rest.dropWhile isSpace) := by
  have hline : (10 :: rest).dropWhile isSpace = rest.dropWhile isSpace := rfl
  unfold scanInt printInt
  split
  · obtain ⟨c, digits, hdecimal⟩ := List.exists_cons_of_ne_nil (decimal_ne_nil n)
    obtain ⟨htake, hdrop⟩ := digits_of_line n rest
    have hdigit : isDigit c = true := isDigit_decimal c (hdecimal ▸ List.mem_cons_self ..)
    obtain ⟨hminus, hplus⟩ := sign_of_isDigit hdigit
    have hspace : (decimal n ++ 10 :: rest).dropWhile isSpace = decimal n ++ 10 :: rest := by
      rw [hdecimal, List.cons_append, List.dropWhile_cons_of_neg]
      rw [isSpace_of_isDigit hdigit]
      decide
    have hhead : (decimal n ++ 10 :: rest).head? = some c := by rw [hdecimal]; rfl
    simp only [hspace, hhead, Option.some.injEq, hminus, hplus, or_self, if_false, htake, hdrop,
      if_neg (decimal_ne_nil n), readDigits_decimal, Nat.mod_eq_of_lt hn, hline]
  · rename_i hbig
    obtain ⟨htake, hdrop⟩ := digits_of_line (2 ^ 32 - n) rest
    have hspace : (45 :: (decimal (2 ^ 32 - n) ++ 10 :: rest)).dropWhile isSpace =
        45 :: (decimal (2 ^ 32 - n) ++ 10 :: rest) := rfl
    have hvalue : (2 ^ 32 - (2 ^ 32 - n) % 2 ^ 32) % 2 ^ 32 = n := by omega
    simp only [List.cons_append, hspace, List.head?_cons, true_or, if_true, List.tail_cons, htake,
      hdrop, if_neg (decimal_ne_nil _), readDigits_decimal, hline, hvalue]

theorem scanWord_dropWhile (size : ℕ) (file : List UInt8) :
    scanWord size (file.dropWhile isSpace) = scanWord size file := by
  unfold scanWord
  rw [List.dropWhile_idempotent]

theorem scanWord_line {size : ℕ} {s : List UInt8} (hs : Word size s) (rest : List UInt8) :
    scanWord size (s ++ 10 :: rest) = .ok (s, rest.dropWhile isSpace) := by
  obtain ⟨c, s', rfl⟩ := List.exists_cons_of_ne_nil hs.ne_nil
  have hspace : (c :: s' ++ 10 :: rest).dropWhile isSpace = c :: s' ++ 10 :: rest := by
    rw [List.cons_append, List.dropWhile_cons_of_neg]
    rw [hs.noSpace c (List.mem_cons_self ..)]
    decide
  have hword : ∀ d ∈ c :: s', (!isSpace d) = true := by
    intro d hd
    rw [hs.noSpace d hd]
    rfl
  have htake : (c :: s' ++ 10 :: rest).takeWhile (!isSpace ·) = c :: s' := by
    rw [List.takeWhile_append_of_pos hword]
    exact List.append_nil _
  have hdrop : (c :: s' ++ 10 :: rest).dropWhile (!isSpace ·) = 10 :: rest := by
    rw [List.dropWhile_append_of_pos hword]
    rfl
  unfold scanWord
  simp only [hspace, htake, hdrop, if_neg hs.ne_nil, if_neg (not_le.mpr hs.fits)]
  rfl

theorem word_of_scanWord {size : ℕ} {file s rest : List UInt8}
    (h : scanWord size file = .ok (s, rest)) : Word size s := by
  unfold scanWord at h
  simp only at h
  split at h
  · cases h
  · rename_i hne
    split at h
    · cases h
    · rename_i hfits
      cases h
      refine ⟨hne, fun c hc => ?_, not_le.mp hfits⟩
      have := List.mem_takeWhile_imp hc
      simpa using this

/-- The fields of an account can be read back. -/
structure Readable (user : RegisteredUser) : Prop where
  username : Word 32 user.username
  password : Word 128 user.password
  sessionID : Word 32 user.sessionID

theorem scanUsers_dropWhile (n : ℕ) (file : List UInt8) :
    scanUsers n (file.dropWhile isSpace) = scanUsers n file := by
  cases n with
  | zero => rfl
  | succ n => rw [scanUsers, scanUsers, scanWord_dropWhile]

theorem scanUsers_saved {users : List RegisteredUser} (h : ∀ user ∈ users, Readable user) :
    scanUsers users.length (users.flatMap saveUser) = .ok users := by
  induction users with
  | nil => rfl
  | cons user users ih =>
    obtain ⟨huser, hrest⟩ := List.forall_mem_cons.mp h
    rw [List.flatMap_cons, saveUser, List.length_cons, scanUsers]
    simp only [List.append_assoc, List.cons_append, List.nil_append]
    rw [scanWord_line huser.username]
    simp only [bind, Except.bind]
    rw [scanWord_dropWhile, scanWord_line huser.password]
    simp only
    rw [scanWord_dropWhile, scanWord_line huser.sessionID]
    simp only
    rw [scanUsers_dropWhile, ih hrest]
    rfl

theorem readable_of_scanUsers {n : ℕ} {file : List UInt8} {users : List RegisteredUser}
    (h : scanUsers n file = .ok users) : ∀ user ∈ users, Readable user := by
  induction n generalizing file users with
  | zero =>
    cases h
    exact fun user hmem => absurd hmem List.not_mem_nil
  | succ n ih =>
    rw [scanUsers] at h
    simp only [bind, Except.bind] at h
    cases husername : scanWord 32 file with
    | error fault =>
      rw [husername] at h
      cases h
    | ok word =>
      rw [husername] at h
      simp only at h
      cases hpassword : scanWord 128 word.2 with
      | error fault =>
        rw [hpassword] at h
        cases h
      | ok word' =>
        rw [hpassword] at h
        simp only at h
        cases hsession : scanWord 32 word'.2 with
        | error fault =>
          rw [hsession] at h
          cases h
        | ok word'' =>
          rw [hsession] at h
          simp only at h
          cases hrest : scanUsers n word''.2 with
          | error fault =>
            rw [hrest] at h
            cases h
          | ok rest =>
            rw [hrest] at h
            cases h
            refine List.forall_mem_cons.mpr ⟨⟨?_, ?_, ?_⟩, ih hrest⟩
            · exact word_of_scanWord husername
            · exact word_of_scanWord hpassword
            · exact word_of_scanWord hsession

theorem length_stretch (mixed : List UInt8) : (stretch mixed).length = SHA256_DIGEST_SIZE := by
  unfold stretch PASSWORD_HASH_ITERATIONS
  rw [Function.iterate_succ_apply' _ 9998]
  exact length_sha256Hash _

theorem hashPassword_eq {password salt : List UInt8} {size : ℕ}
    (hsalt : salt.length = PASSWORD_SALT_BYTES) (hsize : 98 ≤ size) :
    hashPassword password salt size =
      sha256ToHex salt 33 ++ 58 :: sha256ToHex (stretch (saltedPassword password salt)) 65 := by
  have hsaltHex := @length_sha256ToHex salt 33 (by rw [hsalt]; decide)
  have hhashHex := @length_sha256ToHex (stretch (saltedPassword password salt)) 65
    (by rw [length_stretch]; decide)
  unfold hashPassword
  apply List.take_of_length_le
  show (sha256ToHex salt 33 ++ 58 :: sha256ToHex (stretch (saltedPassword password salt)) 65).length
    ≤ size - 1
  rw [List.length_append, List.length_cons, hsaltHex, hhashHex, hsalt, length_stretch]
  unfold PASSWORD_SALT_BYTES SHA256_DIGEST_SIZE
  omega

theorem isSpace_of_le {c : UInt8} (h : 48 ≤ c) : isSpace c = false := by
  revert c
  apply Bytes.forall_byte
  decide +kernel

theorem scanHexByte_digits (byte : UInt8) (rest : List UInt8) :
    scanHexByte (hexChar (byte >>> 4 &&& 0xf) :: hexChar (byte &&& 0xf) :: rest) = some byte := by
  obtain ⟨hhigh, hlow, hbyte⟩ := hexDigits byte
  unfold scanHexByte
  rw [List.dropWhile_cons_of_neg (by rw [isSpace_of_le (hexChar_bounds _).1]; decide)]
  simp only [List.take_succ_cons, List.take_zero, hhigh, hlow, Option.map_some, hbyte]

theorem scanSalt_digits (salt rest : List UInt8) :
    scanSalt ((salt.flatMap fun byte : UInt8 =>
      [hexChar (byte >>> 4 &&& 0xf), hexChar (byte &&& 0xf)]) ++ rest) salt.length = some salt := by
  induction salt with
  | nil => rfl
  | cons byte salt ih =>
    rw [List.flatMap_cons, List.length_cons, scanSalt]
    simp only [List.cons_append, List.nil_append, scanHexByte_digits, List.drop_succ_cons,
      List.drop_zero, ih]

/-- A stored password is verified by the passwords that give its digest. -/
theorem verifyPassword_hashPassword {password other salt : List UInt8}
    (hsalt : salt.length = PASSWORD_SALT_BYTES) :
    verifyPassword other (hashPassword password salt 128) = true ↔
      stretch (saltedPassword other salt) = stretch (saltedPassword password salt) := by
  have hfits : salt.length * 2 + 1 ≤ 33 := by rw [hsalt]; decide
  have hcolon : (sha256ToHex salt 33).findIdx? (· = 58) = none := by
    rw [List.findIdx?_eq_none_iff]
    exact fun c hc => decide_eq_false (mem_sha256ToHex hc).2
  have hindex : (sha256ToHex salt 33 ++
      58 :: sha256ToHex (stretch (saltedPassword password salt)) 65).findIdx? (· = 58) =
        some (PASSWORD_SALT_BYTES * 2) := by
    rw [List.findIdx?_append, hcolon, List.findIdx?_cons, length_sha256ToHex hfits, hsalt]
    rfl
  have hscan : scanSalt (sha256ToHex salt 33 ++
      58 :: sha256ToHex (stretch (saltedPassword password salt)) 65) PASSWORD_SALT_BYTES =
        some salt := by
    rw [sha256ToHex_eq hfits, ← hsalt]
    exact scanSalt_digits salt _
  have hdigest : ∀ p, (stretch (saltedPassword p salt)).length * 2 + 1 ≤ 65 := by
    intro p
    rw [length_stretch]
    decide
  unfold verifyPassword
  rw [hashPassword_eq hsalt (by decide), hindex]
  simp only [ne_eq, not_true_eq_false, if_false, hscan]
  rw [decide_eq_true_iff, hashPassword_eq hsalt (by decide), List.append_cancel_left_eq,
    List.cons.injEq]
  constructor
  · rintro ⟨-, hsame⟩
    rw [sha256ToHex_eq (hdigest other), sha256ToHex_eq (hdigest password)] at hsame
    exact hexDigits_injective hsame
  · intro hsame
    rw [hsame]
    exact ⟨rfl, rfl⟩

end AmmarServer.UserAccounts
