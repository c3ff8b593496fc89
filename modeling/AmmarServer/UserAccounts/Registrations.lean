import AmmarServer.UserAccounts.UserAccounts

/-! Every sequence of registrations: which accounts can log in, before and behind a restart. -/

namespace AmmarServer.UserAccounts
open Sha256 Run

/-- A registration that was taken, with its salt. -/
structure Account where
  registration : Registration
  salt : Salt

def Account.user (account : Account) : RegisteredUser := newUser account.registration account.salt

/-- A database, and what it was made of. -/
structure Accounts where
  uadb : UserAccountDatabase
  created : List Account

def Accounts.register (a : Accounts) (r : Registration) : Except Fault Accounts :=
  (uadbAddUser a.uadb r).map fun answer =>
    { uadb := answer.2
      created := if answer.1 then a.created ++ (r.salt.map (⟨r, ·⟩)).toList else a.created }

/-- A registration that faults ends the run. -/
def step (s : Except Fault Accounts) (r : Registration) : Except Fault Accounts :=
  s.bind fun a => a.register r

def start (file : Option (List UInt8)) : Except Fault Accounts := .ok ⟨⟨[], 100, file⟩, []⟩

def NoCollision (account : Account) (password : List UInt8) : Prop :=
  stretch (saltedPassword password account.salt.bytes) =
      stretch (saltedPassword account.registration.password account.salt.bytes) →
    saltedPassword password account.salt.bytes =
      saltedPassword account.registration.password account.salt.bytes

structure Kept (a : Accounts) : Prop where
  distinct : (a.uadb.userList.map (·.username)).Nodup
  authenticates : ∀ i account, a.created[i]? = some account →
    ∀ password, NoCollision account password →
      uadbAuthenticateUser a.uadb account.registration.username password =
        if password.take 256 = account.registration.password.take 256 then some i else none
  reloads : ∃ uadb, uadbInitializeUserAccountDatabase (some (savedFile a.uadb)) = .ok uadb ∧
    uadb.userList = a.uadb.userList ∧
    ∀ username password,
      uadbAuthenticateUser uadb username password = uadbAuthenticateUser a.uadb username password

structure Inv (a : Accounts) : Prop where
  accounts : a.uadb.userList = a.created.map Account.user
  distinct : a.created.Pairwise fun account account' =>
    account.user.username ≠ account'.registration.username
  room : a.uadb.userList.length ≤ a.uadb.userListMaxSize
  bounded : a.uadb.userListMaxSize < 2 ^ 32

variable {a a' : Accounts} {r : Registration} {file : Option (List UInt8)}

theorem uadbAddUser_cases {uadb uadb' : UserAccountDatabase} {ok : Bool}
    (hroom : uadb.userList.length ≤ uadb.userListMaxSize) (hbounded : uadb.userListMaxSize < 2 ^ 32)
    (hadd : uadbAddUser uadb r = .ok (ok, uadb')) :
    uadb'.userList.length ≤ uadb'.userListMaxSize ∧ uadb'.userListMaxSize < 2 ^ 32 ∧
      ((ok = false ∧ uadb'.userList = uadb.userList) ∨
        ∃ salt, ok = true ∧ r.salt = some salt ∧
          (∀ user ∈ uadb.userList, user.username ≠ r.username) ∧
          uadb'.userList = uadb.userList ++ [newUser r salt]) := by
  unfold uadbAddUser at hadd
  by_cases htaken : uadb.userList.any (fun user => user.username = r.username) = true
  · rw [if_pos htaken] at hadd
    cases hadd
    exact ⟨hroom, hbounded, .inl ⟨rfl, rfl⟩⟩
  · rw [if_neg htaken] at hadd
    simp only at hadd
    have hsize : (if uadb.userListMaxSize ≤ uadb.userList.length then
        (uadb.userListMaxSize + 100) % 2 ^ 32 else uadb.userListMaxSize) < 2 ^ 32 := by
      split
      · exact Nat.mod_lt _ (by decide)
      · exact hbounded
    generalize (if uadb.userListMaxSize ≤ uadb.userList.length then
      (uadb.userListMaxSize + 100) % 2 ^ 32 else uadb.userListMaxSize) = size at hsize hadd
    split at hadd
    · cases hadd
      exact ⟨hroom, hbounded, .inl ⟨rfl, rfl⟩⟩
    · split at hadd
      · cases hadd
      · rename_i hfits
        have hfits := not_le.mp hfits
        cases hsalt : r.salt with
        | none =>
          rw [hsalt] at hadd
          cases hadd
          exact ⟨hfits.le, hsize, .inl ⟨rfl, rfl⟩⟩
        | some salt =>
          rw [hsalt] at hadd
          have hfree : ∀ user ∈ uadb.userList, user.username ≠ r.username := by
            simpa using htaken
          have hlength : (uadb.userList ++ [newUser r salt]).length ≤ size := by
            rw [List.length_append]
            exact hfits
          simp only [uadbSaveUserAccountDatabase] at hadd
          split at hadd
          · cases hadd
            exact ⟨hlength, hsize, .inr ⟨salt, rfl, rfl, hfree, rfl⟩⟩
          · cases hadd
            exact ⟨hlength, hsize, .inr ⟨salt, rfl, rfl, hfree, rfl⟩⟩

theorem Inv.register (h : Inv a) (hregister : a.register r = .ok a') : Inv a' := by
  unfold Accounts.register at hregister
  cases hadd : uadbAddUser a.uadb r with
  | error fault =>
    rw [hadd] at hregister
    cases hregister
  | ok answer =>
    obtain ⟨ok, uadb⟩ := answer
    rw [hadd] at hregister
    cases hregister
    obtain ⟨hroom, hbounded, ⟨rfl, hsame⟩ | ⟨salt, rfl, hsalt, hfree, happended⟩⟩ :=
      uadbAddUser_cases h.room h.bounded hadd
    · exact ⟨hsame.trans h.accounts, h.distinct, hroom, hbounded⟩
    · have hinv : Inv ⟨uadb, a.created ++ [⟨r, salt⟩]⟩ := by
        refine ⟨?_, ?_, hroom, hbounded⟩
        · show uadb.userList = List.map Account.user (a.created ++ [⟨r, salt⟩])
          rw [happended, h.accounts, List.map_append]
          rfl
        · refine List.pairwise_append.mpr ⟨h.distinct, List.pairwise_singleton _ _, ?_⟩
          intro account haccount other hother
          rw [List.mem_singleton.mp hother]
          refine hfree _ ?_
          rw [h.accounts]
          exact List.mem_map_of_mem haccount
      rw [hsalt]
      exact hinv

theorem inv_of_reaches {s : Except Fault Accounts}
    (hrun : Reaches step (fun _ _ => True) (start file) s) : ∀ a, s = .ok a → Inv a := by
  refine @Reaches.invariant _ _ _ _ _ (fun s => ∀ a, s = .ok a → Inv a) ?_ ?_ _ hrun
  · rintro a hstart
    cases hstart
    exact ⟨rfl, .nil, Nat.zero_le _, (by decide : 100 < 2 ^ 32)⟩
  · rintro s r h - a' hstep
    cases s with
    | error fault => cases hstep
    | ok a => exact (h a rfl).register hstep

/-- Every user name can be read back from its line. -/
def Named (a : Accounts) : Prop := ∀ account ∈ a.created, Word 32 account.registration.username

theorem take_of_word {account : Account} (h : Word 32 account.registration.username) :
    account.user.username = account.registration.username :=
  List.take_of_length_le (Nat.le_of_lt_succ h.fits)

theorem word_sessionID (session : SessionSeed) : Word 32 session.text := by
  cases session with
  | bytes seed hlength =>
    have hfits : seed.length * 2 + 1 ≤ 32 := by omega
    have hlen := length_sha256ToHex hfits
    refine ⟨?_, fun c hc => isSpace_of_le (mem_sha256ToHex hc).1, ?_⟩
    · exact List.ne_nil_of_length_pos (by rw [SessionSeed.text, hlen]; omega)
    · rw [SessionSeed.text, hlen]
      omega
  | digits letters hlength hrange =>
    refine ⟨List.ne_nil_of_length_pos (by rw [SessionSeed.text, hlength]; decide),
      fun c hc => isSpace_of_le ?_, ?_⟩
    · exact UInt8.le_trans (by decide : (48 : UInt8) ≤ 97) (hrange c hc).1
    · rw [SessionSeed.text, hlength]
      decide

theorem word_hashPassword (password : List UInt8) (salt : Salt) :
    Word 128 (hashPassword password salt.bytes 128) := by
  have hsaltHex := @length_sha256ToHex salt.bytes 33 (by rw [salt.length]; decide)
  have hhashHex := @length_sha256ToHex (stretch (saltedPassword password salt.bytes)) 65
    (by rw [length_stretch]; decide)
  rw [hashPassword_eq salt.length (by decide)]
  refine ⟨by simp, fun c hc => isSpace_of_le ?_, ?_⟩
  · rcases List.mem_append.mp hc with hc | hc
    · exact (mem_sha256ToHex hc).1
    · rcases List.mem_cons.mp hc with rfl | hc
      · decide
      · exact (mem_sha256ToHex hc).1
  · rw [List.length_append, List.length_cons, hsaltHex, hhashHex, salt.length, length_stretch]
    decide

theorem readable_user {account : Account} (h : Word 32 account.registration.username) :
    Readable account.user where
  username := (take_of_word h).symm ▸ h
  password := word_hashPassword _ _
  sessionID := word_sessionID _

theorem Inv.reloads (h : Inv a) (hnamed : Named a) :
    uadbInitializeUserAccountDatabase (some (savedFile a.uadb)) =
      .ok ⟨a.uadb.userList, (a.uadb.userList.length + 100) % 2 ^ 32, some (savedFile a.uadb)⟩ := by
  have hreadable : ∀ user ∈ a.uadb.userList, Readable user := by
    intro user huser
    rw [h.accounts] at huser
    obtain ⟨account, haccount, rfl⟩ := List.mem_map.mp huser
    exact readable_user (hnamed account haccount)
  unfold uadbInitializeUserAccountDatabase
  have hscan := scanInt_printInt (h.room.trans_lt h.bounded) (a.uadb.userList.flatMap saveUser)
  rw [← savedFile] at hscan
  simp only [hscan, scanUsers_dropWhile, scanUsers_saved hreadable]
  rfl

theorem Inv.usernames (h : Inv a) (hnamed : Named a) :
    a.uadb.userList.map (·.username) = a.created.map (·.registration.username) := by
  rw [h.accounts, List.map_map]
  exact List.map_congr_left fun account haccount => take_of_word (hnamed account haccount)

theorem Inv.nodup (h : Inv a) (hnamed : Named a) :
    (a.created.map (·.registration.username)).Nodup := by
  rw [List.Nodup, List.pairwise_map]
  refine List.Pairwise.imp_of_mem ?_ h.distinct
  intro account account' haccount _ hne
  rwa [take_of_word (hnamed account haccount)] at hne

theorem Inv.authenticates (h : Inv a) (hnamed : Named a) {i : ℕ} {account : Account}
    (hi : a.created[i]? = some account) {password : List UInt8}
    (hcollision : NoCollision account password) :
    uadbAuthenticateUser a.uadb account.registration.username password =
      if password.take 256 = account.registration.password.take 256 then some i else none := by
  have hverifies : verifyPassword password account.user.password = true ↔
      password.take 256 = account.registration.password.take 256 := by
    rw [Account.user, newUser, verifyPassword_hashPassword account.salt.length]
    constructor
    · intro hsame
      exact List.append_cancel_left (hcollision hsame)
    · intro hsame
      unfold saltedPassword
      rw [hsame]
  have honly : ∀ j account', a.created[j]? = some account' →
      account'.user.username = account.registration.username → j = i := by
    intro j account' hj hname
    rw [take_of_word (hnamed account' (List.mem_of_getElem? hj))] at hname
    have hj' : (a.created.map (·.registration.username))[j]? =
        some account.registration.username := by rw [List.getElem?_map, hj, ← hname]; rfl
    have hi' : (a.created.map (·.registration.username))[i]? =
        some account.registration.username := by rw [List.getElem?_map, hi]; rfl
    exact (List.getElem?_inj (List.getElem?_eq_some_iff.mp hj').1 (h.nodup hnamed)).mp
      (hj'.trans hi'.symm)
  have huser : a.uadb.userList[i]? = some account.user := by
    rw [h.accounts, List.getElem?_map, hi]
    rfl
  unfold uadbAuthenticateUser
  split
  · rename_i hagree
    obtain ⟨hlt, hget⟩ := List.getElem?_eq_some_iff.mp huser
    refine List.findIdx?_eq_some_iff_getElem.mpr ⟨hlt, ?_, fun j hj => ?_⟩
    · rw [hget]
      exact decide_eq_true
        ⟨take_of_word (hnamed account (List.mem_of_getElem? hi)), hverifies.mpr hagree⟩
    · intro htrue
      have hj' : a.uadb.userList[j]? = some a.uadb.userList[j] := List.getElem?_eq_getElem _
      generalize a.uadb.userList[j] = user at htrue hj'
      rw [h.accounts, List.getElem?_map] at hj'
      obtain ⟨account', haccount, rfl⟩ := Option.map_eq_some_iff.mp hj'
      exact absurd (honly j account' haccount (of_decide_eq_true htrue).1) hj.ne
  · rename_i hdiffers
    refine List.findIdx?_eq_none_iff.mpr fun user huser' => ?_
    rw [h.accounts] at huser'
    obtain ⟨account', haccount', rfl⟩ := List.mem_map.mp huser'
    obtain ⟨j, hj⟩ := List.mem_iff_getElem?.mp haccount'
    refine decide_eq_false fun ⟨hname, hverified⟩ => hdiffers ?_
    rw [honly j account' hj hname, hi] at hj
    cases hj
    exact hverifies.mp hverified

theorem Inv.kept (h : Inv a) (hnamed : Named a) : Kept a where
  distinct := by
    rw [h.usernames hnamed]
    exact h.nodup hnamed
  authenticates _ _ hi _ hcollision := h.authenticates hnamed hi hcollision
  reloads := ⟨_, h.reloads hnamed, rfl, fun _ _ => rfl⟩

theorem named_of_kept (hkept : Kept a) : Named a := by
  intro account haccount
  obtain ⟨i, hi⟩ := List.mem_iff_getElem?.mp haccount
  have hlogin := hkept.authenticates i account hi account.registration.password fun _ => rfl
  rw [if_pos rfl] at hlogin
  unfold uadbAuthenticateUser at hlogin
  obtain ⟨hlt, hmatch, -⟩ := List.findIdx?_eq_some_iff_getElem.mp hlogin
  have hname := (of_decide_eq_true hmatch).1
  obtain ⟨uadb, hload, hsame, -⟩ := hkept.reloads
  have hread : Readable a.uadb.userList[i] := by
    unfold uadbInitializeUserAccountDatabase at hload
    simp only at hload
    split at hload
    · cases hload
    · rename_i hscan
      simp only [bind, Except.bind] at hload
      split at hload
      · cases hload
      · rename_i hscanned
        cases hload
        refine readable_of_scanUsers hscanned _ ?_
        simp only at hsame
        rw [hsame]
        exact List.getElem_mem hlt
  rw [← hname]
  exact hread.username

/-- Behind every sequence of registrations the accounts are kept just if their names can be read
back. -/
theorem accounts_kept_iff {s : Except Fault Accounts}
    (hrun : Reaches step (fun _ _ => True) (start file) s) (hs : s = .ok a) :
    Kept a ↔ ∀ account ∈ a.created, Word 32 account.registration.username :=
  ⟨named_of_kept, (inv_of_reaches hrun a hs).kept⟩

/-- A first registration for which everything is there. -/
def signUp (username password : List UInt8) : Registration :=
  { username
    password
    realloc := true
    salt := some ⟨List.replicate 16 7, rfl⟩
    session := .bytes (List.replicate 15 9) rfl
    opens := true }

theorem accounts_kept_signUp :
    ∃ a, step (start none) (signUp [98, 111, 98] [120]) = .ok a ∧
      (Kept a ↔ ∀ account ∈ a.created, Word 32 account.registration.username) :=
  ⟨_, rfl, @accounts_kept_iff _ none _ (.step (signUp [98, 111, 98] [120]) .start trivial) rfl⟩

/-- The name "ann lee" is two words when it is read back. -/
theorem accounts_not_kept :
    ¬ ∀ (file : Option (List UInt8)) (s : Except Fault Accounts),
      Reaches step (fun _ _ => True) (start file) s → ∀ a, s = .ok a → Kept a := by
  intro hall
  have hkept := hall none _ (.step (signUp [97, 110, 110, 32, 108, 101, 101] [120]) .start trivial)
    _ rfl
  have hword := named_of_kept hkept _ (List.mem_singleton_self _)
  have hspace := hword.noSpace 32 (by decide)
  revert hspace
  decide

end AmmarServer.UserAccounts
