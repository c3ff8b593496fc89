import Mathlib.Data.Nat.Bitwise

/-! The tags of `threads/uringAPIServer.c`: the `user_data` of a submission and the token of a deferred
request. Every field is an unsigned number, packed into 64 bits. -/

namespace AmmarServer.Uring

def URING_MAX_SLOTS : Nat := 1024 * 1024
def URING_MAX_RINGS : Nat := 16
def URING_OP_RECV : Nat := 2
def URING_OP_SEND : Nat := 3

/-- `URING_USER_DATA`. -/
def userData (op generation slot : Nat) : Nat :=
  op <<< 56 ||| (generation &&& 0xFFFFFF) <<< 32 ||| slot

def userDataOp (ud : Nat) : Nat := ud >>> 56
def userDataGeneration (ud : Nat) : Nat := (ud >>> 32) &&& 0xFFFFFF
def userDataSlot (ud : Nat) : Nat := ud &&& 0xFFFFFFFF

/-- `URING_DEFER_TOKEN`. -/
def deferToken (ringIndex generation slot : Nat) : Nat :=
  (generation &&& 0xFFFFFF) <<< 24 ||| slot <<< 4 ||| ringIndex

def deferTokenRing (token : Nat) : Nat := token &&& 0xF
def deferTokenSlot (token : Nat) : Nat := (token >>> 4) &&& 0xFFFFF
def deferTokenGeneration (token : Nat) : Nat := (token >>> 24) &&& 0xFFFFFF

/-- The fields do not overlap, so packing them is adding them. -/
theorem userData_eq {slot : Nat} (hslot : slot < 2 ^ 32) (op generation : Nat) :
    userData op generation slot = op * 2 ^ 56 + generation % 2 ^ 24 * 2 ^ 32 + slot := by
  have hmask : generation &&& 0xFFFFFF = generation % 2 ^ 24 :=
    Nat.and_two_pow_sub_one_eq_mod generation 24
  have hgeneration : generation % 2 ^ 24 * 2 ^ 32 < 2 ^ 56 := by omega
  have hhigh : 2 ^ 56 * op ||| 2 ^ 32 * (generation % 2 ^ 24) =
      2 ^ 32 * (2 ^ 24 * op + generation % 2 ^ 24) := by
    rw [← Nat.two_pow_add_eq_or_of_lt (by omega)]
    omega
  rw [userData, hmask, Nat.shiftLeft_eq, Nat.shiftLeft_eq, Nat.mul_comm op, Nat.mul_comm _ (2 ^ 32),
    hhigh, ← Nat.two_pow_add_eq_or_of_lt hslot]
  omega

theorem userData_generation {slot : Nat} (hslot : slot < 2 ^ 32) (op generation : Nat) :
    userDataGeneration (userData op generation slot) = generation % 2 ^ 24 := by
  have hmask : ∀ n, n &&& 0xFFFFFF = n % 2 ^ 24 := fun n => Nat.and_two_pow_sub_one_eq_mod n 24
  rw [userDataGeneration, userData_eq hslot, Nat.shiftRight_eq_div_pow, hmask]
  omega

theorem userData_slot {slot : Nat} (hslot : slot < 2 ^ 32) (op generation : Nat) :
    userDataSlot (userData op generation slot) = slot := by
  have hmask : ∀ n, n &&& 0xFFFFFFFF = n % 2 ^ 32 := fun n => Nat.and_two_pow_sub_one_eq_mod n 32
  rw [userDataSlot, userData_eq hslot, hmask]
  omega

theorem deferToken_eq {ringIndex slot : Nat} (hring : ringIndex < URING_MAX_RINGS)
    (hslot : slot < URING_MAX_SLOTS) (generation : Nat) :
    deferToken ringIndex generation slot =
      generation % 2 ^ 24 * 2 ^ 24 + slot * 2 ^ 4 + ringIndex := by
  have hmask : generation &&& 0xFFFFFF = generation % 2 ^ 24 :=
    Nat.and_two_pow_sub_one_eq_mod generation 24
  have hslot : slot < 2 ^ 20 := hslot
  have hring : ringIndex < 2 ^ 4 := hring
  have hhigh : 2 ^ 24 * (generation % 2 ^ 24) ||| 2 ^ 4 * slot =
      2 ^ 4 * (2 ^ 20 * (generation % 2 ^ 24) + slot) := by
    rw [← Nat.two_pow_add_eq_or_of_lt (by omega)]
    omega
  rw [deferToken, hmask, Nat.shiftLeft_eq, Nat.shiftLeft_eq, Nat.mul_comm _ (2 ^ 24),
    Nat.mul_comm slot, hhigh, ← Nat.two_pow_add_eq_or_of_lt hring]
  omega

theorem deferToken_fields {ringIndex slot : Nat} (hring : ringIndex < URING_MAX_RINGS)
    (hslot : slot < URING_MAX_SLOTS) (generation : Nat) :
    deferTokenRing (deferToken ringIndex generation slot) = ringIndex ∧
      deferTokenSlot (deferToken ringIndex generation slot) = slot ∧
      deferTokenGeneration (deferToken ringIndex generation slot) = generation % 2 ^ 24 := by
  have hlow : ∀ n, n &&& 0xF = n % 2 ^ 4 := fun n => Nat.and_two_pow_sub_one_eq_mod n 4
  have hmid : ∀ n, n &&& 0xFFFFF = n % 2 ^ 20 := fun n => Nat.and_two_pow_sub_one_eq_mod n 20
  have hhigh : ∀ n, n &&& 0xFFFFFF = n % 2 ^ 24 := fun n => Nat.and_two_pow_sub_one_eq_mod n 24
  have hslot' : slot < 2 ^ 20 := hslot
  have hring' : ringIndex < 2 ^ 4 := hring
  rw [deferTokenRing, deferTokenSlot, deferTokenGeneration, deferToken_eq hring hslot,
    Nat.shiftRight_eq_div_pow, Nat.shiftRight_eq_div_pow, hlow, hmid, hhigh]
  omega

end AmmarServer.Uring
