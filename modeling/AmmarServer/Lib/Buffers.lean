import Mathlib.Data.List.Basic
import AmmarServer.Lib.Loops

/-! Buffers of any elements that are read and written one element or a few at a time, and how far one has
been written. -/

namespace Buffers

/-- What C leaves undefined. -/
inductive Fault
  | outOfBounds
  | nullDereference
deriving DecidableEq, Repr

variable {α : Type*}

def readAt (buf : List α) (p : ℕ) : Except Fault α :=
  match buf[p]? with
  | some a => .ok a
  | none => .error .outOfBounds

def writeAt (buf : List α) (p : ℕ) (a : α) : Except Fault (List α) :=
  if p < buf.length then .ok (buf.set p a) else .error .outOfBounds

/-- So many elements from a place. -/
def loadAt [Inhabited α] (n : ℕ) (buf : List α) (p : ℕ) : Except Fault (Fin n → α) :=
  if p + n ≤ buf.length then .ok fun k => buf.getD (p + k) default else .error .outOfBounds

def storeAt {n : ℕ} (buf : List α) (p : ℕ) (v : Fin n → α) : Except Fault (List α) :=
  if p + n ≤ buf.length then .ok (buf.take p ++ (List.ofFn v ++ buf.drop (p + n)))
  else .error .outOfBounds

/-- A row of a buffer, outside of which nothing may be read. -/
def rowAt (buf : List α) (stride y : ℕ) : Except Fault (List α) :=
  if (y + 1) * stride ≤ buf.length then .ok ((buf.drop (y * stride)).take stride) else .error .outOfBounds

/-- The first `n` of the elements are those of `f`. -/
structure Written (f : ℕ → α) (size n : ℕ) (r : List α) : Prop where
  length : r.length = size
  done : ∀ k < n, r[k]? = some (f k)

namespace Written
variable {f : ℕ → α} {size n : ℕ} {r : List α}

theorem start (f : ℕ → α) (h : r.length = size) : Written f size 0 r :=
  ⟨h, fun _ hk => absurd hk (Nat.not_lt_zero _)⟩

theorem read (h : Written f size n r) {k : ℕ} (hk : k < n) : readAt r k = .ok (f k) := by
  unfold readAt
  rw [h.done k hk]

theorem load [Inhabited α] (h : Written f size n r) {p m : ℕ} (hp : p + m ≤ n) (hn : n ≤ size) :
    loadAt m r p = .ok fun k => f (p + k) := by
  have hinside : p + m ≤ r.length := by
    rw [h.length]
    omega
  refine (if_pos hinside).trans (congrArg Except.ok (funext fun k => ?_))
  rw [List.getD_eq_getElem?_getD, h.done (p + k) (by omega)]
  rfl

/-- What is read behind the last written element is arbitrary. -/
theorem loadPart [Inhabited α] (h : Written f size n r) {p m : ℕ} (hp : p + m ≤ size) :
    ∃ v, loadAt m r p = .ok v ∧ ∀ k : Fin m, p + k.val < n → v k = f (p + k) := by
  refine ⟨_, if_pos (by rwa [h.length]), fun k hk => ?_⟩
  rw [List.getD_eq_getElem?_getD, h.done (p + k) hk]
  rfl

theorem write (h : Written f size n r) (hn : n < size) :
    ∃ r', writeAt r n (f n) = .ok r' ∧ Written f size (n + 1) r' := by
  refine ⟨r.set n (f n), if_pos (by rwa [h.length]), (List.length_set ..).trans h.length, fun k hk => ?_⟩
  rcases Nat.lt_succ_iff_lt_or_eq.mp hk with hlt | rfl
  · rw [List.getElem?_set_ne (Nat.ne_of_gt hlt)]
    exact h.done k hlt
  · exact List.getElem?_set_self (by rwa [h.length])

theorem store (h : Written f size n r) {m : ℕ} (hn : n + m ≤ size) {v : Fin m → α}
    (hv : ∀ k : Fin m, v k = f (n + k)) :
    ∃ r', storeAt r n v = .ok r' ∧ Written f size (n + m) r' := by
  have hinside : n + m ≤ r.length := by rwa [h.length]
  have htake : (r.take n).length = n := List.length_take_of_le (by omega)
  have hvector : (List.ofFn v).length = m := List.length_ofFn
  refine ⟨_, if_pos hinside, ?_, fun k hk => ?_⟩
  · rw [List.length_append, List.length_append, htake, hvector, List.length_drop, h.length]
    omega
  · rcases Nat.lt_or_ge k n with hlt | hge
    · rw [List.getElem?_append_left (by rwa [htake]), List.getElem?_take_of_lt hlt]
      exact h.done k hlt
    · have hlane : k - n < m := by omega
      rw [List.getElem?_append_right (by rwa [htake]), htake,
        List.getElem?_append_left (by rwa [hvector]), List.getElem?_ofFn, dif_pos hlane, hv]
      exact congrArg (fun place => some (f place)) (Nat.add_sub_of_le hge)

/-- A list has been written to its end. -/
theorem of_list [Inhabited α] (r : List α) : Written (fun k => r.getD k default) r.length r.length r := by
  refine ⟨rfl, fun k hk => ?_⟩
  rw [List.getD_eq_getElem?_getD, List.getElem?_eq_getElem hk]
  rfl

theorem of_map (f : ℕ → α) (size : ℕ) : Written f size size ((List.range size).map f) := by
  refine ⟨by rw [List.length_map, List.length_range], fun k hk => ?_⟩
  rw [List.getElem?_map, List.getElem?_range hk]
  rfl

theorem unique (h : Written f size size r) {s : List α} (hs : Written f size size s) : r = s := by
  apply List.ext_getElem?
  intro k
  by_cases hk : k < size
  · rw [h.done k hk, hs.done k hk]
  · rw [List.getElem?_eq_none (by rw [h.length]; omega), List.getElem?_eq_none (by rw [hs.length]; omega)]

theorem row (h : Written f size size r) {stride y : ℕ} (hy : (y + 1) * stride ≤ size) :
    ∃ s, rowAt r stride y = .ok s ∧ Written (fun k => f (y * stride + k)) stride stride s := by
  have hinside : (y + 1) * stride ≤ r.length := by rwa [h.length]
  have hsum : (y + 1) * stride = y * stride + stride := Nat.succ_mul y stride
  refine ⟨_, if_pos hinside, ?_, fun k hk => ?_⟩
  · rw [List.length_take, List.length_drop]
    omega
  · rw [List.getElem?_take_of_lt hk, List.getElem?_drop]
    exact h.done _ (by omega)

end Written

end Buffers
