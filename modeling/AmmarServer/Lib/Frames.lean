import Mathlib.Data.List.Infix

/-! Reading the items of a stream off the front of a buffer. What the front of a buffer is must be
settled by the bytes of the item itself. Then it does not matter where the stream is cut. -/

namespace Frames
variable {α β : Type*}

/-- The item at the front of a buffer. Nothing can be read behind one that `ends` the stream. -/
structure Item (β : Type*) where
  value : β
  extent : Nat
  ends : Bool
  deriving DecidableEq

/-- `none` asks for more bytes. -/
structure Fronts (front : List α → Option (Item β)) : Prop where
  pos {buf i} : front buf = some i → 0 < i.extent
  le {buf i} : front buf = some i → i.extent ≤ buf.length
  append {buf i} (more : List α) : front buf = some i → front (buf ++ more) = some i
  cut {buf more i} : front (buf ++ more) = some i → i.extent ≤ buf.length → front buf = some i

/-- What was read: the items, the bytes behind them, and whether the last one ended the stream. -/
structure Found (α β : Type*) where
  items : List (Item β) := []
  rest : List α
  ended : Bool := false

def Found.behind (found : Found α β) (items : List (Item β)) : Found α β :=
  { found with items := items ++ found.items }

variable (front : List α → Option (Item β))

def readFrom : Nat → List α → Found α β
  | 0, buf => { rest := buf }
  | fuel + 1, buf =>
    match front buf with
    | none => { rest := buf }
    | some i =>
      if i.ends then { items := [i], rest := buf, ended := true }
      else (readFrom fuel (buf.drop i.extent)).behind [i]

def readAll (buf : List α) : Found α β := readFrom front buf.length buf

variable {front}

theorem readFrom_none {fuel : Nat} {buf : List α} (h : front buf = none) :
    readFrom front fuel buf = { rest := buf } := by
  cases fuel with
  | zero => rfl
  | succ fuel => rw [readFrom, h]

namespace Fronts
variable (hfront : Fronts front)
include hfront

theorem nil : front [] = none := by
  cases h : front [] with
  | none => rfl
  | some i =>
    have hpos := hfront.pos h
    have hle := hfront.le h
    rw [List.length_nil] at hle
    omega

theorem readFrom_fuel {fuel : Nat} {buf : List α} (h : buf.length ≤ fuel) :
    readFrom front fuel buf = readAll front buf := by
  suffices ∀ (m n : Nat) (buf : List α), buf.length ≤ m → buf.length ≤ n →
      readFrom front m buf = readFrom front n buf from this _ _ buf h le_rfl
  intro m
  induction m with
  | zero =>
    intro n buf hm _
    obtain rfl := List.length_eq_zero_iff.mp (Nat.le_zero.mp hm)
    rw [readFrom_none hfront.nil, readFrom_none hfront.nil]
  | succ m ih =>
    intro n buf hm hn
    cases hf : front buf with
    | none => rw [readFrom_none hf, readFrom_none hf]
    | some i =>
      have hpos := hfront.pos hf
      have hle := hfront.le hf
      obtain ⟨n, rfl⟩ : ∃ k, n = k + 1 := ⟨n - 1, by omega⟩
      have hdrop : (buf.drop i.extent).length = buf.length - i.extent := List.length_drop
      simp only [readFrom, hf]
      rw [ih n (buf.drop i.extent) (by omega) (by omega)]

theorem readAll_some {buf : List α} {i : Item β} (h : front buf = some i) :
    readAll front buf = if i.ends then { items := [i], rest := buf, ended := true }
      else (readAll front (buf.drop i.extent)).behind [i] := by
  have hpos := hfront.pos h
  have hle := hfront.le h
  obtain ⟨n, hn⟩ : ∃ k, buf.length = k + 1 := ⟨buf.length - 1, by omega⟩
  have hdrop : (buf.drop i.extent).length ≤ n := by
    rw [List.length_drop]
    omega
  rw [readAll, hn, readFrom, h]
  simp only
  rw [hfront.readFrom_fuel hdrop]

/-- Behind a stream that has not ended is the beginning of an item, or nothing. -/
theorem front_rest {buf : List α} (h : (readAll front buf).ended = false) :
    front (readAll front buf).rest = none := by
  induction hn : buf.length using Nat.strong_induction_on generalizing buf with
  | _ n ih =>
    cases hf : front buf with
    | none =>
      rw [readAll, readFrom_none hf]
      exact hf
    | some i =>
      have hpos := hfront.pos hf
      have hle := hfront.le hf
      rw [hfront.readAll_some hf] at h ⊢
      split at h
      · cases h
      · rename_i hends
        rw [if_neg hends]
        exact ih _ (by rw [List.length_drop]; omega) h rfl

/-- What more bytes behind a buffer add to what was found in it. -/
theorem readAll_append (buf more : List α) :
    readAll front (buf ++ more) =
      if (readAll front buf).ended then
        { readAll front buf with rest := (readAll front buf).rest ++ more }
      else (readAll front ((readAll front buf).rest ++ more)).behind (readAll front buf).items := by
  induction hn : buf.length using Nat.strong_induction_on generalizing buf with
  | _ n ih =>
    cases hf : front buf with
    | none =>
      have hbuf : readAll front buf = { rest := buf } := readFrom_none hf
      rw [hbuf]
      rfl
    | some i =>
      have hpos := hfront.pos hf
      have hle := hfront.le hf
      rw [hfront.readAll_some (hfront.append more hf), hfront.readAll_some hf]
      split
      · rfl
      · rw [List.drop_append_of_le_length hle,
          ih _ (by rw [List.length_drop]; omega) (buf.drop i.extent) rfl]
        cases hended : (readAll front (buf.drop i.extent)).ended <;> simp [Found.behind, hended]

/-- Where no item is longer than `bound`, neither is the beginning of one. -/
theorem length_rest_le {bound : Nat} {buf more : List α}
    (hitems : ∀ i ∈ (readAll front (buf ++ more)).items, i.extent ≤ bound)
    (hrest : (readAll front (buf ++ more)).ended = false →
      (readAll front (buf ++ more)).rest.length ≤ bound)
    (h : (readAll front buf).ended = false) : (readAll front buf).rest.length ≤ bound := by
  rw [hfront.readAll_append, h] at hitems hrest
  simp only [Bool.false_eq_true, if_false, Found.behind, List.mem_append] at hitems hrest
  cases hf : front ((readAll front buf).rest ++ more) with
  | none =>
    rw [readAll, readFrom_none hf] at hrest
    have hrest := hrest rfl
    rw [List.length_append] at hrest
    omega
  | some i =>
    have hmem : i ∈ (readAll front ((readAll front buf).rest ++ more)).items := by
      rw [hfront.readAll_some hf]
      split
      · exact List.mem_singleton_self i
      · exact List.mem_cons_self
    have hbound := hitems i (.inr hmem)
    by_contra hlong
    have hcut := hfront.cut hf (by omega)
    rw [hfront.front_rest h] at hcut
    cases hcut

end Fronts
end Frames
