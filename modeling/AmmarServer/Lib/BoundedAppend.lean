import Mathlib.Data.List.Basic

/-! A sequence of bounded length that pieces are put behind, and that takes none any more once one
has not fitted. -/

namespace BoundedAppend

variable {α : Type*} {limit : ℕ}

structure State (α : Type*) where
  written : List α
  overflowed : Bool
  deriving DecidableEq, Repr

/-- A piece is put behind the others where there is one and it fits. -/
def put (limit : ℕ) (s : State α) (piece : Option (List α)) : Bool × State α :=
  if s.overflowed then (false, s)
  else
    match piece with
    | none => (false, { s with overflowed := true })
    | some bytes =>
      if s.written.length + bytes.length ≤ limit then
        (true, { s with written := s.written ++ bytes })
      else (false, { s with overflowed := true })

def putAll (limit : ℕ) : State α → List (Option (List α)) → List Bool × State α
  | s, [] => ([], s)
  | s, piece :: pieces =>
    let behind := putAll limit (put limit s piece).2 pieces
    ((put limit s piece).1 :: behind.1, behind.2)

/-- The first pieces are taken, each of them whole, and none from the first one on that does not
fit. -/
def Whole (limit : ℕ) (pieces : List (Option (List α))) (answers : List Bool) (s : State α) :
    Prop :=
  ∃ (taken : List (List α)) (rest : List (Option (List α))),
    pieces = taken.map some ++ rest ∧ s.written = taken.flatten ∧
    s.written.length ≤ limit ∧ s.overflowed = !rest.isEmpty ∧
    answers = List.replicate taken.length true ++ List.replicate rest.length false ∧
    ∀ bytes, rest.head? = some (some bytes) → limit < s.written.length + bytes.length

theorem putAll_overflowed {s : State α} (h : s.overflowed = true)
    (pieces : List (Option (List α))) :
    putAll limit s pieces = (List.replicate pieces.length false, s) := by
  induction pieces with
  | nil => rfl
  | cons piece pieces ih =>
    have hput : put limit s piece = (false, s) := if_pos h
    rw [putAll, hput, ih]
    rfl

theorem put_some {s : State α} {bytes : List α} (h : s.overflowed = false)
    (hfits : s.written.length + bytes.length ≤ limit) :
    put limit s (some bytes) = (true, { s with written := s.written ++ bytes }) := by
  unfold put
  rw [h]
  exact if_pos hfits

theorem put_refused {s : State α} {piece : Option (List α)} (h : s.overflowed = false)
    (hfull : ∀ bytes, piece = some bytes → limit < s.written.length + bytes.length) :
    put limit s piece = (false, { s with overflowed := true }) := by
  unfold put
  rw [h]
  cases piece with
  | none => rfl
  | some bytes => exact if_neg (Nat.not_le.mpr (hfull bytes rfl))

theorem putAll_taken {s : State α} (h : s.overflowed = false) (hroom : s.written.length ≤ limit)
    (pieces : List (Option (List α))) :
    ∃ (taken : List (List α)) (rest : List (Option (List α))), pieces = taken.map some ++ rest ∧
      (putAll limit s pieces).2.written = s.written ++ taken.flatten ∧
      (putAll limit s pieces).2.written.length ≤ limit ∧
      (putAll limit s pieces).2.overflowed = !rest.isEmpty ∧
      (putAll limit s pieces).1 =
        List.replicate taken.length true ++ List.replicate rest.length false ∧
      ∀ bytes, rest.head? = some (some bytes) →
        limit < (putAll limit s pieces).2.written.length + bytes.length := by
  induction pieces generalizing s with
  | nil =>
    refine ⟨[], [], rfl, (List.append_nil _).symm, hroom, h, rfl, ?_⟩
    intro bytes hcon
    cases hcon
  | cons piece pieces ih =>
    by_cases hfits : ∃ bytes, piece = some bytes ∧ s.written.length + bytes.length ≤ limit
    · obtain ⟨bytes, rfl, hfits⟩ := hfits
      rw [putAll, put_some h hfits]
      have hroom' : (s.written ++ bytes).length ≤ limit := by rw [List.length_append]; exact hfits
      obtain ⟨taken, rest, rfl, hwritten, hle, hover, hanswers, hfull⟩ :=
        @ih { s with written := s.written ++ bytes } h hroom'
      refine ⟨bytes :: taken, rest, rfl, ?_, hle, hover, ?_, hfull⟩
      · rw [hwritten, List.flatten_cons, List.append_assoc]
      · rw [hanswers]
        rfl
    · have hfull : ∀ bytes, piece = some bytes → limit < s.written.length + bytes.length :=
        fun bytes hbytes => Nat.not_le.mp fun hle => hfits ⟨bytes, hbytes, hle⟩
      rw [putAll, put_refused h hfull, putAll_overflowed rfl]
      refine ⟨[], piece :: pieces, rfl, (List.append_nil _).symm, hroom, rfl, rfl, ?_⟩
      intro bytes hhead
      exact hfull bytes (Option.some.inj hhead)

/-- Whatever is put, it is taken whole up to the first piece that does not fit. -/
theorem whole_putAll (limit : ℕ) (pieces : List (Option (List α))) :
    Whole limit pieces (putAll limit ⟨[], false⟩ pieces).1 (putAll limit ⟨[], false⟩ pieces).2 :=
  putAll_taken rfl (Nat.zero_le _) pieces

theorem length_put_le {s : State α} (hroom : s.written.length ≤ limit)
    (piece : Option (List α)) : (put limit s piece).2.written.length ≤ limit := by
  unfold put
  split
  · exact hroom
  · split
    · exact hroom
    · split
      · rename_i hfits
        rw [List.length_append]
        exact hfits
      · exact hroom

end BoundedAppend
