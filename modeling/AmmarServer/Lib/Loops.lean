import Mathlib.Data.Nat.Basic

/-! The loops `for (; i + (width - 1) < size; i += width)` of a body that may fail. -/

namespace Loops
variable {ε σ : Type*}

/-- The place where the loop ends, and the state there. -/
def forLoop (width size : ℕ) (body : ℕ → σ → Except ε σ) (i : ℕ) (s : σ) : Except ε (ℕ × σ) :=
  if 0 < width ∧ i + width ≤ size then
    match body i s with
    | .error e => .error e
    | .ok s => forLoop width size body (i + width) s
  else .ok (i, s)
termination_by size - i

variable {width size i : ℕ} {body : ℕ → σ → Except ε σ} {s : σ}

/-- What the body keeps holds where the loop ends. -/
theorem forLoop_ok {Inv : ℕ → σ → Prop} (hwidth : 0 < width) (hinit : Inv i s)
    (hbody : ∀ i s, i + width ≤ size → Inv i s → ∃ s', body i s = .ok s' ∧ Inv (i + width) s') :
    ∃ j s', forLoop width size body i s = .ok (j, s') ∧ Inv j s' ∧ size < j + width := by
  induction hleft : size - i using Nat.strongRecOn generalizing i s with
  | ind left ih =>
    subst hleft
    unfold forLoop
    split
    · rename_i hmore
      obtain ⟨s', hs', hinv⟩ := hbody i s hmore.2 hinit
      rw [hs']
      exact ih (size - (i + width)) (by omega) hinv rfl
    · rename_i hend
      exact ⟨i, s, rfl, hinit, by omega⟩

/-- A loop of single steps runs to its end. -/
theorem singles_ok {P : ℕ → σ → Prop} (hi : i ≤ size) (hinit : P i s)
    (hbody : ∀ i s, i < size → P i s → ∃ s', body i s = .ok s' ∧ P (i + 1) s') :
    ∃ s', (forLoop 1 size body i s).map (·.2) = .ok s' ∧ P size s' := by
  have hloop := @forLoop_ok ε σ 1 size i body s (fun i s => i ≤ size ∧ P i s) Nat.one_pos ⟨hi, hinit⟩ ?_
  · obtain ⟨j, s', hrun, ⟨hj, hp⟩, hend⟩ := hloop
    obtain rfl : j = size := Nat.le_antisymm hj (Nat.le_of_lt_succ hend)
    exact ⟨s', congrArg (Except.map (·.2)) hrun, hp⟩
  · rintro i s hmore ⟨-, hp⟩
    obtain ⟨s', hs', hp'⟩ := hbody i s hmore hp
    exact ⟨s', hs', hmore, hp'⟩

/-- A loop of wide steps and one of single steps for what is left. -/
theorem forLoops_ok {rest : ℕ → σ → Except ε σ} {Inv : ℕ → σ → Prop} (hwidth : 0 < width)
    (hinit : Inv 0 s)
    (hbody : ∀ i s, width ∣ i → i + width ≤ size → Inv i s →
      ∃ s', body i s = .ok s' ∧ Inv (i + width) s')
    (hrest : ∀ i s, i < size → Inv i s → ∃ s', rest i s = .ok s' ∧ Inv (i + 1) s') :
    ∃ s', ((forLoop width size body 0 s).bind fun out =>
      (forLoop 1 size rest out.1 out.2).map (·.2)) = .ok s' ∧ Inv size s' := by
  have hwide := @forLoop_ok ε σ width size 0 body s (fun i s => width ∣ i ∧ i ≤ size ∧ Inv i s)
    hwidth ⟨⟨0, rfl⟩, Nat.zero_le size, hinit⟩ ?_
  · obtain ⟨i, middle, hrun, ⟨-, hi, hmiddle⟩, -⟩ := hwide
    have hsingle := @forLoop_ok ε σ 1 size i rest middle (fun i s => i ≤ size ∧ Inv i s)
      Nat.one_pos ⟨hi, hmiddle⟩ ?_
    · obtain ⟨j, s', hleft, ⟨hj, hinv⟩, hend⟩ := hsingle
      obtain rfl : j = size := Nat.le_antisymm hj (Nat.le_of_lt_succ hend)
      refine ⟨s', ?_, hinv⟩
      rw [hrun]
      exact congrArg (Except.map (·.2)) hleft
    · rintro i s hmore ⟨-, hinv⟩
      obtain ⟨s', hs', hinv'⟩ := hrest i s hmore hinv
      exact ⟨s', hs', hmore, hinv'⟩
  · rintro i s hmore ⟨hdvd, -, hinv⟩
    obtain ⟨s', hs', hinv'⟩ := hbody i s hdvd hmore hinv
    exact ⟨s', hs', Nat.dvd_add hdvd (Nat.dvd_refl width), hmore, hinv'⟩

/-- What the body keeps whenever it does not fail. -/
theorem forLoop_keeps {Inv : ℕ → σ → Prop} {j : ℕ} {s' : σ}
    (h : forLoop width size body i s = .ok (j, s')) (hinit : Inv i s)
    (hbody : ∀ i s s', i + width ≤ size → Inv i s → body i s = .ok s' → Inv (i + width) s') :
    Inv j s' := by
  induction hleft : size - i using Nat.strongRecOn generalizing i s with
  | ind left ih =>
    subst hleft
    unfold forLoop at h
    split at h
    · rename_i hmore
      split at h
      · cases h
      · rename_i hs
        exact ih (size - (i + width)) (by omega) h (hbody _ _ _ hmore.2 hinit hs) rfl
    · cases h
      exact hinit

/-- A loop that ends has run the body at each of its places. -/
theorem forLoop_visits {Inv : ℕ → σ → Prop} {out : ℕ × σ}
    (h : forLoop width size body i s = .ok out) (hwidth : 0 < width) (hinit : Inv i s)
    (hbody : ∀ i s s', i + width ≤ size → Inv i s → body i s = .ok s' → Inv (i + width) s') {k : ℕ}
    (hk : i + width * k + width ≤ size) :
    ∃ s s', Inv (i + width * k) s ∧ body (i + width * k) s = .ok s' := by
  induction k generalizing i s with
  | zero =>
    unfold forLoop at h
    rw [if_pos ⟨hwidth, hk⟩] at h
    split at h
    · cases h
    · rename_i s' hs
      exact ⟨s, s', hinit, hs⟩
  | succ k ih =>
    rw [Nat.mul_succ] at hk ⊢
    have hfirst : i + width ≤ size := by omega
    unfold forLoop at h
    rw [if_pos ⟨hwidth, hfirst⟩] at h
    split at h
    · cases h
    · rename_i s' hs
      have hplace : i + (width * k + width) = i + width + width * k := by omega
      rw [hplace]
      exact ih h (hbody _ _ _ hfirst hinit hs) (by omega)

/-- The loop that may also end before its last step, where `more` says so. -/
def forLoopWhile (width size : ℕ) (more : ℕ → Except ε Bool) (body : ℕ → σ → Except ε σ) (i : ℕ) (s : σ) :
    Except ε (ℕ × σ) :=
  if 0 < width ∧ i + width ≤ size then
    match more i with
    | .error e => .error e
    | .ok false => .ok (i, s)
    | .ok true =>
      match body i s with
      | .error e => .error e
      | .ok s => forLoopWhile width size more body (i + width) s
  else .ok (i, s)
termination_by size - i

theorem forLoopWhile_ok {more : ℕ → Except ε Bool} {Inv : ℕ → σ → Prop} (hinit : Inv i s)
    (hmore : ∀ i s, i + width ≤ size → Inv i s → ∃ b, more i = .ok b)
    (hbody : ∀ i s, i + width ≤ size → Inv i s → more i = .ok true →
      ∃ s', body i s = .ok s' ∧ Inv (i + width) s') :
    ∃ j s', forLoopWhile width size more body i s = .ok (j, s') ∧ Inv j s' := by
  induction hleft : size - i using Nat.strongRecOn generalizing i s with
  | ind left ih =>
    subst hleft
    unfold forLoopWhile
    split
    · rename_i hinside
      obtain ⟨b, hb⟩ := hmore i s hinside.2 hinit
      rw [hb]
      cases b with
      | false => exact ⟨i, s, rfl, hinit⟩
      | true =>
        obtain ⟨s', hs', hinv⟩ := hbody i s hinside.2 hinit hb
        simp only [hs']
        exact ih (size - (i + width)) (by omega) hinv rfl
    · exact ⟨i, s, rfl, hinit⟩

end Loops
