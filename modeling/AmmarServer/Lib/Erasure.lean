import AmmarServer.Lib.CBuffer

/-! Arrays in which some bytes have become NUL. -/

namespace CString

/-- `t` is `s` with NULs in some places from `a` on and in front of `b`. -/
structure Erased (a b : ℕ) (s t : List UInt8) : Prop where
  length : t.length = s.length
  outside : ∀ j, j < a ∨ b ≤ j → charAt t j = charAt s j
  inside : ∀ j, charAt t j = charAt s j ∨ charAt t j = 0

namespace Erased
variable {a b i : ℕ} {s t u : List UInt8}

theorem refl (a b : ℕ) (s : List UInt8) : Erased a b s s :=
  ⟨rfl, fun _ _ => rfl, fun _ => .inl rfl⟩

theorem set (hi : a ≤ i) (hb : i < b) : Erased a b s (s.set i 0) := by
  refine ⟨List.length_set .., fun j hj => ?_, fun j => ?_⟩
  · apply charAt_set_of_ne
    rintro rfl
    exact hj.elim (Nat.not_lt.mpr hi) (Nat.not_le.mpr hb)
  · by_cases hij : i = j
    · subst hij
      refine .inr ?_
      rcases Nat.lt_or_ge i s.length with hlt | hge
      · exact charAt_set_self hlt 0
      · exact charAt_of_length_le (by rw [List.length_set]; exact hge)
    · exact .inl (charAt_set_of_ne hij 0)

theorem trans (h : Erased a b s t) (h' : Erased a b t u) : Erased a b s u := by
  refine ⟨h'.length.trans h.length, fun j hj => (h'.outside j hj).trans (h.outside j hj),
    fun j => ?_⟩
  rcases h'.inside j with hsame | hzero
  · rw [hsame]
    exact h.inside j
  · exact .inr hzero

theorem mono {a' b' : ℕ} (h : Erased a b s t) (ha : a' ≤ a) (hb : b ≤ b') : Erased a' b' s t := by
  refine ⟨h.length, fun j hj => h.outside j ?_, h.inside⟩
  exact hj.imp (fun hlt => hlt.trans_le ha) (fun hle => hb.trans hle)

theorem ite {p : Prop} [Decidable p] (h : p → Erased a b s t) :
    Erased a b s (if p then t else s) := by
  split
  · rename_i hp
    exact h hp
  · exact refl a b s

end Erased

end CString
