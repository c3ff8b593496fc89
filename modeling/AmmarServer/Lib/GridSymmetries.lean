import Mathlib.GroupTheory.SpecificGroups.Dihedral
import Mathlib.Data.Fintype.Prod
import Mathlib.Logic.Equiv.Basic

/-! The symmetries of a rectangular grid that keep or swap its sides, and the dihedral group that they
form. -/

namespace GridSymmetry

/-- The sides are swapped first, and then each coordinate is turned round or not. -/
structure Symmetry where
  swap : Bool
  flipX : Bool
  flipY : Bool
deriving DecidableEq, Repr

namespace Symmetry

/-- All the symmetries. -/
def equivBools : Symmetry ≃ Bool × Bool × Bool where
  toFun g := (g.swap, g.flipX, g.flipY)
  invFun b := ⟨b.1, b.2.1, b.2.2⟩
  left_inv _ := rfl
  right_inv _ := rfl

instance : Fintype Symmetry := .ofEquiv _ equivBools.symm

/-- The width of the grid behind a symmetry. -/
def width (g : Symmetry) (w h : ℕ) : ℕ := if g.swap then h else w

def height (g : Symmetry) (w h : ℕ) : ℕ := if g.swap then w else h

/-- A coordinate of a side of `n`, or its mirror image. -/
def turn (flip : Bool) (n a : ℕ) : ℕ := if flip then n - 1 - a else a

/-- Where the column of a place behind the symmetry comes from. -/
def sourceX (g : Symmetry) (w x y : ℕ) : ℕ := turn g.flipX w (if g.swap then y else x)

def sourceY (g : Symmetry) (h x y : ℕ) : ℕ := turn g.flipY h (if g.swap then x else y)

/-- The first symmetry, and then the second. -/
def comp (g g' : Symmetry) : Symmetry :=
  { swap := xor g.swap g'.swap
    flipX := xor g.flipX (if g.swap then g'.flipY else g'.flipX)
    flipY := xor g.flipY (if g.swap then g'.flipX else g'.flipY) }

theorem turn_lt {flip : Bool} {n a : ℕ} (ha : a < n) : turn flip n a < n := by
  unfold turn
  split <;> omega

theorem turn_turn {flip flip' : Bool} {n a : ℕ} (ha : a < n) :
    turn flip n (turn flip' n a) = turn (xor flip flip') n a := by
  unfold turn
  cases flip <;> cases flip' <;> simp only [Bool.xor_false, Bool.xor_true, Bool.not_true,
    Bool.not_false, if_true, if_false, Bool.false_eq_true]
  omega

theorem sourceX_lt (g : Symmetry) {w h x y : ℕ} (hx : x < g.width w h) (hy : y < g.height w h) :
    g.sourceX w x y < w := by
  apply turn_lt
  unfold width at hx
  unfold height at hy
  split at hx <;> simp_all

theorem sourceY_lt (g : Symmetry) {w h x y : ℕ} (hx : x < g.width w h) (hy : y < g.height w h) :
    g.sourceY h x y < h := by
  apply turn_lt
  unfold width at hx
  unfold height at hy
  split at hx <;> simp_all

theorem width_comp (g g' : Symmetry) (w h : ℕ) :
    (g.comp g').width w h = g'.width (g.width w h) (g.height w h) := by
  obtain ⟨swap, flipX, flipY⟩ := g
  obtain ⟨swap', flipX', flipY'⟩ := g'
  cases swap <;> cases swap' <;> rfl

theorem height_comp (g g' : Symmetry) (w h : ℕ) :
    (g.comp g').height w h = g'.height (g.width w h) (g.height w h) := by
  obtain ⟨swap, flipX, flipY⟩ := g
  obtain ⟨swap', flipX', flipY'⟩ := g'
  cases swap <;> cases swap' <;> rfl

/-- A place behind both comes from the place that the first takes the second one's source from. -/
theorem sourceX_comp (g g' : Symmetry) {w h x y : ℕ}
    (hx : x < g'.width (g.width w h) (g.height w h))
    (hy : y < g'.height (g.width w h) (g.height w h)) :
    (g.comp g').sourceX w x y =
      g.sourceX w (g'.sourceX (g.width w h) x y) (g'.sourceY (g.height w h) x y) := by
  obtain ⟨swap, flipX, flipY⟩ := g
  obtain ⟨swap', flipX', flipY'⟩ := g'
  cases swap <;> cases swap' <;> exact (turn_turn (by assumption)).symm

theorem sourceY_comp (g g' : Symmetry) {w h x y : ℕ}
    (hx : x < g'.width (g.width w h) (g.height w h))
    (hy : y < g'.height (g.width w h) (g.height w h)) :
    (g.comp g').sourceY h x y =
      g.sourceY h (g'.sourceX (g.width w h) x y) (g'.sourceY (g.height w h) x y) := by
  obtain ⟨swap, flipX, flipY⟩ := g
  obtain ⟨swap', flipX', flipY'⟩ := g'
  cases swap <;> cases swap' <;> exact (turn_turn (by assumption)).symm

/-- The symmetry that undoes another. -/
def inv (g : Symmetry) : Symmetry :=
  { swap := g.swap
    flipX := if g.swap then g.flipY else g.flipX
    flipY := if g.swap then g.flipX else g.flipY }

def one : Symmetry := ⟨false, false, false⟩

theorem comp_inv (g : Symmetry) : g.comp g.inv = one := by
  revert g
  decide

theorem inv_comp (g : Symmetry) : g.inv.comp g = one := by
  revert g
  decide

/-! The dihedral group. -/

/-- Quarter turns clockwise are the rotations, and the mirror image of each row is the reflection
that no rotation comes behind. -/
def toDihedral : Symmetry → DihedralGroup 4
  | ⟨false, false, false⟩ => .r 0
  | ⟨true, false, true⟩ => .r 1
  | ⟨false, true, true⟩ => .r 2
  | ⟨true, true, false⟩ => .r 3
  | ⟨false, true, false⟩ => .sr 0
  | ⟨true, true, true⟩ => .sr 1
  | ⟨false, false, true⟩ => .sr 2
  | ⟨true, false, false⟩ => .sr 3

theorem toDihedral_comp (g g' : Symmetry) :
    toDihedral (g.comp g') = toDihedral g * toDihedral g' := by
  revert g g'
  decide

end Symmetry

end GridSymmetry
