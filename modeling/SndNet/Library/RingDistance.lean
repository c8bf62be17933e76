import Mathlib.Tactic.Linarith
import Mathlib.Tactic.NormNum

/-!
# Distances on a ring of numbers

The numbers below `M` lie on a ring, on which two of them are joined by two arcs. The distance of
the numbers is the length of the shorter arc.

## Main definitions

* `RingDistance.arc`: the length of the arc from one number up to another.
* `RingDistance.dist`: the distance.

## Main results

* `RingDistance.arc_eq_of_le`, `RingDistance.arc_eq_of_lt`: the arcs of ordered numbers.
* `RingDistance.dist_comm`, `RingDistance.dist_eq_zero_iff`: the distance is symmetric and vanishes
  on equal numbers only.
* `RingDistance.dist_eq_arc`, `RingDistance.dist_eq_sub_arc`: the distance from the arc that
  goes up to the first number.
-/

namespace RingDistance

variable {M x y : ℕ}

/-- The length of the arc from `y` up to `x`, the residue of `x - y`. -/
def arc (M x y : ℕ) : ℕ := (((x : ℤ) - y) % M).toNat

/-- The length of the shorter arc between two numbers. -/
def dist (M x y : ℕ) : ℕ := min (arc M x y) (arc M y x)

theorem arc_eq_of_le (hx : x < M) (h : y ≤ x) : arc M x y = x - y := by
  rw [arc, Int.emod_eq_of_lt (by omega) (by omega)]
  omega

theorem arc_eq_of_lt (hy : y < M) (h : x < y) : arc M x y = x + M - y := by
  have hmod : ((x : ℤ) - y) % M = (x : ℤ) - y + M := by
    rw [← Int.add_emod_right, Int.emod_eq_of_lt (by omega) (by omega)]
  rw [arc, hmod]
  omega

theorem arc_lt (hx : x < M) (hy : y < M) : arc M x y < M := by
  rcases le_or_gt y x with h | h
  · rw [arc_eq_of_le hx h]
    omega
  · rw [arc_eq_of_lt hy h]
    omega

theorem arc_eq_zero_iff (hx : x < M) (hy : y < M) : arc M x y = 0 ↔ x = y := by
  rcases le_or_gt y x with h | h
  · rw [arc_eq_of_le hx h]
    omega
  · rw [arc_eq_of_lt hy h]
    omega

/-- The two arcs between different numbers are the whole ring. -/
theorem arc_add_arc (hx : x < M) (hy : y < M) (h : x ≠ y) : arc M x y + arc M y x = M := by
  rcases lt_or_gt_of_ne h with hlt | hlt
  · rw [arc_eq_of_lt hy hlt, arc_eq_of_le hy hlt.le]
    omega
  · rw [arc_eq_of_le hx hlt.le, arc_eq_of_lt hx hlt]
    omega

theorem dist_comm (M x y : ℕ) : dist M x y = dist M y x := min_comm _ _

theorem dist_eq_zero_iff (hx : x < M) (hy : y < M) : dist M x y = 0 ↔ x = y := by
  have hxy := arc_eq_zero_iff hx hy
  have hyx := arc_eq_zero_iff hy hx
  rw [dist]
  omega

/-- The distance is the arc up to the first number when that arc is at most half the ring. -/
theorem dist_eq_arc (hx : x < M) (hy : y < M) (h : 2 * arc M x y ≤ M) :
    dist M x y = arc M x y := by
  rcases eq_or_ne x y with rfl | hne
  · rw [dist, min_self]
  · have hsum := arc_add_arc hx hy hne
    rw [dist]
    omega

/-- The distance is the other arc when the arc up to the first number is at least half the ring. -/
theorem dist_eq_sub_arc (hx : x < M) (hy : y < M) (h : M ≤ 2 * arc M x y) :
    dist M x y = M - arc M x y := by
  rcases eq_or_ne x y with rfl | hne
  · rw [(arc_eq_zero_iff hx hx).2 rfl] at h
    omega
  · have hsum := arc_add_arc hx hy hne
    rw [dist]
    omega

/-- The arc up to `x` is the number that leads from `y` to `x`. -/
theorem arc_eq_iff (hx : x < M) (hy : y < M) {v : ℕ} (hv : v < M) :
    arc M x y = v ↔ (y + v) % M = x := by
  have hmod : (y + v) % M = if M ≤ y + v then y + v - M else y + v := by
    rw [Nat.add_mod_eq_ite, Nat.mod_eq_of_lt hy, Nat.mod_eq_of_lt hv]
  rw [hmod]
  rcases le_or_gt y x with h | h
  · rw [arc_eq_of_le hx h]
    split_ifs with hwrap
    · omega
    · omega
  · rw [arc_eq_of_lt hy h]
    split_ifs with hwrap
    · omega
    · omega

end RingDistance
