import Mathlib.Algebra.Order.Floor.Ring
import Mathlib.Data.Rat.Floor
import Mathlib.Tactic.Linarith
import Mathlib.Tactic.FieldSimp
import Mathlib.Tactic.Ring

/-!
# Rounding to a grid

`toGrid k x` is the multiple of `1/k` nearest to `x`, ties to the even multiple, as a decimal format
with a fixed number of places prints it. The facts that the users need are that it is off by at most
half a step (`abs_toGrid_sub_le`), that it stays on its side of every grid point (`toGrid_le`,
`le_toGrid`), and that it fixes the grid (`toGrid_of_onGrid`).
-/

namespace Library

/-- The integer nearest to a rational, ties to even. -/
def roundEven (x : ℚ) : ℤ :=
  if x - ⌊x⌋ < 1 / 2 then ⌊x⌋
  else if 1 / 2 < x - ⌊x⌋ then ⌊x⌋ + 1
  else if ⌊x⌋ % 2 = 0 then ⌊x⌋ else ⌊x⌋ + 1

/-- The multiple of `1 / k` nearest to `x`, ties to the even multiple. -/
def toGrid (k : ℕ) (x : ℚ) : ℚ := roundEven (x * k) / k

/-- The multiples of `1 / k`. -/
def OnGrid (k : ℕ) (y : ℚ) : Prop := ∃ n : ℤ, y = n / k

/-- The rounded value is one of the two integers around `x`, the nearer one. -/
theorem roundEven_cases (x : ℚ) :
    (roundEven x = ⌊x⌋ ∧ x - ⌊x⌋ ≤ 1 / 2) ∨ (roundEven x = ⌊x⌋ + 1 ∧ 1 / 2 ≤ x - ⌊x⌋) := by
  unfold roundEven
  split_ifs with h1 h2 h3
  · exact .inl ⟨rfl, h1.le⟩
  · exact .inr ⟨rfl, h2.le⟩
  · exact .inl ⟨rfl, not_lt.mp h2⟩
  · exact .inr ⟨rfl, not_lt.mp h1⟩

/-- Rounding moves a number by half a unit at most. -/
theorem abs_roundEven_sub_le (x : ℚ) : |(roundEven x : ℚ) - x| ≤ 1 / 2 := by
  have hlt := Int.lt_floor_add_one x
  have hle := Int.floor_le x
  rw [abs_le]
  rcases roundEven_cases x with ⟨h, hx⟩ | ⟨h, hx⟩
  · rw [h]
    constructor <;> linarith
  · rw [h]
    push_cast
    constructor <;> linarith

/-- And an integer not at all. -/
theorem roundEven_intCast (n : ℤ) : roundEven n = n := by
  simp [roundEven]

/-- Rounding does not pass an integer above. -/
theorem roundEven_le {x : ℚ} {n : ℤ} (h : x ≤ n) : roundEven x ≤ n := by
  rcases h.eq_or_lt with rfl | hlt
  · exact (roundEven_intCast n).le
  · have hfloor : ⌊x⌋ < n := Int.floor_lt.mpr hlt
    rcases roundEven_cases x with ⟨hr, -⟩ | ⟨hr, -⟩ <;> omega

/-- Rounding does not pass an integer below. -/
theorem le_roundEven {x : ℚ} {n : ℤ} (h : (n : ℚ) ≤ x) : n ≤ roundEven x := by
  have hfloor : n ≤ ⌊x⌋ := Int.le_floor.mpr h
  rcases roundEven_cases x with ⟨hr, -⟩ | ⟨hr, -⟩ <;> omega

section

variable {k : ℕ} (hk : 0 < k)
include hk

/-- Rounding to the grid is off by at most half a step. -/
theorem abs_toGrid_sub_le (x : ℚ) : |toGrid k x - x| ≤ 1 / (2 * k) := by
  have hk' : (0 : ℚ) < k := by exact_mod_cast hk
  have h : toGrid k x - x = (roundEven (x * k) - x * k) / k := by
    unfold toGrid
    field_simp
  rw [h, abs_div, abs_of_pos hk', div_le_div_iff₀ hk' (by positivity)]
  have := abs_roundEven_sub_le (x * k)
  nlinarith

/-- Rounding to the grid does not pass a grid point above. -/
theorem toGrid_le {x y : ℚ} (hy : OnGrid k y) (h : x ≤ y) : toGrid k x ≤ y := by
  have hk' : (0 : ℚ) < k := by exact_mod_cast hk
  obtain ⟨n, rfl⟩ := hy
  unfold toGrid
  rw [div_le_div_iff_of_pos_right hk']
  exact_mod_cast roundEven_le ((le_div_iff₀ hk').mp h)

/-- Rounding to the grid does not pass a grid point below. -/
theorem le_toGrid {x y : ℚ} (hy : OnGrid k y) (h : y ≤ x) : y ≤ toGrid k x := by
  have hk' : (0 : ℚ) < k := by exact_mod_cast hk
  obtain ⟨n, rfl⟩ := hy
  unfold toGrid
  rw [div_le_div_iff_of_pos_right hk']
  exact_mod_cast le_roundEven ((div_le_iff₀ hk').mp h)

/-- Rounding leaves the grid points where they are. -/
theorem toGrid_of_onGrid {y : ℚ} (hy : OnGrid k y) : toGrid k y = y :=
  le_antisymm (toGrid_le hk hy le_rfl) (le_toGrid hk hy le_rfl)

/-- An integer is on every grid. -/
theorem onGrid_intCast (n : ℤ) : OnGrid k n := by
  have hk' : (k : ℚ) ≠ 0 := by exact_mod_cast hk.ne'
  exact ⟨n * k, by push_cast; field_simp⟩

end

/-- Sums of numbers on the grid are on the grid. -/
theorem OnGrid.add {k : ℕ} {x y : ℚ} (hx : OnGrid k x) (hy : OnGrid k y) : OnGrid k (x + y) := by
  obtain ⟨m, rfl⟩ := hx
  obtain ⟨n, rfl⟩ := hy
  exact ⟨m + n, by push_cast; ring⟩

/-- So are differences. -/
theorem OnGrid.sub {k : ℕ} {x y : ℚ} (hx : OnGrid k x) (hy : OnGrid k y) : OnGrid k (x - y) := by
  obtain ⟨m, rfl⟩ := hx
  obtain ⟨n, rfl⟩ := hy
  exact ⟨m - n, by push_cast; ring⟩

/-- A whole multiple of a grid point is on the grid. -/
theorem OnGrid.mul_natCast {k : ℕ} {x : ℚ} (hx : OnGrid k x) (n : ℕ) : OnGrid k (x * n) := by
  obtain ⟨m, rfl⟩ := hx
  exact ⟨m * n, by push_cast; ring⟩

/-- A rounded value is on the grid. -/
theorem onGrid_toGrid (k : ℕ) (x : ℚ) : OnGrid k (toGrid k x) := ⟨_, rfl⟩

end Library
