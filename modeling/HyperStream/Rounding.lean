import Mathlib.Algebra.Order.Round
import Mathlib.Algebra.Order.Field.Basic
import Mathlib.Tactic.FieldSimp
import Mathlib.Tactic.Ring
import Mathlib.Tactic.Linarith
set_option autoImplicit false

namespace Rounding

universe u
variable {α : Type u} [Field α] [LinearOrder α] [IsStrictOrderedRing α] [FloorRing α]

/-- The nearest integer, and of two the one that is farther from zero. -/
def nearAway (x : α) : ℤ := if 0 ≤ x then round x else -round (-x)

theorem nearAway_error (x : α) : |x - nearAway x| ≤ 1/2 := by
  unfold nearAway
  split
  · exact abs_sub_round x
  · have h := abs_sub_round (-x)
    have he : x - ((-round (-x) : ℤ) : α) = -(-x - round (-x)) := by push_cast; ring
    rwa [he,abs_neg]

/-- Rounding to a multiple of `h` moves a number by at most half of `h`. -/
theorem nearAway_scaled_error (x : α) {h : α} (hh : 0 < h) :
    |(nearAway (x/h) : α)*h - x| ≤ h/2 := by
  have herr := mul_le_mul_of_nonneg_right (nearAway_error (x/h)) hh.le
  calc
    |(nearAway (x/h) : α)*h - x| = |((nearAway (x/h) : α) - x/h)*h| := by
      congr 1
      field_simp
    _ = |x/h - nearAway (x/h)| * h := by rw [abs_mul,abs_of_pos hh,abs_sub_comm]
    _ ≤ h/2 := by linarith

theorem nearAway_of_nonneg {x : α} (h : 0 ≤ x) : nearAway x = ⌊x + 1/2⌋ := by
  rw [nearAway,if_pos h,round_eq]

theorem nearAway_of_neg {x : α} (h : x < 0) : nearAway x = ⌈x - 1/2⌉ := by
  rw [nearAway,if_neg (not_le.mpr h),round_eq,← Int.ceil_neg]
  congr 1
  ring

theorem nearAway_nonneg {x : α} (h : 0 ≤ x) : 0 ≤ nearAway x := by
  rw [nearAway_of_nonneg h,Int.floor_nonneg]
  linarith

theorem nearAway_nonpos {x : α} (h : x < 0) : nearAway x ≤ 0 := by
  rw [nearAway_of_neg h,Int.ceil_le]
  push_cast
  linarith

theorem nearAway_mono {x y : α} (h : x ≤ y) : nearAway x ≤ nearAway y := by
  by_cases hx : 0 ≤ x
  · rw [nearAway_of_nonneg hx,nearAway_of_nonneg (hx.trans h)]
    exact Int.floor_mono (by linarith)
  · have hx := not_le.mp hx
    by_cases hy : 0 ≤ y
    · exact (nearAway_nonpos hx).trans (nearAway_nonneg hy)
    · rw [nearAway_of_neg hx,nearAway_of_neg (not_le.mp hy)]
      exact Int.ceil_mono (by linarith)

theorem nearAway_le_add_half (x : α) : (nearAway x : α) ≤ x + 1/2 := by
  have h := abs_le.mp (nearAway_error x)
  linarith

theorem nearAway_eq_of_abs_lt {x : α} {n : ℤ} (h : |x - n| < 1/2) : nearAway x = n := by
  have herr := abs_le.mp (nearAway_error x)
  have hclose := abs_lt.mp h
  have hlow : ((n : ℤ) : α) - 1 < nearAway x := by linarith
  have hhigh : (nearAway x : α) < (n : ℤ) + 1 := by linarith
  have hlow : n - 1 < nearAway x := by exact_mod_cast hlow
  have hhigh : nearAway x < n + 1 := by exact_mod_cast hhigh
  omega

/-- An integer is recovered from its rounded multiple by a number that is not below 1. -/
theorem nearAway_div_nearAway {r : α} (hr : 1 ≤ r) (n : ℤ) :
    nearAway ((nearAway ((n : α)*r) : α)/r) = n := by
  have hpos : 0 < r := lt_of_lt_of_le one_pos hr
  rcases hr.eq_or_lt with rfl | hlt
  · have hself : nearAway ((n : α)*1) = n := nearAway_eq_of_abs_lt (by simp)
    rw [hself]
    exact nearAway_eq_of_abs_lt (by simp)
  · apply nearAway_eq_of_abs_lt
    have herr := nearAway_error ((n : α)*r)
    rw [abs_sub_comm] at herr
    calc
      |(nearAway ((n : α)*r) : α)/r - n| = |((nearAway ((n : α)*r) : α) - n*r)/r| := by
        congr 1
        field_simp
      _ = |(nearAway ((n : α)*r) : α) - n*r|/r := by rw [abs_div,abs_of_pos hpos]
      _ ≤ (1/2)/r := by gcongr
      _ < 1/2 := by rw [div_lt_iff₀ hpos]; linarith

/-- The multiples of a number below 1 collide: were they kept apart up to the N-th, that
would have to round to N at least. -/
theorem exists_collision {r : α} {N : ℕ} (h : 1/2 < (N : α)*(1-r)) :
    ∃ n, n < N ∧ nearAway (((n+1 : ℕ) : α)*r) ≤ nearAway ((n : α)*r) := by
  by_contra hno
  have hup : ∀ n, n ≤ N → (n : ℤ) ≤ nearAway ((n : α)*r) := by
    intro n
    induction n with
    | zero => intro _; exact nearAway_nonneg (by simp)
    | succ n ih =>
      intro hn
      have hlt : nearAway ((n : α)*r) < nearAway (((n+1 : ℕ) : α)*r) := by
        by_contra hle
        exact hno ⟨n,by omega,not_lt.mp hle⟩
      have hn' := ih (by omega)
      push_cast at hlt ⊢
      omega
  have htop : ((N : ℤ) : α) ≤ nearAway ((N : α)*r) := by exact_mod_cast hup N le_rfl
  have hhalf := nearAway_le_add_half ((N : α)*r)
  push_cast at htop
  linarith

end Rounding
