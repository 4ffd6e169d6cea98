import Mathlib.Algebra.Order.Floor.Ring
import Mathlib.Data.Rat.Floor
import Mathlib.Tactic.Linarith

/-!
# Fixed point numbers

In a fixed point format of scale `k` the integer `n` stands for `n / k`. A
number gets there by `quantize`, which clamps it to a range and drops what is
below one step, or by `nearest`, which adds a half before dropping. What is
dropped is dropped towards zero, so that `nearest` is only what its name says
on one side (`nearest_near_iff`).
-/

namespace Fixed

variable {α : Type*} [Field α] [LinearOrder α] [IsStrictOrderedRing α] [FloorRing α]
  {x y lo hi k : α} {n : ℤ}

-- ---------------------------------------------------------------------------
-- Dropping a fraction
-- ---------------------------------------------------------------------------

def trunc (x : α) : ℤ := if 0 ≤ x then ⌊x⌋ else ⌈x⌉

omit [IsStrictOrderedRing α] in
theorem trunc_of_nonneg (h : 0 ≤ x) : trunc x = ⌊x⌋ := if_pos h

omit [IsStrictOrderedRing α] in
theorem trunc_of_neg (h : x < 0) : trunc x = ⌈x⌉ := if_neg (not_le.mpr h)

@[simp] theorem trunc_intCast (n : ℤ) : trunc (n : α) = n := by
  unfold trunc
  split <;> simp

omit [IsStrictOrderedRing α] in
theorem trunc_mono (hxy : x ≤ y) : trunc x ≤ trunc y := by
  rcases le_or_gt 0 x with hx | hx
  · rw [trunc_of_nonneg hx, trunc_of_nonneg (hx.trans hxy)]
    exact Int.floor_le_floor hxy
  rcases le_or_gt 0 y with hy | hy
  · rw [trunc_of_neg hx, trunc_of_nonneg hy]
    exact (Int.ceil_le.mpr (by simpa using hx.le)).trans (Int.floor_nonneg.mpr hy)
  · rw [trunc_of_neg hx, trunc_of_neg hy]
    exact Int.ceil_le_ceil hxy

theorem le_trunc (h : (n : α) ≤ x) : n ≤ trunc x := by
  simpa using trunc_mono h

theorem trunc_le (h : x ≤ n) : trunc x ≤ n := by
  simpa using trunc_mono h

theorem abs_trunc_sub_lt (x : α) : |(trunc x : α) - x| < 1 := by
  rw [abs_lt]
  rcases le_or_gt 0 x with hx | hx
  · rw [trunc_of_nonneg hx]
    have hle := Int.floor_le x
    have hlt := Int.lt_floor_add_one x
    constructor <;> linarith
  · rw [trunc_of_neg hx]
    have hle := Int.le_ceil x
    have hlt := Int.ceil_lt_add_one x
    constructor <;> linarith

-- ---------------------------------------------------------------------------
-- Saturation
-- ---------------------------------------------------------------------------

def clamp (lo hi x : α) : α := if x < lo then lo else if hi < x then hi else x

section
omit [Field α] [IsStrictOrderedRing α] [FloorRing α]

theorem clamp_mem (h : lo ≤ hi) (x : α) : lo ≤ clamp lo hi x ∧ clamp lo hi x ≤ hi := by
  unfold clamp
  split
  next => exact ⟨le_rfl, h⟩
  split
  next => exact ⟨h, le_rfl⟩
  next hlo hhi => exact ⟨not_lt.mp hlo, not_lt.mp hhi⟩

theorem clamp_of_mem (hlo : lo ≤ x) (hhi : x ≤ hi) : clamp lo hi x = x := by
  rw [clamp, if_neg (not_lt.mpr hlo), if_neg (not_lt.mpr hhi)]

theorem clamp_of_gt (h : lo ≤ hi) (hx : hi < x) : clamp lo hi x = hi := by
  rw [clamp, if_neg (not_lt.mpr (h.trans hx.le)), if_pos hx]

theorem clamp_of_lt (hx : x < lo) : clamp lo hi x = lo := if_pos hx

theorem clamp_mono (h : lo ≤ hi) (hxy : x ≤ y) : clamp lo hi x ≤ clamp lo hi y := by
  rcases lt_or_ge x lo with hx | hx
  · rw [clamp_of_lt hx]
    exact (clamp_mem h y).1
  rcases lt_or_ge hi y with hy | hy
  · rw [clamp_of_gt h hy]
    exact (clamp_mem h x).2
  · rw [clamp_of_mem hx (hxy.trans hy), clamp_of_mem (hx.trans hxy) hy]
    exact hxy

end

/-- To the format of scale `k`, saturated to a range. -/
def quantize (lo hi k x : α) : ℤ := trunc (clamp lo hi x * k)

theorem quantize_mono (h : lo ≤ hi) (hk : 0 ≤ k) (hxy : x ≤ y) :
    quantize lo hi k x ≤ quantize lo hi k y :=
  trunc_mono (mul_le_mul_of_nonneg_right (clamp_mono h hxy) hk)

theorem quantize_mem {a b : ℤ} (h : lo ≤ hi) (hk : 0 ≤ k) (ha : (a : α) ≤ lo * k)
    (hb : hi * k ≤ b) (x : α) : a ≤ quantize lo hi k x ∧ quantize lo hi k x ≤ b := by
  obtain ⟨hlo, hhi⟩ := clamp_mem h x
  constructor
  · exact le_trunc (ha.trans (mul_le_mul_of_nonneg_right hlo hk))
  · exact trunc_le ((mul_le_mul_of_nonneg_right hhi hk).trans hb)

theorem abs_quantize_sub_lt (hk : 0 < k) (x : α) :
    |(quantize lo hi k x : α) / k - clamp lo hi x| < 1 / k := by
  have hlt := abs_trunc_sub_lt (clamp lo hi x * k)
  have hdiv : (quantize lo hi k x : α) / k - clamp lo hi x =
      ((trunc (clamp lo hi x * k) : α) - clamp lo hi x * k) / k := by
    rw [sub_div, mul_div_cancel_right₀ _ hk.ne']
    rfl
  rw [hdiv, abs_div, abs_of_pos hk]
  exact div_lt_div_of_pos_right hlt hk

theorem quantize_div (hk : 0 < k) (hlo : lo * k ≤ n) (hhi : (n : α) ≤ hi * k) :
    quantize lo hi k (n / k) = n := by
  rw [quantize, clamp_of_mem ((le_div_iff₀ hk).mpr hlo) ((div_le_iff₀ hk).mpr hhi),
    div_mul_cancel₀ _ hk.ne', trunc_intCast]

theorem quantize_of_gt {top : ℤ} (h : lo ≤ hi) (htop : hi * k = top) (hx : hi < x) :
    quantize lo hi k x = top := by
  rw [quantize, clamp_of_gt h hx, htop, trunc_intCast]

/-- The format goes up to `last`, past the range: what is between is lost but for
the first step. -/
theorem quantize_near_iff {last : α} {top : ℤ} (h : lo ≤ hi) (hk : 0 < k) (htop : hi * k = top)
    (hlast : hi + 1 / k ≤ last) (x : α) :
    |(quantize lo hi k x : α) / k - clamp lo last x| < 1 / k ↔ x < hi + 1 / k := by
  have hstep : 0 < 1 / k := one_div_pos.mpr hk
  rcases le_or_gt x hi with hx | hx
  · have hclamp : clamp lo last x = clamp lo hi x := by
      rcases lt_or_ge x lo with hl | hl
      · rw [clamp_of_lt hl, clamp_of_lt hl]
      · rw [clamp_of_mem hl hx, clamp_of_mem hl (by linarith)]
    rw [hclamp]
    exact iff_of_true (abs_quantize_sub_lt hk x) (by linarith)
  · have hq : (quantize lo hi k x : α) / k = hi := by
      rw [quantize_of_gt h htop hx, ← htop, mul_div_cancel_right₀ _ hk.ne']
    rw [hq, abs_sub_comm]
    rcases le_or_gt x last with hl | hl
    · rw [clamp_of_mem (h.trans hx.le) hl, abs_of_pos (by linarith)]
      constructor <;> intro _ <;> linarith
    · rw [clamp_of_gt (by linarith) hl, abs_of_nonneg (by linarith)]
      constructor <;> intro _ <;> linarith

-- ---------------------------------------------------------------------------
-- The nearest number of a format
-- ---------------------------------------------------------------------------

/-- A half is added and the fraction dropped. -/
def nearest (x : α) : ℤ := trunc (x + 1 / 2)

theorem nearest_mono (hxy : x ≤ y) : nearest x ≤ nearest y :=
  trunc_mono (by linarith)

omit [IsStrictOrderedRing α] in
theorem nearest_of_nonneg (h : 0 ≤ x + 1 / 2) : nearest x = ⌊x + 1 / 2⌋ := trunc_of_nonneg h

theorem nearest_intCast (h : 0 ≤ n) : nearest (n : α) = n := by
  have hn : (0 : α) ≤ n := by exact_mod_cast h
  rw [nearest_of_nonneg (by linarith), Int.floor_eq_iff]
  constructor <;> linarith

theorem nearest_intCast_of_neg (h : n < 0) : nearest (n : α) = n + 1 := by
  have hn : (n : α) ≤ -1 := by exact_mod_cast Int.le_sub_one_of_lt h
  rw [nearest, trunc_of_neg (by linarith), Int.ceil_eq_iff]
  push_cast
  constructor <;> linarith

theorem abs_nearest_sub_le (h : -1 / 2 ≤ x) : |(nearest x : α) - x| ≤ 1 / 2 := by
  rw [nearest_of_nonneg (by linarith), abs_le]
  have hle := Int.floor_le (x + 1 / 2)
  have hlt := Int.lt_floor_add_one (x + 1 / 2)
  constructor <;> linarith

/-- Below zero it is a nearest number only halfway between two. -/
theorem nearest_near_iff (x : α) :
    |(nearest x : α) - x| ≤ 1 / 2 ↔ -1 / 2 ≤ x ∨ ∃ n : ℤ, x + 1 / 2 = n := by
  constructor
  · intro hnear
    rcases le_or_gt (-1 / 2) x with hx | hx
    · exact .inl hx
    · refine .inr ⟨nearest x, le_antisymm ?_ ?_⟩
      · have hc : nearest x = ⌈x + 1 / 2⌉ := trunc_of_neg (by linarith)
        rw [hc]
        exact Int.le_ceil _
      · have hle := (abs_le.mp hnear).2
        linarith
  · rintro (hx | ⟨n, hn⟩)
    · exact abs_nearest_sub_le hx
    · rw [nearest, hn, trunc_intCast, ← hn, abs_of_nonneg] <;> linarith

end Fixed
