import Mathlib.Algebra.Order.Round
import Mathlib.Data.Int.Log
import Mathlib.Data.Rat.Floor
import Mathlib.Tactic.Linarith
import Mathlib.Tactic.Positivity

/-!
# Rounding to a binary format

A binary format has a number of significant bits and a least exponent.  `Format.round` takes a rational number to the
nearest number of the format, and to the even one of two that are equally near.  Only numbers that are not negative
are considered, and there is no largest number: what is rounded has to be shown to be in the range of the format.

* `round_mono`: rounding keeps the order;
* `round_of_fits`: it leaves the numbers of the format alone;
* `round_near`: how far it goes.
-/

namespace Rounding

/-! ### The nearest integer -/

/-- The nearest integer, the even one of two. -/
def nearestEven (x : ℚ) : ℤ :=
  if x - ⌊x⌋ < 1 / 2 then ⌊x⌋
  else if 1 / 2 < x - ⌊x⌋ then ⌊x⌋ + 1
  else if ⌊x⌋ % 2 = 0 then ⌊x⌋ else ⌊x⌋ + 1

theorem nearestEven_bounds (x : ℚ) : ⌊x⌋ ≤ nearestEven x ∧ nearestEven x ≤ ⌊x⌋ + 1 := by
  unfold nearestEven
  split_ifs <;> omega

theorem nearestEven_near (x : ℚ) : |(nearestEven x : ℚ) - x| ≤ 1 / 2 := by
  have hlow := Int.floor_le x
  have hhigh := Int.lt_floor_add_one x
  rw [abs_le]
  unfold nearestEven
  split_ifs <;> push_cast <;> constructor <;> linarith

@[simp] theorem nearestEven_intCast (n : ℤ) : nearestEven n = n := by
  simp [nearestEven]

theorem nearestEven_mono {x y : ℚ} (h : x ≤ y) : nearestEven x ≤ nearestEven y := by
  rcases (Int.floor_mono h).lt_or_eq with hlt | heq
  · have hx := (nearestEven_bounds x).2
    have hy := (nearestEven_bounds y).1
    omega
  · -- the fractional parts decide
    unfold nearestEven
    rw [heq]
    have hfract : x - ⌊y⌋ ≤ y - ⌊y⌋ := by linarith
    split_ifs <;> first | omega | (exfalso; linarith)

/-! ### Formats -/

/-- The numbers `m * 2 ^ e` with `m < 2 ^ precision` and `least ≤ e`. -/
structure Format where
  precision : ℕ
  least : ℤ
  positive : 0 < precision

def binary32 : Format := { precision := 24, least := -149, positive := by decide }

def binary64 : Format := { precision := 53, least := -1074, positive := by decide }

namespace Format

variable (F : Format)

/-- The exponent of the last bit that is kept of `x`. -/
def exponent (x : ℚ) : ℤ := max (Int.log 2 x - (F.precision - 1)) F.least

def ulp (x : ℚ) : ℚ := 2 ^ F.exponent x

def round (x : ℚ) : ℚ := nearestEven (x / F.ulp x) * F.ulp x

variable {F} {x y : ℚ}

/-- The powers of two around a positive number. -/
theorem log_spec (hx : 0 < x) : (2 : ℚ) ^ Int.log 2 x ≤ x ∧ x < 2 ^ (Int.log 2 x + 1) := by
  have hlow := Int.zpow_log_le_self (b := 2) (by norm_num) hx
  have hhigh := Int.lt_zpow_succ_log_self (b := 2) (by norm_num) x
  push_cast at hlow hhigh
  exact ⟨hlow, hhigh⟩

theorem ulp_pos (x : ℚ) : 0 < F.ulp x := zpow_pos (by norm_num) _

@[simp] theorem round_zero : F.round 0 = 0 := by
  have hzero := nearestEven_intCast 0
  simp only [Int.cast_zero] at hzero
  rw [round, zero_div, hzero, Int.cast_zero, zero_mul]

theorem round_nonneg (hx : 0 ≤ x) : 0 ≤ F.round x := by
  have hquot : ((0 : ℤ) : ℚ) ≤ x / F.ulp x := by simpa using div_nonneg hx (ulp_pos x).le
  have hmono := nearestEven_mono hquot
  rw [nearestEven_intCast] at hmono
  exact mul_nonneg (by exact_mod_cast hmono) (ulp_pos x).le

/-- A multiple of the last bit is not passed from below. -/
theorem round_le_of_multiple {n : ℤ} (h : x ≤ n * F.ulp x) : F.round x ≤ n * F.ulp x := by
  have hmono := nearestEven_mono ((div_le_iff₀ (ulp_pos (F := F) x)).2 h)
  rw [nearestEven_intCast] at hmono
  exact mul_le_mul_of_nonneg_right (by exact_mod_cast hmono) (ulp_pos x).le

/-- Nor from above. -/
theorem le_round_of_multiple {n : ℤ} (h : n * F.ulp x ≤ x) : n * F.ulp x ≤ F.round x := by
  have hmono := nearestEven_mono ((le_div_iff₀ (ulp_pos (F := F) x)).2 h)
  rw [nearestEven_intCast] at hmono
  exact mul_le_mul_of_nonneg_right (by exact_mod_cast hmono) (ulp_pos x).le

/-- A power of two that is not below the last bit is a multiple of it. -/
theorem zpow_eq_multiple {k : ℤ} (hk : F.exponent x ≤ k) : ∃ n : ℤ, (2 : ℚ) ^ k = n * F.ulp x := by
  obtain ⟨j, rfl⟩ := Int.le.dest hk
  refine ⟨2 ^ j, ?_⟩
  rw [ulp, zpow_add₀ (by norm_num)]
  push_cast
  rw [mul_comm, zpow_natCast]

theorem round_mono (hx : 0 ≤ x) (hxy : x ≤ y) : F.round x ≤ F.round y := by
  rcases hx.eq_or_lt with rfl | hx
  · rw [round_zero]
    exact round_nonneg hxy
  have hlog : Int.log 2 x ≤ Int.log 2 y := Int.log_mono_right hx hxy
  have hexp : F.exponent x ≤ F.exponent y := max_le_max_right _ (by omega)
  rcases hexp.eq_or_lt with heq | hlt
  · have hulp : F.ulp x = F.ulp y := by rw [ulp, ulp, heq]
    rw [round, round, hulp]
    refine mul_le_mul_of_nonneg_right ?_ (ulp_pos y).le
    exact_mod_cast nearestEven_mono (div_le_div_of_nonneg_right hxy (ulp_pos y).le)
  · -- a power of two lies between the numbers
    have hy : F.exponent y = Int.log 2 y - (F.precision - 1) := by
      unfold exponent at *
      omega
    have hpos := F.positive
    have hx' : Int.log 2 x - (F.precision - 1) ≤ F.exponent x := le_max_left _ _
    have hbelow : x ≤ (2 : ℚ) ^ Int.log 2 y :=
      (log_spec hx).2.le.trans (zpow_le_zpow_right₀ (by norm_num) (by omega))
    have habove : (2 : ℚ) ^ Int.log 2 y ≤ y := (log_spec (hx.trans_le hxy)).1
    obtain ⟨n, hn⟩ := zpow_eq_multiple (F := F) (x := x) (k := Int.log 2 y) (by omega)
    obtain ⟨m, hm⟩ := zpow_eq_multiple (F := F) (x := y) (k := Int.log 2 y) (by omega)
    calc F.round x ≤ n * F.ulp x := round_le_of_multiple (hn ▸ hbelow)
      _ = m * F.ulp y := by rw [← hn, hm]
      _ ≤ F.round y := le_round_of_multiple (hm ▸ habove)

/-- Below `2 ^ k` the last bit is not above that of `k`. -/
theorem exponent_le {k : ℤ} (hx : 0 < x) (hxk : x < 2 ^ k) (hk : F.least ≤ k - F.precision) :
    F.exponent x ≤ k - F.precision := by
  have hlog : Int.log 2 x < k := by
    have hlt := (log_spec hx).1.trans_lt hxk
    rwa [zpow_lt_zpow_iff_right₀ (by norm_num)] at hlt
  exact max_le (by omega) hk

/-- A number of the format stays. -/
theorem round_of_fits {m : ℕ} {k : ℤ} (hm : m < 2 ^ F.precision) (hk : F.least ≤ k) (hx : x = m * 2 ^ k) :
    F.round x = x := by
  rcases Nat.eq_zero_or_pos m with rfl | hpos
  · rw [hx, Nat.cast_zero, zero_mul, round_zero]
  have htwo : ∀ e : ℤ, (0 : ℚ) < 2 ^ e := zpow_pos (by norm_num)
  have hxpos : 0 < x := by
    rw [hx]
    exact mul_pos (by exact_mod_cast hpos) (htwo k)
  have hxk : x < 2 ^ (k + F.precision) := by
    rw [hx, zpow_add₀ (by norm_num), mul_comm]
    refine mul_lt_mul_of_pos_left ?_ (htwo k)
    rw [zpow_natCast]
    exact_mod_cast hm
  have hexp : F.exponent x ≤ k + F.precision - F.precision := exponent_le hxpos hxk (by omega)
  obtain ⟨n, hn⟩ := zpow_eq_multiple (F := F) (x := x) (k := k) (by omega)
  have hmul : x = (m * n : ℤ) * F.ulp x := by
    rw [Int.cast_mul, Int.cast_natCast, mul_assoc, ← hn]
    exact hx
  exact le_antisymm ((round_le_of_multiple hmul.le).trans hmul.ge) (hmul.le.trans (le_round_of_multiple hmul.ge))

/-- How far a number below `2 ^ k` goes. -/
theorem round_near {k : ℤ} (hx : 0 ≤ x) (hxk : x < 2 ^ k) (hk : F.least ≤ k - F.precision) :
    |F.round x - x| ≤ 2 ^ (k - F.precision) / 2 := by
  rcases hx.eq_or_lt with rfl | hx
  · rw [round_zero, sub_zero, abs_zero]
    exact (div_pos (zpow_pos (by norm_num) _) (by norm_num)).le
  have hulp : F.ulp x ≤ 2 ^ (k - F.precision) := zpow_le_zpow_right₀ (by norm_num) (exponent_le hx hxk hk)
  have hpos := ulp_pos (F := F) x
  calc |F.round x - x| = |(nearestEven (x / F.ulp x) : ℚ) - x / F.ulp x| * F.ulp x := by
        rw [← abs_of_pos hpos, ← abs_mul, sub_mul, abs_of_pos hpos, div_mul_cancel₀ _ hpos.ne', round]
    _ ≤ 1 / 2 * F.ulp x := mul_le_mul_of_nonneg_right (nearestEven_near _) hpos.le
    _ ≤ 2 ^ (k - F.precision) / 2 := by linarith

end Format

end Rounding
