import Mathlib.Tactic.NormNum
import Mathlib.Tactic.Ring
import Spixels.LedStrip
import Spixels.Rounding

/-!
# The luminance correction (`led-strip.cc`)

`luminance_cie1931_internal` is computed in `float` and `double`; each operation is the exact one, rounded to its
type.  `pow` comes from the C library.  The correction is linear in the dark and cubic from there on, and the two
parts do not quite meet: the first values of the cubic part lie below the last ones of the linear part.  Between two
values of a color at one brightness, or of the brightness for one color, there is always more than this gap.

* `cieRatio_mono`: values that are apart keep their order;
* `luminance_spec`: the correction is monotone in the color and in the brightness, from nothing to full light.
-/

namespace Spixels

open Rounding (binary32 binary64)

/-! ### The function -/

/-- `100.0f * (brightness/255.0f) * (c/255.0f)` -/
def cieLightness (c brightness : BitVec 8) : ℚ :=
  binary32.round
    (binary32.round (100 * binary32.round (brightness.toNat / 255)) * binary32.round (c.toNat / 255))

/-- `(v <= 8) ? v / 902.3 : pow((v + 16) / 116.0, 3)`: the sum is a `float`, the rest are doubles. -/
def cieRatio (pow : ℚ → ℚ → ℚ) (v : ℚ) : ℚ :=
  if v ≤ 8 then binary64.round (v / binary64.round (9023 / 10))
  else pow (binary64.round (binary32.round (v + 16) / 116)) 3

/-- The product with `out_factor`, before it is converted. -/
def cieOutput (pow : ℚ → ℚ → ℚ) (v : ℚ) : ℚ := binary64.round (0xFFFF * cieRatio pow v)

/-- The conversion to `uint16_t` truncates. -/
def luminanceCie1931Internal (pow : ℚ → ℚ → ℚ) : Luminance := fun c brightness =>
  BitVec.ofNat 16 ⌊cieOutput pow (cieLightness c brightness)⌋₊

/-- What the C library says about `pow`: one stays one, and the last bits of other cubes may be wrong. -/
structure Cubes (pow : ℚ → ℚ → ℚ) : Prop where
  one : pow 1 3 = 1
  near : ∀ x, 1 / 8 ≤ x → x ≤ 1 → |pow x 3 - x ^ 3| ≤ 1 / 2 ^ 50

/-! ### Roundings on the way -/

section Rounding

variable {x y : ℚ}

theorem binary32_natCast {n : ℕ} (hn : n < 2 ^ 24) : binary32.round n = n :=
  Rounding.Format.round_of_fits (m := n) (k := 0) hn (by decide) (by rw [zpow_zero, mul_one])

theorem binary64_natCast {n : ℕ} (hn : n < 2 ^ 53) : binary64.round n = n :=
  Rounding.Format.round_of_fits (m := n) (k := 0) hn (by decide) (by rw [zpow_zero, mul_one])

theorem binary32_le {n : ℕ} (hn : n < 2 ^ 24) (hx : 0 ≤ x) (h : x ≤ n) : binary32.round x ≤ n := by
  rw [← binary32_natCast hn]
  exact Rounding.Format.round_mono hx h

theorem binary64_le {n : ℕ} (hn : n < 2 ^ 53) (hx : 0 ≤ x) (h : x ≤ n) : binary64.round x ≤ n := by
  rw [← binary64_natCast hn]
  exact Rounding.Format.round_mono hx h

theorem le_binary64 {n : ℕ} (hn : n < 2 ^ 53) (h : n ≤ x) : n ≤ binary64.round x := by
  rw [← binary64_natCast hn]
  exact Rounding.Format.round_mono (Nat.cast_nonneg n) h

/-- A `float` up to 127 is off by `2 ^ -18` at most. -/
theorem binary32_near (hx : 0 ≤ x) (hx128 : x < 128) : |binary32.round x - x| ≤ 1 / 2 ^ 18 := by
  have hnear := Rounding.Format.round_near (F := binary32) (k := 7) hx (by norm_num; exact hx128) (by decide)
  norm_num [binary32] at hnear ⊢
  exact hnear

/-- A `float` or a double up to one is off by `2 ^ -24` at most. -/
theorem binary32_near_one (hx : 0 ≤ x) (hx1 : x ≤ 1) : |binary32.round x - x| ≤ 1 / 2 ^ 24 := by
  have hnear := Rounding.Format.round_near (F := binary32) (k := 1) hx (by norm_num; linarith) (by decide)
  norm_num [binary32] at hnear ⊢
  exact hnear

theorem binary64_near_one (hx : 0 ≤ x) (hx1 : x ≤ 1) : |binary64.round x - x| ≤ 1 / 2 ^ 53 := by
  have hnear := Rounding.Format.round_near (F := binary64) (k := 1) hx (by norm_num; linarith) (by decide)
  norm_num [binary64] at hnear ⊢
  exact hnear

end Rounding

/-! ### The lightness -/

/-- `b/255.0f` -/
def fraction (b : BitVec 8) : ℚ := binary32.round (b.toNat / 255)

theorem fraction_mem (b : BitVec 8) : 0 ≤ fraction b ∧ fraction b ≤ 1 := by
  have hb : (b.toNat : ℚ) ≤ 255 := by exact_mod_cast Nat.le_of_lt_succ b.isLt
  have hpos : (0 : ℚ) ≤ b.toNat / 255 := by positivity
  refine ⟨Rounding.Format.round_nonneg hpos, ?_⟩
  have hle := binary32_le (n := 1) (by norm_num) hpos (by push_cast; linarith)
  exact_mod_cast hle

/-- Different bytes are apart. -/
theorem fraction_gap {b b' : BitVec 8} (h : b < b') : fraction b + 39 / 10000 ≤ fraction b' := by
  have hb' : (b'.toNat : ℚ) ≤ 255 := by exact_mod_cast Nat.le_of_lt_succ b'.isLt
  have hlt : (b.toNat : ℚ) + 1 ≤ b'.toNat := by exact_mod_cast h
  have hnear := binary32_near_one (x := b.toNat / 255) (by positivity) (by linarith)
  have hnear' := binary32_near_one (x := b'.toNat / 255) (by positivity) (by linarith)
  rw [abs_le] at hnear hnear'
  unfold fraction
  norm_num at hnear hnear' ⊢
  linarith [hnear.2, hnear'.1]

theorem fraction_mono {b b' : BitVec 8} (h : b ≤ b') : fraction b ≤ fraction b' := by
  rcases Nat.lt_or_eq_of_le (BitVec.le_def.1 h) with hlt | heq
  · linarith [fraction_gap (BitVec.lt_def.2 hlt)]
  · rw [BitVec.eq_of_toNat_eq heq]

/-- `100.0f * (brightness/255.0f)` -/
def scaled (b : BitVec 8) : ℚ := binary32.round (100 * fraction b)

theorem scaled_spec (b : BitVec 8) :
    0 ≤ scaled b ∧ scaled b ≤ 100 ∧ |scaled b - 100 * fraction b| ≤ 1 / 2 ^ 18 := by
  obtain ⟨h0, h1⟩ := fraction_mem b
  have hpos : 0 ≤ 100 * fraction b := by linarith
  refine ⟨Rounding.Format.round_nonneg hpos, ?_, binary32_near hpos (by linarith)⟩
  have hle := binary32_le (n := 100) (by norm_num) hpos (by push_cast; linarith)
  exact_mod_cast hle

theorem scaled_mono {b b' : BitVec 8} (h : b ≤ b') : scaled b ≤ scaled b' := by
  have hfraction := fraction_mono h
  exact Rounding.Format.round_mono (by linarith [(fraction_mem b).1]) (by linarith)

theorem cieLightness_eq (c b : BitVec 8) : cieLightness c b = binary32.round (scaled b * fraction c) := rfl

theorem cieLightness_spec (c b : BitVec 8) :
    0 ≤ cieLightness c b ∧ cieLightness c b ≤ 100 ∧ |cieLightness c b - scaled b * fraction c| ≤ 1 / 2 ^ 18 := by
  obtain ⟨h0, h1⟩ := fraction_mem c
  obtain ⟨hs0, hs1, -⟩ := scaled_spec b
  have hpos : 0 ≤ scaled b * fraction c := mul_nonneg hs0 h0
  have hle : scaled b * fraction c ≤ 100 := by nlinarith
  rw [cieLightness_eq]
  refine ⟨Rounding.Format.round_nonneg hpos, ?_, binary32_near hpos (by linarith)⟩
  have hround := binary32_le (n := 100) (by norm_num) hpos (by push_cast; exact hle)
  exact_mod_cast hround

/-- What follows for values behind the linear part. -/
theorem gap_of_product {c c' b b' : BitVec 8} (h : scaled b * fraction c + 305 / 10000 ≤ scaled b' * fraction c') :
    cieLightness c b + 3 / 100 ≤ cieLightness c' b' := by
  have hnear := (cieLightness_spec c b).2.2
  have hnear' := (cieLightness_spec c' b').2.2
  rw [abs_le] at hnear hnear'
  norm_num at hnear hnear'
  linarith [hnear.2, hnear'.1]

/-- The product is not below the lightness by much. -/
theorem product_of_lt {c b : BitVec 8} (h : 8 < cieLightness c b) : 79 / 10 ≤ scaled b * fraction c := by
  have hnear := (cieLightness_spec c b).2.2
  rw [abs_le] at hnear
  norm_num at hnear
  linarith [hnear.2]

theorem cieLightness_gap_color {c c' b : BitVec 8} (h : c < c') (h8 : 8 < cieLightness c' b) :
    cieLightness c b + 3 / 100 ≤ cieLightness c' b := by
  have hprod := product_of_lt h8
  have hgap := fraction_gap h
  have h1 := (fraction_mem c').2
  have hs0 := (scaled_spec b).1
  -- the factor is not small
  have hscaled : 79 / 10 ≤ scaled b := by nlinarith
  refine gap_of_product ?_
  nlinarith

theorem cieLightness_gap_brightness {c b b' : BitVec 8} (h : b < b') (h8 : 8 < cieLightness c b') :
    cieLightness c b + 3 / 100 ≤ cieLightness c b' := by
  have hprod := product_of_lt h8
  have hgap := fraction_gap h
  obtain ⟨-, hs1, hnear'⟩ := scaled_spec b'
  have hnear := (scaled_spec b).2.2
  have h0 := (fraction_mem c).1
  rw [abs_le] at hnear hnear'
  norm_num at hnear hnear'
  have hscaled : scaled b + 3899 / 10000 ≤ scaled b' := by linarith [hnear.2, hnear'.1]
  have hfraction : 79 / 1000 ≤ fraction c := by nlinarith
  refine gap_of_product ?_
  nlinarith

theorem cieLightness_mono {c c' b b' : BitVec 8} (hc : c ≤ c') (hb : b ≤ b') :
    cieLightness c b ≤ cieLightness c' b' := by
  rw [cieLightness_eq, cieLightness_eq]
  refine Rounding.Format.round_mono (mul_nonneg (scaled_spec b).1 (fraction_mem c).1) ?_
  exact mul_le_mul (scaled_mono hb) (fraction_mono hc) (fraction_mem c).1 (scaled_spec b').1

/-! ### The correction -/

section Correction

variable {pow : ℚ → ℚ → ℚ} {v v' x y : ℚ}

/-- The argument of `pow`. -/
def cieRoot (v : ℚ) : ℚ := binary64.round (binary32.round (v + 16) / 116)

theorem cieRoot_spec (h8 : 8 < v) (h100 : v ≤ 100) :
    1 / 8 ≤ cieRoot v ∧ cieRoot v ≤ 1 ∧ |cieRoot v - (v + 16) / 116| ≤ 1 / 10 ^ 6 := by
  have hsum := binary32_near (x := v + 16) (by linarith) (by linarith)
  have hle : binary32.round (v + 16) ≤ 116 := by
    have hsum116 : v + 16 ≤ (116 : ℕ) := by push_cast; linarith
    have hround := binary32_le (by norm_num) (by linarith) hsum116
    exact_mod_cast hround
  rw [abs_le] at hsum
  norm_num at hsum
  have hquot := binary64_near_one (x := binary32.round (v + 16) / 116) (by linarith [hsum.1]) (by linarith)
  have hone := binary64_le (n := 1) (by norm_num) (show 0 ≤ binary32.round (v + 16) / 116 by linarith [hsum.1])
    (by push_cast; linarith)
  rw [abs_le] at hquot ⊢
  unfold cieRoot
  norm_num at hquot hone ⊢
  exact ⟨by linarith [hquot.1, hsum.1], hone, by linarith [hquot.1, hsum.1], by linarith [hquot.2, hsum.2]⟩

/-- Cubes of numbers that are apart keep their order. -/
theorem Cubes.mono (hpow : Cubes pow) (hx : 1 / 8 ≤ x) (hxy : x + 1 / 5000 ≤ y) (hy : y ≤ 1) :
    pow x 3 ≤ pow y 3 := by
  have hnearx := hpow.near x hx (by linarith)
  have hneary := hpow.near y (by linarith) hy
  have hsq : 1 / 64 ≤ x ^ 2 := by nlinarith
  have hcube : x ^ 3 + 1 / 10 ^ 6 ≤ y ^ 3 := by
    calc x ^ 3 + 1 / 10 ^ 6 ≤ x ^ 3 + 3 / 5000 * x ^ 2 + 3 / 5000 ^ 2 * x + 1 / 5000 ^ 3 := by
          norm_num at hx hsq ⊢
          linarith
      _ = (x + 1 / 5000) ^ 3 := by ring
      _ ≤ y ^ 3 := pow_le_pow_left₀ (by linarith) hxy 3
  rw [abs_le] at hnearx hneary
  norm_num at hnearx hneary hcube
  linarith [hnearx.2, hneary.1]

/-- The last values of the linear part lie below the cubes that are not next to them. -/
theorem Cubes.ge_linear (hpow : Cubes pow) (h0 : 0 ≤ v) (hv : v ≤ 8) (h8 : 8 < v') (h100 : v' ≤ 100)
    (hgap : v + 3 / 100 ≤ v') : binary64.round (v / binary64.round (9023 / 10)) ≤ pow (cieRoot v') 3 := by
  obtain ⟨hlow, hone, hroot⟩ := cieRoot_spec h8 h100
  have hnear := hpow.near _ hlow hone
  -- the tangent of the cube at the end of the linear part
  have htangent : 3 * (6 / 29) ^ 2 * cieRoot v' - 2 * (6 / 29) ^ 3 ≤ cieRoot v' ^ 3 := by
    nlinarith [mul_nonneg (sq_nonneg (cieRoot v' - 6 / 29)) (show 0 ≤ cieRoot v' + 12 / 29 by linarith)]
  have hdivisor : 902 ≤ binary64.round (9023 / 10) := by
    have hle := le_binary64 (n := 902) (x := 9023 / 10) (by norm_num) (by norm_num)
    exact_mod_cast hle
  have hquot : v / binary64.round (9023 / 10) ≤ v / 902 := div_le_div_of_nonneg_left h0 (by norm_num) hdivisor
  have hlinear := binary64_near_one (x := v / binary64.round (9023 / 10)) (div_nonneg h0 (by linarith))
    (by linarith)
  rw [abs_le] at hroot hnear hlinear
  norm_num at hroot hnear hlinear htangent
  linarith [hroot.1, hnear.1, hlinear.2]

/-- Values keep their order, where those behind the linear part are apart. -/
theorem cieRatio_mono (hpow : Cubes pow) (h0 : 0 ≤ v) (h100 : v' ≤ 100) (hle : v ≤ v')
    (hgap : 8 < v' → v = v' ∨ v + 3 / 100 ≤ v') : cieRatio pow v ≤ cieRatio pow v' := by
  by_cases h8 : v' ≤ 8
  · have hdivisor : 0 ≤ binary64.round (9023 / 10) := Rounding.Format.round_nonneg (by norm_num)
    rw [cieRatio, cieRatio, if_pos h8, if_pos (hle.trans h8)]
    exact Rounding.Format.round_mono (div_nonneg h0 hdivisor) (div_le_div_of_nonneg_right hle hdivisor)
  · rw [not_le] at h8
    rcases hgap h8 with rfl | hgap
    · exact le_rfl
    · have hcubic : cieRatio pow v' = pow (cieRoot v') 3 := if_neg (not_le.2 h8)
      rw [hcubic]
      by_cases hv : v ≤ 8
      · rw [cieRatio, if_pos hv]
        exact hpow.ge_linear h0 hv h8 h100 hgap
      · rw [not_le] at hv
        obtain ⟨hlow, -, hroot⟩ := cieRoot_spec hv (hle.trans h100)
        obtain ⟨-, hone, hroot'⟩ := cieRoot_spec h8 h100
        rw [cieRatio, if_neg (not_le.2 hv)]
        rw [abs_le] at hroot hroot'
        refine hpow.mono hlow ?_ hone
        norm_num at hroot hroot'
        unfold cieRoot at *
        linarith [hroot.2, hroot'.1]

theorem cieRatio_nonneg (hpow : Cubes pow) (h0 : 0 ≤ v) (h100 : v ≤ 100) : 0 ≤ cieRatio pow v := by
  unfold cieRatio
  split
  · exact Rounding.Format.round_nonneg (div_nonneg h0 (Rounding.Format.round_nonneg (by norm_num)))
  · rename_i h8
    obtain ⟨hlow, hone, -⟩ := cieRoot_spec (not_le.1 h8) h100
    have hnear := hpow.near _ hlow hone
    have hcube : (1 / 8) ^ 3 ≤ cieRoot v ^ 3 := pow_le_pow_left₀ (by norm_num) hlow 3
    change 0 ≤ pow (cieRoot v) 3
    rw [abs_le] at hnear
    norm_num at hnear hcube
    linarith [hnear.1]

theorem cieRatio_color (hpow : Cubes pow) {c c' : BitVec 8} (h : c ≤ c') (b : BitVec 8) :
    cieRatio pow (cieLightness c b) ≤ cieRatio pow (cieLightness c' b) := by
  refine cieRatio_mono hpow (cieLightness_spec c b).1 (cieLightness_spec c' b).2.1
    (cieLightness_mono h (BitVec.le_refl b)) fun h8 => ?_
  rcases Nat.lt_or_eq_of_le (BitVec.le_def.1 h) with hlt | heq
  · exact .inr (cieLightness_gap_color (BitVec.lt_def.2 hlt) h8)
  · exact .inl (by rw [BitVec.eq_of_toNat_eq heq])

theorem cieRatio_brightness (hpow : Cubes pow) (c : BitVec 8) {b b' : BitVec 8} (h : b ≤ b') :
    cieRatio pow (cieLightness c b) ≤ cieRatio pow (cieLightness c b') := by
  refine cieRatio_mono hpow (cieLightness_spec c b).1 (cieLightness_spec c b').2.1
    (cieLightness_mono (BitVec.le_refl c) h) fun h8 => ?_
  rcases Nat.lt_or_eq_of_le (BitVec.le_def.1 h) with hlt | heq
  · exact .inr (cieLightness_gap_brightness (BitVec.lt_def.2 hlt) h8)
  · exact .inl (by rw [BitVec.eq_of_toNat_eq heq])

theorem cieOutput_mono (hpow : Cubes pow) {c c' b b' : BitVec 8} (hc : c ≤ c') (hb : b ≤ b') :
    cieOutput pow (cieLightness c b) ≤ cieOutput pow (cieLightness c' b') := by
  have hratio := (cieRatio_color hpow hc b).trans (cieRatio_brightness hpow c' hb)
  have h0 := cieRatio_nonneg hpow (cieLightness_spec c b).1 (cieLightness_spec c b).2.1
  exact Rounding.Format.round_mono (by linarith) (by linarith)

/-- No light. -/
theorem cieOutput_zero : cieOutput pow 0 = 0 := by
  rw [cieOutput, cieRatio, if_pos (by norm_num), zero_div, Rounding.Format.round_zero, mul_zero,
    Rounding.Format.round_zero]

theorem fraction_zero : fraction 0#8 = 0 := by
  have hzero : (((0#8).toNat : ℕ) : ℚ) / 255 = 0 := by norm_num
  rw [fraction, hzero, Rounding.Format.round_zero]

/-- Full light. -/
theorem cieOutput_full (hpow : Cubes pow) : cieOutput pow (cieLightness 255#8 255#8) = 65535 := by
  have hone : fraction 255#8 = 1 := by
    have hquot : (((255#8).toNat : ℕ) : ℚ) / 255 = (1 : ℕ) := by norm_num
    rw [fraction, hquot, binary32_natCast (by norm_num), Nat.cast_one]
  have hscaled : scaled 255#8 = 100 := by
    have hround := binary32_natCast (n := 100) (by norm_num)
    rw [scaled, hone, mul_one]
    exact_mod_cast hround
  have hlight : cieLightness 255#8 255#8 = 100 := by
    have hround := binary32_natCast (n := 100) (by norm_num)
    rw [cieLightness_eq, hone, hscaled, mul_one]
    exact_mod_cast hround
  have hroot : cieRoot 100 = 1 := by
    have hsum := binary32_natCast (n := 116) (by norm_num)
    have hround := binary64_natCast (n := 1) (by norm_num)
    have hquot : binary32.round (100 + 16) / 116 = 1 := by
      have hnum : (100 : ℚ) + 16 = (116 : ℕ) := by norm_num
      rw [hnum, hsum]
      norm_num
    rw [cieRoot, hquot]
    exact_mod_cast hround
  have hratio : cieRatio pow 100 = 1 := by
    rw [cieRatio, if_neg (by norm_num)]
    change pow (cieRoot 100) 3 = 1
    rw [hroot, hpow.one]
  have hround := binary64_natCast (n := 65535) (by norm_num)
  rw [cieOutput, hlight, hratio]
  exact_mod_cast hround

/-- The conversion never overflows. -/
theorem cieOutput_mem (hpow : Cubes pow) (c b : BitVec 8) :
    0 ≤ cieOutput pow (cieLightness c b) ∧ cieOutput pow (cieLightness c b) ≤ 65535 := by
  have hratio := cieRatio_nonneg hpow (cieLightness_spec c b).1 (cieLightness_spec c b).2.1
  refine ⟨Rounding.Format.round_nonneg (by linarith), ?_⟩
  rw [← cieOutput_full hpow]
  exact cieOutput_mono hpow (BitVec.le_def.2 (Nat.le_of_lt_succ c.isLt)) (BitVec.le_def.2 (Nat.le_of_lt_succ b.isLt))

theorem toNat_luminance (hpow : Cubes pow) (c b : BitVec 8) :
    (luminanceCie1931Internal pow c b).toNat = ⌊cieOutput pow (cieLightness c b)⌋₊ := by
  have hfloor : ⌊cieOutput pow (cieLightness c b)⌋₊ ≤ 65535 :=
    Nat.floor_le_of_le (by exact_mod_cast (cieOutput_mem hpow c b).2)
  rw [luminanceCie1931Internal, BitVec.toNat_ofNat, Nat.mod_eq_of_lt (by omega)]

theorem luminance_mono (hpow : Cubes pow) {c c' b b' : BitVec 8} (hc : c ≤ c') (hb : b ≤ b') :
    luminanceCie1931Internal pow c b ≤ luminanceCie1931Internal pow c' b' := by
  rw [BitVec.le_def, toNat_luminance hpow, toNat_luminance hpow]
  exact Nat.floor_mono (cieOutput_mono hpow hc hb)

theorem luminance_dark (pow : ℚ → ℚ → ℚ) (b : BitVec 8) : luminanceCie1931Internal pow 0#8 b = 0#16 := by
  have hlight : cieLightness 0#8 b = 0 := by
    rw [cieLightness_eq, fraction_zero, mul_zero, Rounding.Format.round_zero]
  rw [luminanceCie1931Internal, hlight, cieOutput_zero, Nat.floor_zero]

theorem luminance_off (pow : ℚ → ℚ → ℚ) (c : BitVec 8) : luminanceCie1931Internal pow c 0#8 = 0#16 := by
  have hlight : cieLightness c 0#8 = 0 := by
    rw [cieLightness_eq, scaled, fraction_zero, mul_zero, Rounding.Format.round_zero, zero_mul,
      Rounding.Format.round_zero]
  rw [luminanceCie1931Internal, hlight, cieOutput_zero, Nat.floor_zero]

end Correction

/-- The correction, as the strips look it up, is monotone in the color and in the brightness.  Black and brightness
zero give nothing, full color at full brightness gives full light, and nothing in between overflows. -/
theorem luminance_spec {pow : ℚ → ℚ → ℚ} (hpow : Cubes pow) (fresh : Nat → BitVec 16) :
    let lum := luminanceCie1931 (luminanceCie1931Internal pow) fresh
    (∀ c c' b b', c ≤ c' → b ≤ b' → lum c b ≤ lum c' b') ∧ (∀ b, lum 0#8 b = 0#16) ∧ (∀ c, lum c 0#8 = 0#16) ∧
      lum 255#8 255#8 = 0xFFFF#16 ∧
      ∀ c b, 0 ≤ cieOutput pow (cieLightness c b) ∧ cieOutput pow (cieLightness c b) ≤ 65535 := by
  intro lum
  have hlum : lum = luminanceCie1931Internal pow := luminanceCie1931_eq _ fresh
  rw [hlum]
  refine ⟨fun c c' b b' hc hb => luminance_mono hpow hc hb, luminance_dark pow, luminance_off pow, ?_,
    cieOutput_mem hpow⟩
  rw [luminanceCie1931Internal, cieOutput_full hpow]
  norm_num

/-- A `pow` whose cubes are rounded once. -/
theorem cubes_rounded : Cubes fun x _ => binary64.round (x ^ 3) := by
  refine ⟨?_, fun x hlow hone => ?_⟩
  · have hround := binary64_natCast (n := 1) (by norm_num)
    rw [one_pow]
    exact_mod_cast hround
  · have hnear := binary64_near_one (x := x ^ 3) (pow_nonneg (by linarith) 3) (pow_le_one₀ (by linarith) hone)
    exact hnear.trans (by norm_num)

theorem luminance_spec_rounded :
    let lum := luminanceCie1931 (luminanceCie1931Internal fun x _ => binary64.round (x ^ 3)) fun _ => 0xFFFF#16
    lum 100#8 200#8 ≤ lum 101#8 200#8 ∧ lum 0#8 200#8 = 0#16 ∧ lum 255#8 255#8 = 0xFFFF#16 := by
  intro lum
  obtain ⟨hmono, hdark, -, hfull, -⟩ := luminance_spec cubes_rounded fun _ => 0xFFFF#16
  exact ⟨hmono _ _ _ _ (by decide) (BitVec.le_refl _), hdark _, hfull⟩

end Spixels
