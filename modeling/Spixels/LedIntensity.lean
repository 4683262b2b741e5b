import Mathlib.Algebra.Order.Field.Basic
import Mathlib.Algebra.Order.Ring.Rat
import Mathlib.Tactic.IntervalCases
import Mathlib.Tactic.Linarith
import Mathlib.Tactic.Ring
import Spixels.LedChip

/-!
# The light of an APA102

The APA102 shines with the product of a color byte and the five bits of global brightness in front of it, up to
`255 * 31`.  For a dim pixel `SetLinearValues` takes less global brightness and more bits of the color: in mode
`k` a channel `c` shines with `level k c`, where the mode depends on all three channels.  The levels of two modes
never cross, so brighter values never get darker, and they stay close to the ideal line: `emitted_monotone_near`.
Below full brightness they lie under the line, so they are closer to it than the top byte alone unless that one is
higher: `dim_closer_iff`.
-/

namespace Spixels

inductive Channel
  | r
  | g
  | b
deriving DecidableEq, Repr

namespace Rgb16

def get (v : Rgb16) : Channel → BitVec 16
  | .r => v.r
  | .g => v.g
  | .b => v.b

def update (v : Rgb16) (ch : Channel) (x : BitVec 16) : Rgb16 :=
  match ch with
  | .r => { v with r := x }
  | .g => { v with g := x }
  | .b => { v with b := x }

/-- The largest channel. -/
def top (v : Rgb16) : Nat := max v.r.toNat (max v.g.toNat v.b.toNat)

/-- The larger of the two other channels. -/
def others (v : Rgb16) : Channel → Nat
  | .r => max v.g.toNat v.b.toNat
  | .g => max v.r.toNat v.b.toNat
  | .b => max v.r.toNat v.g.toNat

@[simp] theorem get_update (v : Rgb16) (ch : Channel) (x : BitVec 16) : (v.update ch x).get ch = x := by
  cases ch <;> rfl

theorem top_update (v : Rgb16) (ch : Channel) (x : BitVec 16) :
    (v.update ch x).top = max x.toNat (v.others ch) := by
  cases ch <;> simp only [update, top, others]
  · exact Nat.max_left_comm ..
  · omega

theorem get_le_top (v : Rgb16) (ch : Channel) : (v.get ch).toNat ≤ v.top := by
  cases ch <;> simp only [get, top] <;> omega

end Rgb16

/-! ### Levels of a mode -/

/-- The light of a channel value `c` in mode `k`: the bits that are kept times the global brightness. -/
def level (k c : Nat) : Nat := c / 2 ^ (4 + k) * (2 ^ (k + 1) - 1)

theorem level_mono (k : Nat) {c c' : Nat} (h : c ≤ c') : level k c ≤ level k c' :=
  Nat.mul_le_mul_right _ (Nat.div_le_div_right h)

/-- The top of a mode lies below the bottom of every later one. -/
theorem level_lt_level {k k' c c' : Nat} (hk : k < k') (hc : c < 2 ^ (8 + k)) (hc' : 2 ^ (7 + k') ≤ c') :
    level k c < level k' c' := by
  have hlow : c / 2 ^ (4 + k) ≤ 15 := by
    rw [show 2 ^ (8 + k) = 2 ^ (4 + k) * 16 by rw [show 8 + k = 4 + k + 4 by omega, Nat.pow_add]] at hc
    have := Nat.div_lt_of_lt_mul hc
    omega
  have hhigh : 8 ≤ c' / 2 ^ (4 + k') := by
    rw [Nat.le_div_iff_mul_le (Nat.two_pow_pos _)]
    rwa [show 7 + k' = 3 + (4 + k') by omega, Nat.pow_add] at hc'
  have hpow : 2 * 2 ^ (k + 1) ≤ 2 ^ (k' + 1) := by
    rw [← Nat.pow_succ']
    exact Nat.pow_le_pow_right (by omega) (by omega)
  have hpos : 1 ≤ 2 ^ (k + 1) := Nat.one_le_two_pow
  calc level k c ≤ 15 * (2 ^ (k + 1) - 1) := Nat.mul_le_mul_right _ hlow
    _ < 8 * (2 ^ (k' + 1) - 1) := by omega
    _ ≤ level k' c' := Nat.mul_le_mul_right _ hhigh

/-- Below full brightness the level lies under the ideal line, by less than one step. -/
theorem level_near {k c : Nat} (hk : k < 4) (hc : c < 2 ^ (8 + k)) :
    257 * level k c ≤ 31 * c ∧ 31 * c < 257 * level k c + 257 * 31 := by
  unfold level
  interval_cases k <;> omega

/-- At full brightness it lies to both sides. -/
theorem level_four_near {c : Nat} (hc : c < 2 ^ 16) :
    31 * c < 257 * level 4 c + 257 * 31 ∧ 257 * level 4 c < 31 * c + 257 * 31 := by
  unfold level
  omega

/-- When the top byte alone gives no more than the level of a dim mode. -/
theorem level_four_le_iff {k c : Nat} (hk : k < 4) (hc : c < 2 ^ (8 + k)) :
    level 4 c ≤ level k c ↔ (2 ^ (4 - k) - 1) * (c / 2 ^ 8) ≤ (2 ^ (k + 1) - 1) * (c % 2 ^ 8 / 2 ^ (4 + k)) := by
  unfold level
  interval_cases k <;> omega

/-- Where it gives more it is not far off, and closer to the ideal line. -/
theorem level_lt_four {k c : Nat} (hk : k < 4) (hc : c < 2 ^ (8 + k)) (hlt : level k c < level 4 c) :
    257 * level 4 c + 257 * level k c < 2 * (31 * c) ∧ level 4 c ≤ level k c + 9 := by
  unfold level at *
  interval_cases k <;> omega

/-! ### What the bytes of a pixel shine with -/

namespace APA102LedStrip

/-- Where the color byte of the channel is among the four bytes of a pixel. -/
def colorByte : Channel → Nat
  | .b => 1
  | .g => 2
  | .r => 3

/-- The color byte times the global brightness. -/
def intensity (bytes : List (BitVec 8)) (ch : Channel) : Nat :=
  (bytes.getD (colorByte ch) 0#8).toNat * (bytes.getD 0 0#8 &&& 0x1F#8).toNat

/-- The light of a pixel that `SetLinearValues` has been called for. -/
def emitted (v : Rgb16) (ch : Channel) : Nat := intensity (StripType.apa102.group v) ch

/-- The four bytes without the adjustment for dim pixels: full brightness and the top bytes. -/
def plainGroup (v : Rgb16) : List (BitVec 8) :=
  [0xFF#8, (v.b >>> 8).setWidth 8, (v.g >>> 8).setWidth 8, (v.r >>> 8).setWidth 8]

def plain (v : Rgb16) (ch : Channel) : Nat := intensity (plainGroup v) ch

/-- The part `x / 65535` of `255 * 31`. -/
def ideal (x : BitVec 16) : ℚ := x.toNat * 31 / 257

theorem emitted_eq (v : Rgb16) (ch : Channel) : emitted v ch = level (leastGlobal v) (v.get ch).toNat := by
  have hglobal : ∀ k < 5, (globalByte k &&& 0x1F#8).toNat = 2 ^ (k + 1) - 1 := by decide
  have hfits := channel_lt v (v.get_le_top ch)
  rw [emitted, intensity, level, ← hglobal _ (leastGlobal_lt v), ← setWidth_shift _ hfits]
  cases ch <;>
    simp only [StripType.group, StripType.setLinearValues, APA102LedStrip.setLinearValues, Call.data?, scale_eq,
      List.filterMap_cons, List.filterMap_nil] <;>
    rfl

theorem plain_eq (v : Rgb16) (ch : Channel) : plain v ch = level 4 (v.get ch).toNat := by
  have htop : ∀ x : BitVec 16, ((x >>> 8).setWidth 8).toNat = x.toNat / 2 ^ 8 := by
    intro x
    have hx := x.isLt
    rw [BitVec.toNat_setWidth, BitVec.toNat_ushiftRight, Nat.shiftRight_eq_div_pow, Nat.mod_eq_of_lt (by omega)]
  cases ch <;> simp only [plain, intensity, plainGroup, colorByte, level, Rgb16.get, List.getD_cons_succ,
    List.getD_cons_zero, htop] <;> rfl

/-- Distances from the ideal line, without fractions. -/
theorem abs_sub_ideal (e : Nat) (x : BitVec 16) :
    |(e : ℚ) - ideal x| = (|257 * (e : ℤ) - 31 * (x.toNat : ℤ)| : ℤ) / 257 := by
  rw [ideal, Int.cast_abs, ← abs_of_pos (show (0 : ℚ) < 257 by norm_num), ← abs_div]
  congr 1
  push_cast
  rw [abs_of_pos (show (0 : ℚ) < 257 by norm_num)]
  ring

/-- A brighter value never shines darker, whatever mode the others ask for. -/
theorem emitted_mono (v : Rgb16) (ch : Channel) {x y : BitVec 16} (hxy : x ≤ y) :
    emitted (v.update ch x) ch ≤ emitted (v.update ch y) ch := by
  have hle : x.toNat ≤ y.toNat := hxy
  have htop : ∀ z : BitVec 16, (v.update ch z).top = max z.toNat (v.others ch) := v.top_update ch
  have hlow : ∀ z : BitVec 16, leastGlobal (v.update ch z) ≠ 0 →
      2 ^ (7 + leastGlobal (v.update ch z)) ≤ max z.toNat (v.others ch) :=
    fun z hz => htop z ▸ pow_le_of_leastGlobal hz
  have hhigh : ∀ z : BitVec 16, leastGlobal (v.update ch z) ≠ 4 →
      max z.toNat (v.others ch) < 2 ^ (8 + leastGlobal (v.update ch z)) :=
    fun z hz => htop z ▸ lt_pow_of_leastGlobal hz
  have hpow : ∀ {a b : Nat}, a < b → 2 ^ (8 + a) ≤ 2 ^ (7 + b) :=
    fun hab => Nat.pow_le_pow_right (by omega) (by omega)
  have hx := leastGlobal_lt (v.update ch x)
  have hy := leastGlobal_lt (v.update ch y)
  rw [emitted_eq, emitted_eq, Rgb16.get_update, Rgb16.get_update]
  rcases Nat.lt_trichotomy (leastGlobal (v.update ch x)) (leastGlobal (v.update ch y)) with h | h | h
  · -- the new mode is due to this channel, as the others fit the old one
    have h1 := hhigh x (by omega)
    have h2 := hlow y (by omega)
    have h3 := hpow h
    exact (level_lt_level h (by omega) (by omega)).le
  · rw [h]; exact level_mono _ hle
  · have h1 := hhigh y (by omega)
    have h2 := hlow x (by omega)
    have h3 := hpow h
    omega

/-- What shines is less than one step of the color byte off, whatever mode the others ask for. -/
theorem emitted_near (v : Rgb16) (ch : Channel) : |(emitted v ch : ℚ) - ideal (v.get ch)| < 31 := by
  have hkey : |257 * (emitted v ch : ℤ) - 31 * ((v.get ch).toNat : ℤ)| < 257 * 31 := by
    rw [emitted_eq, abs_lt]
    by_cases hk : leastGlobal v = 4
    · have := level_four_near (v.get ch).isLt
      rw [hk]; omega
    · have hc := lt_of_le_of_lt (v.get_le_top ch) (lt_pow_of_leastGlobal hk)
      have := level_near (by have := leastGlobal_lt v; omega) hc
      omega
  rw [abs_sub_ideal, div_lt_iff₀ (by norm_num)]
  exact_mod_cast (by omega : |257 * (emitted v ch : ℤ) - 31 * ((v.get ch).toNat : ℤ)| < 31 * 257)

/-- The light of every channel grows with its value and stays within one step of the ideal line. -/
theorem emitted_monotone_near (v : Rgb16) (ch : Channel) :
    (∀ x y : BitVec 16, x ≤ y → emitted (v.update ch x) ch ≤ emitted (v.update ch y) ch) ∧
      |(emitted v ch : ℚ) - ideal (v.get ch)| < 31 :=
  ⟨fun _ _ => emitted_mono v ch, emitted_near v ch⟩

/-- Of two values of which one lies under the line. -/
private theorem dist_le_iff {c e p : Nat} (hunder : 257 * e ≤ 31 * c)
    (hfar : e < p → 257 * p + 257 * e < 2 * (31 * c) ∧ p ≤ e + 9) :
    (|257 * (e : ℤ) - 31 * (c : ℤ)| ≤ |257 * (p : ℤ) - 31 * (c : ℤ)| ↔ p ≤ e) ∧
      |257 * (e : ℤ) - 31 * (c : ℤ)| ≤ |257 * (p : ℤ) - 31 * (c : ℤ)| + 9 * 257 := by
  rw [abs_of_nonpos (by omega : 257 * (e : ℤ) - 31 * (c : ℤ) ≤ 0)]
  have hle := le_abs_self (257 * (p : ℤ) - 31 * (c : ℤ))
  have hneg := neg_le_abs (257 * (p : ℤ) - 31 * (c : ℤ))
  rcases Nat.lt_or_ge e p with h | h
  · obtain ⟨h1, h2⟩ := hfar h
    have hcloser : |257 * (p : ℤ) - 31 * (c : ℤ)| < -(257 * (e : ℤ) - 31 * (c : ℤ)) := by
      rw [abs_lt]; omega
    exact ⟨by omega, by omega⟩
  · exact ⟨by omega, by omega⟩

/-- The adjustment for dim pixels comes closer to the ideal line than the top byte alone, except where the bits it
adds do not make up for the global brightness it takes away; there it is off by at most 9 more. -/
theorem dim_closer_iff (v : Rgb16) (ch : Channel) :
    (|(emitted v ch : ℚ) - ideal (v.get ch)| ≤ |(plain v ch : ℚ) - ideal (v.get ch)| ↔
        leastGlobal v = 4 ∨ (2 ^ (4 - leastGlobal v) - 1) * ((v.get ch).toNat / 2 ^ 8) ≤
          (2 ^ (leastGlobal v + 1) - 1) * ((v.get ch).toNat % 2 ^ 8 / 2 ^ (4 + leastGlobal v))) ∧
      |(emitted v ch : ℚ) - ideal (v.get ch)| ≤ |(plain v ch : ℚ) - ideal (v.get ch)| + 9 := by
  by_cases hk : leastGlobal v = 4
  · rw [emitted_eq, plain_eq, hk]
    exact ⟨iff_of_true le_rfl (.inl rfl), by linarith⟩
  · have hlt : leastGlobal v < 4 := by have := leastGlobal_lt v; omega
    have hc := lt_of_le_of_lt (v.get_le_top ch) (lt_pow_of_leastGlobal hk)
    obtain ⟨hunder, -⟩ := level_near hlt hc
    obtain ⟨hiff, hnine⟩ := dist_le_iff hunder (level_lt_four hlt hc)
    rw [or_iff_right hk, ← level_four_le_iff hlt hc, emitted_eq, plain_eq, abs_sub_ideal, abs_sub_ideal,
      div_le_div_iff_of_pos_right (by norm_num), Int.cast_le]
    refine ⟨hiff, ?_⟩
    rw [div_add' _ _ _ (by norm_num), div_le_div_iff_of_pos_right (by norm_num)]
    exact_mod_cast hnine

/-- The value 256 on its own: the top byte alone gives 31, the adjustment 24, and the ideal is about 30.9. -/
theorem not_dim_closer :
    let v : Rgb16 := ⟨256#16, 0#16, 0#16⟩
    ¬|(emitted v .r : ℚ) - ideal (v.get .r)| ≤ |(plain v .r : ℚ) - ideal (v.get .r)| := by
  intro v
  have he : emitted v .r = 24 := by decide
  have hp : plain v .r = 31 := by decide
  rw [abs_sub_ideal, abs_sub_ideal, he, hp]
  norm_num [v, Rgb16.get]

end APA102LedStrip

end Spixels
