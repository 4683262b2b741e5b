import Mathlib.Data.Nat.Bitwise
import Spixels.Frame
import Spixels.LedStrip

/-!
# What the chips understand

Each chip reads a frame of `Frame` from its pin: `StripType.format` gives the bytes around the pixels, `decode`
reads the bytes of one pixel, and `reduce` says what is left of a linear value at the depth of the chip.
`SetLinearValues` writes the bytes of one pixel (`setLinearValues_eq`), and they decode to the reduced value
(`decode_group`).
-/

namespace Spixels

/-- What a chip shows for a pixel: its channels, and for the APA102 the exponent of the global brightness. -/
structure Pixel where
  global : Nat
  r : Nat
  g : Nat
  b : Nat
deriving DecidableEq, Repr

/-- The byte that goes with the exponent `k` of the global brightness. -/
def globalByte (k : Nat) : BitVec 8 := 0xE0#8 ||| BitVec.ofNat 8 (2 ^ (k + 1) - 1)

/-- The least exponent in 0..3 with which the top 12 bits of all values fit, and 4 if there is none. -/
def leastGlobal (v : Rgb16) : Nat :=
  ((List.range 4).find? fun k => max v.r.toNat (max v.g.toNat v.b.toNat) / 16 < 16 * 2 ^ k).getD 4

namespace StripType

def format : StripType → Frame.Format (BitVec 8)
  | ws2801 => { header := [], size := 3, trailer := fun _ => [] }
  | lpd6803 => { header := List.replicate 4 0#8, size := 2, trailer := fun _ => List.replicate 4 0#8 }
  | lpd8806 => { header := [], size := 3, trailer := fun count => List.replicate ((count + 31) / 32) 0#8 }
  | apa102 =>
    { header := List.replicate 4 0#8, size := 4
      trailer := fun count => List.replicate ((count + 15) / 16) 0xFF#8 }

def decode : StripType → List (BitVec 8) → Option Pixel
  | ws2801, [r, g, b] => some ⟨0, r.toNat, g.toNat, b.toNat⟩
  | lpd6803, [hi, lo] =>
    let word := 256 * hi.toNat + lo.toNat
    if 2 ^ 15 ≤ word then some ⟨0, word / 2 ^ 10 % 32, word / 2 ^ 5 % 32, word % 32⟩ else none
  | lpd8806, [b, r, g] =>
    if 128 ≤ b.toNat ∧ 128 ≤ r.toNat ∧ 128 ≤ g.toNat then some ⟨0, r.toNat - 128, g.toNat - 128, b.toNat - 128⟩
    else none
  | apa102, [global, b, g, r] =>
    ((List.range 5).find? fun k => global = globalByte k).map fun k => ⟨k, r.toNat, g.toNat, b.toNat⟩
  | _, _ => none

/-- The pixels of the frame that the bytes form for the chip. -/
def parse (type : StripType) : Nat → List (BitVec 8) → Option (List Pixel) := type.format.parse type.decode

/-- The top bits of the values, as many as the chip has. -/
def reduce : StripType → Rgb16 → Pixel
  | ws2801, v => ⟨0, v.r.toNat / 2 ^ 8, v.g.toNat / 2 ^ 8, v.b.toNat / 2 ^ 8⟩
  | lpd6803, v => ⟨0, v.r.toNat / 2 ^ 11, v.g.toNat / 2 ^ 11, v.b.toNat / 2 ^ 11⟩
  | lpd8806, v => ⟨0, v.r.toNat / 2 ^ 9, v.g.toNat / 2 ^ 9, v.b.toNat / 2 ^ 9⟩
  | apa102, v =>
    ⟨leastGlobal v, v.r.toNat / 2 ^ (4 + leastGlobal v), v.g.toNat / 2 ^ (4 + leastGlobal v),
      v.b.toNat / 2 ^ (4 + leastGlobal v)⟩

end StripType

/-! ### The bytes of a pixel -/

/-- The byte a call sets. -/
def Call.data? : Call → Option (BitVec 8)
  | .setBufferedByte _ _ data => some data
  | .registerDataGpio _ _ => none
  | .sendBuffers => none

/-- The bytes that `SetLinearValues` sets. -/
def StripType.group (type : StripType) (v : Rgb16) : List (BitVec 8) :=
  (type.setLinearValues 0 0 v).filterMap Call.data?

/-- The calls that set consecutive bytes. -/
def setBytes (gpio : Int) (pos : Nat) (bs : List (BitVec 8)) : List Call :=
  bs.mapIdx fun j b => .setBufferedByte gpio (pos + j) b

theorem sizeT_eq {x : Int} {n : Nat} (hx : x = n) (hn : n < 2 ^ 64) : sizeT x = n := by
  unfold sizeT; omega

theorem length_group (type : StripType) (v : Rgb16) : (type.group v).length = type.format.size := by
  cases type <;> rfl

/-- `SetLinearValues` sets the bytes of the group of its pixel. -/
theorem setLinearValues_eq (type : StripType) (gpio : Int) {i : Nat} (hi : i < 2 ^ 31) (v : Rgb16) :
    type.setLinearValues gpio i v = setBytes gpio (type.format.start i) (type.group v) := by
  cases type
  all_goals
    simp only [StripType.setLinearValues, WS2801LedStrip.setLinearValues, LPD6803LedStrip.setLinearValues,
      LPD8806LedStrip.setLinearValues, APA102LedStrip.setLinearValues, StripType.group, setBytes, Call.data?,
      StripType.format, Frame.Format.start, List.filterMap_cons, List.filterMap_nil, List.mapIdx_cons,
      List.mapIdx_nil, List.cons.injEq, Call.setBufferedByte.injEq, and_true, true_and, List.length_nil,
      List.length_replicate]
    -- what is left are the positions
    repeat' apply And.intro
  all_goals exact sizeT_eq (by omega) (by omega)

/-! ### Depths -/

private theorem toNat_top (v : BitVec 16) {k : Nat} (hk : 8 ≤ k) :
    ((v >>> k).setWidth 8).toNat = v.toNat / 2 ^ k := by
  have hv := v.isLt
  have hle : v.toNat / 2 ^ k ≤ v.toNat / 2 ^ 8 :=
    Nat.div_le_div_left (Nat.pow_le_pow_right (by omega) hk) (by decide)
  rw [BitVec.toNat_setWidth, BitVec.toNat_ushiftRight, Nat.shiftRight_eq_div_pow, Nat.mod_eq_of_lt (by omega)]

theorem decode_ws2801 (v : Rgb16) :
    StripType.ws2801.decode (StripType.ws2801.group v) = some (StripType.ws2801.reduce v) := by
  change some (Pixel.mk 0 ((v.r >>> 8).setWidth 8).toNat ((v.g >>> 8).setWidth 8).toNat
    ((v.b >>> 8).setWidth 8).toNat) = _
  simp only [toNat_top _ (le_refl 8), StripType.reduce]

/-- The word of the LPD6803: the start bit, and five bits for each channel. -/
private theorem toNat_word (r g b : BitVec 16) :
    (0#16 ||| 1#16 <<< 15 ||| (r >>> 11) <<< 10 ||| (g >>> 11) <<< 5 ||| (b >>> 11) <<< 0).toNat =
      2 ^ 15 + 2 ^ 10 * (r.toNat / 2 ^ 11) + 2 ^ 5 * (g.toNat / 2 ^ 11) + b.toNat / 2 ^ 11 := by
  have shifted : ∀ (x : BitVec 16), ∀ k ≤ 10, ((x >>> 11) <<< k).toNat = 2 ^ k * (x.toNat / 2 ^ 11) := by
    intro x k hk
    have hx := x.isLt
    have hp : 2 ^ k ≤ 2 ^ 10 := Nat.pow_le_pow_right (by omega) hk
    have hlt : 2 ^ k * (x.toNat / 2 ^ 11) ≤ 2 ^ 10 * (x.toNat / 2 ^ 11) := Nat.mul_le_mul_right _ hp
    rw [BitVec.toNat_shiftLeft, BitVec.toNat_ushiftRight, Nat.shiftLeft_eq, Nat.shiftRight_eq_div_pow,
      Nat.mul_comm, Nat.mod_eq_of_lt (by omega)]
  have hr := r.isLt
  have hg := g.isLt
  have hb := b.isLt
  simp only [BitVec.toNat_or, shifted r 10 (by omega), shifted g 5 (by omega), shifted b 0 (by omega)]
  -- the parts do not overlap, so `or` adds them
  have h1 := Nat.two_pow_add_eq_or_of_lt (i := 15) (b := 2 ^ 10 * (r.toNat / 2 ^ 11)) (by omega) 1
  have h2 := Nat.two_pow_add_eq_or_of_lt (i := 10) (b := 2 ^ 5 * (g.toNat / 2 ^ 11)) (by omega)
      (2 ^ 5 + r.toNat / 2 ^ 11)
  have h3 := Nat.two_pow_add_eq_or_of_lt (i := 5) (b := 2 ^ 0 * (b.toNat / 2 ^ 11)) (by omega)
    (2 ^ 10 + 2 ^ 5 * (r.toNat / 2 ^ 11) + g.toNat / 2 ^ 11)
  have h0 : (0#16).toNat ||| (1#16 <<< 15).toNat = 2 ^ 15 * 1 := by decide
  rw [h0, ← h1, show 2 ^ 15 * 1 + 2 ^ 10 * (r.toNat / 2 ^ 11) = 2 ^ 10 * (2 ^ 5 + r.toNat / 2 ^ 11) by omega, ← h2,
    show 2 ^ 10 * (2 ^ 5 + r.toNat / 2 ^ 11) + 2 ^ 5 * (g.toNat / 2 ^ 11) =
      2 ^ 5 * (2 ^ 10 + 2 ^ 5 * (r.toNat / 2 ^ 11) + g.toNat / 2 ^ 11) by omega, ← h3]
  omega

private theorem toNat_low (x : BitVec 16) : ((x &&& 0xFF#16).setWidth 8).toNat = x.toNat % 256 := by
  have h : x.toNat &&& 255 = x.toNat % 256 := Nat.and_two_pow_sub_one_eq_mod x.toNat 8
  rw [BitVec.toNat_setWidth, BitVec.toNat_and, show (0xFF#16).toNat = 255 from rfl, h, Nat.mod_mod]

theorem decode_lpd6803 (v : Rgb16) :
    StripType.lpd6803.decode (StripType.lpd6803.group v) = some (StripType.lpd6803.reduce v) := by
  have hr := v.r.isLt
  have hg := v.g.isLt
  have hb := v.b.isLt
  have hw := toNat_word v.r v.g v.b
  simp only [StripType.group, StripType.setLinearValues, LPD6803LedStrip.setLinearValues, Call.data?,
    List.filterMap_cons, List.filterMap_nil, StripType.decode, StripType.reduce, toNat_top _ (le_refl 8),
    toNat_low, hw]
  rw [if_pos (by omega)]
  simp only [Option.some.injEq, Pixel.mk.injEq, true_and]
  omega

private theorem toNat_seven (x : BitVec 16) :
    ((x >>> 9 ||| 0x80#16).setWidth 8).toNat = 128 + x.toNat / 2 ^ 9 := by
  have hx := x.isLt
  have h := Nat.two_pow_add_eq_or_of_lt (i := 7) (b := x.toNat / 2 ^ 9) (by omega) 1
  rw [BitVec.toNat_setWidth, BitVec.toNat_or, BitVec.toNat_ushiftRight, Nat.shiftRight_eq_div_pow, Nat.or_comm,
    show (0x80#16).toNat = 2 ^ 7 * 1 from rfl, ← h]
  omega

theorem decode_lpd8806 (v : Rgb16) :
    StripType.lpd8806.decode (StripType.lpd8806.group v) = some (StripType.lpd8806.reduce v) := by
  simp only [StripType.group, StripType.setLinearValues, LPD8806LedStrip.setLinearValues, Call.data?,
    List.filterMap_cons, List.filterMap_nil, StripType.decode, StripType.reduce, toNat_seven]
  rw [if_pos (by omega)]
  simp only [Nat.add_sub_cancel_left]

/-! ### The global brightness of the APA102 -/

/-- `bit_use` stays below a power of two exactly if all values do. -/
private theorem bitUse_lt (r g b : BitVec 16) {n m : Nat} (hn : n = 2 ^ m) (hm : m < 16) :
    (r >>> 4 ||| g >>> 4 ||| b >>> 4 < BitVec.ofNat 16 n) ↔ max r.toNat (max g.toNat b.toNat) / 16 < n := by
  have hlt : n < 2 ^ 16 := by rw [hn]; exact Nat.pow_lt_pow_right (by omega) hm
  rw [BitVec.lt_def, BitVec.toNat_ofNat, Nat.mod_eq_of_lt hlt]
  simp only [BitVec.toNat_or, BitVec.toNat_ushiftRight, Nat.shiftRight_eq_div_pow]
  constructor
  · intro h
    have hr : r.toNat / 2 ^ 4 ≤ r.toNat / 2 ^ 4 ||| g.toNat / 2 ^ 4 ||| b.toNat / 2 ^ 4 :=
      le_trans Nat.left_le_or Nat.left_le_or
    have hg : g.toNat / 2 ^ 4 ≤ r.toNat / 2 ^ 4 ||| g.toNat / 2 ^ 4 ||| b.toNat / 2 ^ 4 :=
      le_trans Nat.right_le_or Nat.left_le_or
    have hb : b.toNat / 2 ^ 4 ≤ r.toNat / 2 ^ 4 ||| g.toNat / 2 ^ 4 ||| b.toNat / 2 ^ 4 := Nat.right_le_or
    omega
  · intro h
    rw [hn] at h ⊢
    exact Nat.or_lt_two_pow (Nat.or_lt_two_pow (by omega) (by omega)) (by omega)

/-- A shifted value that fits a byte. -/
theorem setWidth_shift (x : BitVec 16) {k : Nat} (hx : x.toNat / 2 ^ (4 + k) < 256) :
    ((x >>> 4 >>> k).setWidth 8).toNat = x.toNat / 2 ^ (4 + k) := by
  rw [BitVec.toNat_setWidth, BitVec.toNat_ushiftRight, BitVec.toNat_ushiftRight, Nat.shiftRight_eq_div_pow,
    Nat.shiftRight_eq_div_pow, Nat.div_div_eq_div_mul, ← Nat.pow_add, Nat.mod_eq_of_lt hx]

private theorem leastGlobal_eq (v : Rgb16) {m : Nat} (hm : m = max v.r.toNat (max v.g.toNat v.b.toNat) / 16) :
    leastGlobal v =
      if m < 16 then 0 else if m < 32 then 1 else if m < 64 then 2 else if m < 128 then 3 else 4 := by
  have hrange : List.range 4 = [0, 1, 2, 3] := rfl
  rw [leastGlobal, hrange, ← hm]
  simp only [List.find?_cons, List.find?_nil]
  by_cases h0 : m < 16
  · simp [h0]
  · by_cases h1 : m < 32
    · simp [h0, h1]
    · by_cases h2 : m < 64
      · simp [h0, h1, h2]
      · by_cases h3 : m < 128 <;> simp [h0, h1, h2, h3]

/-- The branches of the source pick the least exponent. -/
theorem scale_eq (v : Rgb16) :
    APA102LedStrip.scale (v.r >>> 4) (v.g >>> 4) (v.b >>> 4) =
      (globalByte (leastGlobal v), v.r >>> 4 >>> leastGlobal v, v.g >>> 4 >>> leastGlobal v,
        v.b >>> 4 >>> leastGlobal v) := by
  have h0 := bitUse_lt v.r v.g v.b (show 16 = 2 ^ 4 from rfl) (by omega)
  have h1 := bitUse_lt v.r v.g v.b (show 32 = 2 ^ 5 from rfl) (by omega)
  have h2 := bitUse_lt v.r v.g v.b (show 64 = 2 ^ 6 from rfl) (by omega)
  have h3 := bitUse_lt v.r v.g v.b (show 128 = 2 ^ 7 from rfl) (by omega)
  rw [leastGlobal_eq v rfl]
  unfold APA102LedStrip.scale
  simp only [h0, h1, h2, h3]
  split_ifs <;> rfl

/-- There is no exponent in 0..3, or the top bits fit with the one found. -/
theorem leastGlobal_cases (v : Rgb16) : leastGlobal v = 4 ∨
    leastGlobal v < 4 ∧ max v.r.toNat (max v.g.toNat v.b.toNat) / 16 < 16 * 2 ^ leastGlobal v := by
  unfold leastGlobal
  cases h : (List.range 4).find? fun k => max v.r.toNat (max v.g.toNat v.b.toNat) / 16 < 16 * 2 ^ k with
  | none => exact .inl rfl
  | some k =>
    have hmem := List.mem_range.1 (List.mem_of_find?_eq_some h)
    have hfit := List.find?_some h
    exact .inr ⟨hmem, of_decide_eq_true hfit⟩

theorem leastGlobal_lt (v : Rgb16) : leastGlobal v < 5 := by
  rcases leastGlobal_cases v with h | ⟨h, -⟩ <;> omega

/-- Every exponent but the first is taken only when the one before is too small. -/
theorem pow_le_of_leastGlobal {v : Rgb16} (h : leastGlobal v ≠ 0) :
    2 ^ (7 + leastGlobal v) ≤ max v.r.toNat (max v.g.toNat v.b.toNat) := by
  rw [leastGlobal_eq v rfl] at h ⊢
  generalize max v.r.toNat (max v.g.toNat v.b.toNat) = m at h ⊢
  split_ifs at h ⊢ <;> omega

theorem lt_pow_of_leastGlobal {v : Rgb16} (h : leastGlobal v ≠ 4) :
    max v.r.toNat (max v.g.toNat v.b.toNat) < 2 ^ (8 + leastGlobal v) := by
  obtain ⟨-, hlt⟩ := (leastGlobal_cases v).resolve_left h
  rw [Nat.pow_add]
  omega

/-- The full brightness is for pixels that are not dim. -/
theorem leastGlobal_eq_four {v : Rgb16} : leastGlobal v = 4 ↔ 2 ^ 11 ≤ max v.r.toNat (max v.g.toNat v.b.toNat) := by
  constructor
  · intro h
    have := pow_le_of_leastGlobal (v := v) (by omega)
    rwa [h] at this
  · intro h
    by_contra hne
    have hlt := lt_pow_of_leastGlobal hne
    have hle : 2 ^ (8 + leastGlobal v) ≤ 2 ^ 11 :=
      Nat.pow_le_pow_right (by omega) (by have := leastGlobal_lt v; omega)
    omega

/-- With that exponent every value fits its byte. -/
theorem channel_lt (v : Rgb16) {x : BitVec 16} (hx : x.toNat ≤ max v.r.toNat (max v.g.toNat v.b.toNat)) :
    x.toNat / 2 ^ (4 + leastGlobal v) < 256 := by
  rcases leastGlobal_cases v with h | ⟨-, h⟩
  · have hlt := x.isLt
    rw [h]; omega
  · rw [Nat.pow_add, ← Nat.div_div_eq_div_mul]
    refine Nat.div_lt_of_lt_mul ?_
    have hle : x.toNat / 2 ^ 4 ≤ max v.r.toNat (max v.g.toNat v.b.toNat) / 16 := Nat.div_le_div_right hx
    omega

theorem decode_apa102 (v : Rgb16) :
    StripType.apa102.decode (StripType.apa102.group v) = some (StripType.apa102.reduce v) := by
  have hglobal : ∀ k < 5,
      (List.range 5).find? (fun j => decide (globalByte k = globalByte j)) = some k := by decide
  simp only [StripType.group, StripType.setLinearValues, APA102LedStrip.setLinearValues, Call.data?,
    List.filterMap_cons, List.filterMap_nil, StripType.decode, StripType.reduce, scale_eq,
    hglobal _ (leastGlobal_lt v), Option.map_some, setWidth_shift v.r (channel_lt v (by omega)),
    setWidth_shift v.g (channel_lt v (by omega)), setWidth_shift v.b (channel_lt v (by omega))]

/-- The bytes that `SetLinearValues` sets decode to the value at the depth of the chip. -/
theorem decode_group (type : StripType) (v : Rgb16) : type.decode (type.group v) = some (type.reduce v) := by
  cases type with
  | ws2801 => exact decode_ws2801 v
  | lpd6803 => exact decode_lpd6803 v
  | lpd8806 => exact decode_lpd8806 v
  | apa102 => exact decode_apa102 v

end Spixels
