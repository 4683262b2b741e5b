import Spixels.LedIntensity
import Spixels.LedLuminance
import Spixels.LedPicture

/-!
# More brightness, more light

A strip is repainted when its brightness changes, so what its chips read is the picture in the new brightness.  With
the luminance correction of the source, more brightness never gives less light: `brighter_session`.  For the APA102
this is said of the strongest channel of a color, as a weaker one can lose its last bits when the others take more
global brightness.
-/

namespace Spixels

open Rounding (binary64)

def Pixel.get (p : Pixel) : Channel → Nat
  | .r => p.r
  | .g => p.g
  | .b => p.b

/-- The channel times the global brightness, which is one for the chips that have none. -/
def Pixel.light (p : Pixel) (ch : Channel) : Nat := p.get ch * (2 ^ (p.global + 1) - 1)

def RGBc.get (c : RGBc) : Channel → BitVec 8
  | .r => c.r
  | .g => c.g
  | .b => c.b

/-- No channel of the color is above this one. -/
def RGBc.Strongest (c : RGBc) (ch : Channel) : Prop := ∀ ch', c.get ch' ≤ c.get ch

/-! ### The light of a value -/

/-- The bits that a chip without global brightness drops. -/
def StripType.dropped : StripType → Nat
  | ws2801 => 8
  | lpd6803 => 11
  | lpd8806 => 9
  | apa102 => 0

theorem light_reduce {type : StripType} (htype : type ≠ .apa102) (v : Rgb16) (ch : Channel) :
    (type.reduce v).light ch = (v.get ch).toNat / 2 ^ type.dropped := by
  cases type with
  | apa102 => exact absurd rfl htype
  | ws2801 | lpd6803 | lpd8806 =>
    cases ch <;> simp [Pixel.light, Pixel.get, StripType.reduce, StripType.dropped, Rgb16.get]

theorem light_reduce_apa102 (v : Rgb16) (ch : Channel) :
    (StripType.apa102.reduce v).light ch = level (leastGlobal v) (v.get ch).toNat := by
  cases ch <;> rfl

theorem top_mono {v v' : Rgb16} (h : ∀ ch, v.get ch ≤ v'.get ch) : v.top ≤ v'.top := by
  have hr : v.r.toNat ≤ v'.r.toNat := h .r
  have hg : v.g.toNat ≤ v'.g.toNat := h .g
  have hb : v.b.toNat ≤ v'.b.toNat := h .b
  simp only [Rgb16.top]
  omega

/-- Higher values give more light; on the APA102, in the channel that asks for the mode. -/
theorem light_mono (type : StripType) {v v' : Rgb16} (h : ∀ ch, v.get ch ≤ v'.get ch) {ch : Channel}
    (hch : type = .apa102 → (v'.get ch).toNat = v'.top) :
    (type.reduce v).light ch ≤ (type.reduce v').light ch := by
  have hle : (v.get ch).toNat ≤ (v'.get ch).toNat := h ch
  by_cases htype : type = .apa102
  · subst htype
    have htop := hch rfl
    have hfits := v.get_le_top ch
    have hmono := top_mono h
    rw [light_reduce_apa102, light_reduce_apa102]
    rcases Nat.lt_trichotomy (leastGlobal v) (leastGlobal v') with hlt | heq | hgt
    · have hlow : 2 ^ (7 + leastGlobal v') ≤ v'.top := pow_le_of_leastGlobal (by omega)
      have hhigh : v.top < 2 ^ (8 + leastGlobal v) :=
        lt_pow_of_leastGlobal (by have := leastGlobal_lt v'; omega)
      exact (level_lt_level hlt (by omega) (by omega)).le
    · rw [heq]
      exact level_mono _ hle
    · -- the mode cannot go back
      have hlow : 2 ^ (7 + leastGlobal v) ≤ v.top := pow_le_of_leastGlobal (by omega)
      have hhigh : v'.top < 2 ^ (8 + leastGlobal v') :=
        lt_pow_of_leastGlobal (by have := leastGlobal_lt v; omega)
      have hpow : 2 ^ (8 + leastGlobal v') ≤ 2 ^ (7 + leastGlobal v) :=
        Nat.pow_le_pow_right (by omega) (by omega)
      omega
  · rw [light_reduce htype, light_reduce htype]
    exact Nat.div_le_div_right hle

/-- A weaker channel loses its last bits to the mode of a stronger one. -/
example : (StripType.apa102.reduce ⟨0x100#16, 0x10#16, 0#16⟩).light .g <
    (StripType.apa102.reduce ⟨0xF0#16, 0x10#16, 0#16⟩).light .g := by decide

/-! ### The light of a strip -/

section Session

variable {pow : ℚ → ℚ → ℚ}

theorem get_shade (lum : Luminance) (c : RGBc) (b : BitVec 8) (ch : Channel) :
    (shade lum c b).get ch = lum (c.get ch) b := by
  cases ch <;> rfl

/-- The strongest channel of a color has the highest value. -/
theorem get_shade_eq_top (hpow : Cubes pow) {c : RGBc} {ch : Channel} (hch : c.Strongest ch) (b : BitVec 8) :
    ((shade (luminanceCie1931Internal pow) c b).get ch).toNat =
      (shade (luminanceCie1931Internal pow) c b).top := by
  have hall : ∀ ch', ((shade (luminanceCie1931Internal pow) c b).get ch').toNat ≤
      ((shade (luminanceCie1931Internal pow) c b).get ch).toNat := fun ch' => by
    rw [get_shade, get_shade]
    exact luminance_mono hpow (hch ch') (BitVec.le_refl b)
  have hr := hall .r
  have hg := hall .g
  have hb := hall .b
  refine le_antisymm (Rgb16.get_le_top _ ch) ?_
  simp only [Rgb16.top]
  simp only [Rgb16.get] at hr hg hb ⊢
  omega

/-- What the chips read from a strip after a call of `SetBrightness`: the picture in this brightness. -/
theorem session_parses_brightness {lum : Luminance} (hlum : ∀ b, lum 0#8 b = 0#16) {type : StripType} {count : Nat}
    (hlength : type.format.length count < 2 ^ 31) (gpio : Int) {h : List StripCall}
    (hraw : ∀ pos v, StripCall.setLinearValues pos v ∉ h) (b : BitVec 8) :
    type.parse count ((List.range (type.format.length count)).map
        (stored gpio (type.session lum gpio count (h ++ [.setBrightness b])).calls)) =
      some ((List.finRange count).map fun i =>
        type.reduce (shade lum ((h.foldl Picture.call (Picture.dark count)).color i) b)) := by
  have hraw' : ∀ pos v, StripCall.setLinearValues pos v ∉ h ++ [.setBrightness b] := fun pos v hmem => by
    rcases List.mem_append.1 hmem with hmem | hmem
    · exact hraw pos v hmem
    · simp at hmem
  have hcount : count < 2 ^ 31 := by
    refine lt_of_le_of_lt ?_ hlength
    cases type <;> simp [StripType.format, Frame.Format.length, Frame.Format.start] <;> omega
  have hshows := shows_session count hlum type gpio hraw'
  have hparse : type.parse count ((List.range (type.format.length count)).map
      (stored gpio (type.session lum gpio count (h ++ [.setBrightness b])).calls)) =
      some ((List.range count).map fun i =>
        type.reduce (latest (type.session lum gpio count (h ++ [.setBrightness b])).linears i)) :=
    Frame.parse_byteAt (fun i _ => length_group type _) (fun i _ => decode_group type _)
      fun p _ => stored_session hlum hcount (fun pos v hmem => absurd hmem (hraw' pos v)) p
  refine hparse.trans (congrArg some ?_)
  rw [← List.map_coe_finRange_eq_range, List.map_map]
  refine List.map_congr_left fun i _ => congrArg type.reduce ((hshows.linear i).trans ?_)
  rw [List.foldl_append]
  rfl

/-- After any calls on a strip but raw ones, more brightness gives more light, or the same, in every channel that the
chips read; on the APA102, in the strongest channel of each LED. -/
theorem brighter_session (hpow : Cubes pow) (fresh : Nat → BitVec 16) {type : StripType} {count : Nat}
    (hlength : type.format.length count < 2 ^ 31) (gpio : Int) {h : List StripCall}
    (hraw : ∀ pos v, StripCall.setLinearValues pos v ∉ h) {b b' : BitVec 8} (hb : b ≤ b') :
    let lum := luminanceCie1931 (luminanceCie1931Internal pow) fresh
    let bytes := fun b : BitVec 8 => (List.range (type.format.length count)).map
      (stored gpio (type.session lum gpio count (h ++ [.setBrightness b])).calls)
    ∃ ps ps', type.parse count (bytes b) = some ps ∧ type.parse count (bytes b') = some ps' ∧
      ∀ i : Fin count, ∃ p p', ps[i.val]? = some p ∧ ps'[i.val]? = some p' ∧ ∀ ch,
        (type = .apa102 → ((h.foldl Picture.call (Picture.dark count)).color i).Strongest ch) →
          p.light ch ≤ p'.light ch := by
  intro lum bytes
  have hlum : lum = luminanceCie1931Internal pow := luminanceCie1931_eq _ fresh
  have hdark : ∀ b, lum 0#8 b = 0#16 := fun b => by rw [hlum]; exact luminance_dark pow b
  refine ⟨_, _, session_parses_brightness hdark hlength gpio hraw b,
    session_parses_brightness hdark hlength gpio hraw b', fun i => ?_⟩
  have hread : ∀ pixel : Fin count → Pixel, ((List.finRange count).map pixel)[i.val]? = some (pixel i) :=
    fun pixel => by simp
  refine ⟨_, _, hread _, hread _, fun ch hch => ?_⟩
  rw [hlum]
  refine light_mono type (fun ch' => ?_) fun htype => get_shade_eq_top hpow (hch htype) b'
  rw [get_shade, get_shade]
  exact luminance_mono hpow (BitVec.le_refl _) hb

end Session

/-- A violet on an APA102 strip, which has been dimmed before. -/
theorem brighter_session_violet :
    let lum := luminanceCie1931 (luminanceCie1931Internal fun x _ => binary64.round (x ^ 3)) fun _ => 0xFFFF#16
    let h : List StripCall := [.setBrightness 3#8, .setPixel 1 ⟨200#8, 0#8, 100#8⟩]
    let bytes := fun b : BitVec 8 => (List.range 13).map
      (stored 18 (StripType.apa102.session lum 18 2 (h ++ [.setBrightness b])).calls)
    ∃ ps ps' p p', StripType.apa102.parse 2 (bytes 40#8) = some ps ∧
      StripType.apa102.parse 2 (bytes 90#8) = some ps' ∧ ps[1]? = some p ∧ ps'[1]? = some p' ∧
      p.light .r ≤ p'.light .r := by
  intro lum h bytes
  obtain ⟨ps, ps', hps, hps', hlight⟩ := brighter_session cubes_rounded (fun _ => 0xFFFF#16)
    (show StripType.apa102.format.length 2 < 2 ^ 31 by decide) 18 (h := h) (by simp [h])
    (show 40#8 ≤ 90#8 by decide)
  obtain ⟨p, p', hp, hp', hle⟩ := hlight 1
  refine ⟨ps, ps', p, p', hps, hps', hp, hp', hle .r fun _ ch => ?_⟩
  cases ch <;> decide

end Spixels
