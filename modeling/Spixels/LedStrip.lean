import Mathlib.Data.List.ProdSigma
import Spixels.MultiSpi
import Spixels.Storage

/-!
# LED strips (`led-strip.h`, `led-strip.cc`)

`LEDStrip` is the source's base class: the colors, the brightness, and the functions that turn them into calls
of the virtual `SetLinearValues`.  Each of the four chips has its own `SetLinearValues`, which sets bytes of its
stream, and its own constructor, which registers the stream and sets the bytes between the pixels.

The luminance table is a parameter `lum value brightness`.  Positions are `int` in the source and become `size_t`
when they are passed on: `sizeT`.  On the way to them the model calculates with integers, which is what the source
does as long as no `int` overflows.  `LedOverflow` has the same functions with a check of every value, and says for
which numbers of LEDs that makes no difference.
-/

namespace Spixels

/-- `luminance_cie1931(value, bright)` -/
abbrev Luminance := BitVec 8 → BitVec 8 → BitVec 16

/-- A new table with the values of `internal`, the correction in floating point; `fresh` is what `new` finds. -/
def createCie1931LookupTable (internal : Luminance) (fresh : Nat → BitVec 16) : List (BitVec 16) :=
  (List.range 256).foldl (fun result v =>
    (List.range 256).foldl (fun result b =>
      result.set (b * 256 + v) (internal (BitVec.ofNat 8 v) (BitVec.ofNat 8 b))) result)
    ((List.range (256 * 256)).map fresh)

/-- The correction as the strips use it: a look at the table. -/
def luminanceCie1931 (internal : Luminance) (fresh : Nat → BitVec 16) : Luminance := fun value bright =>
  (createCie1931LookupTable internal fresh).getD (bright.toNat * 256 + value.toNat) 0#16

/-- The table says what the function says. -/
theorem luminanceCie1931_eq (internal : Luminance) (fresh : Nat → BitVec 16) :
    luminanceCie1931 internal fresh = internal := by
  funext value bright
  -- both loops together visit every index once
  have hsweep : createCie1931LookupTable internal fresh = Storage.sweep (fun k : Nat × Nat => k.2 * 256 + k.1)
      (fun k _ => internal (BitVec.ofNat 8 k.1) (BitVec.ofNat 8 k.2)) ((List.range (256 * 256)).map fresh)
      (List.range 256 ×ˢ List.range 256) := by
    have hpairs : List.range 256 ×ˢ List.range 256 =
        (List.range 256).flatMap fun v => (List.range 256).map fun b => (v, b) := rfl
    simp only [createCie1931LookupTable, Storage.sweep, hpairs, List.foldl_flatMap, List.foldl_map,
      List.set_eq_modify]
  have hdistinct : (List.range 256 ×ˢ List.range 256).Pairwise fun a b => a.2 * 256 + a.1 ≠ b.2 * 256 + b.1 := by
    refine (List.nodup_range.product List.nodup_range).imp_of_mem fun {x y} hx hy hne he => hne ?_
    obtain ⟨v, b⟩ := x
    obtain ⟨w, c⟩ := y
    simp only [List.mem_product, List.mem_range] at hx hy he
    exact Prod.ext (by omega) (by omega)
  have hmem : (value.toNat, bright.toNat) ∈ List.range 256 ×ˢ List.range 256 := by
    simp only [List.mem_product, List.mem_range]
    exact ⟨value.isLt, bright.isLt⟩
  have hinside : bright.toNat * 256 + value.toNat < 256 * 256 := by have := value.isLt; have := bright.isLt; omega
  rw [luminanceCie1931, List.getD_eq_getElem?_getD, hsweep,
    Storage.getElem?_sweep_of_mem (fun k : Nat × Nat => k.2 * 256 + k.1) hdistinct hmem]
  simp [hinside]

structure RGBc where
  r : BitVec 8
  g : BitVec 8
  b : BitVec 8
deriving DecidableEq, Repr

/-- `RGBc()` -/
def RGBc.black : RGBc := { r := 0#8, g := 0#8, b := 0#8 }

/-- Setting a color from a single 24 bit hex value. -/
def RGBc.ofHex (hexcolor : BitVec 32) : RGBc :=
  { r := ((hexcolor >>> 16) &&& 0xFF#32).setWidth 8
    g := ((hexcolor >>> 8) &&& 0xFF#32).setWidth 8
    b := (hexcolor &&& 0xFF#32).setWidth 8 }

/-- The raw, linear values of a pixel. -/
structure Rgb16 where
  r : BitVec 16
  g : BitVec 16
  b : BitVec 16
deriving DecidableEq, Repr

def Rgb16.zero : Rgb16 := { r := 0#16, g := 0#16, b := 0#16 }

/-- A call of `SetLinearValues`. -/
structure Linear where
  pos : Int
  value : Rgb16
deriving DecidableEq, Repr

/-- The base class; `count_` is constant. -/
structure LEDStrip (count : Nat) where
  values : Vector RGBc count
  brightness : BitVec 8

namespace LEDStrip

variable (lum : Luminance) {count : Nat}

def create (count : Nat) : LEDStrip count := { values := Vector.replicate count RGBc.black, brightness := 255#8 }

def linear (c : RGBc) (brightness : BitVec 8) : Rgb16 :=
  { r := lum c.r brightness, g := lum c.g brightness, b := lum c.b brightness }

def setPixel (s : LEDStrip count) (pos : Int) (c : RGBc) : LEDStrip count × List Linear :=
  if h : pos < 0 ∨ pos ≥ count then (s, [])
  else
    ({ s with values := s.values.set pos.toNat c (by omega) }, [{ pos, value := linear lum c s.brightness }])

def setBrightness (s : LEDStrip count) (newBrightness : BitVec 8) : LEDStrip count × List Linear :=
  if newBrightness = s.brightness then (s, [])
  else
    Run.trace (fun s (i : Nat) => s.setPixel lum i (s.values[i]?.getD RGBc.black))
      { s with brightness := newBrightness } (List.range count)

end LEDStrip

def sizeT (n : Int) : Nat := (n % 2 ^ 64).toNat

/-- A strip after its constructor, the calls of `SetLinearValues` made so far, and all calls on the `MultiSPI`. -/
structure Strip (count : Nat) where
  strip : LEDStrip count
  linears : List Linear
  calls : List Call

/-- The loop `for (int pos = 0; pos < count; ++pos) SetPixel(pos, 0x000000);` -/
def setBlack (lum : Luminance) {count : Nat} (s : LEDStrip count) : LEDStrip count × List Linear :=
  Run.trace (fun s (pos : Nat) => s.setPixel lum pos (RGBc.ofHex 0x000000#32)) s (List.range count)

namespace WS2801LedStrip

def setLinearValues (gpio pos : Int) (v : Rgb16) : List Call :=
  [.setBufferedByte gpio (sizeT (3 * pos + 0)) ((v.r >>> 8).setWidth 8),
    .setBufferedByte gpio (sizeT (3 * pos + 1)) ((v.g >>> 8).setWidth 8),
    .setBufferedByte gpio (sizeT (3 * pos + 2)) ((v.b >>> 8).setWidth 8)]

def create (gpio : Int) (count : Nat) : Strip count :=
  { strip := LEDStrip.create count, linears := [], calls := [.registerDataGpio gpio (sizeT (count * 3))] }

end WS2801LedStrip

namespace LPD6803LedStrip

def setLinearValues (gpio pos : Int) (v : Rgb16) : List Call :=
  let data := 0#16
  let data := data ||| 1#16 <<< 15 -- start bit
  let data := data ||| (v.r >>> 11) <<< 10
  let data := data ||| (v.g >>> 11) <<< 5
  let data := data ||| (v.b >>> 11) <<< 0
  [.setBufferedByte gpio (sizeT (2 * pos + 4 + 0)) ((data >>> 8).setWidth 8),
    .setBufferedByte gpio (sizeT (2 * pos + 4 + 1)) ((data &&& 0xFF#16).setWidth 8)]

def create (lum : Luminance) (gpio : Int) (count : Nat) : Strip count :=
  let bytesNeeded := sizeT (4 + 2 * count + 4)
  let (strip, linears) := setBlack lum (LEDStrip.create count)
  { strip, linears
    calls := [.registerDataGpio gpio bytesNeeded, .setBufferedByte gpio 0 0x00#8, .setBufferedByte gpio 1 0x00#8,
        .setBufferedByte gpio 2 0x00#8, .setBufferedByte gpio 3 0x00#8] ++
      linears.flatMap fun l => setLinearValues gpio l.pos l.value }

end LPD6803LedStrip

namespace LPD8806LedStrip

def setLinearValues (gpio pos : Int) (v : Rgb16) : List Call :=
  [.setBufferedByte gpio (sizeT (3 * pos + 0)) ((v.b >>> 9 ||| 0x80#16).setWidth 8),
    .setBufferedByte gpio (sizeT (3 * pos + 1)) ((v.r >>> 9 ||| 0x80#16).setWidth 8),
    .setBufferedByte gpio (sizeT (3 * pos + 2)) ((v.g >>> 9 ||| 0x80#16).setWidth 8)]

def create (lum : Luminance) (gpio : Int) (count : Nat) : Strip count :=
  let dataBytes := sizeT (3 * count)
  let latchBytes := sizeT ((count + 31) / 32)
  let bytesNeeded := dataBytes + latchBytes
  let (strip, linears) := setBlack lum (LEDStrip.create count)
  { strip, linears
    calls := .registerDataGpio gpio bytesNeeded ::
      ((List.range bytesNeeded).map (fun i => Call.setBufferedByte gpio i 0x00#8) ++
        linears.flatMap fun l => setLinearValues gpio l.pos l.value) }

end LPD8806LedStrip

namespace APA102LedStrip

/-- The global brightness byte, and the three values shifted to go with it. -/
def scale (r g b : BitVec 16) : BitVec 8 × BitVec 16 × BitVec 16 × BitVec 16 :=
  let bitUse := r ||| g ||| b -- find highest bit used
  if bitUse < 16#16 then (0xE0#8 ||| 0x01#8, r, g, b)
  else if bitUse < 32#16 then (0xE0#8 ||| 0x03#8, r >>> 1, g >>> 1, b >>> 1)
  else if bitUse < 64#16 then (0xE0#8 ||| 0x07#8, r >>> 2, g >>> 2, b >>> 2)
  else if bitUse < 128#16 then (0xE0#8 ||| 0x0F#8, r >>> 3, g >>> 3, b >>> 3)
  else (0xE0#8 ||| 0x1F#8, r >>> 4, g >>> 4, b >>> 4)

def setLinearValues (gpio pos : Int) (v : Rgb16) : List Call :=
  let base := 4 + 4 * pos
  let (first, r, g, b) := scale (v.r >>> 4) (v.g >>> 4) (v.b >>> 4)
  [.setBufferedByte gpio (sizeT (base + 0)) first,
    .setBufferedByte gpio (sizeT (base + 1)) (b.setWidth 8),
    .setBufferedByte gpio (sizeT (base + 2)) (g.setWidth 8),
    .setBufferedByte gpio (sizeT (base + 3)) (r.setWidth 8)]

def create (lum : Luminance) (gpio : Int) (count : Nat) : Strip count :=
  let startframeSize := 4
  let endframeSize := sizeT ((count + 15) / 16)
  let bytesNeeded := startframeSize + sizeT (4 * count) + endframeSize
  let (strip, linears) := setBlack lum (LEDStrip.create count)
  let tail := sizeT (4 + 4 * count)
  { strip, linears
    calls := [.registerDataGpio gpio bytesNeeded, .setBufferedByte gpio 0 0x00#8, .setBufferedByte gpio 1 0x00#8,
        .setBufferedByte gpio 2 0x00#8, .setBufferedByte gpio 3 0x00#8] ++
      linears.flatMap (fun l => setLinearValues gpio l.pos l.value) ++
      (List.range' tail (bytesNeeded - tail)).map fun i => Call.setBufferedByte gpio i 0xff#8 }

end APA102LedStrip

/-! ### Any strip -/

inductive StripType
  | ws2801
  | lpd6803
  | lpd8806
  | apa102
deriving DecidableEq, Repr

namespace StripType

def setLinearValues : StripType → Int → Int → Rgb16 → List Call
  | ws2801 => WS2801LedStrip.setLinearValues
  | lpd6803 => LPD6803LedStrip.setLinearValues
  | lpd8806 => LPD8806LedStrip.setLinearValues
  | apa102 => APA102LedStrip.setLinearValues

def create (lum : Luminance) (gpio : Int) (count : Nat) : StripType → Strip count
  | ws2801 => WS2801LedStrip.create gpio count
  | lpd6803 => LPD6803LedStrip.create lum gpio count
  | lpd8806 => LPD8806LedStrip.create lum gpio count
  | apa102 => APA102LedStrip.create lum gpio count

end StripType

/-- A call on an `LEDStrip`. -/
inductive StripCall
  | setPixel (pos : Int) (c : RGBc)
  | setBrightness (brightness : BitVec 8)
  | setLinearValues (pos : Int) (v : Rgb16)
deriving DecidableEq, Repr

def LEDStrip.call (lum : Luminance) {count : Nat} (s : LEDStrip count) : StripCall → LEDStrip count × List Linear
  | .setPixel pos c => s.setPixel lum pos c
  | .setBrightness brightness => s.setBrightness lum brightness
  | .setLinearValues pos v => (s, [{ pos, value := v }])

/-- A strip after a history of calls. -/
def StripType.session (type : StripType) (lum : Luminance) (gpio : Int) (count : Nat) (h : List StripCall) :
    Strip count :=
  let made := type.create lum gpio count
  let (strip, linears) := Run.trace (LEDStrip.call lum) made.strip h
  { strip, linears := made.linears ++ linears
    calls := made.calls ++ linears.flatMap fun l => type.setLinearValues gpio l.pos l.value }

end Spixels
