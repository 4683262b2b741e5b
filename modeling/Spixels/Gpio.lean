import Mathlib.Data.BitVec
import Spixels.Waveform

/-!
# The GPIO port (`ft-gpio.h`, `ft-gpio.cc`)

`Gpio` is the source's class: the set `outputBits` of pins it has configured as outputs and the mapped registers
behind `gpioPort`.  `AddOutput` configures one pin; `Write` turns a word into at most one write to the clear
register and one to the set register, which are the writes of `Waveform`.
-/

namespace Spixels

open Waveform (RegWrite)

/-- Where the source stops, or where nothing can be said about how it goes on. -/
inductive Fault
  /-- a failed `assert` -/
  | assertion
  /-- a value that does not fit the `int` it is stored in -/
  | intRange
  /-- an access outside the storage it is meant for -/
  | outOfBounds
deriving DecidableEq, Repr

/-- Storing a size in an `int`. -/
def toInt (n : Nat) : Except Fault Nat := if n < 2 ^ 31 then .ok n else .error .intRange

theorem toInt_eq_ok {n m : Nat} : toInt n = .ok m ↔ n < 2 ^ 31 ∧ m = n := by
  unfold toInt; split <;> simp_all [eq_comm]

/-- `1 << bit`, with the shift count taken modulo 32. -/
def shl1 (bit : Int) : BitVec 32 := 1#32 <<< (bit % 32).toNat

/-- The GPIO numbers of a bank of 32 pins. -/
def IsPin (gpio : Int) : Prop := 0 ≤ gpio ∧ gpio < 32

instance (gpio : Int) : Decidable (IsPin gpio) := inferInstanceAs (Decidable (_ ∧ _))

structure Gpio where
  outputBits : BitVec 32
  /-- The registers at `gpio_port_`; `none` before `Init`. -/
  gpioPort : Option (Nat → BitVec 32)

namespace Gpio

/-- The pins that are accessible on some board. -/
def kValidBits : BitVec 32 :=
  [0, 1, 2, 3, 4, 7, 8, 9, 10, 11, 14, 15, 17, 18, 22, 23, 24, 25, 27, 5, 6, 12, 13, 16, 19, 20, 21, 26].foldl
    (fun bits bit => bits ||| shl1 bit) 0#32

/-- `INP_GPIO`: the function field of the pin becomes 000. -/
def inpGpio (port : Nat → BitVec 32) (g : Nat) : Nat → BitVec 32 := fun r =>
  if r = g / 10 then port r &&& ~~~(7#32 <<< (g % 10 * 3)) else port r

/-- `OUT_GPIO`: the lowest bit of the function field of the pin is set. -/
def outGpio (port : Nat → BitVec 32) (g : Nat) : Nat → BitVec 32 := fun r =>
  if r = g / 10 then port r ||| 1#32 <<< (g % 10 * 3) else port r

/-- The check `AddOutput` makes. -/
def accepts (bit : Int) : Bool := !(decide (bit < 0) || shl1 bit &&& kValidBits == 0#32)

def addOutput (gpio : Gpio) (bit : Int) : Gpio × Bool :=
  match gpio.gpioPort with
  | none => (gpio, false)
  | some port =>
    if accepts bit then
      ({ outputBits := gpio.outputBits ||| shl1 bit
         gpioPort := some (outGpio (inpGpio port bit.toNat) bit.toNat) }, true)
    else (gpio, false)

/-- A port on which `Init` succeeded: the registers are mapped and no pin is an output yet. -/
def initialised (port : Nat → BitVec 32) : Gpio := { outputBits := 0#32, gpioPort := some port }

def setBits (value : BitVec 32) : List (RegWrite 32) := if value = 0#32 then [] else [.raise value]

def clearBits (value : BitVec 32) : List (RegWrite 32) := if value = 0#32 then [] else [.lower value]

def writeMaskedBits (value mask : BitVec 32) : List (RegWrite 32) :=
  clearBits (~~~value &&& mask) ++ setBits (value &&& mask)

def write (gpio : Gpio) (value : BitVec 32) : List (RegWrite 32) := writeMaskedBits value gpio.outputBits

end Gpio

/-! ### Lanes of a word -/

theorem shl1_emod (gpio : Int) : shl1 (gpio % 32) = shl1 gpio := by rw [shl1, shl1, Int.emod_emod]

theorem getLsbD_shl1 {gpio : Int} (hg : IsPin gpio) (l : Nat) :
    (shl1 gpio).getLsbD l = decide (gpio = (l : Int)) := by
  obtain ⟨h0, h1⟩ := hg
  have hm : (gpio % 32).toNat = gpio.toNat := by rw [Int.emod_eq_of_lt h0 h1]
  simp only [shl1, hm, BitVec.getLsbD_shiftLeft, BitVec.getLsbD_one]
  rw [Bool.eq_iff_iff]
  simp only [Bool.and_eq_true, Bool.not_eq_true', decide_eq_true_eq, decide_eq_false_iff_not]
  omega

theorem IsPin.toNat_lt {g : Int} (hg : IsPin g) : g.toNat < 32 := by
  obtain ⟨h0, h1⟩ := hg; omega

theorem IsPin.natCast_toNat {g : Int} (hg : IsPin g) : ((g.toNat : Nat) : Int) = g := Int.toNat_of_nonneg hg.1

theorem getLsbD_shl1_toNat {g : Int} (hg : IsPin g) : (shl1 g).getLsbD g.toNat = true := by
  rw [getLsbD_shl1 hg, hg.natCast_toNat, decide_eq_true rfl]

theorem getLsbD_shl1_ne {g : Int} (hg : IsPin g) {l : Nat} (hl : l ≠ g.toNat) : (shl1 g).getLsbD l = false := by
  rw [getLsbD_shl1 hg, decide_eq_false_iff_not]
  rintro rfl
  exact hl rfl

/-- The mask of iteration `k` of the loop `for (bit = 0x80; bit; bit >>= 1)` selects the bit that is sent as the
`k`-th of its byte. -/
theorem and_mask_ne_zero (data : BitVec 8) {k : Nat} (hk : k < 8) :
    decide (data &&& (0x80#8 >>> k) ≠ 0#8) = data.getMsbD k := by
  have key : ∀ j < 8, ∀ d : BitVec 8, decide (d &&& (0x80#8 >>> j) ≠ 0#8) = d.getMsbD j := by decide +kernel
  exact key k hk data

/-! ### Words by lanes -/

/-- The word with the bits `f`. -/
def ofLanes (f : Nat → Bool) : BitVec 32 := (BitVec.ofBoolListLE ((List.range 32).map f)).setWidth 32

theorem getLsbD_ofLanes (f : Nat → Bool) {l : Nat} (hl : l < 32) : (ofLanes f).getLsbD l = f l := by
  simp only [ofLanes, BitVec.getLsbD_setWidth, hl, decide_true, Bool.true_and, BitVec.getLsbD_ofBoolListLE]
  simp [hl]

theorem eq_ofLanes {x : BitVec 32} {f : Nat → Bool} (h : ∀ l < 32, x.getLsbD l = f l) : x = ofLanes f := by
  apply BitVec.eq_of_getLsbD_eq
  intro l hl
  rw [h l hl, getLsbD_ofLanes f hl]

theorem ofLanes_congr {f f' : Nat → Bool} (h : ∀ l < 32, f l = f' l) : ofLanes f = ofLanes f' :=
  eq_ofLanes fun l hl => by rw [getLsbD_ofLanes f hl, h l hl]

/-- Setting and clearing the lane of a pin. -/
theorem ofLanes_or_shl1 {g : Int} (hg : IsPin g) (f : Nat → Bool) :
    ofLanes f ||| shl1 g = ofLanes fun l => if (l : Int) = g then true else f l := by
  apply eq_ofLanes
  intro l hl
  rw [BitVec.getLsbD_or, getLsbD_ofLanes f hl, getLsbD_shl1 hg]
  by_cases h : (l : Int) = g <;> simp [h, eq_comm (a := g)]

theorem ofLanes_and_not_shl1 {g : Int} (hg : IsPin g) (f : Nat → Bool) :
    ofLanes f &&& ~~~shl1 g = ofLanes fun l => if (l : Int) = g then false else f l := by
  apply eq_ofLanes
  intro l hl
  rw [BitVec.getLsbD_and, BitVec.getLsbD_not, getLsbD_ofLanes f hl, getLsbD_shl1 hg]
  by_cases h : (l : Int) = g <;> simp only [h, eq_comm (a := g), hl] <;> simp

namespace Gpio

theorem mem_setBits {value : BitVec 32} {x : RegWrite 32} (h : x ∈ setBits value) : x = .raise value := by
  unfold setBits at h; split at h <;> simp_all

theorem mem_clearBits {value : BitVec 32} {x : RegWrite 32} (h : x ∈ clearBits value) : x = .lower value := by
  unfold clearBits at h; split at h <;> simp_all

/-- Skipping an empty mask makes no difference to the pins. -/
theorem levels_setBits (pins value : BitVec 32) : Waveform.levels pins (setBits value) = pins ||| value := by
  unfold setBits; split
  · rename_i h; simp [h]
  · rfl

theorem levels_clearBits (pins value : BitVec 32) :
    Waveform.levels pins (clearBits value) = pins &&& ~~~value := by
  unfold clearBits; split
  · rename_i h; rw [h, BitVec.not_zero, BitVec.and_allOnes]; rfl
  · rfl

/-! ### Configuring outputs -/

theorem addOutput_snd {g : Gpio} (hp : g.gpioPort.isSome) (bit : Int) :
    (g.addOutput bit).2 = accepts bit := by
  obtain ⟨port, hport⟩ := Option.isSome_iff_exists.1 hp
  simp only [addOutput, hport]; split <;> simp_all

theorem outputBits_addOutput {gpio : Gpio} (hp : gpio.gpioPort.isSome) (bit : Int) :
    (gpio.addOutput bit).1.outputBits = if accepts bit then gpio.outputBits ||| shl1 bit else gpio.outputBits := by
  obtain ⟨port, hport⟩ := Option.isSome_iff_exists.1 hp
  simp only [addOutput, hport]; split <;> rfl

theorem isSome_addOutput {gpio : Gpio} (hp : gpio.gpioPort.isSome) (bit : Int) :
    (gpio.addOutput bit).1.gpioPort.isSome := by
  obtain ⟨port, hport⟩ := Option.isSome_iff_exists.1 hp
  simp only [addOutput, hport]; split
  · rfl
  · rw [hport]; rfl

/-- `Write` only touches output pins. -/
theorem mask_write {gpio : Gpio} {value : BitVec 32} {x : RegWrite 32} (h : x ∈ gpio.write value) :
    x.mask &&& ~~~gpio.outputBits = 0#32 := by
  simp only [write, writeMaskedBits, List.mem_append] at h
  apply BitVec.eq_of_getLsbD_eq
  intro l hl
  rcases h with h | h
  · rw [mem_clearBits h]; simp [RegWrite.mask]; tauto
  · rw [mem_setBits h]; simp [RegWrite.mask]; tauto

end Gpio

end Spixels
