import Spixels.BitField
import Spixels.MultiSpi

/-!
# The pins that `AddOutput` configures

Ten pins share a function-select register, with three bits each.  `AddOutput` reads, clears and sets just the field
of its pin (`registers_addOutput`, `function_addOutput`), so over a whole run the fields of the accepted pins read 001
and all others are as they were: `ran_addOutputs`.  Its check looks at the pin modulo 32, so a run does what it should
if and only if it is never called with a larger number that falls on a valid pin: `configures_iff`.
-/

namespace Spixels

open BitField (field update)

namespace Gpio

/-- A pin of the bank that is accessible on some board. -/
def IsValid (bit : Int) : Prop := IsPin bit ∧ kValidBits.getLsbD bit.toNat = true

instance (bit : Int) : Decidable (IsValid bit) := inferInstanceAs (Decidable (_ ∧ _))

/-- A run of calls of `AddOutput`, with what they return. -/
def addOutputs (gpio : Gpio) (h : List Int) : Gpio × List Bool :=
  Run.trace (fun gpio bit => ((gpio.addOutput bit).1, [(gpio.addOutput bit).2])) gpio h

/-- The function field of pin `10 * r + f` among those of register `r`. -/
def function (port : Nat → BitVec 32) (r f : Nat) : BitVec 3 := field (port r) (3 * f) 3

/-- The registers behind a port; all zero as long as it has not been mapped. -/
def registers (gpio : Gpio) : Nat → BitVec 32 := gpio.gpioPort.getD fun _ => 0#32

/-- What a run of calls on a port with the registers `port` is for. -/
structure Configures (port : Nat → BitVec 32) (h : List Int) : Prop where
  returns : ((initialised port).addOutputs h).2 = h.map fun bit => decide (IsValid bit)
  outputs : ∀ l : Nat, ((initialised port).addOutputs h).1.outputBits.getLsbD l = true ↔ (l : Int) ∈ h ∧ IsValid l
  functions : ∀ r f, f < 10 → function ((initialised port).addOutputs h).1.registers r f =
    if ((10 * r + f : Nat) : Int) ∈ h ∧ IsValid (10 * r + f : Nat) then 1#3 else function port r f

/-! ### One call -/

theorem accepts_iff (bit : Int) : accepts bit = true ↔ 0 ≤ bit ∧ kValidBits.getLsbD (bit % 32).toNat = true := by
  have hmask : ∀ n < 32, (1#32 <<< n &&& kValidBits == 0#32) = !kValidBits.getLsbD n := by decide
  have hn : (bit % 32).toNat < 32 := by omega
  simp only [accepts, shl1, hmask _ hn, Bool.not_eq_true', Bool.or_eq_false_iff, decide_eq_false_iff_not,
    Bool.not_eq_false']
  rw [Int.not_lt]

/-- Within the bank the check is right. -/
theorem accepts_eq {bit : Int} (h : 32 ≤ bit → kValidBits.getLsbD (bit % 32).toNat = false) :
    accepts bit = decide (IsValid bit) := by
  rw [Bool.eq_iff_iff, accepts_iff, decide_eq_true_eq]
  unfold IsValid IsPin
  rcases Int.lt_or_le bit 32 with hlt | hge
  · by_cases h0 : 0 ≤ bit
    · rw [Int.emod_eq_of_lt h0 hlt]; simp [h0, hlt]
    · simp [h0]
  · simp [h hge, Int.not_lt.2 hge]

/-- `INP_GPIO` and `OUT_GPIO` together replace one field. -/
theorem outGpio_inpGpio (port : Nat → BitVec 32) (g r : Nat) :
    outGpio (inpGpio port g) g r = if r = g / 10 then update (port r) (3 * (g % 10)) 1#3 else port r := by
  unfold outGpio inpGpio
  split
  · rw [Nat.mul_comm (g % 10) 3]; rfl
  · rfl

theorem function_outGpio (port : Nat → BitVec 32) (g r : Nat) {f : Nat} (hf : f < 10) :
    function (outGpio (inpGpio port g) g) r f = if g = 10 * r + f then 1#3 else function port r f := by
  rw [function, outGpio_inpGpio]
  by_cases hg : g = 10 * r + f
  · have hr : r = g / 10 := by omega
    have hm : g % 10 = f := by omega
    rw [if_pos hr, if_pos hg, hm, BitField.field_update_same (by omega)]
  · rw [if_neg hg]
    split
    · exact BitField.field_update_of_disjoint (by unfold BitField.Disjoint; omega) _ _
    · rfl

theorem registers_addOutput {gpio : Gpio} (hp : gpio.gpioPort.isSome) (bit : Int) :
    (gpio.addOutput bit).1.registers =
      if accepts bit then outGpio (inpGpio gpio.registers bit.toNat) bit.toNat else gpio.registers := by
  obtain ⟨port, hport⟩ := Option.isSome_iff_exists.1 hp
  simp only [addOutput, hport, registers]
  split <;> simp [hport]

/-- A call sets the function of its pin if it accepts it, and leaves all others alone. -/
theorem function_addOutput {gpio : Gpio} (hp : gpio.gpioPort.isSome) (bit : Int) (r : Nat) {f : Nat}
    (hf : f < 10) :
    function (gpio.addOutput bit).1.registers r f =
      if accepts bit = true ∧ bit = (10 * r + f : Nat) then 1#3 else function gpio.registers r f := by
  rw [registers_addOutput hp]
  by_cases ha : accepts bit = true
  · have h0 := (accepts_iff bit).1 ha
    have hiff : bit.toNat = 10 * r + f ↔ bit = (10 * r + f : Nat) := by omega
    rw [if_pos ha, function_outGpio _ _ _ hf]
    simp only [hiff, ha, true_and]
  · rw [if_neg ha, if_neg fun h => ha h.1]

/-! ### Runs -/

/-- The port after the calls `h`, and what they have returned. -/
structure Ran (port : Nat → BitVec 32) (h : List Int) (gpio : Gpio) (out : List Bool) : Prop where
  mapped : gpio.gpioPort.isSome
  returned : out = h.map accepts
  outputs : ∀ l, gpio.outputBits.getLsbD l = true ↔ ∃ bit ∈ h, accepts bit = true ∧ (shl1 bit).getLsbD l = true
  functions : ∀ r f, f < 10 → function gpio.registers r f =
    if ((10 * r + f : Nat) : Int) ∈ h ∧ accepts (10 * r + f : Nat) = true then 1#3 else function port r f

theorem ran_addOutput {port : Nat → BitVec 32} {h : List Int} {gpio : Gpio} {out : List Bool}
    (hr : Ran port h gpio out) (bit : Int) :
    Ran port (h ++ [bit]) (gpio.addOutput bit).1 (out ++ [(gpio.addOutput bit).2]) := by
  refine ⟨isSome_addOutput hr.mapped bit, ?_, fun l => ?_, fun r f hf => ?_⟩
  · rw [hr.returned, addOutput_snd hr.mapped, List.map_append, List.map_singleton]
  · rw [outputBits_addOutput hr.mapped]
    have hold := hr.outputs l
    by_cases ha : accepts bit = true
    · rw [if_pos ha, BitVec.getLsbD_or, Bool.or_eq_true, hold]
      simp only [List.mem_append, List.mem_singleton, or_and_right, exists_or, exists_eq_left, ha, true_and]
    · rw [if_neg ha, hold]
      simp only [List.mem_append, List.mem_singleton, or_and_right, exists_or, exists_eq_left, ha, false_and,
        or_false, Bool.false_eq_true]
  · rw [function_addOutput hr.mapped bit r hf, hr.functions r f hf]
    generalize ((10 * r + f : Nat) : Int) = g
    by_cases hb : bit = g
    · subst hb
      by_cases ha : accepts bit = true <;> simp [ha]
    · simp [hb, Ne.symm hb]

theorem ran_addOutputs (port : Nat → BitVec 32) (h : List Int) :
    Ran port h ((initialised port).addOutputs h).1 ((initialised port).addOutputs h).2 :=
  Run.trace_induct (f := fun (gpio : Gpio) (bit : Int) => ((gpio.addOutput bit).1, [(gpio.addOutput bit).2]))
    (Ran port) ⟨rfl, rfl, fun l => by simp [initialised], fun r f _ => by simp [initialised, registers]⟩
    fun _ _ _ bit _ hr => ran_addOutput hr bit

/-- A run configures exactly the valid pins if and only if no number beyond the bank is passed that is a valid pin
modulo 32. -/
theorem configures_iff (port : Nat → BitVec 32) (h : List Int) :
    Configures port h ↔ ∀ bit ∈ h, 32 ≤ bit → kValidBits.getLsbD (bit % 32).toNat = false := by
  have hr := ran_addOutputs port h
  constructor
  · intro hc bit hbit hge
    have hmap : h.map accepts = h.map fun bit => decide (IsValid bit) := hr.returned.symm.trans hc.returns
    have haccepts : accepts bit = decide (IsValid bit) := List.map_inj_left.1 hmap bit hbit
    have hnot : ¬IsValid bit := fun hv => by have := hv.1.2; omega
    rw [decide_eq_false hnot, ← Bool.not_eq_true, accepts_iff] at haccepts
    rw [← Bool.not_eq_true]
    exact fun hv => haccepts ⟨by omega, hv⟩
  · intro hc
    have haccepts : ∀ bit ∈ h, accepts bit = decide (IsValid bit) := fun bit hbit => accepts_eq (hc bit hbit)
    refine ⟨hr.returned.trans (List.map_congr_left haccepts), fun l => ?_, fun r f hf => ?_⟩
    · rw [hr.outputs]
      constructor
      · rintro ⟨bit, hbit, ha, hl⟩
        rw [haccepts bit hbit, decide_eq_true_eq] at ha
        rw [getLsbD_shl1 ha.1, decide_eq_true_eq] at hl
        exact hl ▸ ⟨hbit, ha⟩
      · rintro ⟨hbit, hv⟩
        refine ⟨l, hbit, by rw [haccepts _ hbit, decide_eq_true hv], ?_⟩
        rw [getLsbD_shl1 hv.1, decide_eq_true rfl]
    · rw [hr.functions r f hf]
      have hiff : ((10 * r + f : Nat) : Int) ∈ h ∧ accepts (10 * r + f : Nat) = true ↔
          ((10 * r + f : Nat) : Int) ∈ h ∧ IsValid (10 * r + f : Nat) :=
        and_congr_right fun hbit => by rw [haccepts _ hbit, decide_eq_true_eq]
      simp only [hiff]

/-- Pin 34 has no place on any board, but it is taken for pin 2. -/
theorem not_configures_beyond :
    ¬Configures (fun _ => 0#32) [34] ∧ ((initialised fun _ => 0#32).addOutputs [34]).2 = [true] := by
  refine ⟨fun h => ?_, by decide⟩
  exact absurd h.returns (by decide)

end Gpio

end Spixels
