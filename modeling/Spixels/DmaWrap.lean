import Spixels.DmaHistory

/-!
# Lengths that do not fit `int`

`bytes_to_gpio_ops` returns a `size_t` as an `int`, and the value wraps around at `2^32`.  Nothing in the source looks
at that: `RegisterDataGPIO` goes on with whatever number comes out.  `stepWrapped` is the step of the backend with
these numbers, for the calls before the first send.  As long as the numbers fit it is the step of the plain model,
`run_stepWrapped`.
-/

namespace Spixels

open Run (run bind_eq_ok map_eq_ok)

namespace DMAMultiSPI

/-- `bytes_to_gpio_ops` -/
def bytesToGpioOpsWrapped (bytes : Nat) : Int := (BitVec.ofNat 32 (bytes * 8 * 2 + 1)).toInt

/-- The part of `RegisterDataGPIO` that runs when the stream gets longer.  A negative number of operations becomes a
size that `realloc` refuses, and then `NULL` is written to.  A number below the previous one becomes a `bzero` of
nearly `2^64` bytes. -/
def growWrapped (env : Env) (s : DMAMultiSPI) (requestedBytes : Nat) : Except Fault DMAMultiSPI :=
  let prevGpioEnd := bytesToGpioOpsWrapped s.serialByteSize - 1
  let gpioOperations := bytesToGpioOpsWrapped requestedBytes
  if 0 ≤ prevGpioEnd ∧ prevGpioEnd ≤ gpioOperations then
    .ok (s.growTo env requestedBytes prevGpioEnd.toNat gpioOperations.toNat)
  else .error .outOfBounds

def registerDataGpioWrapped (env : Env) (s : DMAMultiSPI) (gpio : Int) (requestedBytes : Nat) :
    Except Fault (DMAMultiSPI × Bool) :=
  if s.gpioDma = none then
    (if requestedBytes > s.serialByteSize then s.growWrapped env requestedBytes else .ok s).map fun s =>
      let (port, success) := s.gpio.addOutput gpio
      ({ s with gpio := port }, success)
  else .error .assertion

/-- One call, before the first send. -/
def stepWrapped (env : Env) (s : DMAMultiSPI) : Call → Except Fault DMAMultiSPI
  | .registerDataGpio gpio n => (s.registerDataGpioWrapped env gpio n).map Prod.fst
  | .setBufferedByte gpio pos data => s.setBufferedByte gpio pos data
  | .sendBuffers => s.step env .sendBuffers

section Wrap

variable {env : Env} {s t : DMAMultiSPI}

theorem bytesToGpioOpsWrapped_of_ok {n m : Nat} (h : bytesToGpioOps n = .ok m) : bytesToGpioOpsWrapped n = m := by
  obtain ⟨hfit, rfl⟩ := toInt_eq_ok.1 h
  rw [bytesToGpioOpsWrapped, BitVec.toInt_ofNat', Int.bmod_eq_of_le] <;> omega

theorem growWrapped_eq {n : Nat} (hn : s.serialByteSize < n) (hne : s.grow env n ≠ .error .intRange) :
    s.growWrapped env n = s.grow env n := by
  have hops : ∀ k, bytesToGpioOps k = .ok (gpioOps k) ∨ bytesToGpioOps k = .error .intRange := fun k => by
    unfold bytesToGpioOps toInt
    split
    · left; congr 1; unfold gpioOps; omega
    · exact .inr rfl
  rcases hops s.serialByteSize with hprev | hprev
  · rcases hops n with hnew | hnew
    · have hle : (0 : Int) ≤ (gpioOps s.serialByteSize : Int) - 1 ∧
          (gpioOps s.serialByteSize : Int) - 1 ≤ gpioOps n := by
        unfold gpioOps; omega
      have hgrow : s.grow env n = .ok (s.growTo env n (gpioOps s.serialByteSize - 1) (gpioOps n)) := by
        rw [grow, hprev, hnew]; rfl
      have hsub : ((gpioOps s.serialByteSize : Int) - 1).toNat = gpioOps s.serialByteSize - 1 := by omega
      rw [hgrow, growWrapped, bytesToGpioOpsWrapped_of_ok hprev, bytesToGpioOpsWrapped_of_ok hnew]
      simp only [if_pos hle, hsub, Int.toNat_natCast]
    · exact absurd (by rw [grow, hprev, hnew]; rfl) hne
  · exact absurd (by rw [grow, hprev]; rfl) hne

theorem stepWrapped_eq (s : DMAMultiSPI) (c : Call) (hne : s.step env c ≠ .error .intRange) :
    s.stepWrapped env c = s.step env c := by
  cases c with
  | registerDataGpio g n =>
    by_cases hn : s.gpioDma = none ∧ n > s.serialByteSize
    · have hgrow : s.grow env n ≠ .error .intRange := by
        intro hgrow
        apply hne
        rw [step, call, registerDataGpio, if_pos hn.1, if_pos hn.2, hgrow]
        rfl
      rw [stepWrapped, registerDataGpioWrapped, step, call, registerDataGpio, if_pos hn.1, if_pos hn.1, if_pos hn.2,
        if_pos hn.2, growWrapped_eq hn.2 hgrow]
      cases s.grow env n <;> rfl
    · rw [stepWrapped, registerDataGpioWrapped, step, call, registerDataGpio]
      by_cases hdma : s.gpioDma = none
      · have hle : ¬n > s.serialByteSize := fun h => hn ⟨hdma, h⟩
        rw [if_pos hdma, if_pos hdma, if_neg hle, if_neg hle]
        rfl
      · rw [if_neg hdma, if_neg hdma]
        rfl
  | setBufferedByte g p b =>
    rw [stepWrapped, step, call]
    cases s.setBufferedByte g p b <;> rfl
  | sendBuffers => rfl

/-- Where the plain model does not stop at a number that does not fit, it is what the source does. -/
theorem run_stepWrapped {h : List Call} (hne : run (step env) s h ≠ .error .intRange) :
    run (stepWrapped env) s h = run (step env) s h :=
  Run.run_congr_of_ne (fun s c hc => stepWrapped_eq s c hc) hne

end Wrap

end DMAMultiSPI

end Spixels
