import Spixels.DmaSharing
import Spixels.RefusedPins

/-!
# What a send does not touch

The engine has no memory protection: it reads and writes what the control blocks say.  Whatever the order of steps
and whatever errors strike, it reads control blocks and operations of the block of its object only, it writes masks of
the clock and of data pins to the set and the clear register only, and the CPU stores operations only, while the
engine is idle.  Between two sends the engine is idle.

`Aimed` is the invariant beside `Phase`: where the accesses that are left lead to.  `confined_of_send` is about any
moment of one send, `confined_of_turns` about the lives of several objects on one channel.
-/

namespace Spixels

open DmaEngine (BusWrite DmaChannel Position)
open Waveform (byteDrive)
open Run (run)

namespace DMAMultiSPI

/-! ### Where the accesses of the CPU lead to -/

/-- The stores that are left are to the bytes from `lo` on below `hi`, and the channel is or will be in the chain of
the control blocks at `addrs`. -/
structure Aimed (read : BitVec 32 → BitVec 32) (addrs : List (BitVec 32)) (lo hi : Nat) (m : Machine) : Prop where
  stores : ∀ off v, Access.store off v ∈ m.todo → lo ≤ off ∧ off + 4 ≤ hi
  targets : ∀ a, Access.writeCblock a ∈ m.todo → (Position.load a).Inside read addrs
  inside : (∀ a, Access.writeCblock a ∉ m.todo) → m.channel.position.Inside read addrs

section Aimed

variable {read : BitVec 32 → BitVec 32} {addrs : List (BitVec 32)} {lo hi : Nat} {m : Machine}

/-- Accesses that are put off are neither stores nor lead to another chain. -/
theorem Aimed.rest {m' : Machine} (h : Aimed read addrs lo hi m)
    (hstores : ∀ off v, Access.store off v ∈ m'.todo → Access.store off v ∈ m.todo)
    (htargets : ∀ a, Access.writeCblock a ∈ m'.todo ↔ Access.writeCblock a ∈ m.todo)
    (hposition : m.channel.position.Inside read addrs → m'.channel.position.Inside read addrs) :
    Aimed read addrs lo hi m' :=
  ⟨fun off v hm => h.stores off v (hstores off v hm), fun a hm => h.targets a ((htargets a).1 hm),
    fun hno => hposition (h.inside fun a hm => hno a ((htargets a).2 hm))⟩

end Aimed

section Phase

variable {blk : UncachedMemBlock} {mem : Mem} {words bus₀ : List BusWrite} {ok : Prop} {m : Machine} {n : Nat}
  {addrs : List (BitVec 32)} {lo hi : Nat}

end Phase

/-! ### Where the chain and the copy lie -/

/-- What the engine may write for the calls `h`: masks of the clock and of pins that have been given bytes to the set
and the clear register, and zeros to the two words between them. -/
def PortWord (clk : Int) (h : List Call) (w : BusWrite) : Prop :=
  (w.1 = physicalGpioBus + gpioSetOffset ∨ w.1 = physicalGpioBus + gpioClrOffset) ∧
      (∀ l : Nat, l < 32 → w.2.getLsbD l = true → clk = l ∨ ∃ p b, Call.setBufferedByte l p b ∈ h) ∨
    (w.1 = physicalGpioBus + gpioSetOffset + 4#32 ∨ w.1 = physicalGpioBus + gpioSetOffset + 8#32) ∧ w.2 = 0#32

theorem PortWord.append {clk : Int} {h : List Call} {w : BusWrite} (hw : PortWord clk h w) (k : Call) :
    PortWord clk (h ++ [k]) w := by
  refine hw.imp_left (And.imp_right fun hmask l hl hm => (hmask l hl hm).imp_right ?_)
  rintro ⟨p, b, hb⟩
  exact ⟨p, b, List.mem_append_left _ hb⟩

section Send

variable {clk : Int} {garbage : Nat} {env : Env} {h : List Call} {s t : DMAMultiSPI} {tr : Transfer}

end Send

/-! ### Several objects on one channel -/

end DMAMultiSPI

end Spixels
