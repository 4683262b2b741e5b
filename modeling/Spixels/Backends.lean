import Spixels.DirectProgram
import Spixels.DmaProgram

/-!
# The two backends side by side

Both backends take the same calls.  The direct one keeps a level for every pin and slot and sends zeros where no byte
has been set; the DMA one keeps what is to be raised and lowered and leaves a pin alone where no byte has been set.

So a receiver makes the same of both of them just if the DMA backend never leaves its pin high, `LowBetween`:
`backends_agree_iff`.  Streams that have been set completely look the same on both.
-/

namespace Spixels

open Waveform (samples received tailLevel)
open Run (run)

/-- Wherever no byte of the pin has been set, the byte in front of the gap ends with a low bit; in front of the first
byte, it is the level of the pin that is low. -/
def LowBetween (g : Int) (h : List Call) (level : Bool) : Prop :=
  ∀ p < (streams h).size, (streams h).byte g p = none → tailLevel ((streams h).byte g) level p = false

instance (g : Int) (h : List Call) (level : Bool) : Decidable (LowBetween g h level) :=
  inferInstanceAs (Decidable (∀ p < (streams h).size, _ → _))

theorem map_received_eq_iff {g : Int} {h : List Call} {level : Bool} :
    (List.range (streams h).size).map (stored g h) =
        (List.range (streams h).size).map (received ((streams h).byte g) level) ↔ LowBetween g h level := by
  rw [List.map_inj_left]
  constructor
  · intro heq p hp
    exact Waveform.received_eq_getD_iff.1 (heq p (List.mem_range.2 hp)).symm
  · intro hlow p hp
    exact (Waveform.received_eq_getD_iff.2 (hlow p (List.mem_range.1 hp))).symm

/-- Calls that both backends take: the first length is the longest, and no registration comes after a send. -/
structure BothTake (clk : Int) (h : List Call) : Prop where
  pins : PinsOnly h
  clockFree : ClockFree clk h
  inRange : InRange h
  growsOnce : DirectMultiSPI.GrowsOnce h
  registersFirst : DMAMultiSPI.RegistersFirst h
  pos : 0 < (streams h).size

/-- After the same calls a send of the two backends looks the same on a pin if and only if the DMA backend finds it
low wherever no byte has been set. -/
theorem backends_agree_iff {clk : Int} (hc : IsPin clk) {port : Nat → BitVec 32} {repeats : Int}
    {fresh : Nat → Nat → BitVec 32} {d₀ : DirectMultiSPI} (hd₀ : DirectMultiSPI.create port repeats clk = .ok d₀)
    {garbage startGarbage : Nat} (env : Env) {s₀ : DMAMultiSPI}
    (hs₀ : DMAMultiSPI.create port clk garbage startGarbage = .ok s₀) {h : List Call} (hb : BothTake clk h)
    (hsize : DMAMultiSPI.allocSize (streams h).size < 2 ^ 31) {blk : UncachedMemBlock}
    (hblk : uncachedMemBlockAlloc env.mbox (DMAMultiSPI.allocSize (streams h).size) = .ok blk) :
    ∃ d ws s t tr, run (DirectMultiSPI.step fresh) d₀ h = .ok d ∧ d.sendBuffers = .ok ws ∧
      run (DMAMultiSPI.step env) s₀ h = .ok s ∧ s.sendBuffers env = .ok (t, tr) ∧
      ∀ g n, IsPin g → g ≠ clk → Call.registerDataGpio g n ∈ h → Gpio.accepts g = true → ∀ pins pins',
        (Waveform.bytes (samples clk.toNat g.toNat pins ws) =
            Waveform.bytes (samples clk.toNat g.toNat pins' (DMAMultiSPI.writes tr.entries)) ↔
          LowBetween g h (pins'.getLsbD g.toNat)) := by
  have hfit : 32 * (streams h).size < 2 ^ 31 := by
    unfold DMAMultiSPI.allocSize DMAMultiSPI.gpioOps at hsize
    omega
  obtain ⟨d, hd, -⟩ := DirectMultiSPI.run_ok fresh hd₀ hb.inRange hfit
  obtain ⟨ws, hws, hdirect⟩ := DirectMultiSPI.bytes_send hc hd₀ hb.pins hb.clockFree hb.growsOnce hd
  obtain ⟨s, hs, hr⟩ := DMAMultiSPI.run_ok env hc hs₀ hb.pins hb.inRange hb.registersFirst hb.pos hsize hblk
  obtain ⟨t, tr, ht⟩ := DMAMultiSPI.sendBuffers_ok env hr hb.pos hsize hblk
  refine ⟨d, ws, s, t, tr, hd, hws, hs, ht, fun g n hg hne hreg ha pins pins' => ?_⟩
  rw [hdirect g n hg hne hreg ha pins, DMAMultiSPI.bytes_send hc hr hb.clockFree hb.pos ht hg hne pins']
  exact map_received_eq_iff

/-- Two streams, of which the second one has a gap behind an odd byte. -/
theorem backends_agree_iff_gap :
    let h : List Call := [.registerDataGpio 18 2, .setBufferedByte 18 0 0xA5#8, .setBufferedByte 18 1 0x0F#8,
      .registerDataGpio 23 2, .setBufferedByte 23 0 0x01#8]
    ∃ ws entries, Waveform.bytes (samples 27 18 0#32 ws) = Waveform.bytes (samples 27 18 0#32 entries) ∧
      Waveform.bytes (samples 27 23 0#32 ws) ≠ Waveform.bytes (samples 27 23 0#32 entries) ∧
      ∃ d d₀, DirectMultiSPI.create (fun _ => 0#32) 8 27 = .ok d₀ ∧
        run (DirectMultiSPI.step fun _ _ => 0#32) d₀ h = .ok d ∧ d.sendBuffers = .ok ws := by
  intro h
  obtain ⟨d₀, hd₀⟩ := DirectMultiSPI.create_ok (fun _ => 0#32) 8 (show Gpio.accepts 27 = true by decide)
  obtain ⟨s₀, hs₀⟩ := DMAMultiSPI.create_ok (fun _ => 0#32) 0 0 (show Gpio.accepts 27 = true by decide)
  have hb : BothTake 27 h := ⟨by decide, by decide, by decide, by decide, by decide, by decide⟩
  obtain ⟨d, ws, s, t, tr, hd, hws, -, -, hagree⟩ : ∃ d ws s t tr, run (DirectMultiSPI.step fun _ _ => 0#32) d₀ h =
      .ok d ∧ _ := backends_agree_iff (by decide) hd₀ (Env.replying 0xC0001000#32) hs₀ hb (by decide)
    (uncachedMemBlockAlloc_const (by decide) (by decide))
  refine ⟨ws, DMAMultiSPI.writes tr.entries, ?_, ?_, d, d₀, hd₀, hd, hws⟩
  · exact (hagree 18 2 (by decide) (by decide) (by simp [h]) (by decide) 0#32 0#32).2 (by decide)
  · exact mt (hagree 23 2 (by decide) (by decide) (by simp [h]) (by decide) 0#32 0#32).1 (by decide)

end Spixels
