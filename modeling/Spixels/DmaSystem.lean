import Spixels.DmaConcurrent
import Spixels.DmaProgram

/-!
# The whole system on the DMA backend

A program calls its strips, the strips set bytes, the backend keeps them in its shadow buffer; a send copies the
buffer word by word into uncached memory, starts the DMA channel and polls it, while the engine follows the control
blocks and writes to the port; the chips take a bit from their pin at each edge of the clock.

Whatever the order in which the CPU and the engine have made their steps in the sends before, and make them in this
one, the chips of every strip see what the strip displays: `displays_interleaved`.
-/

namespace Spixels

open DmaEngine (BusWrite DmaChannel)
open Waveform (samples)
open Run (run)

namespace DMAMultiSPI

theorem programCalls_send (lum : Luminance) (ops : List Op) :
    programCalls lum (ops ++ [.sendBuffers]) = programCalls lum ops ++ [.sendBuffers] := by
  rw [programCalls, Run.trace_snoc]; rfl

/-- Without a send, the engine has no part in a life. -/
theorem life_of_run {env : Env} {s₀ s : DMAMultiSPI} {h : List Call} (hu : Call.sendBuffers ∉ h)
    (hrun : run (step env) s₀ h = .ok s) : Life env s₀ h s DmaChannel.afterReset [] := by
  refine Run.run_induct (fun h s => Call.sendBuffers ∉ h → Life env s₀ h s DmaChannel.afterReset [])
    (fun _ => .start rfl rfl) (fun h m c t _ ih hstep hu => ?_) hrun hu
  exact .call (ih fun hm => hu (List.mem_append_left _ hm)) (fun he => hu (by simp [he])) hstep

section System

variable {clk : Int} {port : Nat → BitVec 32} {garbage startGarbage : Nat} {env : Env} {s₀ s : DMAMultiSPI}
  {lum : Luminance} {ops : List Op}

/-- After the calls of a program a send begins on an idle channel, and returns within a bounded number of rounds,
whatever errors strike. -/
theorem begins_of_program (hc : IsPin clk) (hs : create port clk garbage startGarbage = .ok s₀)
    (haddr : AddressableMemory env) (hlum : ∀ b, lum 0#8 b = 0#16) (hp : Proper clk (connected ops))
    (hpos : 0 < longest (connected ops)) (hsize : allocSize (longest (connected ops)) < 2 ^ 31)
    {new : UncachedMemBlock}
    (hnew : uncachedMemBlockAlloc env.mbox (allocSize (longest (connected ops))) = .ok new)
    (hrun : run (step env) s₀ (programCalls lum ops) = .ok s) {channel : DmaChannel}
    (hidle : channel.active = false) (bus : List BusWrite) :
    ∃ t tr m m₀ blk, Represents clk garbage (programCalls lum ops) s ∧ s.sendBuffers env = .ok (t, tr) ∧
      (t.alloced = some blk ∧ Addressable blk) ∧ s.beginSend env channel bus = .ok (m, m₀) ∧
      m.alloced = some blk ∧ ∀ rounds : List (List Event), (∀ r ∈ rounds, Event.cpu ∈ r ∧ Event.engine ∈ r) →
        sendSteps (longest (connected ops)) ≤ rounds.length →
          (Schedule.after (Machine.step blk) m₀ rounds.flatten).todo = [] := by
  have hlen := size_programCalls hlum hp
  have hr := represents_of_run hc hs (pinsOnly_programCalls hlum hp) hrun
  obtain ⟨t, tr, hsend⟩ := sendBuffers_ok env hr (by rw [hlen]; exact hpos) (by rw [hlen]; exact hsize)
    (by rw [hlen]; exact hnew)
  have hrun' : run (step env) s₀ (programCalls lum ops ++ [.sendBuffers]) = .ok t :=
    Run.run_snoc_eq_ok.2 ⟨s, hrun, Run.map_eq_ok.2 ⟨_, Run.map_eq_ok.2 ⟨_, hsend, rfl⟩, rfl⟩⟩
  obtain ⟨blk, hblk, -⟩ := (sendBuffers_spec hr hsend).1.sent (by simp)
  have hblock := addressable_of_run hs hrun' haddr hblk
  obtain ⟨m, m₀, hbegin, hkeep, -, n, hn, hphase⟩ := phase_beginSend hr hsend hblk hblock hidle bus
  refine ⟨t, tr, m, m₀, blk, hr, hsend, ⟨hblk, hblock⟩, hbegin, by rw [← hblk, hkeep], fun rounds hfair hlong => ?_⟩
  rw [hlen] at hn
  exact todo_of_rounds (hphase False fun h => h.elim) hfair (hn.trans hlong)

/-- After any life of a program, a send returns within a bounded number of rounds, and what the engine has written to
the port by then shows all strips. -/
theorem displays_interleaved {clk : Int} (hc : IsPin clk) {port : Nat → BitVec 32} {garbage startGarbage : Nat}
    {env : Env} {s₀ s : DMAMultiSPI} (hs : create port clk garbage startGarbage = .ok s₀)
    (haddr : AddressableMemory env) {lum : Luminance} (hlum : ∀ b, lum 0#8 b = 0#16) {ops : List Op}
    (hp : Proper clk (connected ops)) (hpos : 0 < longest (connected ops))
    (hsize : allocSize (longest (connected ops)) < 2 ^ 31) {new : UncachedMemBlock}
    (hnew : uncachedMemBlockAlloc env.mbox (allocSize (longest (connected ops))) = .ok new)
    {channel : DmaChannel} {bus : List BusWrite} (life : Life env s₀ (programCalls lum ops) s channel bus) :
    ∃ m m₀ blk, s.beginSend env channel bus = .ok (m, m₀) ∧ m.alloced = some blk ∧ ∀ rounds : List (List Event),
      (∀ r ∈ rounds, (Event.cpu ∈ r ∧ Event.engine ∈ r) ∧ Event.fail ∉ r) →
        sendSteps (longest (connected ops)) ≤ rounds.length →
          let now := Schedule.after (Machine.step blk) m₀ rounds.flatten
          Life env s₀ (programCalls lum (ops ++ [.sendBuffers])) { m with mem := now.mem } now.channel now.bus ∧
            ∃ out, now.bus = bus ++ out ∧ ∀ c ∈ connected ops, Gpio.accepts c.gpio = true → ∀ pins,
              c.Sees lum (pins.getLsbD c.gpio.toNat)
                (Waveform.bytes (samples clk.toNat c.gpio.toNat pins (out.flatMap portWrites))) := by
  obtain ⟨hidle, hclean, hrun⟩ := life_run hc hs haddr (pinsOnly_programCalls hlum hp) life 0#32
  obtain ⟨t, tr, m, m₀, blk, hr, hsend, ⟨hblk, hblock⟩, hbegin, hmblk, hreturns⟩ :=
    begins_of_program hc hs haddr hlum hp hpos hsize hnew (run_dev hrun) hidle bus
  refine ⟨m, m₀, blk, hbegin, hmblk, fun rounds hrounds hlong => ?_⟩
  have hes : Event.fail ∉ rounds.flatten := fun hm => by
    obtain ⟨r, hmem, hfail⟩ := List.mem_flatten.1 hm
    exact (hrounds r hmem).2 hfail
  have hover := hreturns rounds (fun r hmem => (hrounds r hmem).1) hlong
  obtain ⟨-, -, -, hbus⟩ := send_spec hr hsend hblk hblock hidle hclean hbegin hes hover
  refine ⟨?_, _, hbus, fun c hmem _ pins => ?_⟩
  · rw [programCalls_send]
    exact .send life hbegin hmblk hes rfl hover
  · rw [portWrites_entryWords]
    exact sees_of_send hc hlum hp hpos hr hsend hmem pins

end System

/-- Two strips, and a send in which the engine has its turns first. -/
theorem displays_interleaved_two_strips :
    let lum : Luminance := fun value brightness => value.setWidth 16 * brightness.setWidth 16
    let ops : List Op := [.createStrip .ws2801 18 2, .createStrip .lpd8806 23 1,
      .onStrip 0 (.setPixel 1 ⟨0#8, 0#8, 255#8⟩)]
    ∃ s₀ s m m₀ blk, create (fun _ => 0#32) 27 0 0 = .ok s₀ ∧
      run (step (Env.replying 0x40001000#32)) s₀ (programCalls lum ops) = .ok s ∧
      s.beginSend (Env.replying 0x40001000#32) DmaChannel.afterReset [] = .ok (m, m₀) ∧ m.alloced = some blk ∧
      ∀ c ∈ connected ops, Gpio.accepts c.gpio = true → ∀ pins, c.Sees lum (pins.getLsbD c.gpio.toNat)
        (Waveform.bytes (samples 27 c.gpio.toNat pins ((Schedule.after (Machine.step blk) m₀
          (List.replicate 800 [.engine, .engine, .cpu]).flatten).bus.flatMap portWrites))) := by
  intro lum ops
  have hlum : ∀ b, lum 0#8 b = 0#16 := fun b => by simp [lum]
  have hproper : Proper 27 (connected ops) := by
    refine ⟨by decide, by decide, by decide, ?_⟩
    simp [ops, connected, connectStep, Connected.call]
  obtain ⟨s₀, hs⟩ := create_ok (fun _ => 0#32) 0 0 (show Gpio.accepts 27 = true by decide)
  obtain ⟨s, hrun, -⟩ := run_program (by decide) (Env.replying 0x40001000#32) hs hlum hproper (by decide) (by decide)
    (by decide) (uncachedMemBlockAlloc_const (by decide) (by decide))
  have hu : Call.sendBuffers ∉ programCalls lum ops := mt (mem_sendBuffers_programCalls hlum hproper).1 (by decide)
  obtain ⟨m, m₀, blk, hbegin, hblk, hall⟩ := displays_interleaved (by decide) hs addressableMemory_replying hlum
    hproper (by decide) (by decide) (uncachedMemBlockAlloc_const (by decide) (by decide)) (life_of_run hu hrun)
  obtain ⟨-, out, hbus, hsees⟩ := hall (List.replicate 800 [.engine, .engine, .cpu])
    (fun r hr => by rw [List.eq_of_mem_replicate hr]; decide) (by rw [List.length_replicate]; decide)
  refine ⟨s₀, s, m, m₀, blk, hs, hrun, hbegin, hblk, ?_⟩
  rw [hbus, List.nil_append]
  exact hsees

end DMAMultiSPI

end Spixels
