import Spixels.DirectWave
import Spixels.LedProgram

/-!
# Programs on the direct backend

A program whose first strip is the longest one runs on the direct backend from its constructor on, and a send that it
makes at any time shows every strip what it is to display: the chips on its pin read a frame with their pixels, and
zeros behind it, `shows_program`.  No strip sees anything of the others.
-/

namespace Spixels

open Waveform (samples)
open Run (run map_eq_ok)

namespace DirectMultiSPI

section Sends

variable {clk : Int} {port : Nat → BitVec 32} {repeats : Int} {fresh : Nat → Nat → BitVec 32}
  {s t : DirectMultiSPI} {h : List Call}

theorem writeRepeat_step {c : Call} (ht : s.step fresh c = .ok t) : t.writeRepeat = s.writeRepeat := by
  obtain ⟨⟨t', ws⟩, hcall, rfl⟩ := map_eq_ok.1 ht
  cases c with
  | registerDataGpio g n =>
    obtain ⟨⟨r, b⟩, hreg, he⟩ := map_eq_ok.1 hcall
    cases he
    obtain ⟨m, ⟨-, hgrow⟩ | ⟨-, rfl⟩, rfl⟩ := registerDataGpio_spec hreg
    · rw [grow_spec hgrow]
    · rfl
  | setBufferedByte g p b =>
    obtain ⟨r, hset, he⟩ := map_eq_ok.1 hcall
    cases he
    obtain ⟨-, rfl⟩ := setBufferedByte_spec hset
    rfl
  | sendBuffers =>
    obtain ⟨ws', -, he⟩ := map_eq_ok.1 hcall
    cases he
    rfl

theorem writeRepeat_of_run (ht : run (step fresh) s h = .ok t) : t.writeRepeat = s.writeRepeat :=
  Run.run_induct (fun _ t => t.writeRepeat = s.writeRepeat) rfl
    (fun _ _ _ _ _ hm hstep => (writeRepeat_step hstep).trans hm) ht

theorem writeRepeat_create (hs : create port repeats clk = .ok s) : s.writeRepeat = (max 2 repeats).toNat := by
  unfold create at hs
  split at hs
  split at hs
  · cases hs; rfl
  · cases hs

/-- A backend whose words are those of the calls, the clock lane among them left alone. -/
theorem words_of_run (hc : IsPin clk) (hs : create port repeats clk = .ok s) (hp : PinsOnly h) (hk : ClockFree clk h)
    (hone : GrowsOnce h) (ht : run (step fresh) s h = .ok t) :
    t.gpio.outputBits.getLsbD clk.toNat = true ∧ t.words.length = 8 * t.size ∧
      ∀ w ∈ t.words, w.getLsbD clk.toNat = false := by
  have hconf := configured_of_run hs ht
  refine ⟨(hconf.outputs.bits _).2 (.inl (getLsbD_shl1_toNat hc)), by rw [hconf.size]; exact hconf.length, ?_⟩
  rw [(holds_of_run hs hp hone ht).words]
  refine getLsbD_painted_of_none hc (fun p => hk.byte_eq_none p) fun w hw => ?_
  rw [List.eq_of_mem_replicate hw]; simp

/-- What a receiver makes of a send: the bytes that have been set for its pin, and zeros. -/
theorem bytes_send (hc : IsPin clk) (hs : create port repeats clk = .ok s) (hp : PinsOnly h) (hk : ClockFree clk h)
    (hone : GrowsOnce h) (ht : run (step fresh) s h = .ok t) :
    ∃ ws, t.sendBuffers = .ok ws ∧ ∀ g n, IsPin g → g ≠ clk → Call.registerDataGpio g n ∈ h →
      Gpio.accepts g = true → ∀ pins,
        Waveform.bytes (samples clk.toNat g.toNat pins ws) = (List.range (streams h).size).map (stored g h) := by
  have hconf := configured_of_run hs ht
  have hsize := hconf.size
  have hwords := (holds_of_run hs hp hone ht).words
  have hrepeat : 1 ≤ t.writeRepeat := by rw [writeRepeat_of_run ht]; exact (create_spec hs).2.2
  obtain ⟨hout, hlen, hlow⟩ := words_of_run hc hs hp hk hone ht
  obtain rfl := hconf.clock
  refine ⟨_, sendBuffers_ok hlen, fun g n hg hne hreg ha pins => ?_⟩
  obtain ⟨ws, hws, hsends⟩ := sends_of_words hc hout hrepeat hlen hlow pins
  rw [sendBuffers_ok hlen] at hws
  cases hws
  have hne' : g.toNat ≠ t.clockGpio.toNat := fun he => hne (by rw [← hg.natCast_toNat, he, hc.natCast_toNat])
  have hpin := (hconf.outputs.bits g.toNat).2 (.inr ⟨g, n, hreg, ha, getLsbD_shl1_toNat hg⟩)
  refine Waveform.bytes_eq_map (by rw [samples, List.length_map, hsends.edges, hsize]) fun p hp k hk => ?_
  have hbit := hsends.bits _ hg.toNat_lt hne' hpin p (by rw [hsize]; exact hp) k hk
  simp only [Streams.empty] at hbit
  rw [hbit, hwords, getLsbD_painted _ (by simp; omega) hg.toNat_lt, hg.natCast_toNat,
    Waveform.byteDrive_of_lt _ p hk, stored]
  cases (streams h).byte g p with
  | some b => rfl
  | none => simp

end Sends

section Programs

variable {clk : Int} {lum : Luminance} {ops : List Op}

theorem growsOnce_append {h sets : List Call} (hone : GrowsOnce h) (hsets : OnlySets sets) :
    GrowsOnce (h ++ sets) :=
  hone.append fun c hc pre => by
    obtain ⟨g, p, b, rfl⟩ := hsets c hc
    trivial

/-- The streams get their length from the first strip. -/
theorem growsOnce_programCalls (hlum : ∀ b, lum 0#8 b = 0#16) (hp : Proper clk (connected ops))
    (hlong : LongestFirst (connected ops)) : GrowsOnce (programCalls lum ops) := by
  induction ops using List.reverseRecOn with
  | nil => exact (by decide : GrowsOnce [])
  | append_singleton ops op ih =>
    obtain ⟨sets, hsets, hcalls⟩ := programCalls_snoc hlum hp
    have hone := ih hp.of_snoc (hlong.of_prefix (List.prefix_append _ _))
    rw [hcalls]
    refine growsOnce_append ?_ hsets
    cases op with
    | createStrip type g n =>
      rw [connected_snoc, connectStep, LongestFirst, List.map_append] at hlong
      refine Run.each_snoc.2 ⟨hone, ?_⟩
      rw [Call.OnRegister, size_programCalls hlum hp.of_snoc]
      cases hcs : (connected ops).map Connected.length with
      | nil => exact .inl (by rw [longest, hcs]; rfl)
      | cons first rest =>
        rw [hcs] at hlong
        have hle := hlong first rfl (type.format.length n) (by simp [Connected.length])
        exact .inr (hle.trans (by rw [longest, hcs]; exact Nat.le_max_left _ _))
    | onStrip i k => rw [Op.control, List.append_nil]; exact hone
    | sendBuffers => exact Run.each_snoc.2 ⟨hone, trivial⟩

end Programs

/-- From every program whose first strip is the longest, a send at its end lets the chips of each strip read a frame
of the pixels that the strip displays, whatever the other strips have been asked for. -/
theorem shows_program {clk : Int} (hc : IsPin clk) {port : Nat → BitVec 32} {repeats : Int}
    {fresh : Nat → Nat → BitVec 32} {s : DirectMultiSPI} (hs : create port repeats clk = .ok s) {lum : Luminance}
    (hlum : ∀ b, lum 0#8 b = 0#16) {ops : List Op} (hp : Proper clk (connected ops))
    (hlong : LongestFirst (connected ops)) (hfit : 32 * longest (connected ops) < 2 ^ 31) :
    ∃ t ws, run (step fresh) s (programCalls lum ops) = .ok t ∧ t.sendBuffers = .ok ws ∧
      ∀ c ∈ connected ops, Gpio.accepts c.gpio = true → ∀ pins, ∃ frame rest,
        Waveform.bytes (samples clk.toNat c.gpio.toNat pins ws) = frame ++ rest ∧
          c.type.parse c.count frame = some (c.pixels lum) ∧ ∀ b ∈ rest, b = 0#8 := by
  have hsize := size_programCalls hlum hp
  obtain ⟨t, ht, -⟩ := run_ok fresh hs (programInv hlum hp).inRange (by rw [hsize]; exact hfit)
  obtain ⟨ws, hws, hbytes⟩ := bytes_send hc hs (pinsOnly_programCalls hlum hp) (clockFree_programCalls hlum hp)
    (growsOnce_programCalls hlum hp hlong) ht
  refine ⟨t, ws, ht, hws, fun c hmem ha pins => ?_⟩
  obtain ⟨hpin, hne⟩ := hp.pin c hmem
  obtain ⟨k, hk⟩ := Nat.exists_eq_add_of_le (le_longest hmem)
  refine ⟨(List.range c.length).map (stored c.gpio (programCalls lum ops)),
    (List.range k).map fun j => stored c.gpio (programCalls lum ops) (c.length + j), ?_,
    parse_programCalls hlum hp hmem, fun b hb => ?_⟩
  · rw [hbytes _ _ hpin hne (registered_programCalls hlum hp hmem) ha pins, hsize, hk, List.range_add,
      List.map_append, List.map_map]
    rfl
  · obtain ⟨j, -, rfl⟩ := List.mem_map.1 hb
    exact stored_behind hlum hp hmem (by omega)

/-- An APA102 strip and a shorter WS2801 strip, called in turn, with a send in between. -/
theorem shows_program_two_strips :
    let lum : Luminance := fun value brightness => value.setWidth 16 * brightness.setWidth 16
    let ops : List Op := [.createStrip .apa102 18 2, .createStrip .ws2801 23 1,
      .onStrip 0 (.setPixel 1 ⟨255#8, 16#8, 0#8⟩), .sendBuffers,
      .onStrip 1 (.setLinearValues 0 ⟨0x1234#16, 0#16, 0#16⟩), .onStrip 0 (.setBrightness 128#8)]
    ∃ s t ws, create (fun _ => 0#32) 8 27 = .ok s ∧
      run (step fun _ _ => 0xFFFFFFFF#32) s (programCalls lum ops) = .ok t ∧ t.sendBuffers = .ok ws ∧
      ∀ c ∈ connected ops, Gpio.accepts c.gpio = true → ∀ pins, ∃ frame rest,
        Waveform.bytes (samples 27 c.gpio.toNat pins ws) = frame ++ rest ∧
          c.type.parse c.count frame = some (c.pixels lum) ∧ ∀ b ∈ rest, b = 0#8 := by
  intro lum ops
  have hproper : Proper 27 (connected ops) := by
    refine ⟨by decide, by decide, by decide, ?_⟩
    simp [ops, connected, connectStep, Connected.call]
  obtain ⟨s, hs⟩ := create_ok (fun _ => 0#32) 8 (show Gpio.accepts 27 = true by decide)
  have hlum : ∀ b, lum 0#8 b = 0#16 := fun b => by simp [lum]
  obtain ⟨t, ws, ht, hws, hshows⟩ := shows_program (by decide) hs hlum hproper (by decide) (by decide)
  exact ⟨s, t, ws, hs, ht, hws, hshows⟩

end DirectMultiSPI

end Spixels
