import Spixels.Chaser
import Spixels.DirectProgram
import Spixels.LedLuminance

/-!
# The example program (`simple.cc`)

Two strips with 144 LEDs, on which lights run from one end to the other.  In each iteration of its endless loop, as
long as the counter runs, the program sends what a chaser with the pattern of the strip shows: `shows_iteration`.
The counter starts again after `2^32` iterations, in the middle of a strip.
-/

namespace Spixels

open Waveform (samples)
open Run (run)
open MultiSPI (spiClock spiPinForConnector)

/-! ### Strips on connectors -/

/-- Every connector has a pin of its own, which can be an output and is not the clock. -/
theorem spiPinForConnector_spec :
    (∀ k ∈ List.range' 1 16, IsPin (spiPinForConnector k) ∧ spiPinForConnector k ≠ spiClock ∧
      Gpio.accepts (spiPinForConnector k) = true) ∧
      ((List.range' 1 16).map fun k : Nat => spiPinForConnector k).Nodup := by decide

/-- Other numbers have no pin. -/
theorem spiPinForConnector_of_not {k : Int} (hk : ¬(1 ≤ k ∧ k ≤ 16)) :
    Gpio.accepts (spiPinForConnector k) = false := by
  have hnone : spiPinForConnector k = -1 := by
    unfold spiPinForConnector
    split <;> omega
  rw [hnone]
  decide

/-- Strips on different connectors do not get in each other's way. -/
theorem proper_of_connectors {cs : List Connected} {ks : List Nat}
    (hgpio : cs.map Connected.gpio = ks.map fun k : Nat => spiPinForConnector k) (hks : ks.Nodup)
    (hk : ∀ k ∈ ks, 1 ≤ k ∧ k ≤ 16) (short : ∀ c ∈ cs, c.length < 2 ^ 31)
    (inside : ∀ c ∈ cs, ∀ pos v, StripCall.setLinearValues pos v ∈ c.history → 0 ≤ pos ∧ pos < c.count) :
    Proper spiClock cs := by
  obtain ⟨hpins, hdistinct⟩ := spiPinForConnector_spec
  have hmem : ∀ k ∈ ks, k ∈ List.range' 1 16 := fun k hks => by
    have := hk k hks
    rw [List.mem_range'_1]
    omega
  refine ⟨fun c hc => ?_, ?_, short, inside⟩
  · have hg : c.gpio ∈ ks.map fun k : Nat => spiPinForConnector k := hgpio ▸ List.mem_map_of_mem hc
    obtain ⟨k, hks, he⟩ := List.mem_map.1 hg
    obtain ⟨hpin, hne, -⟩ := hpins k (hmem k hks)
    rw [← he]
    exact ⟨hpin, hne⟩
  · rw [hgpio]
    exact hks.map_on fun a ha b hb he => List.inj_on_of_nodup_map hdistinct (hmem a ha) (hmem b hb) he

namespace Simple

/-! ### The program -/

/-- `strip1` and `strip2`. -/
def connect : List Op := [.createStrip .apa102 MultiSPI.spiP1 144, .createStrip .apa102 MultiSPI.spiP2 144]

/-- The body of the loop before `SendBuffers`. -/
def draw (i : BitVec 32) : List Op :=
  let pos : Nat := i.toNat % 144
  [.onStrip 0 (.setPixel pos (RGBc.ofHex 0x000000#32)), -- clear previous pixel
    .onStrip 1 (.setPixel pos (RGBc.ofHex 0x000000#32)),
    .onStrip 0 (.setPixel (pos + 1) (RGBc.ofHex 0xFF0000#32)),
    .onStrip 0 (.setPixel (pos + 2) ⟨0#8, 255#8, 0#8⟩),
    .onStrip 0 (.setPixel (pos + 3) ⟨0#8, 0#8, 255#8⟩),
    .onStrip 1 (.setPixel (pos + 1) ⟨0#8, 0#8, 255#8⟩)]

/-- The program from its start through `n` iterations. -/
def program (n : Nat) : List Op :=
  connect ++ (List.range n).flatMap fun i => draw (BitVec.ofNat 32 i) ++ [.sendBuffers]

/-! ### What the strips are asked for -/

def red : RGBc := ⟨255#8, 0#8, 0#8⟩
def green : RGBc := ⟨0#8, 255#8, 0#8⟩
def blue : RGBc := ⟨0#8, 0#8, 255#8⟩

/-- The strips and the lights that run on them. -/
def lights : List (Int × List RGBc) := [(MultiSPI.spiP1, [red, green, blue]), (MultiSPI.spiP2, [blue])]

/-- A strip in one iteration. -/
def strokes (pattern : List RGBc) (pos : Nat) : List StripCall :=
  .setPixel pos RGBc.black :: pattern.mapIdx fun j c => .setPixel (pos + 1 + j : Nat) c

/-- The history of a strip after `n` times the body of the loop. -/
def history (pattern : List RGBc) (n : Nat) : List StripCall :=
  (List.range n).flatMap fun i => strokes pattern (i % 2 ^ 32 % 144)

theorem connectStep_draw (h₁ h₂ : List StripCall) (i : Nat) :
    (draw (BitVec.ofNat 32 i)).foldl connectStep
        [⟨.apa102, MultiSPI.spiP1, 144, h₁⟩, ⟨.apa102, MultiSPI.spiP2, 144, h₂⟩] =
      [⟨.apa102, MultiSPI.spiP1, 144, h₁ ++ strokes [red, green, blue] (i % 2 ^ 32 % 144)⟩,
        ⟨.apa102, MultiSPI.spiP2, 144, h₂ ++ strokes [blue] (i % 2 ^ 32 % 144)⟩] := by
  have hblack : RGBc.ofHex 0x000000#32 = RGBc.black := by decide
  have hred : RGBc.ofHex 0xFF0000#32 = red := by decide
  simp [draw, connectStep, Connected.call, strokes, hblack, hred, green, blue, add_assoc]

theorem history_succ (pattern : List RGBc) (n : Nat) :
    history pattern (n + 1) = history pattern n ++ strokes pattern (n % 2 ^ 32 % 144) := by
  simp [history, List.range_succ]

theorem connected_program (n : Nat) :
    connected (program n) = lights.map fun l => ⟨.apa102, l.1, 144, history l.2 n⟩ := by
  induction n with
  | zero => rfl
  | succ n ih =>
    have hstep : program (n + 1) = program n ++ (draw (BitVec.ofNat 32 n) ++ [.sendBuffers]) := by
      simp [program, List.range_succ]
    rw [hstep, connected, List.foldl_append, List.foldl_append, ← connected, ih]
    simp only [lights, List.map_cons, List.map_nil, connectStep_draw, history_succ]
    rfl

/-! ### What the strips display -/

/-- At full brightness the strip shows the colors of a row. -/
structure Lit (lum : Luminance) {count : Nat} (d : Display count) (row : Nat → RGBc) : Prop where
  brightness : d.brightness = 255#8
  color : ∀ k : Fin count, d.color k = row k
  value : ∀ k : Fin count, d.value k = shade lum (row k) 255#8

section Lit

variable {lum : Luminance} {count : Nat} {d : Display count} {row : Nat → RGBc}

theorem lit_dark (hlum : ∀ b, lum 0#8 b = 0#16) : Lit lum (Display.dark count) fun _ => RGBc.black := by
  refine ⟨rfl, fun k => rfl, fun k => ?_⟩
  change Rgb16.zero = Rgb16.mk (lum 0#8 255#8) (lum 0#8 255#8) (lum 0#8 255#8)
  rw [hlum]
  rfl

theorem Lit.setPixel (h : Lit lum d row) (pos : Nat) (c : RGBc) :
    Lit lum (d.call lum (.setPixel pos c)) fun k => if k = pos then c else row k := by
  have hpos : ∀ k : Fin count, ((pos : Nat) : Int) = ((k : Nat) : Int) ↔ (k : Nat) = pos := fun k => by omega
  refine ⟨h.brightness, fun k => ?_, fun k => ?_⟩
  · simp only [Display.call, hpos, h.color]
  · simp only [Display.call, hpos, h.value, h.brightness]
    split <;> rfl

theorem Lit.strokes (h : Lit lum d row) (pattern : List RGBc) (pos : Nat) :
    Lit lum ((Simple.strokes pattern pos).foldl (Display.call lum) d) (Chaser.paint RGBc.black pattern pos row) := by
  induction pattern using List.reverseRecOn with
  | nil =>
    rw [funext (Chaser.paint_nil pos row)]
    exact h.setPixel pos RGBc.black
  | append_singleton pattern c ih =>
    rw [funext (Chaser.paint_snoc pos row c), Simple.strokes, List.mapIdx_concat, ← List.cons_append,
      List.foldl_append]
    exact ih.setPixel (pos + 1 + pattern.length) c

/-- A strip after `n` iterations. -/
theorem lit_history (hlum : ∀ b, lum 0#8 b = 0#16) (pattern : List RGBc) (n : Nat) :
    Lit lum ((history pattern n).foldl (Display.call lum) (Display.dark count))
      (Chaser.rowAfter 144 (2 ^ 32) RGBc.black pattern n) := by
  induction n with
  | zero => exact lit_dark hlum
  | succ n ih =>
    rw [history_succ, List.foldl_append]
    exact ih.strokes pattern (n % 2 ^ 32 % 144)

end Lit

/-- In each iteration, the strips get frames of what the chasers on them show, with the luminance of the table. -/
theorem shows_iteration (pow : ℚ → ℚ → ℚ) (table : Nat → BitVec 16) (port : Nat → BitVec 32) (repeats : Int)
    (fresh : Nat → Nat → BitVec 32) (n : Nat) :
    let lum := luminanceCie1931 (luminanceCie1931Internal pow) table
    ∃ s t ws, DirectMultiSPI.create port repeats spiClock = .ok s ∧
      run (DirectMultiSPI.step fresh) s (programCalls lum (program n ++ draw (BitVec.ofNat 32 n))) = .ok t ∧
      t.sendBuffers = .ok ws ∧ ∀ l ∈ lights, ∀ pins, ∃ frame rest,
        Waveform.bytes (samples spiClock.toNat l.1.toNat pins ws) = frame ++ rest ∧
        StripType.apa102.parse 144 frame = some ((List.range 144).map fun k => StripType.apa102.reduce
          (shade (luminanceCie1931Internal pow) (Chaser.shown 144 (2 ^ 32) RGBc.black l.2 n k) 255#8)) ∧
        ∀ b ∈ rest, b = 0#8 := by
  intro lum
  have hlum : lum = luminanceCie1931Internal pow := luminanceCie1931_eq _ table
  have hdark : ∀ b, lum 0#8 b = 0#16 := fun b => by rw [hlum]; exact luminance_dark pow b
  have hconnected : connected (program n ++ draw (BitVec.ofNat 32 n)) =
      lights.map fun l => ⟨.apa102, l.1, 144, history l.2 (n + 1)⟩ := by
    rw [connected, List.foldl_append, ← connected, connected_program]
    simp only [lights, List.map_cons, List.map_nil, connectStep_draw, history_succ]
  have hlengths : (connected (program n ++ draw (BitVec.ofNat 32 n))).map Connected.length = [589, 589] := by
    rw [hconnected]
    simp [lights, Connected.length, StripType.format, Frame.Format.length, Frame.Format.start]
  have hproper : Proper spiClock (connected (program n ++ draw (BitVec.ofNat 32 n))) := by
    have hconnectors : (connected (program n ++ draw (BitVec.ofNat 32 n))).map Connected.gpio =
        [1, 2].map fun k : Nat => spiPinForConnector k := by
      rw [hconnected]
      rfl
    refine proper_of_connectors hconnectors (by decide) (by decide) (fun c hc => ?_) ?_
    · have hlen := List.mem_map_of_mem (f := Connected.length) hc
      rw [hlengths] at hlen
      have : c.length = 589 := by simpa using hlen
      omega
    · rw [hconnected]
      intro c hc pos v hmem
      obtain ⟨l, -, rfl⟩ := List.mem_map.1 hc
      simp [history, strokes] at hmem
  obtain ⟨s, hs⟩ := DirectMultiSPI.create_ok port repeats (show Gpio.accepts spiClock = true by decide)
  obtain ⟨t, ws, ht, hws, hshows⟩ := DirectMultiSPI.shows_program (by decide) hs hdark hproper
    (by rw [LongestFirst, hlengths]; decide) (by rw [longest, hlengths]; decide)
  refine ⟨s, t, ws, hs, ht, hws, fun l hl pins => ?_⟩
  have hmem : (⟨.apa102, l.1, 144, history l.2 (n + 1)⟩ : Connected) ∈
      connected (program n ++ draw (BitVec.ofNat 32 n)) := by
    rw [hconnected]
    exact List.mem_map_of_mem (f := fun l => (⟨.apa102, l.1, 144, history l.2 (n + 1)⟩ : Connected)) hl
  have haccepts : Gpio.accepts l.1 = true :=
    (by decide : ∀ l ∈ lights, Gpio.accepts l.1 = true) l hl
  obtain ⟨frame, rest, hbytes, hparse, hrest⟩ := hshows _ hmem haccepts pins
  refine ⟨frame, rest, hbytes, hparse.trans (congrArg some ?_), hrest⟩
  -- the LEDs have the values of the chaser
  have hlit : Lit lum ((history l.2 (n + 1)).foldl (Display.call lum) (Display.dark 144)) _ :=
    lit_history hdark l.2 (n + 1)
  rw [Connected.pixels, ← List.map_coe_finRange_eq_range, List.map_map]
  refine List.map_congr_left fun k _ => congrArg StripType.apa102.reduce ((hlit.value k).trans ?_)
  have hshown : Chaser.rowAfter 144 (2 ^ 32) RGBc.black l.2 (n + 1) k =
      Chaser.shown 144 (2 ^ 32) RGBc.black l.2 n k := Chaser.rowAfter_succ (by decide) (by decide) n k.isLt
  rw [hlum, hshown]

/-- When the counter starts again, the green light that the iteration before has left on the first strip is still
there. -/
theorem shows_iteration_again :
    let internal := luminanceCie1931Internal fun x _ => Rounding.binary64.round (x ^ 3)
    ∃ s t ws, DirectMultiSPI.create (fun _ => 0#32) 8 spiClock = .ok s ∧
      run (DirectMultiSPI.step fun _ _ => 0xFFFFFFFF#32) s
        (programCalls (luminanceCie1931 internal fun _ => 0xFFFF#16)
          (program (2 ^ 32) ++ draw (BitVec.ofNat 32 (2 ^ 32)))) = .ok t ∧
      t.sendBuffers = .ok ws ∧ ∀ pins, ∃ frame rest pixels,
        Waveform.bytes (samples spiClock.toNat MultiSPI.spiP1.toNat pins ws) = frame ++ rest ∧
        StripType.apa102.parse 144 frame = some pixels ∧
        pixels[113]? = some (StripType.apa102.reduce (shade internal green 255#8)) := by
  intro internal
  obtain ⟨s, t, ws, hs, ht, hws, hshows⟩ := shows_iteration (fun x _ => Rounding.binary64.round (x ^ 3))
    (fun _ => 0xFFFF#16) (fun _ => 0#32) 8 (fun _ _ => 0xFFFFFFFF#32) (2 ^ 32)
  refine ⟨s, t, ws, hs, ht, hws, fun pins => ?_⟩
  obtain ⟨frame, rest, hbytes, hparse, -⟩ := hshows (MultiSPI.spiP1, [red, green, blue]) (by decide) pins
  refine ⟨frame, rest, _, hbytes, hparse, ?_⟩
  have hgreen : Chaser.shown 144 (2 ^ 32) RGBc.black [red, green, blue] (2 ^ 32) 113 = green := by decide
  rw [List.getElem?_map, List.getElem?_range (by omega), Option.map_some, hgreen]

end Simple

end Spixels
