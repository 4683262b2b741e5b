import Spixels.DmaHistory

/-!
# What the DMA backend sends

Playing the rendering of streams clocks out one bit per pair of entries: `slot_spec`.  So a receiver reads the
bytes that have been set, whatever the pins were before: `Transmits`, `transmits_render`, and for the buffer
that a history of registrations and bytes leaves behind, `transmits_of_run`.
-/

namespace Spixels

open Waveform (RegWrite levels edges samples Slot byteDrive held)
open Run (run)

namespace DMAMultiSPI

/-- The writes of a sequence of operations. -/
def writes (entries : List GpioData) : List (RegWrite 32) := entries.flatMap GpioData.writes

theorem writes_append (es es' : List GpioData) : writes (es ++ es') = writes es ++ writes es' :=
  List.flatMap_append

/-- The pins when operation `i` starts. -/
def pinsAt (pins : BitVec 32) (entries : List GpioData) (i : Nat) : BitVec 32 :=
  levels pins (writes (entries.take i))

/-- From the given pins, the operations clock out the streams `σ`: one rising edge in each odd operation and
none in the even ones, no data pin moves with the clock, the clock ends low, and a receiver reads the bytes of
`σ`. -/
structure Transmits (clk : Int) (σ : Streams) (entries : List GpioData) (pins : BitVec 32) : Prop where
  length : entries.length = 16 * σ.size + 1
  edges : (edges clk.toNat pins (writes entries)).length = 8 * σ.size
  even : ∀ i e, entries[i]? = some e → i % 2 = 0 → Waveform.edges clk.toNat (pinsAt pins entries i) e.writes = []
  odd : ∀ i e, entries[i]? = some e → i % 2 = 1 →
    (Waveform.edges clk.toNat (pinsAt pins entries i) e.writes).length = 1 ∧
      ∀ l < 32, l ≠ clk.toNat →
        (levels (pinsAt pins entries i) e.writes).getLsbD l = (pinsAt pins entries i).getLsbD l
  clockLow : (levels pins (writes entries)).getLsbD clk.toNat = false
  bytes : ∀ g, IsPin g → g ≠ clk → ∀ p b, σ.byte g p = some b → ∀ k < 8,
    (samples clk.toNat g.toNat pins (writes entries))[8 * p + k]? = some (b.getMsbD k)

/-! ### One bit -/

section Render

variable {clk : Int} {σ : Streams}

theorem entry_even (clk : Int) (σ : Streams) (k : Nat) :
    entry clk σ (2 * k) = ⟨ofLanes fun l => (byteDrive (σ.byte l) k).getD false, 0#32, 0#32,
      ofLanes fun l => ((byteDrive (σ.byte l) k).map not).getD (decide (clk = l))⟩ := by
  simp only [entry, show 2 * k % 2 = 0 by omega, show 2 * k / 2 = k by omega, ↓reduceIte]

theorem writes_odd (clk : Int) (σ : Streams) {i : Nat} (hi : i % 2 = 1) :
    (entry clk σ i).writes = [.raise (shl1 clk), .lower 0#32] := by
  rw [entry_odd _ _ hi]; rfl

/-- An even entry drives the pins that have a byte. -/
theorem levels_even (hc : IsPin clk) (k : Nat) (pins : BitVec 32) {l : Nat} (hl : l < 32) (hne : l ≠ clk.toNat) :
    (levels pins (entry clk σ (2 * k)).writes).getLsbD l = (byteDrive (σ.byte l) k).getD (pins.getLsbD l) := by
  have hclk : decide (clk = (l : Int)) = false := by
    rw [← getLsbD_shl1 hc]; exact getLsbD_shl1_ne hc hne
  rw [entry_even]
  simp only [GpioData.writes, Waveform.levels_cons, Waveform.levels_nil, RegWrite.apply, BitVec.getLsbD_and,
    BitVec.getLsbD_or, BitVec.getLsbD_not, getLsbD_ofLanes _ hl, hl, decide_true, Bool.true_and, hclk]
  cases byteDrive (σ.byte l) k with
  | none => simp
  | some v => cases v <;> simp

/-- An even entry lowers the clock and never raises it. -/
theorem clock_even (hc : IsPin clk) (hfree : ∀ p, σ.byte clk p = none) (k : Nat) :
    (∀ m, RegWrite.raise m ∈ (entry clk σ (2 * k)).writes → m.getLsbD clk.toNat = false) ∧
      ∀ pins, (levels pins (entry clk σ (2 * k)).writes).getLsbD clk.toNat = false := by
  have hd : byteDrive (σ.byte (clk.toNat : Int)) k = none := by
    rw [hc.natCast_toNat, byteDrive, hfree]; rfl
  have hl := hc.toNat_lt
  rw [entry_even]
  constructor
  · intro m hm
    simp only [GpioData.writes, List.mem_cons, RegWrite.raise.injEq, reduceCtorEq, List.not_mem_nil,
      or_false] at hm
    rw [hm, getLsbD_ofLanes _ hl, hd]; rfl
  · intro pins
    have hclr : (ofLanes fun l => ((byteDrive (σ.byte l) k).map not).getD (decide (clk = l))).getLsbD clk.toNat =
        true := by
      rw [getLsbD_ofLanes _ hl, hd, hc.natCast_toNat]; simp
    simp only [GpioData.writes, Waveform.levels_cons, Waveform.levels_nil, RegWrite.apply, BitVec.getLsbD_and,
      BitVec.getLsbD_not, hclr]
    simp

/-- An odd entry raises the clock and nothing else. -/
theorem raise_odd (hc : IsPin clk) {pins : BitVec 32} (hlow : pins.getLsbD clk.toNat = false) :
    edges clk.toNat pins [.raise (shl1 clk), .lower 0#32] = [⟨pins, pins ||| shl1 clk⟩] ∧
      levels pins [.raise (shl1 clk), .lower 0#32] = pins ||| shl1 clk ∧
      ∀ l, l ≠ clk.toNat → (pins ||| shl1 clk).getLsbD l = pins.getLsbD l := by
  have hset := getLsbD_shl1_toNat hc
  have hall : (pins ||| shl1 clk) &&& ~~~0#32 = pins ||| shl1 clk := by rw [BitVec.not_zero, BitVec.and_allOnes]
  refine ⟨?_, hall, fun l hl => ?_⟩
  · simp [edges, RegWrite.apply, hlow, hset]
  · rw [BitVec.getLsbD_or, getLsbD_shl1_ne hc hl, Bool.or_false]

/-- The entries of one bit. -/
def slot (clk : Int) (σ : Streams) (k : Nat) : List (RegWrite 32) :=
  (entry clk σ (2 * k)).writes ++ (entry clk σ (2 * k + 1)).writes

theorem slot_spec (hc : IsPin clk) (hfree : ∀ p, σ.byte clk p = none) (k : Nat) :
    Slot clk.toNat (fun l => byteDrive (σ.byte l) k) (slot clk σ k) := by
  obtain ⟨hquiet, hclock⟩ := clock_even hc hfree k
  refine Slot.of_phases hquiet (fun pins l hl hne => levels_even hc k pins hl hne) fun pins => ?_
  obtain ⟨hedge, hlev, hkeep⟩ := raise_odd hc (hclock pins)
  rw [writes_odd clk σ (show (2 * k + 1) % 2 = 1 by omega)]
  refine ⟨_, hedge, fun l hl => ⟨rfl, hkeep l hl, ?_⟩⟩
  rw [hlev]; exact hkeep l hl

/-! ### The whole buffer -/

private theorem flatMap_range_two {α : Type} (f : Nat → List α) (n : Nat) :
    (List.range (2 * n)).flatMap f = (List.range n).flatMap fun k => f (2 * k) ++ f (2 * k + 1) := by
  induction n with
  | zero => rfl
  | succ n ih =>
    rw [show 2 * (n + 1) = 2 * n + 1 + 1 by omega, List.range_succ, List.range_succ, List.range_succ]
    simp only [List.flatMap_append, List.flatMap_singleton, ih, List.append_assoc]

private theorem writes_entries (clk : Int) (σ : Streams) (n : Nat) :
    writes ((List.range (2 * n)).map (entry clk σ)) = (List.range n).flatMap (slot clk σ) := by
  rw [writes, List.flatMap_map, flatMap_range_two]; rfl

/-- The buffer is one slot per bit, and one more entry that lowers the clock. -/
theorem writes_render (clk : Int) (σ : Streams) :
    writes (render clk σ) = (List.range (8 * σ.size)).flatMap (slot clk σ) ++
      (entry clk σ (2 * (8 * σ.size))).writes := by
  rw [render, show 16 * σ.size + 1 = 2 * (8 * σ.size) + 1 by omega, List.range_succ, List.map_append,
    writes_append, writes_entries]
  simp [writes]

/-- What a receiver reads from the pin of lane `l` while the buffer is played. -/
theorem samples_render (hc : IsPin clk) (hfree : ∀ p, σ.byte clk p = none) (pins : BitVec 32) {l : Nat}
    (hl : l < 32) (hne : l ≠ clk.toNat) :
    samples clk.toNat l pins (writes (render clk σ)) =
      (List.range (8 * σ.size)).map fun k => held (byteDrive (σ.byte l)) (pins.getLsbD l) (k + 1) := by
  rw [writes_render, Waveform.samples_append,
    Waveform.samples_slots (fun k _ => slot_spec hc hfree k) pins hl hne, samples,
    Waveform.edges_eq_nil (clock_even hc hfree _).1, List.map_nil, List.append_nil]

/-- The clock is low when an odd entry starts. -/
theorem clock_pinsAt (hc : IsPin clk) (hfree : ∀ p, σ.byte clk p = none) (pins : BitVec 32) {k : Nat}
    (hk : 2 * k + 1 < 16 * σ.size + 1) :
    (pinsAt pins (render clk σ) (2 * k + 1)).getLsbD clk.toNat = false := by
  have htake : (render clk σ).take (2 * k + 1) = (List.range (2 * k)).map (entry clk σ) ++
      [entry clk σ (2 * k)] := by
    rw [render, ← List.map_take, List.take_range, Nat.min_eq_left (by omega), List.range_succ,
      List.map_append]; rfl
  rw [pinsAt, htake, writes_append, Waveform.levels_append]
  have hlast : writes [entry clk σ (2 * k)] = (entry clk σ (2 * k)).writes := by simp [writes]
  rw [hlast]
  exact (clock_even hc hfree k).2 _

theorem transmits_render (hc : IsPin clk) (hfree : ∀ p, σ.byte clk p = none) (hb : σ.Bounded) (pins : BitVec 32) :
    Transmits clk σ (render clk σ) pins where
  length := length_render clk σ
  edges := by
    rw [writes_render, Waveform.edges_append, Waveform.edges_eq_nil (clock_even hc hfree _).1, List.append_nil]
    exact (Waveform.edges_slots (fun k _ => slot_spec hc hfree k) pins).1
  even := by
    intro i e he hi
    obtain ⟨hlt, rfl⟩ := List.getElem?_eq_some_iff.1 he
    obtain ⟨k, rfl⟩ : ∃ k, i = 2 * k := ⟨i / 2, by omega⟩
    simp only [render, List.getElem_map, List.getElem_range]
    exact Waveform.edges_eq_nil (clock_even hc hfree k).1
  odd := by
    intro i e he hi
    obtain ⟨hlt, rfl⟩ := List.getElem?_eq_some_iff.1 he
    rw [length_render] at hlt
    obtain ⟨k, rfl⟩ : ∃ k, i = 2 * k + 1 := ⟨i / 2, by omega⟩
    obtain ⟨hedge, hlev, hkeep⟩ := raise_odd hc (clock_pinsAt hc hfree pins hlt)
    have hi' : 2 * k + 1 < (render clk σ).length := by simpa using hlt
    have hw : (render clk σ)[2 * k + 1].writes = [.raise (shl1 clk), .lower 0#32] := by
      simp only [render, List.getElem_map, List.getElem_range]
      exact writes_odd clk σ hi
    rw [hw, hedge, hlev]
    exact ⟨rfl, fun l _ hl => hkeep l hl⟩
  clockLow := by
    rw [writes_render, Waveform.levels_append]
    exact (clock_even hc hfree _).2 _
  bytes := by
    intro g hg hne p b hbyte k hk
    have hp : p < σ.size := hb g p b hbyte
    have hl : g.toNat ≠ clk.toNat := fun h => hne (by rw [← hg.natCast_toNat, h, hc.natCast_toNat])
    have hbyte' : σ.byte (g.toNat : Int) p = some b := by rw [hg.natCast_toNat]; exact hbyte
    rw [samples_render hc hfree pins hg.toNat_lt hl, List.getElem?_map, List.getElem?_range (by omega),
      Option.map_some, Waveform.held_byte hbyte' _ hk]

end Render

/-- After any history of registrations and bytes the buffer clocks out the bytes most recently set, however
often it grew in between. -/
theorem transmits_of_run {clk : Int} (hc : IsPin clk) {port : Nat → BitVec 32} {garbage startGarbage : Nat}
    (env : Env) {s : DMAMultiSPI} (hs : create port clk garbage startGarbage = .ok s) {h : List Call}
    (hu : Call.sendBuffers ∉ h) (hp : PinsOnly h) (hk : ClockFree clk h) (hin : InRange h)
    (hfit : gpioOps (streams h).size < 2 ^ 31) (hpos : 1 ≤ (streams h).size) :
    ∃ t shadow, run (step env) s h = .ok t ∧ t.serialByteSize = (streams h).size ∧ t.gpioShadow = some shadow ∧
      ∀ pins, Transmits clk (streams h) shadow pins := by
  obtain ⟨t, ht, hr⟩ := run_registration env hc hs hu hp hin hfit
  refine ⟨t, render clk (streams h), ht, hr.size, ?_, transmits_render hc hk.byte_eq_none hr.bounded⟩
  rw [hr.shadow, if_neg (by omega)]

/-- Two streams, the second one longer than the first. -/
theorem transmits_two_streams :
    ∃ s t shadow, create (fun _ => 0#32) 27 0 0 = .ok s ∧
      run (step (Env.replying 0xC0001000#32)) s [.registerDataGpio 18 1, .setBufferedByte 18 0 0xA5#8,
        .registerDataGpio 23 2, .setBufferedByte 23 1 0x3C#8] = .ok t ∧ t.gpioShadow = some shadow ∧
      ∀ pins, Transmits 27 (streams [.registerDataGpio 18 1, .setBufferedByte 18 0 0xA5#8, .registerDataGpio 23 2,
        .setBufferedByte 23 1 0x3C#8]) shadow pins := by
  obtain ⟨s, hs⟩ := create_ok (fun _ => 0#32) 0 0 (show Gpio.accepts 27 = true by decide)
  obtain ⟨t, shadow, ht, -, hsh, htr⟩ := transmits_of_run (by decide) (Env.replying 0xC0001000#32) hs
    (h := [.registerDataGpio 18 1, .setBufferedByte 18 0 0xA5#8, .registerDataGpio 23 2,
      .setBufferedByte 23 1 0x3C#8])
    (by decide) (by decide) (by decide) (by decide) (by decide) (by decide)
  exact ⟨s, t, shadow, hs, ht, hsh, htr⟩

end DMAMultiSPI

end Spixels
