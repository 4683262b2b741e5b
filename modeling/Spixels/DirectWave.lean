import Spixels.DirectGrowth

/-!
# What the direct backend sends

`Write` takes two register writes and skips empty ones.  A word without the clock bit, written with the clock
low and then with the clock high, is one slot of a waveform whatever the pins were before: `sendWord_spec`.  So
a send clocks out the bytes set last, and the lanes of the original words elsewhere: `sends_of_run`.
-/

namespace Spixels

open Waveform (RegWrite levels edges samples Slot byteDrive held)
open Run (run map_eq_ok)

namespace Gpio

variable {gpio : Gpio} {clk : Nat}

/-- `Write` gives the output pins the levels of the word. -/
theorem levels_write (gpio : Gpio) (value pins : BitVec 32) :
    levels pins (gpio.write value) =
      ((pins &&& ~~~(~~~value &&& gpio.outputBits)) ||| (value &&& gpio.outputBits)) := by
  rw [write, writeMaskedBits, Waveform.levels_append, levels_clearBits, levels_setBits]

theorem getLsbD_levels_write (gpio : Gpio) (value pins : BitVec 32) {l : Nat} (hl : l < 32) :
    (levels pins (gpio.write value)).getLsbD l =
      if gpio.outputBits.getLsbD l then value.getLsbD l else pins.getLsbD l := by
  rw [levels_write]
  simp only [BitVec.getLsbD_or, BitVec.getLsbD_and, BitVec.getLsbD_not, hl, decide_true, Bool.true_and]
  cases gpio.outputBits.getLsbD l <;> cases value.getLsbD l <;> simp

/-- Writing the same word again changes nothing. -/
theorem levels_write_write (gpio : Gpio) (value pins : BitVec 32) :
    levels (levels pins (gpio.write value)) (gpio.write value) = levels pins (gpio.write value) := by
  apply BitVec.eq_of_getLsbD_eq
  intro l hl
  rw [getLsbD_levels_write gpio value _ hl, getLsbD_levels_write gpio value _ hl]
  split <;> rfl

/-- A word without the clock does not raise it. -/
theorem raise_write {value m : BitVec 32} (hv : value.getLsbD clk = false)
    (h : RegWrite.raise m ∈ gpio.write value) :
    m.getLsbD clk = false := by
  rw [write, writeMaskedBits, List.mem_append] at h
  rcases h with h | h
  · cases mem_clearBits h
  · cases mem_setBits h
    rw [BitVec.getLsbD_and, hv, Bool.false_and]

/-- No edge while the clock is high already. -/
theorem edges_write_high {value pins : BitVec 32} (hv : value.getLsbD clk = true) (hp : pins.getLsbD clk = true)
    (hc : clk < 32) : edges clk pins (gpio.write value) = [] := by
  have hclear : (levels pins (clearBits (~~~value &&& gpio.outputBits))).getLsbD clk = true := by
    rw [levels_clearBits]
    simp [hp, hv, hc]
  rw [write, writeMaskedBits, Waveform.edges_append, Waveform.edges_eq_nil fun m hm => (by cases mem_clearBits hm),
    List.nil_append]
  unfold setBits
  split
  · rfl
  · simp [edges, hclear]

end Gpio

namespace DirectMultiSPI

section Word

variable {s : DirectMultiSPI}

private theorem writes_eq (hr : 1 ≤ s.writeRepeat) (value : BitVec 32) :
    s.writes value = s.gpio.write value ++ (List.replicate (s.writeRepeat - 1) (s.gpio.write value)).flatten := by
  obtain ⟨r, hr⟩ : ∃ r, s.writeRepeat = r + 1 := ⟨s.writeRepeat - 1, by omega⟩
  rw [writes, hr, List.replicate_succ, List.flatten_cons, Nat.add_sub_cancel]

theorem mem_writes {value : BitVec 32} {x : RegWrite 32} (h : x ∈ s.writes value) : x ∈ s.gpio.write value := by
  obtain ⟨ws, hws, hx⟩ := List.mem_flatten.1 h
  rwa [← List.eq_of_mem_replicate hws]

/-- Repeating a write changes nothing. -/
theorem levels_writes (hr : 1 ≤ s.writeRepeat) (value pins : BitVec 32) :
    levels pins (s.writes value) = levels pins (s.gpio.write value) := by
  rw [writes_eq hr, Waveform.levels_append]
  exact Waveform.levels_replicate _ (Gpio.levels_write_write _ _ _)

/-- Adding the clock to a word that is on the pins raises the clock and nothing else. -/
theorem edges_raise (hc : IsPin s.clockGpio) (hout : s.gpio.outputBits.getLsbD s.clockGpio.toNat = true)
    {d : BitVec 32} (hd : d.getLsbD s.clockGpio.toNat = false) (pins : BitVec 32)
    (hpins : ∀ l < 32, s.gpio.outputBits.getLsbD l = true → pins.getLsbD l = d.getLsbD l) :
    edges s.clockGpio.toNat pins (s.gpio.write (d ||| shl1 s.clockGpio)) = [⟨pins, pins ||| shl1 s.clockGpio⟩] ∧
      levels pins (s.gpio.write (d ||| shl1 s.clockGpio)) = pins ||| shl1 s.clockGpio := by
  have hclk := getLsbD_shl1_toNat hc
  have hlow : pins.getLsbD s.clockGpio.toNat = false := (hpins _ hc.toNat_lt hout).trans hd
  -- the pins to clear are low already
  have hclear : levels pins (Gpio.clearBits (~~~(d ||| shl1 s.clockGpio) &&& s.gpio.outputBits)) = pins := by
    rw [Gpio.levels_clearBits]
    apply BitVec.eq_of_getLsbD_eq
    intro l hl
    simp only [BitVec.getLsbD_and, BitVec.getLsbD_not, BitVec.getLsbD_or, hl, decide_true, Bool.true_and]
    cases ho : s.gpio.outputBits.getLsbD l with
    | false => simp
    | true => rw [hpins l hl ho]; cases d.getLsbD l <;> simp
  -- the pins to set are high already, but for the clock
  have hset : pins ||| ((d ||| shl1 s.clockGpio) &&& s.gpio.outputBits) = pins ||| shl1 s.clockGpio := by
    apply BitVec.eq_of_getLsbD_eq
    intro l hl
    simp only [BitVec.getLsbD_and, BitVec.getLsbD_or]
    by_cases hlc : l = s.clockGpio.toNat
    · subst hlc; simp [hclk, hout]
    · rw [getLsbD_shl1_ne hc hlc]
      cases ho : s.gpio.outputBits.getLsbD l with
      | false => simp
      | true => rw [hpins l hl ho]; simp
  have hne : (d ||| shl1 s.clockGpio) &&& s.gpio.outputBits ≠ 0#32 := by
    intro h0
    have := congrArg (fun x => x.getLsbD s.clockGpio.toNat) h0
    simp [hclk, hout] at this
  have hraise : (pins ||| shl1 s.clockGpio).getLsbD s.clockGpio.toNat = true := by simp [hclk]
  rw [Gpio.write, Gpio.writeMaskedBits, Waveform.edges_append, Waveform.levels_append, hclear, Gpio.levels_setBits,
    Waveform.edges_eq_nil fun m hm => (by cases Gpio.mem_clearBits hm), Gpio.setBits, if_neg hne]
  refine ⟨?_, hset⟩
  simp [edges, RegWrite.apply, hset, hlow, hraise]

/-- A word is a slot that drives the output pins. -/
theorem sendWord_spec (hc : IsPin s.clockGpio) (hout : s.gpio.outputBits.getLsbD s.clockGpio.toNat = true)
    (hr : 1 ≤ s.writeRepeat) {d : BitVec 32} (hd : d.getLsbD s.clockGpio.toNat = false) :
    Slot s.clockGpio.toNat (fun l => if s.gpio.outputBits.getLsbD l then some (d.getLsbD l) else none)
      (s.sendWord d) := by
  refine Slot.of_phases (fun m hm => Gpio.raise_write hd (mem_writes hm)) (fun pins l hl _ => ?_) fun pins => ?_
  · rw [levels_writes hr, Gpio.getLsbD_levels_write _ _ _ hl]
    split <;> rfl
  · rw [levels_writes hr d]
    obtain ⟨hedge, hlev⟩ := edges_raise hc hout hd (levels pins (s.gpio.write d)) fun l hl ho => by
      rw [Gpio.getLsbD_levels_write _ _ _ hl, if_pos ho]
    have hkeep : ∀ l, l ≠ s.clockGpio.toNat →
        (levels pins (s.gpio.write d) ||| shl1 s.clockGpio).getLsbD l = (levels pins (s.gpio.write d)).getLsbD l :=
      fun l hl => by rw [BitVec.getLsbD_or, getLsbD_shl1_ne hc hl, Bool.or_false]
    -- the repetitions find the clock high
    have hrest : edges s.clockGpio.toNat (levels pins (s.gpio.write d) ||| shl1 s.clockGpio)
        (List.replicate (s.writeRepeat - 1) (s.gpio.write (d ||| shl1 s.clockGpio))).flatten = [] := by
      have hclk := getLsbD_shl1_toNat hc
      have hidem := Gpio.levels_write_write s.gpio (d ||| shl1 s.clockGpio) (levels pins (s.gpio.write d))
      rw [hlev] at hidem
      exact Waveform.edges_replicate _ (Gpio.edges_write_high (by simp [hclk]) (by simp [hclk]) hc.toNat_lt) hidem
    have hone : edges s.clockGpio.toNat (levels pins (s.gpio.write d)) (s.writes (d ||| shl1 s.clockGpio)) =
        [⟨levels pins (s.gpio.write d), levels pins (s.gpio.write d) ||| shl1 s.clockGpio⟩] := by
      rw [writes_eq hr, Waveform.edges_append, hedge, hlev, hrest, List.append_nil]
    refine ⟨_, hone, fun l hl => ⟨rfl, hkeep l hl, ?_⟩⟩
    rw [levels_writes hr, hlev]
    exact hkeep l hl

/-- A send touches output pins only. -/
theorem mask_sendBuffers {ws : List (RegWrite 32)} (hs : s.sendBuffers = .ok ws) {x : RegWrite 32} (hx : x ∈ ws) :
    x.mask &&& ~~~s.gpio.outputBits = 0#32 := by
  unfold sendBuffers at hs
  split at hs
  · cases hs
    rcases List.mem_append.1 hx with hx | hx
    · obtain ⟨d, -, hx⟩ := List.mem_flatMap.1 hx
      rcases List.mem_append.1 hx with hx | hx
      · exact Gpio.mask_write (mem_writes hx)
      · exact Gpio.mask_write (mem_writes hx)
    · exact Gpio.mask_write hx
  · cases hs

end Word

/-! ### Whole sends -/

/-- The register writes `ws` send the words `base` with the bytes of `σ` painted over them. -/
structure Sends (s : DirectMultiSPI) (base : List (BitVec 32)) (σ : Streams) (ws : List (RegWrite 32))
    (pins : BitVec 32) : Prop where
  edges : (edges s.clockGpio.toNat pins ws).length = 8 * s.size
  clean : ∀ e ∈ Waveform.edges s.clockGpio.toNat pins ws, e.Clean s.clockGpio.toNat
  bits : ∀ l < 32, l ≠ s.clockGpio.toNat → s.gpio.outputBits.getLsbD l = true → ∀ p < s.size, ∀ k < 8,
    (samples s.clockGpio.toNat l pins ws)[8 * p + k]? = some (match σ.byte l p with
      | some b => b.getMsbD k
      | none => (base.getD (8 * p + k) 0#32).getLsbD l)
  masks : ∀ x ∈ ws, x.mask &&& ~~~s.gpio.outputBits = 0#32
  low : ∀ l, s.gpio.outputBits.getLsbD l = true → (levels pins ws).getLsbD l = false

section Send

variable {s : DirectMultiSPI} {fresh : Nat → Nat → BitVec 32}

private theorem flatMap_words {α : Type} (f : BitVec 32 → List α) (ws : List (BitVec 32)) :
    ws.flatMap f = (List.range ws.length).flatMap fun k => f (ws.getD k 0#32) := by
  have hws : ws = (List.range ws.length).map fun k => ws.getD k 0#32 := by
    apply List.ext_getElem
    · simp
    · intro i h1 h2; simp [h1]
  conv_lhs => rw [hws, List.flatMap_map]

/-- A send of words without the clock. -/
theorem sends_of_words (hc : IsPin s.clockGpio) (hout : s.gpio.outputBits.getLsbD s.clockGpio.toNat = true)
    (hr : 1 ≤ s.writeRepeat) (hlen : s.words.length = 8 * s.size)
    (hclk : ∀ w ∈ s.words, w.getLsbD s.clockGpio.toNat = false) (pins : BitVec 32) :
    ∃ ws, s.sendBuffers = .ok ws ∧ Sends s s.words Streams.empty ws pins := by
  have hslot : ∀ k < 8 * s.size, Slot s.clockGpio.toNat
      (fun l => if s.gpio.outputBits.getLsbD l then some ((s.words.getD k 0#32).getLsbD l) else none)
      (s.sendWord (s.words.getD k 0#32)) := fun k hk => by
    refine sendWord_spec hc hout hr (hclk _ ?_)
    rw [List.getD_eq_getElem?_getD, List.getElem?_eq_getElem (by omega), Option.getD_some]
    exact List.getElem_mem _
  have hsend := sendBuffers_ok hlen
  have hquiet : ∀ m, RegWrite.raise m ∈ s.gpio.write 0#32 → m.getLsbD s.clockGpio.toNat = false :=
    fun m hm => Gpio.raise_write (by simp) hm
  refine ⟨_, hsend, ?_, ?_, ?_, fun x hx => mask_sendBuffers hsend hx, fun l hl => ?_⟩
  · rw [flatMap_words, hlen, Waveform.edges_append, Waveform.edges_eq_nil hquiet, List.append_nil]
    exact (Waveform.edges_slots hslot pins).1
  · rw [flatMap_words, hlen, Waveform.edges_append, Waveform.edges_eq_nil hquiet, List.append_nil]
    exact (Waveform.edges_slots hslot pins).2
  · intro l hl hne ho p hp k hk
    rw [flatMap_words, hlen, Waveform.samples_append, Waveform.samples_slots hslot pins hl hne, samples,
      Waveform.edges_eq_nil hquiet, List.map_nil, List.append_nil, List.getElem?_map,
      List.getElem?_range (by omega),
      Option.map_some, Waveform.held_succ, if_pos ho]
    rfl
  · have hl32 : l < 32 := by
      by_contra h
      rw [BitVec.getLsbD_of_ge _ _ (by omega)] at hl
      cases hl
    rw [Waveform.levels_append, Gpio.getLsbD_levels_write _ _ _ hl32, if_pos hl]
    simp

/-- Painting bytes replaces lanes of the words, and nothing else. -/
theorem run_sets (fresh : Nat → Nat → BitVec 32) (hlen : s.words.length = 8 * s.size) {h : List Call}
    (hset : ∀ c ∈ h, ∃ g p b, c = .setBufferedByte g p b ∧ IsPin g ∧ p < s.size) :
    ∃ t, run (step fresh) s h = .ok t ∧ t.words = painted s.words (streams h) ∧
      t = { s with gpioData := t.gpioData } := by
  refine Run.run_total (fun h (t : DirectMultiSPI) => t.words = painted s.words (streams h) ∧
    t = { s with gpioData := t.gpioData }) ⟨(painted_of_none fun _ _ => rfl).symm, rfl⟩ ?_
  rintro pre m c hpre ⟨hw, hm⟩
  obtain ⟨g, p, b, rfl, hg, hp⟩ := hset c (hpre.subset (by simp))
  have hsize : m.size = s.size := by rw [hm]
  obtain ⟨t, ht⟩ := setBufferedByte_ok (s := m) (by rw [hw, length_painted, hlen, hsize]) g (p := p) (by omega) b
  obtain ⟨-, rfl⟩ := setBufferedByte_spec ht
  refine ⟨_, map_eq_ok.2 ⟨_, map_eq_ok.2 ⟨_, ht, rfl⟩, rfl⟩, ?_, ?_⟩
  · rw [streams_snoc, Streams.step, ← paint_painted hg, ← hw]
    rfl
  · rw [hm]

end Send

/-- Whatever the buffer holds, as long as no word has the clock bit, a send clocks out the bytes painted over it. -/
theorem sends_of_run {s : DirectMultiSPI} (fresh : Nat → Nat → BitVec 32) (hc : IsPin s.clockGpio)
    (hout : s.gpio.outputBits.getLsbD s.clockGpio.toNat = true) (hr : 1 ≤ s.writeRepeat)
    (hlen : s.words.length = 8 * s.size) (hclk : ∀ w ∈ s.words, w.getLsbD s.clockGpio.toNat = false)
    {h : List Call}
    (hset : ∀ c ∈ h, ∃ g p b, c = .setBufferedByte g p b ∧ IsPin g ∧ g ≠ s.clockGpio ∧ p < s.size) :
    ∃ t ws, run (step fresh) s h = .ok t ∧ t.sendBuffers = .ok ws ∧
      ∀ pins, Sends s s.words (streams h) ws pins := by
  obtain ⟨t, ht, hw, hkeep⟩ := run_sets fresh hlen fun c hm => by
    obtain ⟨g, p, b, he, hg, -, hp⟩ := hset c hm
    exact ⟨g, p, b, he, hg, hp⟩
  have hclock : t.clockGpio = s.clockGpio := by rw [hkeep]
  have hgpio : t.gpio = s.gpio := by rw [hkeep]
  have hsize : t.size = s.size := by rw [hkeep]
  have hlent : t.words.length = 8 * t.size := by rw [hw, length_painted, hlen, hsize]
  -- no byte has been painted on the clock
  have hfree : ClockFree s.clockGpio h := fun g p b hm => by
    obtain ⟨g', p', b', he, -, hne, -⟩ := hset _ hm
    cases he
    exact hne
  have hclkt : ∀ w ∈ t.words, w.getLsbD t.clockGpio.toNat = false := by
    rw [hw, hclock]
    exact getLsbD_painted_of_none hc (fun p => hfree.byte_eq_none p) hclk
  obtain ⟨ws, hws⟩ : ∃ ws, t.sendBuffers = .ok ws := ⟨_, sendBuffers_ok hlent⟩
  refine ⟨t, ws, ht, hws, fun pins => ?_⟩
  obtain ⟨ws', hws', hsends⟩ :=
    sends_of_words (s := t) (by rw [hclock]; exact hc) (by rw [hclock, hgpio]; exact hout)
    (by rw [hkeep]; exact hr) hlent hclkt pins
  rw [hws] at hws'
  cases hws'
  refine ⟨by rw [← hclock, ← hsize]; exact hsends.edges, by rw [← hclock]; exact hsends.clean, ?_,
    by rw [← hgpio]; exact hsends.masks, by rw [← hgpio]; exact hsends.low⟩
  intro l hl hne ho p hp k hk
  have hbit := hsends.bits l hl (by rw [hclock]; exact hne) (by rw [hgpio]; exact ho) p
      (by rw [hsize]; exact hp) k hk
  have hlt : 8 * p + k < s.words.length := by omega
  rw [hclock] at hbit
  rw [hbit]
  rw [hw, getLsbD_painted (streams h) hlt hl, Waveform.byteDrive_of_lt _ p hk]
  simp only [Streams.empty]
  cases (streams h).byte l p <;> rfl

/-- One byte on pin 18, over a buffer that still holds other lanes. -/
theorem sends_one_byte :
    ∃ t ws, run (step fun _ _ => 0#32)
        ⟨27, 2, ⟨0x08040000#32, none⟩, 1, some (List.replicate 8 0xF7FFFFFF#32)⟩
        [.setBufferedByte 18 0 0xA5#8] = .ok t ∧
      t.sendBuffers = .ok ws ∧
      ∀ pins, Sends ⟨27, 2, ⟨0x08040000#32, none⟩, 1, some (List.replicate 8 0xF7FFFFFF#32)⟩
        (List.replicate 8 0xF7FFFFFF#32) (streams [.setBufferedByte 18 0 0xA5#8]) ws pins :=
  sends_of_run _ (by decide) (by decide) (by decide) (by decide)
    (fun w hw => by rw [List.eq_of_mem_replicate hw]; decide)
    fun c hc => ⟨18, 0, 0xA5#8, by simpa using hc, by decide, by decide, by decide⟩

end DirectMultiSPI

end Spixels
