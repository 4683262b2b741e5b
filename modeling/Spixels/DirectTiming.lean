import Spixels.DirectProgram

/-!
# Setup and hold times of the direct backend

The direct backend has no clock of its own: it repeats each write `write_repeat_` times to slow itself down.  The
first write of a word moves the data pins, the repetitions leave everything as it is; then the clock rises, and again
the repetitions leave everything as it is.  So around each rising edge the pins are still for `write_repeat_ - 1`
register writes at least, whatever is sent, although `SetBits` and `ClearBits` skip writes of empty masks:
`settled_of_run`.
-/

namespace Spixels

open Waveform (RegWrite levels Idle Settled)
open Run (run)

namespace Gpio

/-- Pins that have the levels of a word are left alone by a write of this word. -/
theorem idle_write {gpio : Gpio} {value pins : BitVec 32}
    (h : ∀ l < 32, gpio.outputBits.getLsbD l = true → pins.getLsbD l = value.getLsbD l) :
    Idle pins (gpio.write value) := by
  intro x hx
  rw [write, writeMaskedBits, List.mem_append] at hx
  rcases hx with hx | hx
  · rw [mem_clearBits hx]
    apply BitVec.eq_of_getLsbD_eq
    intro l hl
    have hpin := h l hl
    simp only [RegWrite.apply, BitVec.getLsbD_and, BitVec.getLsbD_not, hl, decide_true, Bool.true_and]
    cases ho : gpio.outputBits.getLsbD l <;> simp_all
  · rw [mem_setBits hx]
    apply BitVec.eq_of_getLsbD_eq
    intro l hl
    have hpin := h l hl
    simp only [RegWrite.apply, BitVec.getLsbD_or, BitVec.getLsbD_and]
    cases ho : gpio.outputBits.getLsbD l <;> simp_all

/-- One of the two masks may be empty, but not both. -/
theorem length_write {gpio : Gpio} (hout : gpio.outputBits ≠ 0#32) (value : BitVec 32) :
    1 ≤ (gpio.write value).length ∧ (gpio.write value).length ≤ 2 := by
  have hsplit : (~~~value &&& gpio.outputBits) ||| (value &&& gpio.outputBits) = gpio.outputBits := by
    apply BitVec.eq_of_getLsbD_eq
    intro l hl
    simp only [BitVec.getLsbD_or, BitVec.getLsbD_and, BitVec.getLsbD_not, hl, decide_true, Bool.true_and]
    cases value.getLsbD l <;> simp
  have hone : ∀ m : BitVec 32, (setBits m).length ≤ 1 ∧ (clearBits m).length ≤ 1 ∧
      (m ≠ 0#32 → (setBits m).length = 1 ∧ (clearBits m).length = 1) := fun m => by
    unfold setBits clearBits
    split <;> simp_all
  rw [write, writeMaskedBits, List.length_append]
  obtain ⟨-, hclear, hclear'⟩ := hone (~~~value &&& gpio.outputBits)
  obtain ⟨hset, -, hset'⟩ := hone (value &&& gpio.outputBits)
  refine ⟨?_, by omega⟩
  by_cases h0 : ~~~value &&& gpio.outputBits = 0#32
  · have h1 : value &&& gpio.outputBits ≠ 0#32 := fun h1 => hout (by rw [← hsplit, h0, h1]; rfl)
    have := (hset' h1).1
    omega
  · have := (hclear' h0).2
    omega

end Gpio

namespace DirectMultiSPI

section Word

variable {s : DirectMultiSPI}

theorem length_writes (hout : s.gpio.outputBits ≠ 0#32) (value : BitVec 32) :
    s.writeRepeat ≤ (s.writes value).length ∧ (s.writes value).length ≤ 2 * s.writeRepeat := by
  obtain ⟨hlow, hhigh⟩ := Gpio.length_write hout value
  rw [writes, List.length_flatten, List.map_replicate, List.sum_replicate_nat]
  exact ⟨Nat.le_mul_of_pos_right _ hlow, by rw [Nat.mul_comm]; exact Nat.mul_le_mul_right _ hhigh⟩

/-- The repetitions of a write move nothing. -/
theorem idle_replicate {value pins : BitVec 32}
    (h : ∀ l < 32, s.gpio.outputBits.getLsbD l = true → pins.getLsbD l = value.getLsbD l) (r : Nat) :
    Idle pins (List.replicate r (s.gpio.write value)).flatten := by
  intro x hx
  obtain ⟨ws, hws, hx⟩ := List.mem_flatten.1 hx
  rw [List.eq_of_mem_replicate hws] at hx
  exact Gpio.idle_write h x hx

theorem ne_zero_of_getLsbD {x : BitVec 32} {l : Nat} (h : x.getLsbD l = true) : x ≠ 0#32 := by
  rintro rfl
  simp at h

/-- A word without the clock is clocked out with the pins still around the edge. -/
theorem settled_sendWord (hc : IsPin s.clockGpio) (hout : s.gpio.outputBits.getLsbD s.clockGpio.toNat = true)
    (hr : 1 ≤ s.writeRepeat) {d : BitVec 32} (hd : d.getLsbD s.clockGpio.toNat = false) (pins : BitVec 32) :
    Settled s.clockGpio.toNat (s.writeRepeat - 1) pins (s.sendWord d) := by
  have hclk := getLsbD_shl1_toNat hc
  obtain ⟨r, hr⟩ : ∃ r, s.writeRepeat = r + 1 := ⟨s.writeRepeat - 1, by omega⟩
  have hlen : ∀ value, r ≤ (List.replicate r (s.gpio.write value)).flatten.length := fun value =>
    (length_writes (s := { s with writeRepeat := r }) (ne_zero_of_getLsbD hout) value).1
  -- the data pins after the first write of the word
  have hdata : ∀ l < 32, s.gpio.outputBits.getLsbD l = true →
      (levels pins (s.gpio.write d)).getLsbD l = d.getLsbD l := fun l hl ho => by
    rw [Gpio.getLsbD_levels_write _ _ _ hl, if_pos ho]
  generalize hp : levels pins (s.gpio.write d) = p at hdata
  have hset : (d ||| shl1 s.clockGpio) &&& s.gpio.outputBits ≠ 0#32 :=
    ne_zero_of_getLsbD (l := s.clockGpio.toNat) (by rw [BitVec.getLsbD_and, BitVec.getLsbD_or, hclk, hout]; simp)
  have hsplit : s.sendWord d = s.gpio.write d ++ (((List.replicate r (s.gpio.write d)).flatten ++
      Gpio.clearBits (~~~(d ||| shl1 s.clockGpio) &&& s.gpio.outputBits)) ++
        .raise ((d ||| shl1 s.clockGpio) &&& s.gpio.outputBits) ::
          (List.replicate r (s.gpio.write (d ||| shl1 s.clockGpio))).flatten) := by
    have hwrite : s.gpio.write (d ||| shl1 s.clockGpio) =
        Gpio.clearBits (~~~(d ||| shl1 s.clockGpio) &&& s.gpio.outputBits) ++
          [.raise ((d ||| shl1 s.clockGpio) &&& s.gpio.outputBits)] := by
      rw [Gpio.write, Gpio.writeMaskedBits, Gpio.setBits, if_neg hset]
    rw [sendWord, writes, writes, hr, List.replicate_succ, List.replicate_succ, List.flatten_cons, List.flatten_cons]
    conv_lhs => rw [hwrite]
    simp only [hwrite, List.append_assoc, List.singleton_append]
  rw [hsplit, hr, Nat.add_sub_cancel]
  refine (Waveform.settled_of_quiet fun m hm => Gpio.raise_write hd hm).append ?_
  rw [hp]
  refine Waveform.settled_edge (fun x hx => ?_) ?_ (idle_replicate (fun l hl ho => ?_) r) (hlen _)
  · rcases List.mem_append.1 hx with hx | hx
    · exact idle_replicate hdata r x hx
    · -- the pins to clear are low already
      rw [Gpio.mem_clearBits hx]
      apply BitVec.eq_of_getLsbD_eq
      intro l hl
      have hpin := hdata l hl
      simp only [RegWrite.apply, BitVec.getLsbD_and, BitVec.getLsbD_not, BitVec.getLsbD_or, hl, decide_true,
        Bool.true_and]
      cases ho : s.gpio.outputBits.getLsbD l <;> cases hv : d.getLsbD l <;> simp_all
  · rw [List.length_append]
    exact (hlen d).trans (Nat.le_add_right _ _)
  · have hpin := hdata l hl ho
    simp only [RegWrite.apply, BitVec.getLsbD_or, BitVec.getLsbD_and, ho, hpin, Bool.and_true]
    cases d.getLsbD l <;> simp

/-- How long a sequence of words takes. -/
theorem length_sendWords (hout : s.gpio.outputBits ≠ 0#32) (words : List (BitVec 32)) :
    2 * s.writeRepeat * words.length ≤ (words.flatMap s.sendWord).length ∧
      (words.flatMap s.sendWord).length ≤ 4 * s.writeRepeat * words.length := by
  induction words with
  | nil => simp
  | cons d words ih =>
    obtain ⟨hlow, hlow'⟩ := length_writes hout d
    obtain ⟨hhigh, hhigh'⟩ := length_writes hout (d ||| shl1 s.clockGpio)
    rw [List.flatMap_cons, List.length_append, sendWord, List.length_append, List.length_cons, Nat.mul_succ,
      Nat.mul_succ]
    omega

end Word

/-- In every send of an accepted history that does not enlarge a buffer, all pins keep their levels for
`write_repeat_ - 1` register writes before each rising edge of the clock and as many after it.  Each bit takes between
two and four times `write_repeat_` register writes, and at the end one write lowers all outputs. -/
theorem settled_of_run {clk : Int} (hc : IsPin clk) {port : Nat → BitVec 32} {repeats : Int}
    {fresh : Nat → Nat → BitVec 32} {s t : DirectMultiSPI} (hs : create port repeats clk = .ok s) {h : List Call}
    (hp : PinsOnly h) (hk : ClockFree clk h) (hone : GrowsOnce h) (ht : run (step fresh) s h = .ok t) :
    ∃ ws, t.sendBuffers = .ok ws ∧ t.writeRepeat = (max 2 repeats).toNat ∧
      (∀ pins, Settled clk.toNat (t.writeRepeat - 1) pins ws) ∧
      2 * t.writeRepeat * (8 * (streams h).size) + 1 ≤ ws.length ∧
        ws.length ≤ 4 * t.writeRepeat * (8 * (streams h).size) + 1 := by
  have hconf := configured_of_run hs ht
  have hrepeat : t.writeRepeat = (max 2 repeats).toNat := (writeRepeat_of_run ht).trans (writeRepeat_create hs)
  obtain ⟨hout, hlen, hlow⟩ := words_of_run hc hs hp hk hone ht
  obtain rfl := hconf.clock
  have hne : t.gpio.outputBits ≠ 0#32 := ne_zero_of_getLsbD hout
  refine ⟨_, sendBuffers_ok hlen, hrepeat, fun pins => ?_, ?_⟩
  · refine (Waveform.settled_flatMap (fun d hd => settled_sendWord hc hout (by omega) (hlow d hd)) pins).append ?_
    exact Waveform.settled_of_quiet fun m hm => Gpio.raise_write (by simp) hm
  · obtain ⟨hmin, hmax⟩ := length_sendWords hne t.words
    -- the last write has nothing to raise
    have hlast : (t.gpio.write 0#32).length = 1 := by
      have hmask : ~~~0#32 &&& t.gpio.outputBits = t.gpio.outputBits := by
        rw [BitVec.not_zero, BitVec.allOnes_and]
      rw [Gpio.write, Gpio.writeMaskedBits, hmask, BitVec.zero_and, Gpio.clearBits, if_neg hne]
      rfl
    rw [show t.words.length = 8 * (streams h).size from hconf.length] at hmin hmax
    rw [List.length_append, hlast]
    exact ⟨Nat.succ_le_succ hmin, Nat.succ_le_succ hmax⟩

/-- A byte on each of two pins, with eight repetitions. -/
theorem settled_of_run_two_bytes :
    let h : List Call := [.registerDataGpio 18 1, .setBufferedByte 18 0 0xA5#8, .registerDataGpio 23 1,
      .setBufferedByte 23 0 0x3C#8]
    ∃ s t ws, create (fun _ => 0#32) 8 27 = .ok s ∧ run (step fun _ _ => 0xFFFFFFFF#32) s h = .ok t ∧
      t.sendBuffers = .ok ws ∧ (∀ pins, Settled 27 7 pins ws) ∧ 129 ≤ ws.length ∧ ws.length ≤ 257 := by
  intro h
  obtain ⟨s, hs⟩ := create_ok (fun _ => 0#32) 8 (show Gpio.accepts 27 = true by decide)
  obtain ⟨t, ht, -⟩ := run_ok (fun _ _ => 0xFFFFFFFF#32) hs (show InRange h by decide) (by decide)
  obtain ⟨ws, hws, hrepeat, hsettled, hmin, hmax⟩ := settled_of_run (by decide) hs (show PinsOnly h by decide)
    (show ClockFree 27 h by decide) (by decide) ht
  have hrepeat : t.writeRepeat = 8 := hrepeat
  rw [hrepeat] at hsettled hmin hmax
  exact ⟨s, t, ws, hs, ht, hws, hsettled, hmin, hmax⟩

end DirectMultiSPI

end Spixels
