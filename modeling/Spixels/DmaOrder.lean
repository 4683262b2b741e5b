import Spixels.DmaWrap

/-!
# The order of independent streams

Strips set up their streams independently of each other: each registers its own pin and then sets bytes of it.
However the calls for the different pins are interleaved, the streams asked for are the same
(`Interleaves.streams_eq`), so the shadow buffer is the same rendering (`shadow_order_independent`).  That is as long
as the numbers of operations fit `int`: beyond, the buffer can get shorter with a longer stream, and only some orders
go through.
-/

namespace Spixels

open Run (run bind_eq_ok map_eq_ok)

/-- What one strip does: it registers its pin and then sets bytes within the length it asked for. -/
def IsStream (g : Int) (cs : List Call) : Prop :=
  ∃ (n : Nat) (writes : List (Nat × BitVec 8)),
    cs = .registerDataGpio g n :: writes.map (fun w => .setBufferedByte g w.1 w.2) ∧ ∀ w ∈ writes, w.1 < n

/-- The history consists of the calls of the family, those for each pin in their own order. -/
structure Interleaves (family : Int → List Call) (h : List Call) : Prop where
  unsent : Call.sendBuffers ∉ h
  own : ∀ g, callsFor g h = family g

namespace Interleaves

variable {family : Int → List Call} {h h₁ h₂ : List Call}

theorem mem_iff (hi : Interleaves family h) {c : Call} {g : Int} (hc : c.gpio? = some g) :
    c ∈ h ↔ c ∈ family g := by
  rw [← hi.own g, mem_callsFor hc]

private theorem size_le (hi₁ : Interleaves family h₁) (hi₂ : Interleaves family h₂) :
    (streams h₁).size ≤ (streams h₂).size := by
  rcases size_streams_mem h₁ with h0 | ⟨g, hg⟩
  · omega
  · exact le_size_streams ((hi₂.mem_iff rfl).2 ((hi₁.mem_iff rfl).1 hg))

/-- Two interleavings ask for the same streams. -/
theorem streams_eq (hi₁ : Interleaves family h₁) (hi₂ : Interleaves family h₂) : streams h₁ = streams h₂ := by
  have hsize := le_antisymm (size_le hi₁ hi₂) (size_le hi₂ hi₁)
  have hbyte : (streams h₁).byte = (streams h₂).byte := by
    funext g p
    rw [← byte_callsFor g h₁, ← byte_callsFor g h₂, hi₁.own, hi₂.own]
  cases hs₁ : streams h₁
  cases hs₂ : streams h₂
  rw [hs₁, hs₂] at hsize hbyte
  exact congrArg₂ Streams.mk hsize hbyte

/-- A byte comes after the registration of its pin, so it lies within the common length. -/
theorem inRange (hi : Interleaves family h) (hfam : ∀ g, family g = [] ∨ IsPin g ∧ IsStream g (family g)) :
    InRange h := by
  intro pre c hpre
  cases c with
  | registerDataGpio | sendBuffers => trivial
  | setBufferedByte g p b =>
    obtain ⟨post, hpost⟩ := hpre
    have hown : callsFor g pre ++ (Call.setBufferedByte g p b :: callsFor g post) = family g := by
      rw [← hi.own g, ← hpost, callsFor_append, callsFor_append, List.append_assoc]
      simp [callsFor, Call.gpio?]
    rcases hfam g with hnil | ⟨-, n, writes, hcs, hw⟩
    · rw [hnil] at hown; simp at hown
    · rw [hcs] at hown
      -- the first call for the pin is its registration, and it is not this one
      cases hpre : callsFor g pre with
      | nil => rw [hpre] at hown; simp at hown
      | cons d ds =>
        rw [hpre, List.cons_append, List.cons.injEq] at hown
        have hreg : Call.registerDataGpio g n ∈ pre := by
          rw [← mem_callsFor (g := g) rfl, hpre, ← hown.1]
          exact List.mem_cons_self
        have hset : Call.setBufferedByte g p b ∈ writes.map fun w => Call.setBufferedByte g w.1 w.2 := by
          rw [← hown.2]; simp
        obtain ⟨w, hwm, he⟩ := List.mem_map.1 hset
        cases he
        exact lt_of_lt_of_le (hw w hwm) (le_size_streams hreg)

theorem pinsOnly (hi : Interleaves family h) (hfam : ∀ g, family g = [] ∨ IsPin g ∧ IsStream g (family g)) :
    PinsOnly h := by
  intro g p b hm
  rw [hi.mem_iff rfl] at hm
  rcases hfam g with hnil | ⟨hg, -⟩
  · rw [hnil] at hm; cases hm
  · exact hg

/-- The operations for the longest stream fit if those for each stream do. -/
theorem fits (hi : Interleaves family h)
    (hfit : ∀ g n, Call.registerDataGpio g n ∈ family g → 16 * n + 1 < 2 ^ 31) :
    DMAMultiSPI.gpioOps (streams h).size < 2 ^ 31 := by
  rcases size_streams_mem h with h0 | ⟨g, hg⟩
  · rw [h0]; decide
  · exact hfit g _ ((hi.mem_iff rfl).1 hg)

end Interleaves

namespace DMAMultiSPI

/-- Any two interleavings of the same streams go through and end in the same buffer, whatever the fresh storage of the
two runs holds. -/
theorem shadow_order_independent {clk : Int} (hc : IsPin clk) {port₁ port₂ : Nat → BitVec 32}
    {garbage₁ garbage₂ start₁ start₂ : Nat} (env₁ env₂ : Env) {s₁ s₂ : DMAMultiSPI}
    (hs₁ : create port₁ clk garbage₁ start₁ = .ok s₁) (hs₂ : create port₂ clk garbage₂ start₂ = .ok s₂)
    {family : Int → List Call} (hfam : ∀ g, family g = [] ∨ IsPin g ∧ IsStream g (family g))
    (hfit : ∀ g n, Call.registerDataGpio g n ∈ family g → 16 * n + 1 < 2 ^ 31) {h₁ h₂ : List Call}
    (hi₁ : Interleaves family h₁) (hi₂ : Interleaves family h₂) :
    ∃ t₁ t₂, run (stepWrapped env₁) s₁ h₁ = .ok t₁ ∧ run (stepWrapped env₂) s₂ h₂ = .ok t₂ ∧
      t₁.serialByteSize = t₂.serialByteSize ∧ t₁.gpioShadow = t₂.gpioShadow := by
  have hσ := hi₁.streams_eq hi₂
  obtain ⟨t₁, ht₁, hr₁⟩ := run_registration env₁ hc hs₁ hi₁.unsent (hi₁.pinsOnly hfam) (hi₁.inRange hfam)
    (hi₁.fits hfit)
  obtain ⟨t₂, ht₂, hr₂⟩ := run_registration env₂ hc hs₂ hi₂.unsent (hi₂.pinsOnly hfam) (hi₂.inRange hfam)
    (hi₂.fits hfit)
  refine ⟨t₁, t₂, ?_, ?_, by rw [hr₁.size, hr₂.size, hσ], by rw [hr₁.shadow, hr₂.shadow, hσ]⟩
  · rw [run_stepWrapped (by simp [ht₁]), ht₁]
  · rw [run_stepWrapped (by simp [ht₂]), ht₂]

/-- A short and a long stream, set up one after the other in either order. -/
theorem shadow_order_independent_two_streams :
    ∃ s₁ s₂ t₁ t₂, create (fun _ => 0#32) 27 0 0 = .ok s₁ ∧ create (fun _ => 0#32) 27 7 7 = .ok s₂ ∧
      run (stepWrapped (Env.replying 0xC0001000#32)) s₁ [.registerDataGpio 18 1, .setBufferedByte 18 0 0xA5#8,
        .registerDataGpio 23 2, .setBufferedByte 23 1 0x3C#8] = .ok t₁ ∧
      run (stepWrapped (Env.replying 0xC0001000#32)) s₂ [.registerDataGpio 23 2, .registerDataGpio 18 1,
        .setBufferedByte 23 1 0x3C#8, .setBufferedByte 18 0 0xA5#8] = .ok t₂ ∧
      t₁.serialByteSize = t₂.serialByteSize ∧ t₁.gpioShadow = t₂.gpioShadow := by
  obtain ⟨s₁, hs₁⟩ := create_ok (fun _ => 0#32) 0 0 (show Gpio.accepts 27 = true by decide)
  obtain ⟨s₂, hs₂⟩ := create_ok (fun _ => 0#32) 7 7 (show Gpio.accepts 27 = true by decide)
  have hfam : ∀ g, callsFor g [.registerDataGpio 18 1, .setBufferedByte 18 0 0xA5#8, .registerDataGpio 23 2,
      .setBufferedByte 23 1 0x3C#8] = [] ∨ IsPin g ∧ IsStream g (callsFor g [.registerDataGpio 18 1,
        .setBufferedByte 18 0 0xA5#8, .registerDataGpio 23 2, .setBufferedByte 23 1 0x3C#8]) := by
    intro g
    by_cases h18 : g = 18
    · subst h18; exact .inr ⟨by decide, 1, [(0, 0xA5#8)], by decide, by decide⟩
    · by_cases h23 : g = 23
      · subst h23; exact .inr ⟨by decide, 2, [(1, 0x3C#8)], by decide, by decide⟩
      · left; simp [callsFor, Call.gpio?, Ne.symm h18, Ne.symm h23]
  have hi₂ : ∀ g, callsFor g [.registerDataGpio 23 2, .registerDataGpio 18 1, .setBufferedByte 23 1 0x3C#8,
      .setBufferedByte 18 0 0xA5#8] = callsFor g [.registerDataGpio 18 1, .setBufferedByte 18 0 0xA5#8,
        .registerDataGpio 23 2, .setBufferedByte 23 1 0x3C#8] := by
    intro g
    by_cases h18 : g = 18
    · subst h18; decide
    · by_cases h23 : g = 23
      · subst h23; decide
      · simp [callsFor, Call.gpio?, Ne.symm h18, Ne.symm h23]
  have hfit : ∀ g n, Call.registerDataGpio g n ∈ callsFor g [.registerDataGpio 18 1, .setBufferedByte 18 0 0xA5#8,
      .registerDataGpio 23 2, .setBufferedByte 23 1 0x3C#8] → 16 * n + 1 < 2 ^ 31 := by
    intro g n hmem
    have hmem' := (mem_callsFor rfl).1 hmem
    simp only [List.mem_cons, Call.registerDataGpio.injEq, reduceCtorEq, List.not_mem_nil, or_false, false_or]
      at hmem'
    omega
  obtain ⟨t₁, t₂, ht₁, ht₂, hsize, hshadow⟩ := shadow_order_independent (by decide) (Env.replying 0xC0001000#32)
    (Env.replying 0xC0001000#32) hs₁ hs₂ hfam hfit ⟨by decide, fun _ => rfl⟩ ⟨by decide, hi₂⟩
  exact ⟨s₁, s₂, t₁, t₂, hs₁, hs₂, ht₁, ht₂, hsize, hshadow⟩

/-- Two streams without a byte.  For `2 ^ 28` bytes the number of operations wraps around to one, so the longer stream
shrinks the buffer: set up first, it is all right, and after the shorter one the call clears nearly `2 ^ 64` bytes. -/
theorem not_shadow_order_independent :
    let env := Env.replying 0xC0001000#32
    let long := Call.registerDataGpio 18 (2 ^ 28)
    let short := Call.registerDataGpio 23 4
    let family : Int → List Call := fun g => callsFor g [long, short]
    (∀ g, family g = [] ∨ IsPin g ∧ g ≠ 27 ∧ IsStream g (family g)) ∧
      Interleaves family [long, short] ∧ Interleaves family [short, long] ∧
      ∃ s t, create (fun _ => 0#32) 27 0 0 = .ok s ∧ run (stepWrapped env) s [long, short] = .ok t ∧
        run (stepWrapped env) s [short, long] = .error .outOfBounds := by
  intro env long short family
  refine ⟨fun g => ?_, ⟨by decide, fun _ => rfl⟩, ⟨by decide, fun g => ?_⟩, _, _, rfl, rfl, rfl⟩
  · by_cases h18 : g = 18
    · subst h18; exact .inr ⟨by decide, by decide, 2 ^ 28, [], by decide, by simp⟩
    · by_cases h23 : g = 23
      · subst h23; exact .inr ⟨by decide, by decide, 4, [], by decide, by simp⟩
      · left; simp [family, long, short, callsFor, Call.gpio?, Ne.symm h18, Ne.symm h23]
  · by_cases h18 : g = 18
    · subst h18; decide
    · by_cases h23 : g = 23
      · subst h23; decide
      · simp [family, long, short, callsFor, Call.gpio?, Ne.symm h18, Ne.symm h23]

end DMAMultiSPI

end Spixels
