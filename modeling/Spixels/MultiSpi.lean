import Spixels.Gpio
import Spixels.Run

/-!
# Parallel SPI streams (`multi-spi.h`)

The calls a user makes on a `MultiSPI`, and what they ask for: `Streams` holds the common stream length and, for
every pin and position, the byte most recently set.  It does not depend on a backend; the backends are compared
with it.
-/

namespace Spixels

namespace MultiSPI

/-! ### The pins of the breakout board -/

def spiClock : Int := 27
def spiP1 : Int := 18
def spiP2 : Int := 23
def spiP3 : Int := 22
def spiP4 : Int := 5
def spiP5 : Int := 12
def spiP6 : Int := 16
def spiP7 : Int := 19
def spiP8 : Int := 21
def spiP9 : Int := 4
def spiP10 : Int := 17
def spiP11 : Int := 24
def spiP12 : Int := 25
def spiP13 : Int := 6
def spiP14 : Int := 13
def spiP15 : Int := 26
def spiP16 : Int := 20

def spiPinForConnector : Int → Int
  | 1 => spiP1
  | 2 => spiP2
  | 3 => spiP3
  | 4 => spiP4
  | 5 => spiP5
  | 6 => spiP6
  | 7 => spiP7
  | 8 => spiP8
  | 9 => spiP9
  | 10 => spiP10
  | 11 => spiP11
  | 12 => spiP12
  | 13 => spiP13
  | 14 => spiP14
  | 15 => spiP15
  | 16 => spiP16
  | _ => -1

end MultiSPI

/-- A call on a `MultiSPI`. -/
inductive Call
  | registerDataGpio (gpio : Int) (serialByteSize : Nat)
  | setBufferedByte (dataGpio : Int) (pos : Nat) (data : BitVec 8)
  | sendBuffers
deriving DecidableEq, Repr

/-- `P` holds of the arguments, if the call sets a byte. -/
def Call.OnSet (P : Int → Nat → BitVec 8 → Prop) : Call → Prop
  | .setBufferedByte dataGpio pos data => P dataGpio pos data
  | .registerDataGpio _ _ => True
  | .sendBuffers => True

instance (P : Int → Nat → BitVec 8 → Prop) [∀ g p b, Decidable (P g p b)] : ∀ c : Call, Decidable (c.OnSet P)
  | .setBufferedByte g p b => inferInstanceAs (Decidable (P g p b))
  | .registerDataGpio _ _ => inferInstanceAs (Decidable True)
  | .sendBuffers => inferInstanceAs (Decidable True)

/-- `P` holds of the arguments, if the call registers a stream. -/
def Call.OnRegister (P : Int → Nat → Prop) : Call → Prop
  | .registerDataGpio gpio n => P gpio n
  | .setBufferedByte _ _ _ => True
  | .sendBuffers => True

instance (P : Int → Nat → Prop) [∀ g n, Decidable (P g n)] : ∀ c : Call, Decidable (c.OnRegister P)
  | .registerDataGpio g n => inferInstanceAs (Decidable (P g n))
  | .setBufferedByte _ _ _ => inferInstanceAs (Decidable True)
  | .sendBuffers => inferInstanceAs (Decidable True)

/-- What has been asked for: `size` bytes on every stream, of which `byte g p` have been given. -/
structure Streams where
  size : Nat
  byte : Int → Nat → Option (BitVec 8)

namespace Streams

def empty : Streams := { size := 0, byte := fun _ _ => none }

def register (σ : Streams) (n : Nat) : Streams := { σ with size := max σ.size n }

def set (σ : Streams) (g : Int) (p : Nat) (b : BitVec 8) : Streams :=
  { σ with byte := fun g' p' => if g' = g ∧ p' = p then some b else σ.byte g' p' }

def step (σ : Streams) : Call → Streams
  | .registerDataGpio _ n => σ.register n
  | .setBufferedByte g p b => σ.set g p b
  | .sendBuffers => σ

@[simp] theorem size_register (σ : Streams) (n : Nat) : (σ.register n).size = max σ.size n := rfl

@[simp] theorem byte_register (σ : Streams) (n : Nat) : (σ.register n).byte = σ.byte := rfl

@[simp] theorem size_set (σ : Streams) (g : Int) (p : Nat) (b : BitVec 8) : (σ.set g p b).size = σ.size := rfl

theorem byte_set (σ : Streams) (g : Int) (p : Nat) (b : BitVec 8) (g' : Int) (p' : Nat) :
    (σ.set g p b).byte g' p' = if g' = g ∧ p' = p then some b else σ.byte g' p' := rfl

/-- No byte lies beyond the common length. -/
def Bounded (σ : Streams) : Prop := ∀ g p b, σ.byte g p = some b → p < σ.size

theorem Bounded.byte_eq_none {σ : Streams} (h : σ.Bounded) (g : Int) {p : Nat} (hp : σ.size ≤ p) :
    σ.byte g p = none := by
  cases hb : σ.byte g p with
  | none => rfl
  | some b => have := h g p b hb; omega

theorem Bounded.register {σ : Streams} (h : σ.Bounded) (n : Nat) : (σ.register n).Bounded := by
  intro g p b hb
  have := h g p b hb
  simp only [size_register]; omega

theorem Bounded.set {σ : Streams} (h : σ.Bounded) (g : Int) {p : Nat} (hp : p < σ.size) (b : BitVec 8) :
    (σ.set g p b).Bounded := by
  intro g' p' b' hb
  rw [byte_set] at hb
  split at hb
  · rename_i e; rw [e.2]; exact hp
  · exact h g' p' b' hb

end Streams

/-- The streams after a history of calls. -/
def streams (h : List Call) : Streams := h.foldl Streams.step Streams.empty

@[simp] theorem streams_nil : streams [] = Streams.empty := rfl

theorem streams_snoc (h : List Call) (c : Call) : streams (h ++ [c]) = (streams h).step c := by
  simp [streams]

/-- The calls set bytes of pins only. -/
def PinsOnly (h : List Call) : Prop := ∀ g p b, Call.setBufferedByte g p b ∈ h → IsPin g

/-- No byte is set for the pin `clk`. -/
def ClockFree (clk : Int) (h : List Call) : Prop := ∀ g p b, Call.setBufferedByte g p b ∈ h → g ≠ clk

theorem PinsOnly.of_append {h h' : List Call} (hp : PinsOnly (h ++ h')) : PinsOnly h :=
  fun g p b hm => hp g p b (List.mem_append_left _ hm)

theorem ClockFree.of_append {clk : Int} {h h' : List Call} (hc : ClockFree clk (h ++ h')) : ClockFree clk h :=
  fun g p b hm => hc g p b (List.mem_append_left _ hm)

/-- Every byte is set within the common length of its time. -/
def InRange (h : List Call) : Prop :=
  Run.Each (fun pre c => c.OnSet fun _ p _ => p < (streams pre).size) h

section Decidable

variable {h : List Call}

private theorem forall_onSet {P : Int → Nat → BitVec 8 → Prop} :
    (∀ c ∈ h, c.OnSet P) ↔ ∀ g p b, Call.setBufferedByte g p b ∈ h → P g p b := by
  refine ⟨fun hP g p b hm => hP _ hm, fun hP c hm => ?_⟩
  cases c with
  | setBufferedByte g p b => exact hP g p b hm
  | registerDataGpio | sendBuffers => trivial

instance : Decidable (PinsOnly h) := decidable_of_iff _ (forall_onSet (P := fun g _ _ => IsPin g))

instance {clk : Int} : Decidable (ClockFree clk h) := decidable_of_iff _ (forall_onSet (P := fun g _ _ => g ≠ clk))

instance : Decidable (InRange h) :=
  inferInstanceAs (Decidable (Run.Each (fun pre c => c.OnSet fun _ p _ => p < (streams pre).size) h))

end Decidable

/-- The common length is the longest length asked for. -/
theorem le_size_streams {h : List Call} {g : Int} {n : Nat} (hm : Call.registerDataGpio g n ∈ h) :
    n ≤ (streams h).size := by
  induction h using List.reverseRecOn with
  | nil => cases hm
  | append_singleton h c ih =>
    rw [streams_snoc]
    rcases List.mem_append.1 hm with hm | hm
    · have := ih hm
      cases c <;> simp only [Streams.step, Streams.size_register, Streams.size_set] <;> omega
    · rw [← List.mem_singleton.1 hm]; simp [Streams.step]

theorem size_streams_mem (h : List Call) :
    (streams h).size = 0 ∨ ∃ g, Call.registerDataGpio g (streams h).size ∈ h := by
  induction h using List.reverseRecOn with
  | nil => exact .inl rfl
  | append_singleton h c ih =>
    rw [streams_snoc]
    have keep : (streams h).size = 0 ∨ ∃ g, Call.registerDataGpio g (streams h).size ∈ h ++ [c] :=
      ih.imp_right fun ⟨g, hg⟩ => ⟨g, List.mem_append_left _ hg⟩
    cases c with
    | registerDataGpio g n =>
      simp only [Streams.step, Streams.size_register]
      rcases Nat.le_total n (streams h).size with hn | hn
      · rw [Nat.max_eq_left hn]; exact keep
      · rw [Nat.max_eq_right hn]; exact .inr ⟨g, by simp⟩
    | setBufferedByte g p b => exact keep
    | sendBuffers => exact keep

/-- A byte has been set by a call. -/
theorem mem_of_byte_streams {h : List Call} {g : Int} {p : Nat} {b : BitVec 8}
    (hb : (streams h).byte g p = some b) :
    Call.setBufferedByte g p b ∈ h := by
  induction h using List.reverseRecOn with
  | nil => cases hb
  | append_singleton h c ih =>
    rw [streams_snoc] at hb
    cases c with
    | setBufferedByte g' p' b' =>
      rw [Streams.step, Streams.byte_set] at hb
      split at hb
      · rename_i he
        cases hb
        simp [he]
      · exact List.mem_append_left _ (ih hb)
    | registerDataGpio g' n => exact List.mem_append_left _ (ih hb)
    | sendBuffers => exact List.mem_append_left _ (ih hb)

/-- A byte is there exactly if it has been set. -/
theorem byte_streams_ne_none {h : List Call} {g : Int} {p : Nat} :
    (streams h).byte g p ≠ none ↔ ∃ b, Call.setBufferedByte g p b ∈ h := by
  constructor
  · intro hne
    obtain ⟨b, hb⟩ := Option.ne_none_iff_exists'.1 hne
    exact ⟨b, mem_of_byte_streams hb⟩
  · rintro ⟨b, hm⟩
    induction h using List.reverseRecOn with
    | nil => cases hm
    | append_singleton h c ih =>
      rw [streams_snoc]
      rcases List.mem_append.1 hm with hold | hm
      · have hne := ih hold
        cases c with
        | setBufferedByte g' p' b' =>
          rw [Streams.step, Streams.byte_set]
          split
          · exact Option.some_ne_none b'
          · exact hne
        | registerDataGpio | sendBuffers => exact hne
      · rw [← List.mem_singleton.1 hm, Streams.step, Streams.byte_set, if_pos ⟨rfl, rfl⟩]
        exact Option.some_ne_none b

theorem ClockFree.byte_eq_none {clk : Int} {h : List Call} (hc : ClockFree clk h) (p : Nat) :
    (streams h).byte clk p = none := by
  by_contra hne
  obtain ⟨b, hb⟩ := byte_streams_ne_none.1 hne
  exact hc clk p b hb rfl

/-! ### The assertion on the position -/

/-- One call, with the assertion that every backend makes: bytes are only set within the common length. -/
def Streams.call (σ : Streams) : Call → Except Fault Streams
  | .registerDataGpio _ n => .ok (σ.register n)
  | .setBufferedByte g p b => if p < σ.size then .ok (σ.set g p b) else .error .assertion
  | .sendBuffers => .ok σ

/-- The streams after bytes of one pin have been set in turn. -/
def Streams.setAll (σ : Streams) (g : Int) (ws : List (Nat × BitVec 8)) : Streams :=
  ws.foldl (fun σ w => σ.set g w.1 w.2) σ

section SetAll

variable {σ : Streams} {g : Int} {ws : List (Nat × BitVec 8)}

theorem run_sets (σ : Streams) (g : Int) (ws : List (Nat × BitVec 8)) :
    Run.run Streams.call σ (ws.map fun w => .setBufferedByte g w.1 w.2) =
      if ∀ w ∈ ws, w.1 < σ.size then .ok (σ.setAll g ws) else .error .assertion := by
  induction ws generalizing σ with
  | nil => rfl
  | cons w ws ih =>
    rw [List.map_cons, Run.run_cons, Streams.call]
    by_cases hw : w.1 < σ.size
    · rw [if_pos hw, Except.bind, ih, Streams.size_set]
      simp only [List.forall_mem_cons, hw, true_and]
      rfl
    · rw [if_neg hw, if_neg (by simp [hw])]; rfl

/-- A backend that records the bytes within the common length and stops at the others does so in a run, too. -/
theorem run_sets_sim {S : Type*} {step : S → Call → Except Fault S} {R : List Call → S → Prop}
    (hset : ∀ h s p b, R h s → p < (streams h).size →
      ∃ t, step s (.setBufferedByte g p b) = .ok t ∧ R (h ++ [.setBufferedByte g p b]) t)
    (hstop : ∀ h s p b, R h s → ¬p < (streams h).size → step s (.setBufferedByte g p b) = .error .assertion)
    {h : List Call} {s : S} (hr : R h s) (ws : List (Nat × BitVec 8)) :
    match Run.run Streams.call (streams h) (ws.map fun w => .setBufferedByte g w.1 w.2) with
    | .ok σ => σ = streams (h ++ ws.map fun w => .setBufferedByte g w.1 w.2) ∧
        ∃ t, Run.run step s (ws.map fun w => .setBufferedByte g w.1 w.2) = .ok t ∧
          R (h ++ ws.map fun w => .setBufferedByte g w.1 w.2) t
    | .error e => Run.run step s (ws.map fun w => .setBufferedByte g w.1 w.2) = .error e := by
  induction ws generalizing h s with
  | nil =>
    rw [List.map_nil, List.append_nil]
    exact ⟨rfl, s, rfl, hr⟩
  | cons w ws ih =>
    rw [List.map_cons, Run.run_cons, Run.run_cons, Streams.call]
    by_cases hw : w.1 < (streams h).size
    · obtain ⟨t, ht, hrt⟩ := hset h s w.1 w.2 hr hw
      have hrun := ih hrt
      rw [streams_snoc, List.append_assoc] at hrun
      rw [if_pos hw, ht]
      exact hrun
    · rw [if_neg hw, hstop h s w.1 w.2 hr hw]
      rfl

theorem byte_setAll_of_notMem {p : Nat} (hp : ∀ w ∈ ws, p ≠ w.1) : (σ.setAll g ws).byte g p = σ.byte g p := by
  induction ws generalizing σ with
  | nil => rfl
  | cons w ws ih =>
    rw [Streams.setAll, List.foldl_cons]
    refine (ih fun w' hw' => hp w' (by simp [hw'])).trans ?_
    rw [Streams.byte_set, if_neg fun he => hp w (by simp) he.2]

theorem byte_setAll_of_mem (hd : ws.Pairwise fun w w' => w.1 ≠ w'.1) {w : Nat × BitVec 8} (hw : w ∈ ws) :
    (σ.setAll g ws).byte g w.1 = some w.2 := by
  induction ws generalizing σ with
  | nil => cases hw
  | cons w' ws ih =>
    obtain ⟨hne, hd'⟩ := List.pairwise_cons.1 hd
    rcases List.mem_cons.1 hw with rfl | hw
    · rw [Streams.setAll, List.foldl_cons]
      refine (byte_setAll_of_notMem hne).trans ?_
      rw [Streams.byte_set, if_pos ⟨rfl, rfl⟩]
    · exact ih hd' hw

end SetAll

/-! ### The calls for one pin -/

/-- The data pin a call is about. -/
def Call.gpio? : Call → Option Int
  | .registerDataGpio gpio _ => some gpio
  | .setBufferedByte dataGpio _ _ => some dataGpio
  | .sendBuffers => none

/-- The calls for one pin, in their order. -/
def callsFor (g : Int) (h : List Call) : List Call := h.filter fun c => c.gpio? = some g

theorem mem_callsFor {g : Int} {h : List Call} {c : Call} (hc : c.gpio? = some g) : c ∈ callsFor g h ↔ c ∈ h := by
  simp [callsFor, hc]

theorem callsFor_append (g : Int) (h h' : List Call) : callsFor g (h ++ h') = callsFor g h ++ callsFor g h' :=
  List.filter_append ..

/-- The bytes of a pin only depend on the calls for it. -/
theorem byte_callsFor (g : Int) (h : List Call) (p : Nat) :
    (streams (callsFor g h)).byte g p = (streams h).byte g p := by
  induction h using List.reverseRecOn with
  | nil => rfl
  | append_singleton h c ih =>
    rw [callsFor_append, streams_snoc]
    by_cases hc : c.gpio? = some g
    · have hself : callsFor g [c] = [c] := by simp [callsFor, hc]
      rw [hself, streams_snoc]
      cases c with
      | setBufferedByte g' p' b' => simp only [Streams.step, Streams.byte_set, ih]
      | registerDataGpio g' n => exact ih
      | sendBuffers => exact ih
    · have hnone : callsFor g [c] = [] := by simp [callsFor, hc]
      rw [hnone, List.append_nil, ih]
      cases c with
      | setBufferedByte g' p' b' =>
        have hne : ¬(g = g' ∧ p = p') := fun he => hc (by rw [he.1]; rfl)
        simp only [Streams.step, Streams.byte_set, if_neg hne]
      | registerDataGpio g' n => rfl
      | sendBuffers => rfl

/-! ### Lanes -/

/-- The call with its data pin replaced by the lane that `1 << dataGpio` selects. -/
def Call.lane : Call → Call
  | .setBufferedByte g p b => .setBufferedByte (g % 32) p b
  | c => c

theorem pinsOnly_lane (h : List Call) : PinsOnly (h.map Call.lane) := by
  intro g p b hm
  obtain ⟨c, -, hc⟩ := List.mem_map.1 hm
  cases c with
  | setBufferedByte g' p' b' => cases hc; exact ⟨by omega, by omega⟩
  | registerDataGpio | sendBuffers => cases hc

theorem sendBuffers_mem_lane {h : List Call} : Call.sendBuffers ∈ h.map Call.lane ↔ Call.sendBuffers ∈ h := by
  refine ⟨fun hm => ?_, fun hm => List.mem_map.2 ⟨_, hm, rfl⟩⟩
  obtain ⟨c, hc, he⟩ := List.mem_map.1 hm
  cases c with
  | sendBuffers => exact hc
  | registerDataGpio | setBufferedByte => cases he

theorem size_streams_lane (h : List Call) : (streams (h.map Call.lane)).size = (streams h).size := by
  induction h using List.reverseRecOn with
  | nil => rfl
  | append_singleton h c ih =>
    rw [List.map_append, List.map_singleton, streams_snoc, streams_snoc]
    cases c <;> simp [Call.lane, Streams.step, ih]

theorem InRange.lane {h : List Call} (hin : InRange h) : InRange (h.map Call.lane) := by
  refine (Run.each_map Call.lane).2 fun pre c hpre => ?_
  have hc := hin pre c hpre
  cases c with
  | setBufferedByte g p b =>
    simp only [Call.lane, Call.OnSet, size_streams_lane] at hc ⊢
    exact hc
  | registerDataGpio | sendBuffers => trivial

/-! ### Output pins -/

/-- The pin of lane `l` is the clock or has been accepted by a `RegisterDataGPIO`. -/
def IsOutput (clk : Int) (h : List Call) (l : Nat) : Prop :=
  (shl1 clk).getLsbD l = true ∨
    ∃ g n, Call.registerDataGpio g n ∈ h ∧ Gpio.accepts g = true ∧ (shl1 g).getLsbD l = true

/-- The port has exactly these output pins. -/
structure Outputs (clk : Int) (h : List Call) (gpio : Gpio) : Prop where
  mapped : gpio.gpioPort.isSome
  bits : ∀ l, gpio.outputBits.getLsbD l = true ↔ IsOutput clk h l

namespace Outputs

variable {clk : Int} {h : List Call} {gpio : Gpio}

/-- After the constructor has configured the clock. -/
theorem initialised (clk : Int) (port : Nat → BitVec 32) (hc : ((Gpio.initialised port).addOutput clk).2 = true) :
    Outputs clk [] ((Gpio.initialised port).addOutput clk).1 := by
  have hp : (Gpio.initialised port).gpioPort.isSome := rfl
  rw [Gpio.addOutput_snd hp] at hc
  refine ⟨Gpio.isSome_addOutput hp clk, fun l => ?_⟩
  rw [Gpio.outputBits_addOutput hp, if_pos hc]
  simp [IsOutput, Gpio.initialised]

theorem register (ho : Outputs clk h gpio) (g : Int) (n : Nat) :
    Outputs clk (h ++ [.registerDataGpio g n]) (gpio.addOutput g).1 := by
  refine ⟨Gpio.isSome_addOutput ho.mapped g, fun l => ?_⟩
  rw [Gpio.outputBits_addOutput ho.mapped]
  have hbits := ho.bits l
  unfold IsOutput at hbits ⊢
  simp only [List.mem_append, List.mem_singleton, Call.registerDataGpio.injEq]
  split
  · rename_i ha
    rw [BitVec.getLsbD_or, Bool.or_eq_true, hbits]
    constructor
    · rintro ((hl | ⟨g', n', hm, ha', hl⟩) | hl)
      · exact .inl hl
      · exact .inr ⟨g', n', .inl hm, ha', hl⟩
      · exact .inr ⟨g, n, .inr ⟨rfl, rfl⟩, ha, hl⟩
    · rintro (hl | ⟨g', n', hm | ⟨rfl, rfl⟩, ha', hl⟩)
      · exact .inl (.inl hl)
      · exact .inl (.inr ⟨g', n', hm, ha', hl⟩)
      · exact .inr hl
  · rename_i ha
    rw [hbits]
    constructor
    · rintro (hl | ⟨g', n', hm, ha', hl⟩)
      · exact .inl hl
      · exact .inr ⟨g', n', .inl hm, ha', hl⟩
    · rintro (hl | ⟨g', n', hm | ⟨rfl, rfl⟩, ha', hl⟩)
      · exact .inl hl
      · exact .inr ⟨g', n', hm, ha', hl⟩
      · exact absurd ha' ha

/-- Other calls configure nothing. -/
theorem keep (ho : Outputs clk h gpio) {c : Call} (hc : ∀ g n, c ≠ .registerDataGpio g n) :
    Outputs clk (h ++ [c]) gpio := by
  refine ⟨ho.mapped, fun l => (ho.bits l).trans ?_⟩
  unfold IsOutput
  have hmem : ∀ g n, Call.registerDataGpio g n ∈ h ++ [c] ↔ Call.registerDataGpio g n ∈ h := by
    intro g n
    rw [List.mem_append, List.mem_singleton]
    exact or_iff_left fun e => hc g n e.symm
  simp only [hmem]

end Outputs

end Spixels
