import Spixels.DirectMultiSpi
import Spixels.DmaMultiSpi
import Spixels.GpioOutputs

/-!
# Objects on registers that they share

All mappings of the GPIO registers are of the same page, so an object finds there what the others have configured.
`withPort` puts the registers as they are behind an object.  A call depends on them in no other way than that
`AddOutput` changes the field of its pin in them (`step_withPort`), whichever of the two backends it is made on.  So
the rest of an object is what its own calls make of it: `Exchangeable.madeBy_step`.
-/

namespace Spixels

open Run (run map_eq_ok)

namespace Gpio

/-- The port with these registers behind it. -/
def withPort (gpio : Gpio) (port : Nat → BitVec 32) : Gpio := { gpio with gpioPort := some port }

/-- The registers after a call of `AddOutput`. -/
def configure (bit : Int) (port : Nat → BitVec 32) : Nat → BitVec 32 :=
  ((initialised port).addOutput bit).1.registers

theorem function_configure (bit : Int) (port : Nat → BitVec 32) (r : Nat) {f : Nat} (hf : f < 10) :
    function (configure bit port) r f =
      if accepts bit = true ∧ bit = (10 * r + f : Nat) then 1#3 else function port r f :=
  function_addOutput rfl bit r hf

theorem addOutput_withPort {gpio : Gpio} (hp : gpio.gpioPort.isSome) (port : Nat → BitVec 32) (bit : Int) :
    (gpio.withPort port).addOutput bit = ((gpio.addOutput bit).1.withPort (configure bit port),
      (gpio.addOutput bit).2) := by
  obtain ⟨own, hown⟩ := Option.isSome_iff_exists.1 hp
  simp only [addOutput, withPort, configure, initialised, hown]
  split <;> simp [registers]

end Gpio

/-- The pin that a call passes to `AddOutput`. -/
def Call.adds : Call → Option Int
  | .registerDataGpio gpio _ => some gpio
  | .setBufferedByte _ _ _ => none
  | .sendBuffers => none

/-- The registers after a call. -/
def Call.configure (c : Call) (port : Nat → BitVec 32) : Nat → BitVec 32 :=
  c.adds.elim port fun bit => Gpio.configure bit port

/-! ### Exchanging the registers -/

section Exchange

variable {α ε : Type} {withPort : α → (Nat → BitVec 32) → α} {create : (Nat → BitVec 32) → Except Fault α}
variable {step : ε → α → Call → Except Fault α} {clk : Int} {h : List (Call × ε)} {s t : α} {page : Nat → BitVec 32}

/-- The constructor and the calls configure their pin on the registers that they find, and do nothing else that
depends on these. -/
structure Exchangeable (withPort : α → (Nat → BitVec 32) → α) (create : (Nat → BitVec 32) → Except Fault α)
    (step : ε → α → Call → Except Fault α) (clk : Int) : Prop where
  again : ∀ s port port', withPort (withPort s port) port' = withPort s port'
  create : ∀ port port', create port = (create port').map fun s => withPort s (Gpio.configure clk port)
  step : ∀ e s c port port', step e (withPort s port) c =
    (step e (withPort s port') c).map fun t => withPort t (Call.configure c port)

/-- But for the registers behind it, the object is what the calls make of a new one, on whatever registers that is. -/
def MadeBy (withPort : α → (Nat → BitVec 32) → α) (create : (Nat → BitVec 32) → Except Fault α)
    (step : ε → α → Call → Except Fault α) (h : List (Call × ε)) (s : α) : Prop :=
  ∀ port, ∃ s₀ own seen, create port = .ok s₀ ∧ run (fun s x => step x.2 s x.1) s₀ h = .ok own ∧ s = withPort own seen

namespace Exchangeable

theorem create_inv (hx : Exchangeable withPort create step clk) (h : create page = .ok s) (port : Nat → BitVec 32) :
    create port = .ok (withPort s (Gpio.configure clk port)) := by
  rw [hx.create port page, h]
  rfl

/-- A constructor configures the clock pin on the registers that it finds. -/
theorem madeBy_create (hx : Exchangeable withPort create step clk) (h : create page = .ok s) :
    MadeBy withPort create step [] s ∧ ∃ u, s = withPort u (Gpio.configure clk page) := by
  have hself : s = withPort s (Gpio.configure clk page) := Except.ok.inj (h.symm.trans (hx.create_inv h page))
  refine ⟨fun port => ⟨_, _, Gpio.configure clk page, hx.create_inv h port, rfl, ?_⟩, _, hself⟩
  rw [hx.again, ← hself]

/-- Registers are mapped all the time. -/
theorem exists_of_run (hx : Exchangeable withPort create step clk) {port : Nat → BitVec 32} {s₀ own : α}
    (hs : create port = .ok s₀) (hrun : run (fun s x => step x.2 s x.1) s₀ h = .ok own) :
    ∃ u seen, own = withPort u seen := by
  refine Run.run_induct (fun _ m => ∃ u seen, m = withPort u seen) ?_ (fun _ m x t _ hm hstep => ?_) hrun
  · exact ⟨_, _, Except.ok.inj (hs.symm.trans (hx.create_inv hs port))⟩
  · obtain ⟨u, seen, rfl⟩ := hm
    rw [hx.step x.2 u x.1 seen seen] at hstep
    obtain ⟨t, -, rfl⟩ := map_eq_ok.1 hstep
    exact ⟨t, _, rfl⟩

/-- A call configures its pin on the registers that it finds. -/
theorem madeBy_step (hx : Exchangeable withPort create step clk) (hm : MadeBy withPort create step h s) {e : ε}
    {c : Call} (hstep : step e (withPort s page) c = .ok t) :
    MadeBy withPort create step (h ++ [(c, e)]) t ∧ ∃ u, t = withPort u (c.configure page) := by
  have hown : ∀ port, ∃ s₀ own, create port = .ok s₀ ∧
      run (fun s x => step x.2 s x.1) s₀ (h ++ [(c, e)]) = .ok own ∧ t = withPort own (c.configure page) := by
    intro port
    obtain ⟨s₀, own, seen, hs, hrun, rfl⟩ := hm port
    -- the registers that the object has when it is alone
    obtain ⟨u, alone, hu⟩ := hx.exists_of_run hs hrun
    have hself : withPort own alone = own := by rw [hu, hx.again]
    rw [hx.again, hx.step e own c page alone, hself] at hstep
    obtain ⟨own', hown, rfl⟩ := map_eq_ok.1 hstep
    exact ⟨s₀, own', hs, Run.run_snoc_eq_ok.2 ⟨own, hrun, hown⟩, rfl⟩
  refine ⟨fun port => ?_, ?_⟩
  · obtain ⟨s₀, own, hs, hrun, ht⟩ := hown port
    exact ⟨s₀, own, _, hs, hrun, ht⟩
  · obtain ⟨-, own, -, -, ht⟩ := hown page
    exact ⟨own, ht⟩

end Exchangeable

end Exchange

namespace DirectMultiSPI

/-- The object with these registers behind it. -/
def withPort (s : DirectMultiSPI) (port : Nat → BitVec 32) : DirectMultiSPI := { s with gpio := s.gpio.withPort port }

variable {fresh : Nat → Nat → BitVec 32} {s t : DirectMultiSPI}

theorem create_withPort (port port' : Nat → BitVec 32) (repeats clk : Int) :
    create port repeats clk = (create port' repeats clk).map fun s => s.withPort (Gpio.configure clk port) := by
  have hinit : (Gpio.initialised port').gpioPort.isSome := rfl
  have hadd := Gpio.addOutput_withPort hinit port clk
  simp only [create]
  rw [show Gpio.initialised port = (Gpio.initialised port').withPort port from rfl, hadd]
  split <;> rfl

/-- The part of a registration before `AddOutput`. -/
theorem grow_withPort (s : DirectMultiSPI) (port : Nat → BitVec 32) (n : Nat) :
    (s.withPort port).grow fresh n = (s.grow fresh n).map fun t => t.withPort port := by
  simp only [grow, withPort]
  cases toInt (s.size * 8 * sizeofUint32) with
  | error e => rfl
  | ok prevSize => cases toInt (n * 8 * sizeofUint32) <;> rfl

theorem gpio_grow {n : Nat} (h : s.grow fresh n = .ok t) : t.gpio = s.gpio := by
  obtain ⟨prevSize, -, h⟩ := Run.bind_eq_ok.1 h
  obtain ⟨newSize, -, h⟩ := Run.bind_eq_ok.1 h
  cases h
  rfl

theorem registerDataGpio_withPort (hp : s.gpio.gpioPort.isSome) (port : Nat → BitVec 32) (g : Int) (n : Nat) :
    (s.withPort port).registerDataGpio fresh g n =
      (s.registerDataGpio fresh g n).map fun r => (r.1.withPort (Gpio.configure g port), r.2) := by
  have hgrown : (if n > (s.withPort port).size then (s.withPort port).grow fresh n else .ok (s.withPort port)) =
      (if n > s.size then s.grow fresh n else .ok s).map fun t => t.withPort port := by
    rw [grow_withPort, apply_ite (Except.map fun t => withPort t port)]
    rfl
  have hgpio : ∀ t, (if n > s.size then s.grow fresh n else .ok s) = .ok t → t.gpio = s.gpio := fun t ht => by
    split at ht
    · exact gpio_grow ht
    · cases ht; rfl
  rw [registerDataGpio, registerDataGpio, hgrown]
  cases hs : (if n > s.size then s.grow fresh n else .ok s) with
  | error e => rfl
  | ok t =>
    simp only [Except.map, withPort, Gpio.addOutput_withPort (hgpio t hs ▸ hp)]

theorem setBufferedByte_withPort (s : DirectMultiSPI) (port : Nat → BitVec 32) (g : Int) (p : Nat) (b : BitVec 8) :
    (s.withPort port).setBufferedByte g p b = (s.setBufferedByte g p b).map fun t => t.withPort port := by
  obtain ⟨clk, writeRepeat, gpio, size, data⟩ := s
  simp only [setBufferedByte, withPort]
  by_cases hpos : p < size
  · cases data with
    | none => simp only [hpos, ↓reduceIte]; rfl
    | some buffer => by_cases hlen : 8 * p + 7 < buffer.length <;> simp only [hpos, hlen, ↓reduceIte] <;> rfl
  · simp only [hpos, ↓reduceIte]; rfl

/-- What a call does to an object does not depend on the registers behind it. -/
theorem step_withPort (hp : s.gpio.gpioPort.isSome) (port : Nat → BitVec 32) (c : Call) :
    (s.withPort port).step fresh c = (s.step fresh c).map fun t => t.withPort (c.configure port) := by
  cases c with
  | registerDataGpio g n =>
    rw [step, step, call, call, registerDataGpio_withPort hp]
    cases s.registerDataGpio fresh g n <;> rfl
  | setBufferedByte g p b =>
    rw [step, step, call, call, setBufferedByte_withPort]
    cases s.setBufferedByte g p b <;> rfl
  | sendBuffers =>
    obtain ⟨clk, writeRepeat, gpio, size, data⟩ := s
    simp only [step, call, sendBuffers, withPort]
    by_cases hlen : 8 * size ≤ (data.getD []).length <;> simp only [hlen, ↓reduceIte] <;> rfl

theorem exchangeable (repeats clk : Int) :
    Exchangeable withPort (fun port => create port repeats clk) step clk where
  again _ _ _ := rfl
  create port port' := create_withPort port port' repeats clk
  step _ s c port port' := step_withPort (show (s.withPort port').gpio.gpioPort.isSome from rfl) port c

/-- The object is what these calls make of a new one, with what the heap had for each of them. -/
def MadeBy (repeats clk : Int) (h : List (Call × (Nat → Nat → BitVec 32))) (s : DirectMultiSPI) : Prop :=
  Spixels.MadeBy withPort (fun port => create port repeats clk) step h s

end DirectMultiSPI

namespace DMAMultiSPI

/-- The object with these registers behind it. -/
def withPort (s : DMAMultiSPI) (port : Nat → BitVec 32) : DMAMultiSPI := { s with gpio := s.gpio.withPort port }

variable {env : Env} {s t : DMAMultiSPI}

theorem create_withPort (port port' : Nat → BitVec 32) (clk : Int) (bufferGarbage startGarbage : Nat) :
    create port clk bufferGarbage startGarbage =
      (create port' clk bufferGarbage startGarbage).map fun s => s.withPort (Gpio.configure clk port) := by
  have hinit : (Gpio.initialised port').gpioPort.isSome := rfl
  have hadd := Gpio.addOutput_withPort hinit port clk
  simp only [create]
  rw [show Gpio.initialised port = (Gpio.initialised port').withPort port from rfl, hadd]
  split <;> rfl

/-- The part of a registration before `AddOutput`. -/
theorem grow_withPort (s : DMAMultiSPI) (port : Nat → BitVec 32) (n : Nat) :
    (s.withPort port).grow env n = (s.grow env n).map fun t => t.withPort port := by
  simp only [grow, withPort]
  cases bytesToGpioOps s.serialByteSize with
  | error e => rfl
  | ok prev => cases bytesToGpioOps n <;> rfl

theorem gpio_grow {n : Nat} (h : s.grow env n = .ok t) : t.gpio = s.gpio := by
  obtain ⟨prev, -, h⟩ := Run.bind_eq_ok.1 h
  obtain ⟨ops, -, h⟩ := Run.bind_eq_ok.1 h
  cases h
  rfl

theorem registerDataGpio_withPort (hp : s.gpio.gpioPort.isSome) (port : Nat → BitVec 32) (g : Int) (n : Nat) :
    (s.withPort port).registerDataGpio env g n =
      (s.registerDataGpio env g n).map fun r => (r.1.withPort (Gpio.configure g port), r.2) := by
  by_cases hdma : s.gpioDma = none
  · have hgrown : (if n > (s.withPort port).serialByteSize then (s.withPort port).grow env n
        else .ok (s.withPort port)) =
        (if n > s.serialByteSize then s.grow env n else .ok s).map fun t => t.withPort port := by
      rw [grow_withPort, apply_ite (Except.map fun t => withPort t port)]
      rfl
    have hgpio : ∀ t, (if n > s.serialByteSize then s.grow env n else .ok s) = .ok t → t.gpio = s.gpio :=
      fun t ht => by
        split at ht
        · exact gpio_grow ht
        · cases ht; rfl
    rw [registerDataGpio, registerDataGpio, if_pos hdma, if_pos (show (s.withPort port).gpioDma = none from hdma),
      hgrown]
    cases hs : (if n > s.serialByteSize then s.grow env n else .ok s) with
    | error e => rfl
    | ok t => simp only [Except.map, withPort, Gpio.addOutput_withPort (hgpio t hs ▸ hp)]
  · rw [registerDataGpio, registerDataGpio, if_neg hdma, if_neg (show ¬(s.withPort port).gpioDma = none from hdma)]
    rfl

theorem setBufferedByte_withPort (s : DMAMultiSPI) (port : Nat → BitVec 32) (g : Int) (p : Nat) (b : BitVec 8) :
    (s.withPort port).setBufferedByte g p b = (s.setBufferedByte g p b).map fun t => t.withPort port := by
  obtain ⟨gpio, clk, size, alloced, mem, gpioDma, startBlock, shadow, bufferSize⟩ := s
  simp only [setBufferedByte, withPort]
  by_cases hpos : p < size
  · cases shadow with
    | none => simp only [hpos, ↓reduceIte]; rfl
    | some shadow =>
      by_cases hlen : 2 * 8 * p + 2 * 7 < shadow.length <;> simp only [hpos, hlen, ↓reduceIte] <;> rfl
  · simp only [hpos, ↓reduceIte]; rfl

theorem finishRegistration_withPort (s : DMAMultiSPI) (port : Nat → BitVec 32) :
    (s.withPort port).finishRegistration env = (s.finishRegistration env).map fun t => t.withPort port := by
  simp only [finishRegistration, withPort]
  by_cases hal : s.alloced = none
  · simp only [hal, ↓reduceIte, bind, Run.map_bind]
    rfl
  · simp only [hal, ↓reduceIte]; rfl

theorem prepareSend_withPort (s : DMAMultiSPI) (port : Nat → BitVec 32) :
    (s.withPort port).prepareSend env = (s.prepareSend env).map fun t => t.withPort port := by
  rw [prepareSend, prepareSend, finishRegistration_withPort, apply_ite (Except.map fun t => withPort t port)]
  rfl

/-- What is sent is the same. -/
theorem sendBuffers_withPort (s : DMAMultiSPI) (port : Nat → BitVec 32) :
    (s.withPort port).sendBuffers env = (s.sendBuffers env).map fun r => (r.1.withPort port, r.2) := by
  rw [sendBuffers, sendBuffers, prepareSend_withPort]
  cases s.prepareSend env with
  | error e => rfl
  | ok t =>
    obtain ⟨gpio, clk, size, alloced, mem, gpioDma, startBlock, shadow, bufferSize⟩ := t
    cases alloced with
    | none => rfl
    | some blk =>
      cases gpioDma with
      | none => rfl
      | some dst =>
        simp only [withPort, Except.map, copyArgs]
        by_cases hroom : bufferSize ≤ sizeofGpioData * (shadow.getD []).length ∧ dst + bufferSize ≤ blk.size
        · simp only [bind, Except.bind, hroom, and_self, ↓reduceIte]
          cases uncachedMemBlockToPhysical blk startBlock with
          | error e => rfl
          | ok cblock => cases bytesToGpioOps size <;> rfl
        · simp only [bind, Except.bind, hroom, ↓reduceIte]
          rfl

/-- What a call does to an object does not depend on the registers behind it. -/
theorem step_withPort (hp : s.gpio.gpioPort.isSome) (port : Nat → BitVec 32) (c : Call) :
    (s.withPort port).step env c = (s.step env c).map fun t => t.withPort (c.configure port) := by
  cases c with
  | registerDataGpio g n =>
    rw [step, step, call, call, registerDataGpio_withPort hp]
    cases s.registerDataGpio env g n <;> rfl
  | setBufferedByte g p b =>
    rw [step, step, call, call, setBufferedByte_withPort]
    cases s.setBufferedByte g p b <;> rfl
  | sendBuffers =>
    rw [step, step, call, call, sendBuffers_withPort]
    cases s.sendBuffers env <;> rfl

theorem exchangeable (clk : Int) (garbage startGarbage : Nat) :
    Exchangeable withPort (fun port => create port clk garbage startGarbage) step clk where
  again _ _ _ := rfl
  create port port' := create_withPort port port' clk garbage startGarbage
  step _ s c port port' := step_withPort (show (s.withPort port').gpio.gpioPort.isSome from rfl) port c

/-- The object is what these calls make of a new one, with what the heap and the mailbox had for each of them. -/
def MadeBy (clk : Int) (garbage startGarbage : Nat) (h : List (Call × Env)) (s : DMAMultiSPI) : Prop :=
  Spixels.MadeBy withPort (fun port => create port clk garbage startGarbage) step h s

end DMAMultiSPI

end Spixels
