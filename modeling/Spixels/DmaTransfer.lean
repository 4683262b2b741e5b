import Spixels.DmaChannel
import Spixels.DmaSend
import Spixels.Schedule

/-!
# `SendBuffers` and the DMA engine side by side

`DMAMultiSPI.sendBuffers` says at once what a send plays.  In the source the CPU copies the shadow buffer, starts
the channel, polls its status until the transfer is over and resets the channel, while the engine fetches control
blocks and operations from the same memory.  Here both make their steps one at a time, in any order, and an error
can strike the channel at any moment; what else is assumed of the channel is listed in `DmaChannel`.

`Phase` is the invariant: how far the send has come, what the engine has written to the bus and what it still
writes, and how much work is left.  Each step of each actor keeps it: `phase_step`.
-/

namespace Spixels

open DmaEngine (BusWrite DmaChannel Position Runs)

namespace DMAMultiSPI

/-- An access of the CPU to the uncached block or to a register of the channel. -/
inductive Access
  | store (off : Nat) (v : BitVec 32)
  | writeCblock (v : BitVec 32)
  | writeCs (v : BitVec 32)
  /-- `cs |= bits`: a read, and then a write -/
  | orCs (bits : BitVec 32)
  /-- `cs &= bits` -/
  | andCs (bits : BitVec 32)
  /-- `while ((cs & DMA_CS_ACTIVE) && !(cs & DMA_CS_ERROR))`, about to look at the first condition -/
  | pollActive
  /-- the same loop, about to look at the second one -/
  | pollError
deriving DecidableEq, Repr

/-- What is left for the CPU to do, the memory, the channel, and the words the engine has written to the bus. -/
structure Machine where
  todo : List Access
  mem : Mem
  channel : DmaChannel
  bus : List BusWrite

inductive Event
  | cpu
  | engine
  | fail
deriving DecidableEq, Repr

namespace Machine

def cpu (m : Machine) : Machine :=
  match m.todo with
  | [] => m
  | .store off v :: rest => { m with mem := m.mem.write off v, todo := rest }
  | .writeCblock v :: rest => { m with channel := m.channel.writeCblock v, todo := rest }
  | .writeCs v :: rest => { m with channel := m.channel.writeCs v, todo := rest }
  | .orCs bits :: rest => { m with todo := .writeCs (m.channel.readCs ||| bits) :: rest }
  | .andCs bits :: rest => { m with todo := .writeCs (m.channel.readCs &&& bits) :: rest }
  | .pollActive :: rest =>
    { m with todo := if m.channel.readCs &&& dmaCsActive ≠ 0#32 then .pollError :: rest else rest }
  | .pollError :: rest =>
    { m with todo := if m.channel.readCs &&& dmaCsError ≠ 0#32 then rest else .pollActive :: rest }

/-- The engine reads the block as it is at the moment; what it writes goes to registers. -/
def engine (blk : UncachedMemBlock) (m : Machine) : Machine :=
  { m with
    channel := (m.channel.step (busRead blk m.mem)).1
    bus := m.bus ++ (m.channel.step (busRead blk m.mem)).2 }

def step (blk : UncachedMemBlock) (m : Machine) : Event → Machine
  | .cpu => m.cpu
  | .engine => m.engine blk
  | .fail => { m with channel := m.channel.fail }

end Machine

/-! ### The accesses of a send -/

/-- The words of an operation at the byte offset `off`. -/
def entryStores (off : Nat) (e : GpioData) : List (Nat × BitVec 32) :=
  [(off, e.set), (off + 4, e.ignoredUpperSetBits), (off + 8, e.reservedArea), (off + 12, e.clr)]

/-- `memcpy(gpio_dma_, gpio_shadow_, gpio_buffer_size_)` -/
def copyStores (dst : Nat) (shadow : List GpioData) (n : Nat) : List (Nat × BitVec 32) :=
  (List.range (n / sizeofGpioData)).flatMap fun i =>
    entryStores (dst + sizeofGpioData * i) (shadow.getD i GpioData.zero)

/-- After the poll loop. -/
def closing : List Access := [.orCs dmaCsAbort, .andCs (~~~dmaCsActive), .orCs dmaCsReset]

/-- After the copy. -/
def transfer (cblock : BitVec 32) : List Access :=
  [.orCs dmaCsEnd, .writeCblock cblock,
    .writeCs (dmaCsPriority 7#32 ||| dmaCsPanicPriority 7#32 ||| dmaCsDisdebug), .orCs dmaCsActive, .pollActive] ++
    closing

/-- `SendBuffers` before its first access, with the device it leaves but for the memory. -/
def beginSend (env : Env) (s : DMAMultiSPI) (c : DmaChannel) (bus : List BusWrite) :
    Except Fault (DMAMultiSPI × Machine) := do
  let s ← s.prepareSend env
  match s.alloced, s.gpioDma with
  | some blk, some dst =>
    let copy := s.copyArgs dst
    if copy.n ≤ copy.src ∧ dst + copy.n ≤ blk.size then
      let cblock ← uncachedMemBlockToPhysical blk s.startBlock
      let stores := copyStores dst (s.gpioShadow.getD []) copy.n
      return (s, {
        todo := stores.map (fun w => Access.store w.1 w.2) ++ transfer cblock
        mem := s.mem, channel := c, bus })
    else throw .outOfBounds
  | _, _ => throw .outOfBounds

/-- What the engine writes to the bus for one operation. -/
def entryWords (e : GpioData) : List BusWrite :=
  [(0x7E20001C#32, e.set), (0x7E200020#32, e.ignoredUpperSetBits), (0x7E200024#32, e.reservedArea),
    (0x7E200028#32, e.clr)]

/-- The stores of the copy, one after the other, are the copy. -/
theorem foldl_copyStores (m : Mem) (dst : Nat) (shadow : List GpioData) (n : Nat) :
    (copyStores dst shadow n).foldl (fun m w => m.write w.1 w.2) m = copyShadow m dst shadow n := by
  rw [copyStores, List.foldl_flatMap]
  rfl

/-! ### The phases of a send -/

/-- The accesses after the poll loop, and the number of steps they take.  `ok` says that no error has struck. -/
inductive Closing (ok : Prop) : List Access → Nat → Prop
  | abort : Closing ok closing 6
  | abortWrite {v : BitVec 32} (h31 : v.getLsbD 31 = false) (h0 : ok → v.getLsbD 0 = false) :
      Closing ok [.writeCs v, .andCs (~~~dmaCsActive), .orCs dmaCsReset] 5
  | pause : Closing ok [.andCs (~~~dmaCsActive), .orCs dmaCsReset] 4
  | pauseWrite {v : BitVec 32} (h31 : v.getLsbD 31 = false) (h30 : v.getLsbD 30 = false)
      (h0 : v.getLsbD 0 = false) : Closing ok [.writeCs v, .orCs dmaCsReset] 3
  | reset : Closing ok [.orCs dmaCsReset] 2
  | resetWrite {v : BitVec 32} (h31 : v.getLsbD 31 = true) : Closing ok [.writeCs v] 1
  | returned : Closing ok [] 0

/-- How far the send of `words` has come, and how many steps it still takes.  The copy leaves the memory `mem`. -/
inductive Phase (blk : UncachedMemBlock) (mem : Mem) (words bus₀ : List BusWrite) (ok : Prop) :
    Machine → Nat → Prop
  /-- The channel has not been started: what comes next is up to the CPU alone. -/
  | preparing {m : Machine} {n : Nat} (idle : m.channel.active = false) (bus : m.bus = bus₀)
      (next : Phase blk mem words bus₀ ok m.cpu n) : Phase blk mem words bus₀ ok m (n + 1)
  /-- The engine follows the chain, and the CPU polls. -/
  | running {m : Machine} {out : List BusWrite} {plan : List (List BusWrite)}
      (todo : m.todo = .pollActive :: closing ∨ m.todo = .pollError :: closing)
      (active : m.channel.active = true) (clean : ok → m.channel.error = false) (memory : m.mem = mem)
      (runs : Runs (busRead blk mem) m.channel.position plan) (bus : m.bus = bus₀ ++ out)
      (all : out ++ plan.flatten = words) : Phase blk mem words bus₀ ok m (plan.length + 9)
  /-- The engine has stopped, and the CPU is about to find out. -/
  | arrived {m : Machine} {n : Nat}
      (todo : m.todo = .pollActive :: closing ∧ n = 7 ∨ m.todo = .pollError :: closing ∧ n = 8)
      (idle : m.channel.active = false) (memory : m.mem = mem)
      (stopped : m.channel.position.step (busRead blk mem) = none) (bus : m.bus = bus₀ ++ words) :
      Phase blk mem words bus₀ ok m n
  /-- The CPU has left the loop.  After an error the engine may go on until it is reset. -/
  | closing {m : Machine} {n : Nat} {out : List BusWrite} {plan : List (List BusWrite)}
      (todo : Closing ok m.todo n) (idle : m.todo = [] → m.channel.active = false) (memory : m.mem = mem)
      (runs : Runs (busRead blk mem) m.channel.position plan) (bus : m.bus = bus₀ ++ out)
      (part : (out ++ plan.flatten).Sublist words) (all : ok → m.channel.active = false ∧ out = words) :
      Phase blk mem words bus₀ ok m n

/-- Whose step takes from the work that is left. -/
def driver (m : Machine) : Event :=
  match m.todo with
  | .pollActive :: _ => if m.channel.active then .engine else .cpu
  | .pollError :: _ => if m.channel.active then .engine else .cpu
  | _ => .cpu

section Phase

variable {blk : UncachedMemBlock} {mem : Mem} {words bus₀ : List BusWrite} {ok : Prop} {m : Machine} {n : Nat}

/-! ### What a phase says -/

/-- While the channel is active, the CPU does not touch the memory. -/
theorem Phase.exclusive (h : Phase blk mem words bus₀ ok m n) (ha : m.channel.active = true) :
    (∀ off v, Access.store off v ∉ m.todo) ∧ m.mem = mem := by
  cases h with
  | preparing idle | arrived _ idle => rw [idle] at ha; cases ha
  | running todo _ _ memory =>
    refine ⟨fun off v hm => ?_, memory⟩
    rcases todo with h | h <;> simp [h, DMAMultiSPI.closing] at hm
  | closing todo _ memory =>
    refine ⟨fun off v hm => ?_, memory⟩
    generalize m.todo = todo' at todo hm
    cases todo <;> simp [DMAMultiSPI.closing] at hm

/-- The engine has written some of the words, and the first of them as long as no error has struck. -/
theorem Phase.written (h : Phase blk mem words bus₀ ok m n) :
    ∃ out, m.bus = bus₀ ++ out ∧ out.Sublist words ∧ (ok → out <+: words) := by
  cases h with
  | preparing _ bus => exact ⟨[], by rw [bus, List.append_nil], List.nil_sublist _, fun _ => List.nil_prefix⟩
  | running _ _ _ _ _ bus all =>
    rw [← all]
    exact ⟨_, bus, List.sublist_append_left _ _, fun _ => List.prefix_append _ _⟩
  | arrived _ _ _ _ bus => exact ⟨words, bus, List.Sublist.refl _, fun _ => List.prefix_refl _⟩
  | closing _ _ _ _ bus part all =>
    refine ⟨_, bus, (List.sublist_append_left _ _).trans part, fun hok => ?_⟩
    rw [(all hok).2]

/-- When the CPU is done the channel is idle. -/
theorem Phase.at_return (h : Phase blk mem words bus₀ ok m n) (htodo : m.todo = []) :
    m.channel.active = false ∧ m.mem = mem ∧ (ok → m.bus = bus₀ ++ words) := by
  induction h with
  | @preparing m n idle bus next ih =>
    have hsame : m.cpu = m := by unfold Machine.cpu; rw [htodo]
    rw [hsame] at ih
    exact ih htodo
  | running todo => rcases todo with h | h <;> rw [h] at htodo <;> cases htodo
  | arrived todo => rcases todo with ⟨h, -⟩ | ⟨h, -⟩ <;> rw [h] at htodo <;> cases htodo
  | closing _ idle memory _ bus _ all => exact ⟨idle htodo, memory, fun hok => by rw [bus, (all hok).2]⟩

theorem Phase.todo_of_zero (h : Phase blk mem words bus₀ ok m 0) : m.todo = [] := by
  cases h with
  | arrived todo => rcases todo with ⟨-, h⟩ | ⟨-, h⟩ <;> cases h
  | closing todo =>
    generalize m.todo = todo' at todo
    cases todo
    rfl

end Phase

/-! ### What a step does to a phase -/

theorem and_bit_ne_zero (x : BitVec 32) {k : Nat} (hk : k < 32) :
    x &&& (1#32 <<< k) ≠ 0#32 ↔ x.getLsbD k = true := by
  have hbit : ∀ i, (1#32 <<< k).getLsbD i = decide (i = k) := fun i => by
    rw [BitVec.getLsbD_shiftLeft, BitVec.getLsbD_one, Bool.eq_iff_iff]
    simp
    omega
  constructor
  · intro hne
    by_contra hx
    refine hne (BitVec.eq_of_getLsbD_eq fun i _ => ?_)
    rw [BitVec.getLsbD_and, hbit]
    by_cases hik : i = k
    · subst hik; simp [hx]
    · simp [hik]
  · intro hx h0
    have := congrArg (fun y => y.getLsbD k) h0
    simp [hbit, hx] at this

/-- What the poll loop looks at. -/
theorem and_active_ne_zero (c : DmaChannel) : c.readCs &&& dmaCsActive ≠ 0#32 ↔ c.active = true := by
  rw [dmaCsActive, and_bit_ne_zero _ (by omega), c.getLsbD_readCs.1]

theorem and_error_ne_zero (c : DmaChannel) : c.readCs &&& dmaCsError ≠ 0#32 ↔ c.error = true := by
  rw [dmaCsError, and_bit_ne_zero _ (by omega), c.getLsbD_readCs.2.1]

section Step

variable {blk : UncachedMemBlock} {mem : Mem} {words bus₀ : List BusWrite} {ok : Prop} {m : Machine} {n : Nat}

/-- Only the CPU can change anything while the channel is idle. -/
theorem step_of_idle (h : m.channel.active = false) {e : Event} (he : e ≠ .cpu) : m.step blk e = m := by
  cases e with
  | cpu => exact absurd rfl he
  | engine => rw [Machine.step, Machine.engine, DmaChannel.step_of_inactive h, List.append_nil]
  | fail => rw [Machine.step, DmaChannel.fail_of_inactive h]

theorem driver_of_closing (h : Closing ok m.todo n) : driver m = .cpu := by
  unfold driver
  generalize m.todo = todo at h
  cases h <;> rfl

/-- The engine takes the next step of its plan. -/
theorem engine_running {out : List BusWrite} {plan : List (List BusWrite)}
    (todo : m.todo = .pollActive :: closing ∨ m.todo = .pollError :: closing) (active : m.channel.active = true)
    (clean : ok → m.channel.error = false) (memory : m.mem = mem)
    (runs : Runs (busRead blk mem) m.channel.position plan) (bus : m.bus = bus₀ ++ out)
    (all : out ++ plan.flatten = words) :
    ∃ k < plan.length + 9, Phase blk mem words bus₀ ok (m.engine blk) k := by
  cases runs with
  | stop h =>
    have hstep : m.channel.step (busRead blk mem) = ({ m.channel with active := false }, []) := by
      rw [DmaChannel.step, if_pos active, h]
    have hbus : m.bus = bus₀ ++ words := by rw [bus, ← all, List.flatten_nil, List.append_nil]
    rw [Machine.engine, memory, hstep, List.append_nil]
    rcases todo with htodo | htodo
    · exact ⟨7, by simp, .arrived (.inl ⟨htodo, rfl⟩) rfl rfl h hbus⟩
    · exact ⟨8, by simp, .arrived (.inr ⟨htodo, rfl⟩) rfl rfl h hbus⟩
  | @step _ q o plan h hq =>
    have hstep : m.channel.step (busRead blk mem) =
        ({ m.channel with done := m.channel.done || q.betweenBlocks, position := q }, o) := by
      rw [DmaChannel.step, if_pos active, h]
    rw [Machine.engine, memory, hstep]
    exact ⟨plan.length + 9, by simp, .running todo active clean rfl hq (by rw [bus, List.append_assoc])
      (by rw [List.append_assoc, ← all]; rfl)⟩

/-- A look at the status: the loop goes on, or it ends with an error. -/
theorem cpu_running {out : List BusWrite} {plan : List (List BusWrite)}
    (todo : m.todo = .pollActive :: closing ∨ m.todo = .pollError :: closing) (active : m.channel.active = true)
    (clean : ok → m.channel.error = false) (memory : m.mem = mem)
    (runs : Runs (busRead blk mem) m.channel.position plan) (bus : m.bus = bus₀ ++ out)
    (all : out ++ plan.flatten = words) :
    (∃ k < plan.length + 9, Phase blk mem words bus₀ ok m.cpu k) ∨
      Phase blk mem words bus₀ ok m.cpu (plan.length + 9) ∧ driver m.cpu = driver m := by
  have hdriver : ∀ todo' : List Access, todo' = .pollActive :: closing ∨ todo' = .pollError :: closing →
      driver { m with todo := todo' } = .engine := by
    rintro todo' (rfl | rfl) <;> simp [driver, active]
  have hm : driver m = .engine := hdriver m.todo todo
  rcases todo with htodo | htodo
  · have hcpu : m.cpu = { m with todo := .pollError :: closing } := by
      simp only [Machine.cpu, htodo, if_pos ((and_active_ne_zero _).2 active)]
    rw [hcpu, hm]
    exact .inr ⟨.running (.inr rfl) active clean memory runs bus all, hdriver _ (.inr rfl)⟩
  · cases herr : m.channel.error with
    | false =>
      have hcpu : m.cpu = { m with todo := .pollActive :: closing } := by
        simp only [Machine.cpu, htodo, if_neg (mt (and_error_ne_zero _).1 (by rw [herr]; simp))]
      rw [hcpu, hm]
      exact .inr ⟨.running (.inl rfl) active clean memory runs bus all, hdriver _ (.inl rfl)⟩
    | true =>
      have hcpu : m.cpu = { m with todo := closing } := by
        simp only [Machine.cpu, htodo, if_pos ((and_error_ne_zero _).2 herr)]
      rw [hcpu]
      refine .inl ⟨6, by omega, .closing .abort (fun h => by cases h) memory runs bus ?_ fun hok => ?_⟩
      · rw [all]
      · rw [clean hok] at herr; cases herr

/-- The CPU finds the channel idle. -/
theorem cpu_arrived (todo : m.todo = .pollActive :: closing ∧ n = 7 ∨ m.todo = .pollError :: closing ∧ n = 8)
    (idle : m.channel.active = false) (memory : m.mem = mem)
    (stopped : m.channel.position.step (busRead blk mem) = none) (bus : m.bus = bus₀ ++ words) :
    ∃ k < n, Phase blk mem words bus₀ ok m.cpu k := by
  have hclosing : Phase blk mem words bus₀ ok { m with todo := closing } 6 :=
    .closing .abort (fun h => by cases h) memory (.stop stopped) bus (by simp) fun _ => ⟨idle, rfl⟩
  rcases todo with ⟨htodo, rfl⟩ | ⟨htodo, rfl⟩
  · have hcpu : m.cpu = { m with todo := closing } := by
      simp only [Machine.cpu, htodo, if_neg (mt (and_active_ne_zero _).1 (by rw [idle]; simp))]
    rw [hcpu]
    exact ⟨6, by omega, hclosing⟩
  · by_cases herr : m.channel.readCs &&& dmaCsError ≠ 0#32
    · have hcpu : m.cpu = { m with todo := closing } := by simp only [Machine.cpu, htodo, if_pos herr]
      rw [hcpu]
      exact ⟨6, by omega, hclosing⟩
    · have hcpu : m.cpu = { m with todo := .pollActive :: closing } := by
        simp only [Machine.cpu, htodo, if_neg herr]
      rw [hcpu]
      exact ⟨7, by omega, .arrived (.inl ⟨rfl, rfl⟩) idle memory stopped bus⟩

theorem writeCs_of_reset {v : BitVec 32} (h31 : v.getLsbD 31 = true) (c : DmaChannel) :
    (c.writeCs v).active = false ∧ (c.writeCs v).position = .load 0#32 := by
  rw [DmaChannel.writeCs, if_pos h31]
  exact ⟨rfl, rfl⟩

theorem writeCs_of_not_reset {v : BitVec 32} (h31 : v.getLsbD 31 = false) (c : DmaChannel) :
    (c.writeCs v).active = v.getLsbD 0 ∧ (c.writeCs v).error = c.error ∧
      (c.writeCs v).position = if v.getLsbD 30 then c.position.abort else c.position := by
  rw [DmaChannel.writeCs, if_neg (by rw [h31]; simp)]
  exact ⟨rfl, rfl, rfl⟩

/-- The channel is aborted, paused and reset. -/
theorem cpu_closing {out : List BusWrite} {plan : List (List BusWrite)} (todo : Closing ok m.todo n) (hn : 0 < n)
    (memory : m.mem = mem) (runs : Runs (busRead blk mem) m.channel.position plan) (bus : m.bus = bus₀ ++ out)
    (part : (out ++ plan.flatten).Sublist words) (all : ok → m.channel.active = false ∧ out = words) :
    ∃ k < n, Phase blk mem words bus₀ ok m.cpu k := by
  obtain ⟨hread0, -, -, hread31⟩ := m.channel.getLsbD_readCs
  have hread30 : m.channel.readCs.getLsbD 30 = false := m.channel.getLsbD_readCs.2.2.1
  generalize htodo : m.todo = todo' at todo
  cases todo with
  | abort =>
    have hcpu : m.cpu = { m with
        todo := [.writeCs (m.channel.readCs ||| dmaCsAbort), .andCs (~~~dmaCsActive), .orCs dmaCsReset] } := by
      simp only [Machine.cpu, htodo, DMAMultiSPI.closing]
    rw [hcpu]
    refine ⟨5, by omega, .closing (.abortWrite ?_ fun hok => ?_) (fun h => by cases h) memory runs bus part all⟩
    · rw [BitVec.getLsbD_or, hread31]; decide
    · rw [BitVec.getLsbD_or, hread0, (all hok).1]; decide
  | @abortWrite v h31 h0 =>
    obtain ⟨hactive, -, hposition⟩ := writeCs_of_not_reset h31 m.channel
    have hcpu : m.cpu = { m with
        channel := m.channel.writeCs v, todo := [.andCs (~~~dmaCsActive), .orCs dmaCsReset] } := by
      simp only [Machine.cpu, htodo]
    rw [hcpu]
    -- the rest of the current block may be left out
    obtain ⟨plan', hplan', hsub⟩ : ∃ plan', Runs (busRead blk mem) (m.channel.writeCs v).position plan' ∧
        plan'.flatten.Sublist plan.flatten := by
      rw [hposition]
      split
      · obtain ⟨plan', hplan', hsub, -⟩ := runs.abort
        exact ⟨plan', hplan', hsub⟩
      · exact ⟨plan, runs, List.Sublist.refl _⟩
    exact ⟨4, by omega, .closing .pause (fun h => by cases h) memory hplan' bus
      ((hsub.append_left out).trans part) fun hok => ⟨hactive.trans (h0 hok), (all hok).2⟩⟩
  | pause =>
    have hcpu : m.cpu = { m with
        todo := [.writeCs (m.channel.readCs &&& ~~~dmaCsActive), .orCs dmaCsReset] } := by
      simp only [Machine.cpu, htodo]
    rw [hcpu]
    refine ⟨3, by omega, .closing (.pauseWrite ?_ ?_ ?_) (fun h => by cases h) memory runs bus part all⟩
    · rw [BitVec.getLsbD_and, hread31, Bool.false_and]
    · rw [BitVec.getLsbD_and, hread30, Bool.false_and]
    · have hlow : (~~~dmaCsActive).getLsbD 0 = false := by decide
      rw [BitVec.getLsbD_and, hlow, Bool.and_false]
  | @pauseWrite v h31 h30 h0 =>
    obtain ⟨hactive, -, hposition⟩ := writeCs_of_not_reset h31 m.channel
    have hcpu : m.cpu = { m with channel := m.channel.writeCs v, todo := [.orCs dmaCsReset] } := by
      simp only [Machine.cpu, htodo]
    rw [hcpu]
    refine ⟨2, by omega, .closing .reset (fun h => by cases h) memory ?_ bus part
      fun hok => ⟨hactive.trans h0, (all hok).2⟩⟩
    rw [hposition, if_neg (by rw [h30]; simp)]
    exact runs
  | reset =>
    have hcpu : m.cpu = { m with todo := [.writeCs (m.channel.readCs ||| dmaCsReset)] } := by
      simp only [Machine.cpu, htodo]
    rw [hcpu]
    refine ⟨1, by omega, .closing (.resetWrite ?_) (fun h => by cases h) memory runs bus part all⟩
    have hhigh : dmaCsReset.getLsbD 31 = true := by decide
    rw [BitVec.getLsbD_or, hhigh, Bool.or_true]
  | @resetWrite v h31 =>
    obtain ⟨hactive, hposition⟩ := writeCs_of_reset h31 m.channel
    have hcpu : m.cpu = { m with channel := m.channel.writeCs v, todo := [] } := by
      simp only [Machine.cpu, htodo]
    rw [hcpu]
    refine ⟨0, by omega, .closing .returned (fun _ => hactive) memory (show Runs _ _ [] from ?_) bus ?_
      fun hok => ⟨hactive, (all hok).2⟩⟩
    · rw [hposition]; exact .stop rfl
    · rw [List.flatten_nil, List.append_nil]
      exact (List.sublist_append_left _ _).trans part
  | returned => omega

/-- After an error the engine can go on until the reset. -/
theorem engine_closing {out : List BusWrite} {plan : List (List BusWrite)} (todo : Closing ok m.todo n)
    (idle : m.todo = [] → m.channel.active = false) (memory : m.mem = mem)
    (runs : Runs (busRead blk mem) m.channel.position plan) (bus : m.bus = bus₀ ++ out)
    (part : (out ++ plan.flatten).Sublist words) (all : ok → m.channel.active = false ∧ out = words) :
    Phase blk mem words bus₀ ok (m.engine blk) n := by
  cases hactive : m.channel.active with
  | false =>
    have hsame : m.engine blk = m := step_of_idle (e := .engine) hactive (by simp)
    rw [hsame]
    exact .closing todo idle memory runs bus part all
  | true =>
    have hnot : ¬ok := fun hok => by rw [(all hok).1] at hactive; cases hactive
    have hne : m.todo ≠ [] := fun h => by rw [idle h] at hactive; cases hactive
    cases runs with
    | stop h =>
      have hstep : m.channel.step (busRead blk mem) = ({ m.channel with active := false }, []) := by
        rw [DmaChannel.step, if_pos hactive, h]
      rw [Machine.engine, memory, hstep, List.append_nil]
      exact .closing todo (fun _ => rfl) rfl (.stop h) bus part fun hok => absurd hok hnot
    | @step _ q o plan h hq =>
      have hstep : m.channel.step (busRead blk mem) =
          ({ m.channel with done := m.channel.done || q.betweenBlocks, position := q }, o) := by
        rw [DmaChannel.step, if_pos hactive, h]
      rw [Machine.engine, memory, hstep]
      refine .closing todo (fun h => absurd h hne) rfl hq (by rw [bus, List.append_assoc]) ?_
        fun hok => absurd hok hnot
      rw [List.append_assoc]
      exact part

/-- After an error has struck. -/
theorem fail_phase (h : Phase blk mem words bus₀ ok m n) (hok : ¬ok) :
    Phase blk mem words bus₀ ok (m.step blk .fail) n ∧ driver (m.step blk .fail) = driver m := by
  have hdriver : driver (m.step blk .fail) = driver m := rfl
  refine ⟨?_, hdriver⟩
  cases h with
  | preparing idle bus next => rw [step_of_idle idle (by simp)]; exact .preparing idle bus next
  | running todo active _ memory runs bus all =>
    exact .running todo active (fun h => absurd h hok) memory runs bus all
  | arrived todo idle memory stopped bus =>
    rw [step_of_idle idle (by simp)]; exact .arrived todo idle memory stopped bus
  | closing todo idle memory runs bus part all =>
    exact .closing todo idle memory runs bus part fun h => absurd h hok

/-- Each step of each actor takes from the work that is left, or leaves it to the same actor. -/
theorem phase_step (h : Phase blk mem words bus₀ ok m n) (e : Event) (he : ok → e ≠ .fail) :
    (∃ k < n, Phase blk mem words bus₀ ok (m.step blk e) k) ∨
      Phase blk mem words bus₀ ok (m.step blk e) n ∧ driver (m.step blk e) = driver m := by
  cases e with
  | fail => exact .inr (fail_phase h fun hok => he hok rfl)
  | cpu =>
    cases h with
    | @preparing _ k _ _ next => exact .inl ⟨k, by omega, next⟩
    | running todo active clean memory runs bus all => exact cpu_running todo active clean memory runs bus all
    | arrived todo idle memory stopped bus => exact .inl (cpu_arrived todo idle memory stopped bus)
    | closing todo idle memory runs bus part all =>
      rcases Nat.eq_zero_or_pos n with rfl | hn
      · have htodo : m.todo = [] := Phase.todo_of_zero (.closing todo idle memory runs bus part all)
        have hsame : m.step blk .cpu = m := by rw [Machine.step, Machine.cpu, htodo]
        rw [hsame]
        exact .inr ⟨.closing todo idle memory runs bus part all, rfl⟩
      · exact .inl (cpu_closing todo hn memory runs bus part all)
  | engine =>
    cases h with
    | preparing idle bus next =>
      rw [step_of_idle idle (by simp)]
      exact .inr ⟨.preparing idle bus next, rfl⟩
    | running todo active clean memory runs bus all =>
      exact .inl (engine_running todo active clean memory runs bus all)
    | arrived todo idle memory stopped bus =>
      rw [step_of_idle idle (by simp)]
      exact .inr ⟨.arrived todo idle memory stopped bus, rfl⟩
    | closing todo idle memory runs bus part all =>
      have hdriver : driver (m.step blk .engine) = .cpu := driver_of_closing (m := m.step blk .engine) todo
      exact .inr ⟨engine_closing todo idle memory runs bus part all, hdriver.trans (driver_of_closing todo).symm⟩

/-- The step of the driver takes from the work that is left. -/
theorem phase_driver (h : Phase blk mem words bus₀ ok m n) (hn : 0 < n) :
    ∃ k < n, Phase blk mem words bus₀ ok (m.step blk (driver m)) k := by
  have hcpu : ∀ {m : Machine}, m.channel.active = false → driver m = .cpu := fun {m} h => by
    unfold driver
    split <;> simp [h]
  cases h with
  | @preparing _ k idle bus next =>
    rw [hcpu idle]
    exact ⟨k, by omega, next⟩
  | running todo active clean memory runs bus all =>
    have hdriver : driver m = .engine := by
      rcases todo with h | h <;> simp [driver, h, active]
    rw [hdriver]
    exact engine_running todo active clean memory runs bus all
  | arrived todo idle memory stopped bus =>
    rw [hcpu idle]
    exact cpu_arrived todo idle memory stopped bus
  | closing todo idle memory runs bus part all =>
    rw [driver_of_closing todo]
    exact cpu_closing todo hn memory runs bus part all

theorem progress : Schedule.Progress (Machine.step blk) (Phase blk mem words bus₀ False) driver :=
  ⟨fun h e => phase_step h e fun h => h.elim, phase_driver⟩

theorem phase_after (h : Phase blk mem words bus₀ ok m n) (es : List Event) (hes : ok → Event.fail ∉ es) :
    ∃ k, Phase blk mem words bus₀ ok (Schedule.after (Machine.step blk) m es) k := by
  refine Schedule.after_induct (fun m => ∃ k, Phase blk mem words bus₀ ok m k) ⟨n, h⟩ ?_
  rintro m' e he ⟨k, hk⟩
  rcases phase_step hk e fun hok hfail => hes hok (hfail ▸ he) with ⟨j, -, hj⟩ | ⟨hj, -⟩
  · exact ⟨j, hj⟩
  · exact ⟨k, hj⟩

end Step

end DMAMultiSPI

end Spixels
