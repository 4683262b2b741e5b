import Spixels.DmaOverlength
import Spixels.DmaTransfer

/-!
# Sends with a DMA engine of its own

Whatever the order in which the CPU and the engine make their steps, the engine writes the operations of the send,
each once and in order, and the CPU neither touches the memory before the engine is done nor returns before:
`send_interleaved`.  A send returns after a bounded number of rounds in which both have a turn, errors or not:
`send_returns`.  So over a whole life the backend with its engine does what `DMAMultiSPI.Bus` says at once:
`life_refines`.
-/

namespace Spixels

open DmaEngine (BusWrite DmaChannel Position Runs)
open Waveform (RegWrite levels)
open Run (run bind_eq_ok map_eq_ok)

namespace DMAMultiSPI

def gpioClrOffset : BitVec 32 := 0x28#32

/-! ### The start of a send -/

section Start

variable {blk : UncachedMemBlock} {mem : Mem} {words bus₀ : List BusWrite} {ok : Prop} {c : DmaChannel}
  {cblock : BitVec 32} {plan : List (List BusWrite)} {n : Nat}

/-- The channel is set up and started. -/
theorem phase_transfer (hc : c.active = false) (he : ok → c.error = false)
    (runs : Runs (busRead blk mem) (.load cblock) plan) (all : plan.flatten = words) :
    Phase blk mem words bus₀ ok ⟨transfer cblock, mem, c, bus₀⟩ (plan.length + 9 + 6) := by
  obtain ⟨hread0, -, hread30, hread31⟩ := c.getLsbD_readCs
  -- the end flag of the last send is cleared
  obtain ⟨ha₁, he₁, -⟩ := writeCs_of_not_reset (v := c.readCs ||| dmaCsEnd)
    (by rw [BitVec.getLsbD_or, hread31]; decide) c
  have ha₁ : (c.writeCs (c.readCs ||| dmaCsEnd)).active = false := by
    rw [ha₁, BitVec.getLsbD_or, hread0, hc]; decide
  -- the channel is pointed at the chain and set up, still idle
  obtain ⟨ha₃, he₃, hp₃⟩ := writeCs_of_not_reset
    (v := dmaCsPriority 7#32 ||| dmaCsPanicPriority 7#32 ||| dmaCsDisdebug) (by decide)
    ((c.writeCs (c.readCs ||| dmaCsEnd)).writeCblock cblock)
  have ha₃ := ha₃.trans (show (dmaCsPriority 7#32 ||| dmaCsPanicPriority 7#32 ||| dmaCsDisdebug).getLsbD 0 = false
    by decide)
  have hp₃ := hp₃.trans (if_neg (by decide))
  generalize hc₃ : ((c.writeCs (c.readCs ||| dmaCsEnd)).writeCblock cblock).writeCs
    (dmaCsPriority 7#32 ||| dmaCsPanicPriority 7#32 ||| dmaCsDisdebug) = c₃ at ha₃ he₃ hp₃
  -- and started
  obtain ⟨-, -, h30, h31⟩ := c₃.getLsbD_readCs
  have hone : dmaCsActive.getLsbD 0 = true ∧ dmaCsActive.getLsbD 30 = false ∧ dmaCsActive.getLsbD 31 = false := by
    decide
  obtain ⟨ha₄, he₄, hp₄⟩ := writeCs_of_not_reset (v := c₃.readCs ||| dmaCsActive)
    (by rw [BitVec.getLsbD_or, h31, hone.2.2]; rfl) c₃
  have ha₄ := ha₄.trans (show (c₃.readCs ||| dmaCsActive).getLsbD 0 = true by
    rw [BitVec.getLsbD_or, hone.1, Bool.or_true])
  have hp₄ := hp₄.trans (if_neg (by rw [BitVec.getLsbD_or, h30, hone.2.1]; simp))
  have hrun : Phase blk mem words bus₀ ok
      ⟨.pollActive :: closing, mem, c₃.writeCs (c₃.readCs ||| dmaCsActive), bus₀⟩ (plan.length + 9) := by
    refine .running (.inl rfl) ha₄ (fun hok => ?_) rfl ?_ (List.append_nil _).symm all
    · exact he₄.trans (he₃.trans (he₁.trans (he hok)))
    · rw [hp₄, hp₃]; exact runs
  refine .preparing hc rfl (.preparing hc rfl (.preparing ha₁ rfl (.preparing ha₁ rfl (.preparing ?_ rfl
    (.preparing ?_ rfl ?_)))))
  · exact (congrArg DmaChannel.active hc₃).trans ha₃
  · exact (congrArg DmaChannel.active hc₃).trans ha₃
  · subst hc₃; exact hrun

/-- The copy comes first. -/
theorem phase_stores {stores : List (Nat × BitVec 32)} {m : Mem} (hc : c.active = false)
    (hmem : stores.foldl (fun m w => m.write w.1 w.2) m = mem)
    (h : Phase blk mem words bus₀ ok ⟨transfer cblock, mem, c, bus₀⟩ n) :
    Phase blk mem words bus₀ ok
      ⟨stores.map (fun w => Access.store w.1 w.2) ++ transfer cblock, m, c, bus₀⟩ (n + stores.length) := by
  induction stores generalizing m with
  | nil => cases hmem; exact h
  | cons w stores ih => exact .preparing hc rfl (ih hmem)

end Start

section Send

variable {clk : Int} {garbage : Nat} {env : Env} {h : List Call} {s t : DMAMultiSPI} {tr : Transfer}

/-- A send that goes through can begin. -/
theorem beginSend_of_send (hsend : s.sendBuffers env = .ok (t, tr)) (c : DmaChannel) (bus : List BusWrite) :
    ∃ m dst, t = { m with mem := t.mem } ∧ m.gpioDma = some dst ∧ (m.copyArgs dst).n ≤ (m.copyArgs dst).src ∧
      t.mem = copyShadow m.mem dst (m.gpioShadow.getD []) (m.copyArgs dst).n ∧
      s.beginSend env c bus = .ok (m, {
        todo := (copyStores dst (m.gpioShadow.getD []) (m.copyArgs dst).n).map (fun w => Access.store w.1 w.2) ++
          transfer tr.cblock
        mem := m.mem, channel := c, bus }) := by
  obtain ⟨m, hm, ht⟩ := bind_eq_ok.1 hsend
  split at ht
  · rename_i blk dst hal hdma
    dsimp only at ht
    split at ht
    · rename_i hin
      obtain ⟨cb, hcb, ht⟩ := bind_eq_ok.1 ht
      obtain ⟨ops, -, ht⟩ := bind_eq_ok.1 ht
      cases ht
      refine ⟨m, dst, rfl, hdma, hin.1, rfl, bind_eq_ok.2 ⟨m, hm, ?_⟩⟩
      simp only [hal, hdma, hin, and_self, ↓reduceIte]
      exact bind_eq_ok.2 ⟨cb, hcb, rfl⟩
    · cases ht
  · cases ht

/-- The blocks of the chain write the operations one after the other. -/
theorem blockWrites_chain {blk : UncachedMemBlock} {n : Nat} {m : Mem} {start : BitVec 32}
    (hp : Plays blk n m start) :
    (cbAddrs blk n).flatMap (DmaEngine.blockWrites (busRead blk m)) =
      (((cbAddrs blk n).flatMap fun a => DmaEngine.rows (DmaEngine.fetch (busRead blk m) a)).map fun r =>
        busEntry blk m r.src).flatMap entryWords := by
  rw [List.flatMap_map, List.flatMap_assoc]
  refine List.flatMap_congr fun a ha => ?_
  rw [DmaEngine.blockWrites, DmaEngine.blockWords, DmaEngine.allRows, if_pos (hp.twoD a ha), List.map_flatMap]
  refine List.flatMap_congr fun r hr => ?_
  rw [hp.writes a ha r hr]
  rfl

/-- A block that the engine can address. -/
structure Addressable (blk : UncachedMemBlock) : Prop where
  ne_zero : blk.busAddr ≠ 0#32
  aligned : blk.busAddr.toNat % 32 = 0
  inside : blk.busAddr.toNat + blk.size ≤ 2 ^ 32

/-- The number of steps that a send for streams of `n` bytes takes. -/
def sendSteps (n : Nat) : Nat := 8 * gpioOps n + 2 * controlBlocks n + 15

/-- A send in its first phase. -/
theorem phase_beginSend (hr : Represents clk garbage h s) (hsend : s.sendBuffers env = .ok (t, tr))
    {blk : UncachedMemBlock} (hblk : t.alloced = some blk) (haddr : Addressable blk) {c : DmaChannel}
    (hc : c.active = false) (bus₀ : List BusWrite) :
    ∃ m m₀, s.beginSend env c bus₀ = .ok (m, m₀) ∧ t = { m with mem := t.mem } ∧ m₀.channel = c ∧
      ∃ n ≤ sendSteps (streams h).size, ∀ ok, (ok → c.error = false) →
        Phase blk t.mem (tr.entries.flatMap entryWords) bus₀ ok m₀ n := by
  obtain ⟨m, dst, hkeep, -, hcopy, hmem, hbegin⟩ := beginSend_of_send hsend c bus₀
  obtain ⟨hplays, hentries⟩ := sendBuffers_plays hr hsend hblk haddr.ne_zero haddr.aligned haddr.inside
  obtain ⟨plan, hruns, hflat, hlen⟩ := DmaEngine.runs_load (hplays.walk _ (le_refl _))
  have hall : plan.flatten = tr.entries.flatMap entryWords := by
    rw [hflat, blockWrites_chain hplays, ← hentries]
  refine ⟨m, _, hbegin, hkeep, rfl, _, ?_, fun ok he => phase_stores hc (by rw [hmem, foldl_copyStores])
    (phase_transfer hc he hruns hall)⟩
  -- four words are written and four words are copied for each operation
  have hops : tr.entries.length = gpioOps (streams h).size := by
    have := congrArg List.length hplays.reads
    rw [hentries, List.length_map]
    simpa using this
  have hwords : plan.flatten.length = 4 * gpioOps (streams h).size := by
    rw [hall, ← hops, List.length_flatMap]
    simp [entryWords, Nat.mul_comm]
  have hshadow : (m.copyArgs dst).src ≤ 16 * gpioOps (streams h).size := by
    have hsh : m.gpioShadow = t.gpioShadow := by rw [hkeep]
    have hs' := (sendBuffers_spec hr hsend).1.shadow
    rw [copyArgs, hsh, hs', streams_snoc]
    by_cases h0 : (streams h).size = 0 <;> simp [h0, Streams.step, sizeofGpioData, render, gpioOps]
  have hstores : (copyStores dst (m.gpioShadow.getD []) (m.copyArgs dst).n).length =
      4 * ((m.copyArgs dst).n / 16) := by
    simp [copyStores, entryStores, sizeofGpioData, Nat.mul_comm]
  have haddrs : (cbAddrs blk (streams h).size).length = controlBlocks (streams h).size := by simp [cbAddrs]
  rw [haddrs] at hlen
  unfold sendSteps
  omega

/-! ### Any order of steps -/

/-- What holds at any moment of a send of `words` that leaves the memory `mem`, after the events `es`. -/
structure SendInvariant (mem : Mem) (words bus₀ : List BusWrite) (es : List Event) (now : Machine) : Prop where
  /-- While the channel is active, the CPU does not touch the memory, which is the final one. -/
  exclusive : now.channel.active = true → (∀ off v, Access.store off v ∉ now.todo) ∧ now.mem = mem
  /-- No word is written twice or out of order, and none is left out unless an error strikes. -/
  written : ∃ out, now.bus = bus₀ ++ out ∧ out.Sublist words ∧ (Event.fail ∉ es → out <+: words)
  /-- `SendBuffers` waits for completion. -/
  complete : now.todo = [] → now.channel.active = false ∧ now.mem = mem ∧
    (Event.fail ∉ es → now.bus = bus₀ ++ words)

/-- In every interleaving of the CPU, the engine and errors, a send plays the operations that
`DMAMultiSPI.sendBuffers` says it plays. -/
theorem send_interleaved (hr : Represents clk garbage h s) (hsend : s.sendBuffers env = .ok (t, tr))
    {blk : UncachedMemBlock} (hblk : t.alloced = some blk) (haddr : Addressable blk) {c : DmaChannel}
    (hc : c.active = false) (he : c.error = false) (bus₀ : List BusWrite) :
    ∃ m m₀, s.beginSend env c bus₀ = .ok (m, m₀) ∧ t = { m with mem := t.mem } ∧ ∀ es,
      SendInvariant t.mem (tr.entries.flatMap entryWords) bus₀ es (Schedule.after (Machine.step blk) m₀ es) := by
  obtain ⟨m, m₀, hbegin, hkeep, -, n, -, hphase⟩ := phase_beginSend hr hsend hblk haddr hc bus₀
  refine ⟨m, m₀, hbegin, hkeep, fun es => ?_⟩
  obtain ⟨k, hk⟩ := phase_after (hphase (Event.fail ∉ es) fun _ => he) es id
  exact ⟨hk.exclusive, hk.written, hk.at_return⟩

/-- The CPU has nothing left to do after a round for each step, in which it and the engine both have a turn. -/
theorem todo_of_rounds {blk : UncachedMemBlock} {mem : Mem} {words bus₀ : List BusWrite} {m : Machine} {n : Nat}
    (hphase : Phase blk mem words bus₀ False m n) {rounds : List (List Event)}
    (hrounds : ∀ r ∈ rounds, Event.cpu ∈ r ∧ Event.engine ∈ r) (hn : n ≤ rounds.length) :
    (Schedule.after (Machine.step blk) m rounds.flatten).todo = [] := by
  have hdriver : ∀ m : Machine, driver m = .cpu ∨ driver m = .engine := fun m => by
    unfold driver
    split
    · split <;> simp
    · split <;> simp
    · simp
  refine (progress.done hphase rounds (fun r hr m => ?_) hn).todo_of_zero
  rcases hdriver m with hd | hd
  · rw [hd]; exact (hrounds r hr).1
  · rw [hd]; exact (hrounds r hr).2

/-- A send returns after a bounded number of rounds in which the CPU and the engine both have a turn, in whatever
order and whether errors strike or not. -/
theorem send_returns (hr : Represents clk garbage h s) (hsend : s.sendBuffers env = .ok (t, tr))
    {blk : UncachedMemBlock} (hblk : t.alloced = some blk) (haddr : Addressable blk) {c : DmaChannel}
    (hc : c.active = false) (bus₀ : List BusWrite) :
    ∃ m m₀, s.beginSend env c bus₀ = .ok (m, m₀) ∧ ∀ rounds : List (List Event),
      (∀ r ∈ rounds, Event.cpu ∈ r ∧ Event.engine ∈ r) → sendSteps (streams h).size ≤ rounds.length →
        (Schedule.after (Machine.step blk) m₀ rounds.flatten).todo = [] := by
  obtain ⟨m, m₀, hbegin, -, -, n, hn, hphase⟩ := phase_beginSend hr hsend hblk haddr hc bus₀
  exact ⟨m, m₀, hbegin, fun rounds hrounds hlen =>
    todo_of_rounds (hphase False fun h => h.elim) hrounds (le_trans hn hlen)⟩

/-! ### Where the block comes from -/

/-- The mailbox hands out blocks that the engine can address. -/
def AddressableMemory (env : Env) : Prop :=
  ∀ n < 2 ^ 31, ∀ blk, uncachedMemBlockAlloc env.mbox n = .ok blk → Addressable blk

/-- The block of the backend has been handed out by the mailbox. -/
def HandedOut (env : Env) (s : DMAMultiSPI) : Prop :=
  ∀ blk, s.alloced = some blk → ∃ n < 2 ^ 31, uncachedMemBlockAlloc env.mbox n = .ok blk

theorem handedOut_prepareSend (hs : HandedOut env s) (ht : s.prepareSend env = .ok t) : HandedOut env t := by
  unfold prepareSend at ht
  split at ht
  · obtain ⟨hal, hsize, blk, hblk⟩ := finishRegistration_inv ht
    obtain ⟨m, hm, -⟩ := finishRegistration_spec hal hsize hblk
    rw [hm] at ht
    cases ht
    intro blk' hblk'
    cases hblk'
    exact ⟨_, hsize, hblk⟩
  · cases ht; exact hs

theorem handedOut_step (hs : HandedOut env s) {c : Call} (ht : s.step env c = .ok t) : HandedOut env t := by
  obtain ⟨r, hcall, rfl⟩ := map_eq_ok.1 ht
  cases c with
  | registerDataGpio g n =>
    obtain ⟨⟨u, b⟩, hreg, rfl⟩ := map_eq_ok.1 hcall
    unfold registerDataGpio at hreg
    split at hreg
    · obtain ⟨v, hv, he⟩ := map_eq_ok.1 hreg
      cases he
      split at hv
      · obtain ⟨a, -, hv⟩ := bind_eq_ok.1 hv
        obtain ⟨b, -, hv⟩ := bind_eq_ok.1 hv
        cases hv
        exact hs
      · cases hv; exact hs
    · cases hreg
  | setBufferedByte g p b =>
    obtain ⟨u, hset, rfl⟩ := map_eq_ok.1 hcall
    unfold setBufferedByte at hset
    split at hset
    · split at hset
      · cases hset
      · split at hset
        · cases hset; exact hs
        · cases hset
    · cases hset
  | sendBuffers =>
    obtain ⟨⟨u, tr⟩, hsend, rfl⟩ := map_eq_ok.1 hcall
    obtain ⟨m, _, _, _, hm, -, -, -, -, hkeep, -⟩ := sendBuffers_inv hsend
    have hm' : HandedOut env m := handedOut_prepareSend hs hm
    have hu : u.alloced = m.alloced := by rw [hkeep]
    exact fun blk hblk => hm' blk (hu.symm.trans hblk)

theorem handedOut_of_run {port : Nat → BitVec 32} {startGarbage : Nat}
    (hs : create port clk garbage startGarbage = .ok s) (ht : run (step env) s h = .ok t) : HandedOut env t := by
  refine Run.run_induct (fun _ t => HandedOut env t) ?_ (fun _ _ _ _ _ ih hstep => handedOut_step ih hstep) ht
  intro blk hblk
  rw [((create_spec hs).unsent (by simp)).2] at hblk
  cases hblk

theorem addressable_of_run {port : Nat → BitVec 32} {startGarbage : Nat}
    (hs : create port clk garbage startGarbage = .ok s) (ht : run (step env) s h = .ok t)
    (haddr : AddressableMemory env) {blk : UncachedMemBlock} (hblk : t.alloced = some blk) : Addressable blk := by
  obtain ⟨n, hn, halloc⟩ := handedOut_of_run hs ht blk hblk
  exact haddr n hn blk halloc

/-! ### Whole lives -/

/-- What the port makes of a word on the bus. -/
def portWrites (w : BusWrite) : List (RegWrite 32) :=
  if w.1 = physicalGpioBus + gpioSetOffset then [.raise w.2]
  else if w.1 = physicalGpioBus + gpioClrOffset then [.lower w.2]
  else []

/-- The words of an operation are its two writes to the port. -/
theorem portWrites_entryWords (es : List GpioData) : (es.flatMap entryWords).flatMap portWrites = writes es := by
  rw [List.flatMap_assoc, writes]
  exact List.flatMap_congr fun e _ => rfl

/-- A life of the backend with an engine of its own, on which no error strikes: the calls made so far, the device,
the channel, and all words on the bus. -/
inductive Life (env : Env) (s₀ : DMAMultiSPI) : List Call → DMAMultiSPI → DmaChannel → List BusWrite → Prop
  | start {c : DmaChannel} (idle : c.active = false) (clean : c.error = false) : Life env s₀ [] s₀ c []
  | call {h : List Call} {s t : DMAMultiSPI} {c : DmaChannel} {bus : List BusWrite} {k : Call}
      (life : Life env s₀ h s c bus) (hk : k ≠ .sendBuffers) (hstep : s.step env k = .ok t) :
      Life env s₀ (h ++ [k]) t c bus
  /-- A send, with any order of steps after which the CPU has returned from it. -/
  | send {h : List Call} {s m : DMAMultiSPI} {c : DmaChannel} {bus : List BusWrite} {m₀ now : Machine}
      {blk : UncachedMemBlock} {es : List Event} (life : Life env s₀ h s c bus)
      (hbegin : s.beginSend env c bus = .ok (m, m₀)) (hblk : m.alloced = some blk) (hes : Event.fail ∉ es)
      (hnow : now = Schedule.after (Machine.step blk) m₀ es) (hover : now.todo = []) :
      Life env s₀ (h ++ [.sendBuffers]) { m with mem := now.mem } now.channel now.bus

/-- Without an error the error flag stays low. -/
theorem error_after {blk : UncachedMemBlock} {m : Machine} {es : List Event} (he : m.channel.error = false)
    (hes : Event.fail ∉ es) : (Schedule.after (Machine.step blk) m es).channel.error = false := by
  refine Schedule.after_induct (fun m : Machine => m.channel.error = false) he fun m e hmem hm => ?_
  cases e with
  | fail => exact absurd hmem hes
  | engine =>
    simp only [Machine.step, Machine.engine, DmaChannel.step]
    split
    · split <;> exact hm
    · exact hm
  | cpu =>
    simp only [Machine.step, Machine.cpu]
    split <;> try exact hm
    simp only [DmaChannel.writeCs]
    split
    · simp only [DmaChannel.reset, hm, Bool.false_and]
    · exact hm

/-- A send that begins goes through. -/
theorem send_of_beginSend (hr : Represents clk garbage h s) {c : DmaChannel} {bus : List BusWrite}
    {m : DMAMultiSPI} {m₀ : Machine} (hbegin : s.beginSend env c bus = .ok (m, m₀)) :
    ∃ t tr, s.sendBuffers env = .ok (t, tr) := by
  obtain ⟨m', hm, hbegin⟩ := bind_eq_ok.1 hbegin
  have hops : bytesToGpioOps m'.serialByteSize = .ok (gpioOps (streams h).size) := by
    obtain ⟨-, hkeep⟩ := prepareSend_spec hr hm
    exact bytesToGpioOps_eq_ok.2 (by rw [hkeep]; exact ⟨by rw [hr.size]; exact hr.fits, by rw [hr.size]⟩)
  split at hbegin
  · rename_i blk dst hal hdma
    dsimp only at hbegin
    split at hbegin
    · rename_i hin
      obtain ⟨cb, hcb, -⟩ := bind_eq_ok.1 hbegin
      have hsend : ∃ r, s.sendBuffers env = .ok r := by
        rw [sendBuffers, hm]
        dsimp only [bind, Except.bind]
        rw [hal, hdma]
        dsimp only
        rw [if_pos hin, hcb, hops]
        exact ⟨_, rfl⟩
      obtain ⟨⟨t, tr⟩, hsend⟩ := hsend
      exact ⟨t, tr, hsend⟩
    · cases hbegin
  · cases hbegin

/-- A send from which the CPU has returned, without an error. -/
theorem send_spec (hr : Represents clk garbage h s) (hsend : s.sendBuffers env = .ok (t, tr))
    {blk : UncachedMemBlock} (hblk : t.alloced = some blk) (haddr : Addressable blk) {c : DmaChannel}
    (hidle : c.active = false) (hclean : c.error = false) {bus : List BusWrite} {m : DMAMultiSPI} {m₀ : Machine}
    (hbegin : s.beginSend env c bus = .ok (m, m₀)) {es : List Event} (hes : Event.fail ∉ es)
    (hover : (Schedule.after (Machine.step blk) m₀ es).todo = []) :
    let now := Schedule.after (Machine.step blk) m₀ es
    now.channel.active = false ∧ now.channel.error = false ∧ { m with mem := now.mem } = t ∧
      now.bus = bus ++ tr.entries.flatMap entryWords := by
  obtain ⟨m', m₀', hbegin', hkeep, hchannel, k, -, hphase⟩ := phase_beginSend hr hsend hblk haddr hidle bus
  rw [hbegin] at hbegin'
  cases hbegin'
  obtain ⟨k', hk'⟩ := phase_after (hphase True fun _ => hclean) es fun _ => hes
  obtain ⟨hoff, hmem, hbus⟩ := hk'.at_return hover
  exact ⟨hoff, error_after (by rw [hchannel]; exact hclean) hes, by rw [hmem, ← hkeep], hbus trivial⟩

/-- A send that begins after the calls `h` goes through, and its block has been handed out by the mailbox. -/
theorem send_of_begin {port : Nat → BitVec 32} {startGarbage : Nat} {s₀ : DMAMultiSPI} (hc : IsPin clk)
    (hs : create port clk garbage startGarbage = .ok s₀) (haddr : AddressableMemory env) (hp : PinsOnly h)
    (hrun : run (step env) s₀ h = .ok s) {c : DmaChannel} {bus : List BusWrite} {m : DMAMultiSPI} {m₀ : Machine}
    (hbegin : s.beginSend env c bus = .ok (m, m₀)) {blk : UncachedMemBlock} (hblk : m.alloced = some blk) :
    Represents clk garbage h s ∧ ∃ t tr, s.sendBuffers env = .ok (t, tr) ∧ s.step env .sendBuffers = .ok t ∧
      t.alloced = some blk ∧ Addressable blk := by
  have hr : Represents clk garbage h s := represents_of_run hc hs hp hrun
  obtain ⟨t, tr, hsend⟩ := send_of_beginSend hr hbegin
  obtain ⟨m', dst, hkeep, -, -, -, hbegin'⟩ := beginSend_of_send hsend c bus
  rw [hbegin] at hbegin'
  cases hbegin'
  have hstep : s.step env .sendBuffers = .ok t := map_eq_ok.2 ⟨_, map_eq_ok.2 ⟨_, hsend, rfl⟩, rfl⟩
  have hblk' : t.alloced = some blk := by rw [hkeep]; exact hblk
  have hrun' : run (step env) s₀ (h ++ [.sendBuffers]) = .ok t := Run.run_snoc_eq_ok.2 ⟨s, hrun, hstep⟩
  exact ⟨hr, t, tr, hsend, hstep, hblk', addressable_of_run hs hrun' haddr hblk'⟩

theorem run_dev {s₀ : DMAMultiSPI} {pins : BitVec 32} {b : Bus} (hb : run (Bus.step env) ⟨s₀, pins⟩ h = .ok b) :
    run (step env) s₀ h = .ok b.dev := by
  have hproject := Run.run_project (map_dev_step env) ⟨s₀, pins⟩ h
  rw [hb] at hproject
  exact hproject.symm

/-- A channel is always handed on idle and without an error. -/
theorem life_run {port : Nat → BitVec 32} {startGarbage : Nat} {s₀ : DMAMultiSPI} (hc : IsPin clk)
    (hs : create port clk garbage startGarbage = .ok s₀) (haddr : AddressableMemory env) {c : DmaChannel}
    {bus : List BusWrite} (hp : PinsOnly h) (life : Life env s₀ h s c bus) (pins : BitVec 32) :
    c.active = false ∧ c.error = false ∧
      run (Bus.step env) ⟨s₀, pins⟩ h = .ok ⟨s, levels pins (bus.flatMap portWrites)⟩ := by
  induction life with
  | start idle clean => exact ⟨idle, clean, rfl⟩
  | @call h s t c bus k life hk hstep ih =>
    obtain ⟨hidle, hclean, hrun⟩ := ih hp.of_append
    refine ⟨hidle, hclean, Run.run_snoc_eq_ok.2 ⟨_, hrun, ?_⟩⟩
    obtain ⟨⟨u, o⟩, hcall, rfl⟩ := map_eq_ok.1 hstep
    refine map_eq_ok.2 ⟨_, hcall, ?_⟩
    cases k with
    | sendBuffers => exact absurd rfl hk
    | registerDataGpio g n => obtain ⟨r, -, he⟩ := map_eq_ok.1 hcall; cases he; rfl
    | setBufferedByte g p b => obtain ⟨r, -, he⟩ := map_eq_ok.1 hcall; cases he; rfl
  | @send h s m c bus m₀ now blk es life hbegin hblk hes hnow hover ih =>
    subst hnow
    obtain ⟨hidle, hclean, hrun⟩ := ih hp.of_append
    obtain ⟨hr, t, tr, hsend, -, hblk', hblock⟩ :=
      send_of_begin hc hs haddr hp.of_append (run_dev hrun) hbegin hblk
    obtain ⟨hoff, herr, hdev, hbus⟩ := send_spec hr hsend hblk' hblock hidle hclean hbegin hes hover
    refine ⟨hoff, herr, Run.run_snoc_eq_ok.2 ⟨_, hrun, map_eq_ok.2 ⟨_, map_eq_ok.2 ⟨_, hsend, rfl⟩, ?_⟩⟩⟩
    rw [hdev, hbus, List.flatMap_append, Waveform.levels_append, portWrites_entryWords]
    rfl

/-- The backend with its engine refines the backend that plays a send at once: it accepts the same calls, and
leaves the same device and the same levels on the pins. -/
theorem life_refines {port : Nat → BitVec 32} {startGarbage : Nat} {s₀ : DMAMultiSPI} (hc : IsPin clk)
    (hs : create port clk garbage startGarbage = .ok s₀) (haddr : AddressableMemory env) {c : DmaChannel}
    {bus : List BusWrite} (hp : PinsOnly h) (life : Life env s₀ h s c bus) (pins : BitVec 32) :
    c.active = false ∧ run (Bus.step env) ⟨s₀, pins⟩ h = .ok ⟨s, levels pins (bus.flatMap portWrites)⟩ := by
  obtain ⟨hidle, -, hrun⟩ := life_run hc hs haddr hp life pins
  exact ⟨hidle, hrun⟩

end Send

/-! ### One byte on pin 18 -/

theorem addressableMemory_of_reply {reply : BitVec 32} (hne : reply ≠ 0#32) (haligned : reply.toNat % 32 = 0)
    (hinside : reply.toNat + 2 ^ 31 + pageSize ≤ 2 ^ 32) : AddressableMemory (Env.replying reply) := by
  intro n hn blk hblk
  rw [Env.replying, uncachedMemBlockAlloc_const hne hn] at hblk
  cases hblk
  have hround : roundUpToPage n ≤ n + pageSize := by unfold roundUpToPage pageSize; split <;> omega
  exact ⟨hne, haligned, by dsimp only; omega⟩

theorem addressableMemory_replying : AddressableMemory (Env.replying 0x40001000#32) :=
  addressableMemory_of_reply (by decide) (by decide) (by decide)

theorem one_byte_send :
    ∃ s₀ s t tr blk, create (fun _ => 0#32) 27 0 0 = .ok s₀ ∧
      run (step (Env.replying 0x40001000#32)) s₀ [.registerDataGpio 18 1, .setBufferedByte 18 0 0xA5#8] = .ok s ∧
      Represents 27 0 [.registerDataGpio 18 1, .setBufferedByte 18 0 0xA5#8] s ∧
      s.sendBuffers (Env.replying 0x40001000#32) = .ok (t, tr) ∧ t.alloced = some blk ∧ Addressable blk := by
  obtain ⟨s₀, hs⟩ := create_ok (fun _ => 0#32) 0 0 (show Gpio.accepts 27 = true by decide)
  obtain ⟨s, hrun, hr⟩ := run_registration (Env.replying 0x40001000#32) (by decide) hs
    (h := [.registerDataGpio 18 1, .setBufferedByte 18 0 0xA5#8]) (by decide) (by decide) (by decide) (by decide)
  obtain ⟨t, tr, hsend⟩ := sendBuffers_ok (Env.replying 0x40001000#32) hr (by decide) (by decide)
    (uncachedMemBlockAlloc_const (by decide) (by decide))
  obtain ⟨blk, hblk, -⟩ := (sendBuffers_spec hr hsend).1.sent (by simp)
  have hrun' : run (step (Env.replying 0x40001000#32)) s₀
      ([.registerDataGpio 18 1, .setBufferedByte 18 0 0xA5#8] ++ [.sendBuffers]) = .ok t :=
    Run.run_snoc_eq_ok.2 ⟨s, hrun, map_eq_ok.2 ⟨_, map_eq_ok.2 ⟨_, hsend, rfl⟩, rfl⟩⟩
  obtain ⟨n, hn, halloc⟩ := handedOut_of_run hs hrun' blk hblk
  exact ⟨s₀, s, t, tr, blk, hs, hrun, hr, hsend, hblk, addressableMemory_replying n hn blk halloc⟩

theorem send_interleaved_one_byte :
    ∃ (s t : DMAMultiSPI) (tr : Transfer) (blk : UncachedMemBlock) (m : DMAMultiSPI) (m₀ : Machine),
      s.sendBuffers (Env.replying 0x40001000#32) = .ok (t, tr) ∧
      s.beginSend (Env.replying 0x40001000#32) DmaChannel.afterReset [] = .ok (m, m₀) ∧ ∀ es,
        SendInvariant t.mem (tr.entries.flatMap entryWords) [] es (Schedule.after (Machine.step blk) m₀ es) := by
  obtain ⟨-, s, t, tr, blk, -, -, hr, hsend, hblk, haddr⟩ := one_byte_send
  obtain ⟨m, m₀, hbegin, -, hall⟩ := send_interleaved hr hsend hblk haddr (c := DmaChannel.afterReset) rfl rfl []
  exact ⟨s, t, tr, blk, m, m₀, hsend, hbegin, hall⟩

theorem send_returns_one_byte :
    ∃ (s : DMAMultiSPI) (blk : UncachedMemBlock) (m : DMAMultiSPI) (m₀ : Machine),
      s.beginSend (Env.replying 0x40001000#32) DmaChannel.afterReset [] = .ok (m, m₀) ∧
      (Schedule.after (Machine.step blk) m₀ (List.replicate 153 [.engine, .cpu]).flatten).todo = [] := by
  obtain ⟨-, s, t, tr, blk, -, -, hr, hsend, hblk, haddr⟩ := one_byte_send
  obtain ⟨m, m₀, hbegin, hall⟩ := send_returns hr hsend hblk haddr (c := DmaChannel.afterReset) rfl []
  refine ⟨s, blk, m, m₀, hbegin, hall _ (fun r hr => ?_) ?_⟩
  · rw [List.eq_of_mem_replicate hr]; decide
  · rw [List.length_replicate]; decide

theorem life_refines_one_byte :
    ∃ (s₀ s : DMAMultiSPI) (bus : List BusWrite), create (fun _ => 0#32) 27 0 0 = .ok s₀ ∧
      run (Bus.step (Env.replying 0x40001000#32)) ⟨s₀, 0#32⟩
        [.registerDataGpio 18 1, .setBufferedByte 18 0 0xA5#8, .sendBuffers] =
          .ok ⟨s, levels 0#32 (bus.flatMap portWrites)⟩ := by
  obtain ⟨s₀, s, t, tr, blk, hs, hrun, hr, hsend, hblk, haddr⟩ := one_byte_send
  obtain ⟨u, hu, hrest⟩ := bind_eq_ok.1 (Run.run_cons .. ▸ hrun)
  obtain ⟨v, hv, hrest⟩ := bind_eq_ok.1 (Run.run_cons .. ▸ hrest)
  cases hrest
  obtain ⟨m, m₀, hbegin, hkeep, -, n, hn, hphase⟩ :=
    phase_beginSend hr hsend hblk haddr (c := DmaChannel.afterReset) rfl []
  -- the CPU and the engine take turns
  have hover := (progress.done (hphase False fun h => h.elim) (List.replicate 153 [.engine, .cpu])
    (fun r hr m => by rw [List.eq_of_mem_replicate hr]; unfold driver; split <;> (try split) <;> decide)
    (by rw [List.length_replicate]; exact hn)).todo_of_zero
  have hclean : Event.fail ∉ (List.replicate 153 [Event.engine, Event.cpu]).flatten := fun hmem => by
    obtain ⟨r, hr, hmem⟩ := List.mem_flatten.1 hmem
    rw [List.eq_of_mem_replicate hr] at hmem
    exact absurd hmem (by decide)
  have start : Life (Env.replying 0x40001000#32) s₀ [] s₀ DmaChannel.afterReset [] := .start rfl rfl
  have life := Life.send (.call (.call start (by simp) hu) (by simp) hv) hbegin
    (show m.alloced = some blk by rw [← hblk, hkeep]) hclean rfl hover
  exact ⟨s₀, _, _, hs, (life_refines (by decide) hs addressableMemory_replying (by decide) life 0#32).2⟩

end DMAMultiSPI

end Spixels
