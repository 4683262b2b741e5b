import Spixels.DmaBuffer
import Spixels.DmaChain

/-!
# Histories of the DMA backend

`Represents` is the invariant of a `DMAMultiSPI` over its whole life: the shadow buffer is the rendering of the
streams asked for so far, the three sizes agree, and once the chain has been built it stays.  Each call keeps it:
`registerDataGpio_spec`, `setBufferedByte_spec`, `sendBuffers_spec`, hence every accepted history does:
`represents_of_run`.  The last one also says what a send plays.
-/

namespace Spixels

open Run (run bind_eq_ok map_eq_ok)

namespace DMAMultiSPI

/-! ### The copy into uncached memory -/

theorem readGpioData_write (m : Mem) (off : Nat) (e : GpioData) :
    readGpioData (writeGpioData m off e) off = e := by
  simp (disch := omega) only [readGpioData, writeGpioData, Mem.write_same, Mem.write_ne]

theorem readGpioData_write_ne (m : Mem) {off off' : Nat} (e : GpioData) (h : off' + 16 ≤ off) :
    readGpioData (writeGpioData m off e) off' = readGpioData m off' := by
  simp (disch := omega) only [readGpioData, writeGpioData, Mem.write_ne]

theorem writeGpioData_below (m : Mem) {off o : Nat} (e : GpioData) (h : o < off) :
    writeGpioData m off e o = m o := by
  simp (disch := omega) only [writeGpioData, Mem.write_ne]

private theorem copy_below (m : Mem) (dst : Nat) (shadow : List GpioData) (k : Nat) :
    (∀ o < dst, (List.range k).foldl
        (fun m i => writeGpioData m (dst + sizeofGpioData * i) (shadow.getD i GpioData.zero)) m o = m o) ∧
      ∀ i < k, readGpioData ((List.range k).foldl
        (fun m i => writeGpioData m (dst + sizeofGpioData * i) (shadow.getD i GpioData.zero)) m)
          (dst + sizeofGpioData * i) = shadow.getD i GpioData.zero := by
  induction k with
  | zero => exact ⟨fun _ _ => rfl, fun i hi => absurd hi (by omega)⟩
  | succ k ih =>
    obtain ⟨hbelow, hread⟩ := ih
    simp only [List.range_succ, List.foldl_append, List.foldl_cons, List.foldl_nil]
    refine ⟨fun o ho => ?_, fun i hi => ?_⟩
    · rw [writeGpioData_below _ _ (by omega), hbelow o ho]
    · rcases Nat.lt_or_ge i k with hik | hik
      · rw [readGpioData_write_ne _ _ (by unfold sizeofGpioData; omega), hread i hik]
      · obtain rfl : i = k := by omega
        exact readGpioData_write _ _ _

/-- The copy leaves the control blocks alone. -/
theorem copyShadow_below (m : Mem) {dst o : Nat} (shadow : List GpioData) (n : Nat) (h : o < dst) :
    copyShadow m dst shadow n o = m o := (copy_below m dst shadow _).1 o h

/-- What is played after a copy of the whole shadow. -/
theorem played_copyShadow (m : Mem) (dst : Nat) (shadow : List GpioData) :
    played (copyShadow m dst shadow (16 * shadow.length)) dst shadow.length = shadow := by
  have hdiv : 16 * shadow.length / sizeofGpioData = shadow.length := by unfold sizeofGpioData; omega
  have hread := (copy_below m dst shadow (16 * shadow.length / sizeofGpioData)).2
  apply List.ext_getElem
  · simp [played]
  · intro i h1 h2
    simp only [played, List.getElem_map, List.getElem_range, copyShadow]
    rw [hread i (by rw [hdiv]; exact h2)]
    simp [h2]

/-! ### The invariant -/

/-- The chain for streams of `n` bytes is in place. -/
def Ready (n : Nat) (s : DMAMultiSPI) : Prop :=
  ∃ blk, s.alloced = some blk ∧ s.gpioDma = some (gpioBase n) ∧ s.startBlock = 0 ∧ allocSize n ≤ blk.size ∧
    allocSize n < 2 ^ 31 ∧
    (∀ j < controlBlocks n, readCb s.mem (32 * j) = cbAt blk (gpioBase n) (gpioOps n) j
      (if j + 1 < controlBlocks n then blk.busAddr + BitVec.ofNat 32 (32 * (j + 1)) else 0#32)) ∧
    (n = 0 → ∀ o, gpioBase n ≤ o → s.mem o = 0#32)

structure Represents (clk : Int) (garbage : Nat) (h : List Call) (s : DMAMultiSPI) : Prop where
  clock : s.clockGpio = clk
  size : s.serialByteSize = (streams h).size
  bounded : (streams h).Bounded
  fits : gpioOps (streams h).size < 2 ^ 31
  shadow : s.gpioShadow = if (streams h).size = 0 then none else some (render clk (streams h))
  bufferSize : s.gpioBufferSize = if (streams h).size = 0 then garbage else 16 * gpioOps (streams h).size
  outputs : Outputs clk h s.gpio
  unsent : Call.sendBuffers ∉ h → s.gpioDma = none ∧ s.alloced = none
  sent : Call.sendBuffers ∈ h → Ready (streams h).size s

section Steps

variable {clk : Int} {garbage : Nat} {env : Env} {h : List Call} {s t : DMAMultiSPI}

theorem create_spec {port : Nat → BitVec 32} {startGarbage : Nat}
    (hs : create port clk garbage startGarbage = .ok s) :
    Represents clk garbage [] s := by
  unfold create at hs
  split at hs
  rename_i gpio success heq
  split at hs
  · rename_i hsucc
    cases hs
    have hout := Outputs.initialised clk port (by rw [heq]; exact hsucc)
    rw [heq] at hout
    exact ⟨rfl, rfl, fun g p b hb => (by cases hb), by decide, rfl, rfl, hout, fun _ => ⟨rfl, rfl⟩,
      fun hm => absurd hm (by simp)⟩
  · cases hs

/-- Growing by a larger request. -/
theorem grow_spec (hc : IsPin clk) (hr : Represents clk garbage h s) {n : Nat} (hn : (streams h).size < n)
    (hfit : gpioOps n < 2 ^ 31) :
    s.grow env n = .ok { s with
      serialByteSize := n, gpioBufferSize := 16 * gpioOps n
      gpioShadow := some (render clk ((streams h).register n)) } := by
  have hprev : bytesToGpioOps s.serialByteSize = .ok (gpioOps (streams h).size) :=
    bytesToGpioOps_eq_ok.2 (by rw [hr.size]; exact ⟨hr.fits, rfl⟩)
  have hnew : bytesToGpioOps n = .ok (gpioOps n) := bytesToGpioOps_eq_ok.2 ⟨hfit, rfl⟩
  have hold : s.gpioShadow.getD [] = [] ∧ (streams h).size = 0 ∨
      s.gpioShadow.getD [] = render clk (streams h) := by
    rw [hr.shadow]; split
    · rename_i h0; exact .inl ⟨rfl, h0⟩
    · exact .inr rfl
  have hrender := grow_render hc hr.bounded hn (env.fresh (gpioOps n * sizeofGpioData)) hold
  refine bind_eq_ok.2 ⟨_, hprev, bind_eq_ok.2 ⟨_, hnew, congrArg Except.ok ?_⟩⟩
  rw [growTo]
  simp only [gpioOps, Nat.add_sub_cancel] at hrender ⊢
  rw [hr.clock, hrender, sizeofGpioData, Nat.mul_comm _ 16]

/-- A registration is refused after a send, and with a size that does not fit; any other one is recorded. -/
theorem registerDataGpio_spec (env : Env) (hc : IsPin clk) (hr : Represents clk garbage h s)
    (hu : Call.sendBuffers ∉ h) (g : Int) {n : Nat} (hfit : gpioOps n < 2 ^ 31) :
    ∃ t, s.registerDataGpio env g n = .ok (t, Gpio.accepts g) ∧
      Represents clk garbage (h ++ [.registerDataGpio g n]) t := by
  have hσ : streams (h ++ [.registerDataGpio g n]) = (streams h).register n := streams_snoc h _
  have hu' : Call.sendBuffers ∉ h ++ [Call.registerDataGpio g n] := by simp [hu]
  have hdma := hr.unsent hu
  unfold registerDataGpio
  rw [if_pos hdma.1]
  by_cases hn : n > s.serialByteSize
  · have hn' : (streams h).size < n := by rw [← hr.size]; exact hn
    have hsz : ((streams h).register n).size = n := by simp; omega
    refine ⟨{ s with
      serialByteSize := n, gpioBufferSize := 16 * gpioOps n
      gpioShadow := some (render clk ((streams h).register n)), gpio := (s.gpio.addOutput g).1 }, ?_, ?_⟩
    · rw [if_pos hn, ← Gpio.addOutput_snd hr.outputs.mapped]
      exact map_eq_ok.2 ⟨_, grow_spec hc hr hn' hfit, rfl⟩
    · refine ⟨hr.clock, by rw [hσ, hsz], by rw [hσ]; exact hr.bounded.register n, by rw [hσ, hsz]; exact hfit,
        ?_, ?_, hr.outputs.register g n, fun _ => hdma, fun hm => absurd hm hu'⟩
      · rw [hσ, hsz, if_neg (by omega)]
      · rw [hσ, hsz, if_neg (by omega)]
  · have hsz : (streams h).register n = streams h := by
      have hle : n ≤ (streams h).size := by rw [← hr.size]; omega
      rw [Streams.register, Nat.max_eq_left hle]
    refine ⟨{ s with gpio := (s.gpio.addOutput g).1 }, ?_, ?_⟩
    · rw [if_neg hn, ← Gpio.addOutput_snd hr.outputs.mapped]
      rfl
    · have hσ' := hσ.trans hsz
      exact ⟨hr.clock, by rw [hσ']; exact hr.size, by rw [hσ']; exact hr.bounded, by rw [hσ']; exact hr.fits,
        by rw [hσ']; exact hr.shadow, by rw [hσ']; exact hr.bufferSize, hr.outputs.register g n, fun _ => hdma,
        fun hm => absurd hm hu'⟩

/-- A byte within the common length is recorded. -/
theorem setBufferedByte_spec (hr : Represents clk garbage h s) {g : Int} (hg : IsPin g) {p : Nat}
    (hp : p < (streams h).size) (b : BitVec 8) :
    ∃ t, s.setBufferedByte g p b = .ok t ∧ Represents clk garbage (h ++ [.setBufferedByte g p b]) t := by
  have hσ : streams (h ++ [.setBufferedByte g p b]) = (streams h).set g p b := streams_snoc h _
  have hsz : ((streams h).set g p b).size = (streams h).size := rfl
  have hpos : (streams h).size ≠ 0 := by omega
  have hmem : Call.sendBuffers ∈ h ++ [Call.setBufferedByte g p b] ↔ Call.sendBuffers ∈ h := by simp
  have hsh : s.gpioShadow = some (render clk (streams h)) := by rw [hr.shadow, if_neg hpos]
  refine ⟨{ s with gpioShadow := some (render clk ((streams h).set g p b)) }, ?_, ?_⟩
  · unfold setBufferedByte
    rw [if_pos (by rw [hr.size]; exact hp), hsh]
    dsimp only
    rw [if_pos (by rw [length_render]; omega), paint_render hg]
  · refine ⟨hr.clock, by rw [hσ, hsz]; exact hr.size, by rw [hσ]; exact hr.bounded.set g hp b,
      by rw [hσ, hsz]; exact hr.fits, by rw [hσ, hsz, if_neg hpos], by rw [hσ, hsz]; exact hr.bufferSize,
      hr.outputs.keep (by simp), fun hu => hr.unsent (by rwa [hmem] at hu), fun hs => ?_⟩
    rw [hσ, hsz]
    exact hr.sent (hmem.1 hs)

/-- A byte beyond the common length trips the assertion. -/
theorem setBufferedByte_inv (hr : Represents clk garbage h s) {g : Int} {p : Nat} {b : BitVec 8}
    (ht : s.setBufferedByte g p b = .ok t) : p < (streams h).size := by
  unfold setBufferedByte at ht
  split at ht
  · rename_i hp; rwa [hr.size] at hp
  · cases ht

theorem registerDataGpio_inv (hr : Represents clk garbage h s) {g : Int} {n : Nat} {r : DMAMultiSPI × Bool}
    (ht : s.registerDataGpio env g n = .ok r) : Call.sendBuffers ∉ h ∧ gpioOps n < 2 ^ 31 := by
  unfold registerDataGpio at ht
  split at ht
  · rename_i hdma
    constructor
    · intro hm
      obtain ⟨blk, -, hd, -⟩ := hr.sent hm
      rw [hdma] at hd; cases hd
    · obtain ⟨m, hm, -⟩ := map_eq_ok.1 ht
      split at hm
      · obtain ⟨a, -, hm⟩ := bind_eq_ok.1 hm
        obtain ⟨b, hb, -⟩ := bind_eq_ok.1 hm
        exact (bytesToGpioOps_eq_ok.1 hb).1
      · rename_i hn
        have := hr.fits
        rw [← hr.size] at this
        unfold gpioOps at this ⊢
        omega
  · cases ht

/-! ### Sending -/

/-- The first send builds the chain, the later ones find it. -/
theorem prepareSend_spec (hr : Represents clk garbage h s) (ht : s.prepareSend env = .ok t) :
    Ready (streams h).size t ∧ t = { s with
      alloced := t.alloced, mem := t.mem, gpioDma := t.gpioDma, startBlock := t.startBlock } := by
  unfold prepareSend at ht
  split at ht
  · obtain ⟨hal, hsize, blk, hblk⟩ := finishRegistration_inv ht
    obtain ⟨m, hm, hchain⟩ := finishRegistration_spec hal hsize hblk
    rw [hm] at ht
    cases ht
    obtain ⟨hsz, -⟩ := size_of_alloc hblk
    rw [hr.size] at hsize hchain ⊢
    refine ⟨⟨blk, rfl, rfl, rfl, ?_, hsize, hchain.blocks, fun _ => hchain.rest⟩, rfl⟩
    rw [hsz, hr.size]; exact le_roundUpToPage hsize
  · rename_i hd
    cases ht
    refine ⟨hr.sent (by_contra fun hu => hd (hr.unsent hu).1), rfl⟩

/-- The copy of a send, when the buffer has grown at least once. -/
theorem copyArgs_eq (hr : Represents clk garbage h s) (dst : Nat) :
    s.copyArgs dst = if (streams h).size = 0 then ⟨dst, 0, garbage⟩
      else ⟨dst, 16 * gpioOps (streams h).size, 16 * gpioOps (streams h).size⟩ := by
  rw [copyArgs, hr.shadow, hr.bufferSize]
  split
  · rfl
  · simp [sizeofGpioData, gpioOps]

/-- The copy of a send plays the rendering of the streams.  Without a stream it reads nothing. -/
theorem copyShadow_spec (hr : Represents clk garbage h s) (mem : Mem) (dst : Nat)
    (hin : (s.copyArgs dst).n ≤ (s.copyArgs dst).src) :
    if (streams h).size = 0 then copyShadow mem dst (s.gpioShadow.getD []) (s.copyArgs dst).n = mem
    else played (copyShadow mem dst (s.gpioShadow.getD []) (s.copyArgs dst).n) dst (gpioOps (streams h).size) =
      render clk (streams h) := by
  rw [copyArgs_eq hr] at hin ⊢
  by_cases h0 : (streams h).size = 0
  · simp only [h0, ↓reduceIte] at hin ⊢
    rw [Nat.le_zero.1 hin]
    simp [copyShadow]
  · simp only [h0, ↓reduceIte, hr.shadow, Option.getD_some]
    have hp := played_copyShadow mem dst (render clk (streams h))
    rwa [length_render] at hp

/-- The copy leaves the chain in place. -/
theorem readCb_copyShadow (m : Mem) {dst j : Nat} (shadow : List GpioData) (n : Nat) (hj : 32 * j + 32 ≤ dst) :
    readCb (copyShadow m dst shadow n) (32 * j) = readCb m (32 * j) := by
  simp (disch := omega) only [readCb, copyShadow_below]

/-- What a send does: the copy, and the start of the transfer. -/
theorem sendBuffers_inv {tr : Transfer} (ht : s.sendBuffers env = .ok (t, tr)) :
    ∃ m blk dst ops, s.prepareSend env = .ok m ∧ m.alloced = some blk ∧ m.gpioDma = some dst ∧
      bytesToGpioOps m.serialByteSize = .ok ops ∧ (m.copyArgs dst).n ≤ (m.copyArgs dst).src ∧
      t = { m with mem := copyShadow m.mem dst (m.gpioShadow.getD []) (m.copyArgs dst).n } ∧
      uncachedMemBlockToPhysical blk m.startBlock = .ok tr.cblock ∧ tr.entries = played t.mem dst ops := by
  obtain ⟨m, hm, ht⟩ := bind_eq_ok.1 ht
  split at ht
  · rename_i blk dst hal hdma
    dsimp only at ht
    split at ht
    · rename_i hin
      obtain ⟨cb, hcb, ht⟩ := bind_eq_ok.1 ht
      obtain ⟨ops, hops, ht⟩ := bind_eq_ok.1 ht
      cases ht
      exact ⟨m, blk, dst, ops, hm, hal, hdma, hops, hin.1, rfl, hcb, rfl⟩
    · cases ht
  · cases ht

/-- What a send plays: the rendering of the streams.  Without a stream the block is still zero. -/
theorem sendBuffers_spec (hr : Represents clk garbage h s) {tr : Transfer}
    (ht : s.sendBuffers env = .ok (t, tr)) :
    Represents clk garbage (h ++ [.sendBuffers]) t ∧
      tr.entries = if (streams h).size = 0 then [GpioData.zero] else render clk (streams h) := by
  obtain ⟨m, blk', dst, ops, hm, hal', hdma', hops', hin, rfl, -, hentries⟩ := sendBuffers_inv ht
  obtain ⟨⟨blk, hal, hdma, hst, hroom, hfit, hblocks, hzero⟩, hkeep⟩ := prepareSend_spec hr hm
  obtain rfl : gpioBase (streams h).size = dst := Option.some.inj (hdma.symm.trans hdma')
  -- everything but the uncached block is still as in `s`
  have hsh : m.gpioShadow = s.gpioShadow := by rw [hkeep]
  have hsb : m.serialByteSize = (streams h).size := by rw [hkeep]; exact hr.size
  have hargs : m.copyArgs (gpioBase (streams h).size) = s.copyArgs (gpioBase (streams h).size) := by
    rw [hkeep]; rfl
  obtain rfl : ops = gpioOps (streams h).size := by rw [← hsb]; exact (bytesToGpioOps_eq_ok.1 hops').2
  have hσ : streams (h ++ [.sendBuffers]) = streams h := streams_snoc h _
  have hcopy := copyShadow_spec hr m.mem (gpioBase (streams h).size) (by rw [← hargs]; exact hin)
  rw [← hargs, ← hsh] at hcopy
  constructor
  · refine ⟨by rw [hkeep]; exact hr.clock, by rw [hσ]; exact hsb, by rw [hσ]; exact hr.bounded,
      by rw [hσ]; exact hr.fits, by rw [hσ]; exact hsh.trans hr.shadow, by rw [hσ, hkeep]; exact hr.bufferSize,
      by rw [hkeep]; exact hr.outputs.keep (by simp), fun hu => absurd (by simp) hu, fun _ => ?_⟩
    rw [hσ]
    refine ⟨blk, hal, hdma, hst, hroom, hfit, fun j hj => ?_, fun h0 o ho => ?_⟩
    · rw [← hblocks j hj]
      exact readCb_copyShadow _ _ _ (by unfold gpioBase; omega)
    · rw [if_pos h0] at hcopy
      exact (congrFun hcopy o).trans (hzero h0 o ho)
  · by_cases h0 : (streams h).size = 0
    · rw [if_pos h0] at hcopy ⊢
      rw [hentries]
      dsimp only
      rw [hcopy]
      have hz := hzero h0
      simp only [h0, gpioOps, played] at hz ⊢
      simp [readGpioData, GpioData.zero, hz, List.range_succ]
    · rw [if_neg h0] at hcopy ⊢
      exact hentries.trans hcopy

end Steps

/-! ### Whole histories -/

section Histories

variable {clk : Int} {garbage : Nat} {env : Env} {s t : DMAMultiSPI}

/-- An accepted call is recorded. -/
theorem represents_step (hc : IsPin clk) {h : List Call} (hr : Represents clk garbage h s) {c : Call}
    (hp : PinsOnly (h ++ [c])) (ht : s.step env c = .ok t) : Represents clk garbage (h ++ [c]) t := by
  obtain ⟨⟨t', o⟩, hcall, rfl⟩ := map_eq_ok.1 ht
  cases c with
  | registerDataGpio g n =>
    obtain ⟨r, hreg, he⟩ := map_eq_ok.1 hcall
    obtain ⟨hu, hfit⟩ := registerDataGpio_inv hr hreg
    obtain ⟨t, hok, hrep⟩ := registerDataGpio_spec env hc hr hu g hfit
    rw [hok] at hreg
    cases hreg; cases he
    exact hrep
  | setBufferedByte g p b =>
    obtain ⟨r, hset, he⟩ := map_eq_ok.1 hcall
    obtain ⟨t, hok, hrep⟩ := setBufferedByte_spec hr (hp g p b (by simp)) (setBufferedByte_inv hr hset) b
    rw [hok] at hset
    cases hset; cases he
    exact hrep
  | sendBuffers =>
    obtain ⟨⟨r, tr⟩, hsend, he⟩ := map_eq_ok.1 hcall
    cases he
    exact (sendBuffers_spec hr hsend).1

/-- The invariant holds after every accepted history. -/
theorem represents_of_run {port : Nat → BitVec 32} {startGarbage : Nat} (hc : IsPin clk)
    (hs : create port clk garbage startGarbage = .ok s) {h : List Call} (hp : PinsOnly h)
    (ht : run (step env) s h = .ok t) : Represents clk garbage h t := by
  refine Run.run_induct (fun h t => PinsOnly h → Represents clk garbage h t)
    (fun _ => create_spec hs) ?_ ht hp
  intro h m c t _ ih hstep hp
  exact represents_step hc (ih hp.of_append) hp hstep

theorem create_ok (port : Nat → BitVec 32) (garbage startGarbage : Nat) (ha : Gpio.accepts clk = true) :
    ∃ s, create port clk garbage startGarbage = .ok s := by
  have hsucc := (Gpio.addOutput_snd (g := Gpio.initialised port) rfl clk).trans ha
  unfold create
  dsimp only
  rw [if_pos hsucc]
  exact ⟨_, rfl⟩

/-- Registrations that fit and bytes in range are all accepted. -/
theorem run_registration {port : Nat → BitVec 32} {startGarbage : Nat} (env : Env) (hc : IsPin clk)
    (hs : create port clk garbage startGarbage = .ok s) {h : List Call} (hu : Call.sendBuffers ∉ h)
    (hp : PinsOnly h) (hin : InRange h) (hfit : gpioOps (streams h).size < 2 ^ 31) :
    ∃ t, run (step env) s h = .ok t ∧ Represents clk garbage h t := by
  refine Run.run_total _ (create_spec hs) fun pre m c hpre hr => ?_
  have hc' : c ∈ h := hpre.subset (by simp)
  have hu' : Call.sendBuffers ∉ pre := fun hm => hu (hpre.subset (by simp [hm]))
  cases c with
  | registerDataGpio g n =>
    have hn := le_size_streams hc'
    obtain ⟨t, ht, hrep⟩ := registerDataGpio_spec env hc hr hu' g (n := n) (by unfold gpioOps at *; omega)
    exact ⟨t, map_eq_ok.2 ⟨_, map_eq_ok.2 ⟨_, ht, rfl⟩, rfl⟩, hrep⟩
  | setBufferedByte g p b =>
    obtain ⟨t, ht, hrep⟩ := setBufferedByte_spec hr (hp g p b hc') (hin pre _ hpre) b
    exact ⟨t, map_eq_ok.2 ⟨_, map_eq_ok.2 ⟨_, ht, rfl⟩, rfl⟩, hrep⟩
  | sendBuffers => exact absurd hc' hu

end Histories

end DMAMultiSPI

end Spixels
