import Spixels.DmaHistory

/-!
# The copy of a send

Three sizes have to agree when `SendBuffers` copies the shadow buffer behind the control blocks: that of the
shadow, `gpioBufferSize` and that of the operation area.  They do as soon as the buffer has grown once:
`copiesAll_of_pos`.  Before that `gpioBufferSize` has never been set: `copiesAll_iff`.  What has been copied is
what the DMA engine moves when it follows the chain: `sendBuffers_plays`.
-/

namespace Spixels

open Run (run bind_eq_ok map_eq_ok)

namespace DMAMultiSPI

/-- With the chain in place, the copy reads inside the shadow buffer, writes inside the operations behind the
control blocks, and copies all of the operations that are played. -/
def CopiesAll (s : DMAMultiSPI) : Prop :=
  ∃ blk dst ops, s.alloced = some blk ∧ s.gpioDma = some dst ∧ bytesToGpioOps s.serialByteSize = .ok ops ∧
    (s.copyArgs dst).n ≤ (s.copyArgs dst).src ∧
    (s.copyArgs dst).dst + (s.copyArgs dst).n ≤ dst + sizeofGpioData * ops ∧
      dst + sizeofGpioData * ops ≤ blk.size ∧
    (s.copyArgs dst).n = sizeofGpioData * ops

section Sends

variable {clk : Int} {garbage : Nat} {env : Env} {h : List Call} {s t : DMAMultiSPI}

/-- The block can be had. -/
theorem prepareSend_ok (env : Env) (hr : Represents clk garbage h s) (hsize : allocSize (streams h).size < 2 ^ 31)
    {blk : UncachedMemBlock} (hblk : uncachedMemBlockAlloc env.mbox (allocSize (streams h).size) = .ok blk) :
    ∃ t, s.prepareSend env = .ok t := by
  by_cases hm : Call.sendBuffers ∈ h
  · obtain ⟨b, -, hdma, -⟩ := hr.sent hm
    exact ⟨s, by rw [prepareSend, hdma]; rfl⟩
  · obtain ⟨hdma, hal⟩ := hr.unsent hm
    rw [← hr.size] at hsize hblk
    obtain ⟨m, hfin, -⟩ := finishRegistration_spec hal hsize hblk
    exact ⟨_, by rw [prepareSend, if_pos hdma]; exact hfin⟩

/-- Once a stream has some length, the sizes agree. -/
theorem copiesAll_of_pos (hr : Represents clk garbage h s) (hpos : 0 < (streams h).size)
    (ht : s.prepareSend env = .ok t) : t.CopiesAll := by
  obtain ⟨⟨blk, hal, hdma, -, hroom, -⟩, hkeep⟩ := prepareSend_spec hr ht
  have hops : bytesToGpioOps t.serialByteSize = .ok (gpioOps (streams h).size) :=
    bytesToGpioOps_eq_ok.2 (by rw [hkeep]; exact ⟨by rw [hr.size]; exact hr.fits, by rw [hr.size]⟩)
  have hargs : t.copyArgs (gpioBase (streams h).size) = ⟨gpioBase (streams h).size,
      16 * gpioOps (streams h).size, 16 * gpioOps (streams h).size⟩ := by
    rw [hkeep]
    exact (copyArgs_eq hr _).trans (if_neg (by omega))
  refine ⟨blk, gpioBase (streams h).size, gpioOps (streams h).size, hal, hdma, hops, ?_⟩
  rw [hargs]
  exact ⟨le_refl _, le_refl _, hroom, rfl⟩

/-- The operation that a row from the bus address `a` on moves. -/
def busEntry (blk : UncachedMemBlock) (m : Mem) (a : BitVec 32) : GpioData :=
  { set := busRead blk m a, ignoredUpperSetBits := busRead blk m (a + 4#32)
    reservedArea := busRead blk m (a + 8#32), clr := busRead blk m (a + 12#32) }

theorem busEntry_add (blk : UncachedMemBlock) (m : Mem) {o : Nat} (ho : o + 12 < 2 ^ 32) :
    busEntry blk m (blk.busAddr + BitVec.ofNat 32 o) = readGpioData m o := by
  have h : ∀ c ≤ 12, busRead blk m (blk.busAddr + BitVec.ofNat 32 o + BitVec.ofNat 32 c) = m (o + c) := by
    intro c hc
    rw [BitVec.add_assoc, ← BitVec.ofNat_add, busRead_add _ _ (by omega)]
  simp only [busEntry, readGpioData, busRead_add blk m (show o < 2 ^ 32 by omega), h 4 (by omega), h 8 (by omega),
    h 12 (by omega)]

/-- The transfer of a send: the DMA engine follows the chain from the control block it is given, and the rows move
the operations that the send is said to play. -/
theorem sendBuffers_plays (hr : Represents clk garbage h s) {tr : Transfer}
    (ht : s.sendBuffers env = .ok (t, tr)) {blk : UncachedMemBlock} (hblk : t.alloced = some blk)
    (hne : blk.busAddr ≠ 0#32) (halign : blk.busAddr.toNat % 32 = 0)
    (hwrap : blk.busAddr.toNat + blk.size ≤ 2 ^ 32) :
    Plays blk (streams h).size t.mem tr.cblock ∧
      tr.entries = ((cbAddrs blk (streams h).size).flatMap fun a =>
        DmaEngine.rows (DmaEngine.fetch (busRead blk t.mem) a)).map fun r => busEntry blk t.mem r.src := by
  obtain ⟨m, blk', dst, ops, hm, hal, hdma, hops, -, hkt, hcb, hentries⟩ := sendBuffers_inv ht
  obtain ⟨⟨blk'', hal', hdma', hst, hroom, hsize, hblocks, -⟩, hkeep⟩ := prepareSend_spec hr hm
  have hmblk : m.alloced = some blk := by rw [← hblk, hkt]
  obtain rfl : blk' = blk := Option.some.inj (hal.symm.trans hmblk)
  obtain rfl : blk' = blk'' := Option.some.inj (hal.symm.trans hal')
  obtain rfl : dst = gpioBase (streams h).size := Option.some.inj (hdma.symm.trans hdma')
  have hsb : m.serialByteSize = (streams h).size := by rw [hkeep]; exact hr.size
  obtain rfl : ops = gpioOps (streams h).size := by rw [← hsb]; exact (bytesToGpioOps_eq_ok.1 hops).2
  have hlen : allocSize (streams h).size = gpioBase (streams h).size + 16 * gpioOps (streams h).size := rfl
  -- the chain starts at the first control block, and the copy leaves it alone
  have hstart : tr.cblock = blk'.busAddr := by
    rw [hst, toPhysical_eq_ok _ (by unfold gpioOps at hlen; omega) (by decide)] at hcb
    simpa using (Except.ok.inj hcb).symm
  have hplays : Plays blk' (streams h).size t.mem blk'.busAddr := by
    refine plays_of_blocks (fun j hj => ?_) hne halign hroom (by omega)
    rw [hkt, ← hblocks j hj]
    exact readCb_copyShadow _ _ _ (by unfold gpioBase; omega)
  refine ⟨by rw [hstart]; exact hplays, ?_⟩
  have hrows := congrArg (List.map (busEntry blk' t.mem)) hplays.reads
  rw [List.map_map, List.map_map] at hrows
  rw [hentries]
  refine Eq.trans (List.map_congr_left fun k hk => ?_) hrows.symm
  have hk' := List.mem_range.1 hk
  exact (busEntry_add _ _ (by unfold sizeofGpioData; omega)).symm

/-- Without any length the copy takes the uninitialised `gpioBufferSize` and starts at `NULL`. -/
theorem not_copiesAll_of_zero (hr : Represents clk garbage h s) (h0 : (streams h).size = 0)
    (ht : s.prepareSend env = .ok t) : ¬t.CopiesAll := by
  obtain ⟨-, hkeep⟩ := prepareSend_spec hr ht
  have hargs : ∀ dst, t.copyArgs dst = ⟨dst, 0, garbage⟩ := fun dst => by
    rw [hkeep]; exact (copyArgs_eq hr dst).trans (if_pos h0)
  rintro ⟨blk, dst, ops, -, -, hops, hread, -, -, hall⟩
  rw [hargs] at hread hall
  obtain ⟨-, rfl⟩ := bytesToGpioOps_eq_ok.1 hops
  simp only [gpioOps, sizeofGpioData] at hread hall
  omega

/-- A send that can have its block and copies inside its buffers goes through. -/
theorem sendBuffers_ok (env : Env) (hr : Represents clk garbage h s) (hpos : 0 < (streams h).size)
    (hsize : allocSize (streams h).size < 2 ^ 31) {blk : UncachedMemBlock}
    (hblk : uncachedMemBlockAlloc env.mbox (allocSize (streams h).size) = .ok blk) :
    ∃ t tr, s.sendBuffers env = .ok (t, tr) := by
  obtain ⟨t, ht⟩ := prepareSend_ok env hr hsize hblk
  obtain ⟨blk', dst, ops, hal, hdma, hops, hread, hwrite, hroom, -⟩ := copiesAll_of_pos hr hpos ht
  obtain ⟨⟨b, hal', -, hst, hle, -⟩, -⟩ := prepareSend_spec hr ht
  rw [hal] at hal'
  cases hal'
  have hblock : 0 < blk'.size := by unfold allocSize gpioOps at hle; omega
  have hphys := toPhysical_eq_ok blk' (p := t.startBlock) (by rw [hst]; exact hblock) (by rw [hst]; decide)
  have hsend : ∃ r, s.sendBuffers env = .ok r := by
    rw [sendBuffers, ht]
    dsimp only [bind, Except.bind]
    rw [hal, hdma]
    dsimp only
    rw [if_pos ⟨hread, le_trans hwrite hroom⟩, hphys, hops]
    exact ⟨_, rfl⟩
  obtain ⟨⟨r, tr⟩, hr'⟩ := hsend
  exact ⟨r, tr, hr'⟩

/-- Sending again and again. -/
theorem run_sends (env : Env) (hr : Represents clk garbage h s) (hpos : 0 < (streams h).size)
    (hsize : allocSize (streams h).size < 2 ^ 31) {blk : UncachedMemBlock}
    (hblk : uncachedMemBlockAlloc env.mbox (allocSize (streams h).size) = .ok blk) (k : Nat) :
    (streams (h ++ List.replicate k .sendBuffers)) = streams h ∧
      ∃ m, run (step env) s (List.replicate k .sendBuffers) = .ok m ∧
        Represents clk garbage (h ++ List.replicate k .sendBuffers) m := by
  induction k with
  | zero => exact ⟨by simp, s, rfl, by simpa using hr⟩
  | succ k ih =>
    obtain ⟨hσ, m, hm, hrm⟩ := ih
    obtain ⟨t, tr, ht⟩ := sendBuffers_ok env hrm (by rw [hσ]; exact hpos) (by rw [hσ]; exact hsize)
      (by rw [hσ]; exact hblk)
    rw [List.replicate_succ', ← List.append_assoc]
    refine ⟨(streams_snoc _ _).trans hσ, t, Run.run_snoc_eq_ok.2 ⟨m, hm, ?_⟩, (sendBuffers_spec hrm ht).1⟩
    exact map_eq_ok.2 ⟨_, map_eq_ok.2 ⟨_, ht, rfl⟩, rfl⟩

/-- A byte only reaches the lane of its pin. -/
theorem step_lane (s : DMAMultiSPI) (c : Call) : step env s c.lane = step env s c := by
  cases c with
  | setBufferedByte g p b =>
    have hpaint : paintBit (g % 32) b = paintBit g b := by
      funext k e; rw [paintBit, paintBit, shl1_emod]
    simp only [step, call, Call.lane, setBufferedByte, hpaint]
  | registerDataGpio | sendBuffers => rfl

end Sends

/-- After registrations and bytes, every send copies exactly what is played if and only if some registration asked
for a stream of non-zero length. -/
theorem copiesAll_iff {clk : Int} (hc : IsPin clk) {port : Nat → BitVec 32} {garbage startGarbage : Nat}
    (env : Env) {s : DMAMultiSPI} (hs : create port clk garbage startGarbage = .ok s) {h : List Call}
    (hu : Call.sendBuffers ∉ h) (hin : InRange h) (hsize : allocSize (streams h).size < 2 ^ 31)
    {blk : UncachedMemBlock} (hblk : uncachedMemBlockAlloc env.mbox (allocSize (streams h).size) = .ok blk) :
    (∀ k, ∃ m t, run (step env) s (h ++ List.replicate k .sendBuffers) = .ok m ∧ m.prepareSend env = .ok t ∧
        t.CopiesAll) ↔
      ∃ g n, Call.registerDataGpio g n ∈ h ∧ 0 < n := by
  have hfit : gpioOps (streams h).size < 2 ^ 31 := by unfold allocSize at hsize; omega
  -- pins outside the bank paint the lane they are taken to
  have hσ := size_streams_lane h
  obtain ⟨m, hm, hr⟩ := run_registration env hc hs (mt sendBuffers_mem_lane.1 hu) (pinsOnly_lane h) hin.lane
    (by rw [hσ]; exact hfit)
  rw [Run.run_map step_lane] at hm
  constructor
  · intro hall
    obtain ⟨m', t, hm', ht, hcopy⟩ := hall 0
    rw [List.replicate_zero, List.append_nil, hm] at hm'
    cases hm'
    rcases Nat.eq_zero_or_pos (streams h).size with h0 | hpos
    · exact absurd hcopy (not_copiesAll_of_zero hr (hσ.trans h0) ht)
    · rcases size_streams_mem h with h0 | ⟨g, hg⟩
      · omega
      · exact ⟨g, _, hg, hpos⟩
  · rintro ⟨g, n, hg, hn⟩ k
    have hpos : 0 < (streams h).size := lt_of_lt_of_le hn (le_size_streams hg)
    rw [← hσ] at hpos hsize hblk
    obtain ⟨hσ', m', hm', hr'⟩ := run_sends env hr hpos hsize hblk k
    obtain ⟨t, ht⟩ := prepareSend_ok env hr' (by rw [hσ']; exact hsize) (by rw [hσ']; exact hblk)
    exact ⟨m', t, Run.run_append_eq_ok.2 ⟨m, hm, hm'⟩, ht, copiesAll_of_pos hr' (by rw [hσ']; exact hpos) ht⟩

/-- A strip without pixels and a strip with one. -/
theorem copiesAll_one_pixel :
    ∃ s, create (fun _ => 0#32) 27 4096 0 = .ok s ∧
      ∀ k, ∃ m t, run (step (Env.replying 0xC0001000#32)) s
          ([.registerDataGpio 18 0, .registerDataGpio 23 3, .setBufferedByte 23 0 0xFF#8] ++
            List.replicate k .sendBuffers) = .ok m ∧
        m.prepareSend (Env.replying 0xC0001000#32) = .ok t ∧ t.CopiesAll := by
  obtain ⟨s, hs⟩ := create_ok (fun _ => 0#32) 4096 0 (show Gpio.accepts 27 = true by decide)
  exact ⟨s, hs, (copiesAll_iff (by decide) (Env.replying 0xC0001000#32) hs
    (h := [.registerDataGpio 18 0, .registerDataGpio 23 3, .setBufferedByte 23 0 0xFF#8]) (by decide) (by decide)
    (by decide) (uncachedMemBlockAlloc_const (by decide) (by decide))).2 ⟨23, 3, by decide, by decide⟩⟩

/-- A strip without pixels alone: the copy of the send would read `gpioBufferSize` bytes from `NULL`. -/
theorem not_copiesAll_no_pixel :
    ∃ s m t, create (fun _ => 0#32) 27 4096 0 = .ok s ∧
      run (step (Env.replying 0xC0001000#32)) s [.registerDataGpio 18 0] = .ok m ∧
      m.prepareSend (Env.replying 0xC0001000#32) = .ok t ∧ ¬t.CopiesAll := by
  obtain ⟨s, hs⟩ := create_ok (fun _ => 0#32) 4096 0 (show Gpio.accepts 27 = true by decide)
  obtain ⟨m, hm, hr⟩ := run_registration (Env.replying 0xC0001000#32) (by decide) hs
    (h := [.registerDataGpio 18 0]) (by decide) (by decide) (by decide) (by decide)
  obtain ⟨t, ht⟩ := prepareSend_ok (Env.replying 0xC0001000#32) hr (by decide)
    (uncachedMemBlockAlloc_const (by decide) (by decide))
  exact ⟨s, m, t, hs, hm, ht, not_copiesAll_of_zero hr (by decide) ht⟩

end DMAMultiSPI

end Spixels
