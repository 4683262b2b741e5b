import Spixels.DmaEngine
import Spixels.DmaMultiSpi
import Spixels.RegisterWords

/-!
# The control-block chain of the DMA backend

`FinishRegistration` fills in one control block for each 4096 operations and links them.  The loop invariant
`ChainInv` says what the block holds after `i` iterations: the first `i` control blocks, linked in order, and
zeros.  Decoded as the engine of `DmaEngine` decodes them, the blocks read the operations behind them, each once
and in order, and write every operation to the GPIO registers: `buildChain_spec`,
`finishRegistration_plays`.
-/

namespace Spixels

open BitField (field)
open DmaEngine (ControlBlock Row)
open Run (run)

/-- What the bus shows at an address of the block. -/
def busRead (blk : UncachedMemBlock) (m : Mem) (a : BitVec 32) : BitVec 32 := m (a - blk.busAddr).toNat

theorem busRead_add (blk : UncachedMemBlock) (m : Mem) {o : Nat} (ho : o < 2 ^ 32) :
    busRead blk m (blk.busAddr + BitVec.ofNat 32 o) = m o := by
  have h : (blk.busAddr + BitVec.ofNat 32 o - blk.busAddr).toNat = o := by
    rw [BitVec.add_comm, BitVec.add_sub_cancel, BitVec.toNat_ofNat, Nat.mod_eq_of_lt ho]
  rw [busRead, h]

/-! ### The words of a control block -/

/-- The length word of a block of `n` rows of 16 bytes: the mask of the `y` length has its holes above bit 11. -/
theorem length_fields {n : Nat} (h0 : 0 < n) (h : n ≤ 4096) {w : BitVec 32}
    (hw : w = dmaCbTxfrLenYlength (BitVec.ofNat 32 n) ||| dmaCbTxfrLenXlength (BitVec.ofNat 32 16)) :
    (field w 16 14).toNat = n - 1 ∧ (field w 0 16).toNat = 16 := by
  have hn : BitVec.ofNat 32 n - 1#32 = BitVec.ofNat 32 (n - 1) := by
    apply BitVec.eq_of_toNat_eq
    simp only [BitVec.toNat_sub, BitVec.toNat_ofNat]; omega
  have hzero : field (BitVec.ofNat 32 n - 1#32) 12 3 = 0#3 := by
    rw [hn, BitField.field_eq_zero_iff]
    intro i hi
    rw [BitVec.getLsbD_ofNat, Nat.testBit_lt_two_pow, Bool.and_false]
    calc n - 1 < 2 ^ 12 := by omega
      _ ≤ 2 ^ (12 + i) := Nat.pow_le_pow_right (by omega) (by omega)
  obtain ⟨hy, hx⟩ := field_length (x := BitVec.ofNat 32 16) ((holds_ylength_iff _).2 hzero)
  rw [hw, hy, hx, hn, BitVec.toNat_setWidth, BitVec.toNat_setWidth, BitVec.toNat_ofNat]
  exact ⟨by omega, rfl⟩

namespace DMAMultiSPI

theorem kMaxOpsPerBlock_eq : kMaxOpsPerBlock = 4096 := rfl

/-- The control block at the byte offset `off`. -/
def readCb (m : Mem) (off : Nat) : ControlBlock :=
  { ti := m off, src := m (off + 4), dst := m (off + 8), length := m (off + 12), stride := m (off + 16)
    next := m (off + 20) }

theorem fetch_busRead (blk : UncachedMemBlock) (m : Mem) {o : Nat} (ho : o + 20 < 2 ^ 32) :
    DmaEngine.fetch (busRead blk m) (blk.busAddr + BitVec.ofNat 32 o) = readCb m o := by
  have h : ∀ c ≤ 20, busRead blk m (blk.busAddr + BitVec.ofNat 32 o + BitVec.ofNat 32 c) = m (o + c) := by
    intro c hc
    rw [BitVec.add_assoc, ← BitVec.ofNat_add, busRead_add _ _ (by omega)]
  simp only [DmaEngine.fetch, readCb, busRead_add blk m (show o < 2 ^ 32 by omega), h 4 (by omega),
    h 8 (by omega), h 12 (by omega), h 16 (by omega), h 20 (by omega)]

/-- Control block `j` of the chain for `ops` operations at the offset `base`. -/
def cbAt (blk : UncachedMemBlock) (base ops j : Nat) (next : BitVec 32) : ControlBlock :=
  { ti := dmaCbTiSrcInc ||| dmaCbTiDestInc ||| dmaCbTiNoWideBursts ||| dmaCbTiTdmode
    src := blk.busAddr + BitVec.ofNat 32 (base + 16 * (4096 * j))
    dst := physicalGpioBus + gpioSetOffset
    length := dmaCbTxfrLenYlength (BitVec.ofNat 32 (min 4096 (ops - 4096 * j))) |||
      dmaCbTxfrLenXlength (BitVec.ofNat 32 16)
    stride := dmaCbStrideDStride (-16#32) ||| dmaCbStrideSStride 0#32
    next }

section Fields

variable (blk : UncachedMemBlock) (base ops j : Nat) (next : BitVec 32)

theorem twoD_cbAt : (cbAt blk base ops j next).twoD = true :=
  show (dmaCbTiSrcInc ||| dmaCbTiDestInc ||| dmaCbTiNoWideBursts ||| dmaCbTiTdmode).getLsbD 1 = true by decide

theorem srcInc_cbAt : (cbAt blk base ops j next).srcInc = true :=
  show (dmaCbTiSrcInc ||| dmaCbTiDestInc ||| dmaCbTiNoWideBursts ||| dmaCbTiTdmode).getLsbD 8 = true by decide

theorem destInc_cbAt : (cbAt blk base ops j next).destInc = true :=
  show (dmaCbTiSrcInc ||| dmaCbTiDestInc ||| dmaCbTiNoWideBursts ||| dmaCbTiTdmode).getLsbD 4 = true by decide

theorem srcStride_cbAt : (cbAt blk base ops j next).srcStride = 0#32 :=
  show ((dmaCbStrideDStride (-16#32) ||| dmaCbStrideSStride 0#32).extractLsb' 0 16).signExtend 32 = 0#32 by decide

theorem dstStride_cbAt : (cbAt blk base ops j next).dstStride = -16#32 :=
  show ((dmaCbStrideDStride (-16#32) ||| dmaCbStrideSStride 0#32).extractLsb' 16 16).signExtend 32 =
    -16#32 by decide

end Fields

/-- The rows of such a block: operations `4096 j, …`, each to the set register. -/
theorem rows_cbAt (blk : UncachedMemBlock) (base : Nat) {ops j : Nat} (hj : 4096 * j < ops) (next : BitVec 32) :
    DmaEngine.rows (cbAt blk base ops j next) =
      (List.range (min 4096 (ops - 4096 * j))).map fun k =>
        ⟨blk.busAddr + BitVec.ofNat 32 (base + 16 * (4096 * j + k)), 0x7E20001C#32, 16⟩ := by
  obtain ⟨hy, hx⟩ := length_fields (n := min 4096 (ops - 4096 * j)) (by omega) (by omega) rfl
  have hx' : (cbAt blk base ops j next).xLength = 16 := hx
  have hy' : (cbAt blk base ops j next).yLength = min 4096 (ops - 4096 * j) - 1 := hy
  -- the source moves on by a row, the destination goes back to the set register
  have hs : DmaEngine.advance (cbAt blk base ops j next).srcInc (cbAt blk base ops j next).xLength
      (cbAt blk base ops j next).srcStride = 16#32 := by
    rw [hx', srcInc_cbAt, srcStride_cbAt]; rfl
  have hd : DmaEngine.advance (cbAt blk base ops j next).destInc (cbAt blk base ops j next).xLength
      (cbAt blk base ops j next).dstStride = 0#32 := by
    rw [hx', destInc_cbAt, dstStride_cbAt]; rfl
  rw [DmaEngine.rows, DmaEngine.rowsFrom_eq hs hd, hx', hy', Nat.sub_add_cancel (by omega)]
  apply List.map_congr_left
  intro k _
  have hsrc : (cbAt blk base ops j next).src + BitVec.ofNat 32 k * 16#32 =
      blk.busAddr + BitVec.ofNat 32 (base + 16 * (4096 * j + k)) := by
    rw [show base + 16 * (4096 * j + k) = base + 16 * (4096 * j) + k * 16 by omega, BitVec.ofNat_add,
      BitVec.ofNat_mul, ← BitVec.add_assoc]
    rfl
  rw [hsrc, BitVec.mul_zero, BitVec.add_zero]
  rfl

/-! ### Building the chain -/

/-- After `i` iterations: `i` control blocks, the last of them not linked yet, and zeros behind them. -/
structure ChainInv (blk : UncachedMemBlock) (base ops i : Nat) (s : Chain) : Prop where
  previous : s.previous = if i = 0 then none else some ((i - 1) * 32)
  remaining : s.remaining = ops - 4096 * i
  startGpio : s.startGpio = base + 16 * min ops (4096 * i)
  blocks : ∀ j < i, readCb s.mem (32 * j) =
    cbAt blk base ops j (if j + 1 < i then blk.busAddr + BitVec.ofNat 32 (32 * (j + 1)) else 0#32)
  rest : ∀ o, 32 * i ≤ o → s.mem o = 0#32

section Build

variable {blk : UncachedMemBlock} {base ops : Nat}

/-- One iteration, with both translations in range. -/
theorem chainStep_spec (hsize : base + 16 * ops ≤ blk.size) (hfit : base + 16 * ops < 2 ^ 32) {i : Nat}
    (hi : 4096 * i < ops) (hb : 32 * i < base) {s : Chain} (hs : ChainInv blk base ops i s) :
    ∃ t, chainStep blk s i = .ok t ∧ ChainInv blk base ops (i + 1) t := by
  obtain ⟨hprev, hrem, hstart, hblocks, hrest⟩ := hs
  have hstart' : s.startGpio = base + 16 * (4096 * i) := by rw [hstart, Nat.min_eq_right (by omega)]
  have hsrc := toPhysical_eq_ok blk (p := s.startGpio) (by omega) (by omega)
  have hcb := toPhysical_eq_ok blk (p := i * 32) (by omega) (by omega)
  have hn : (if s.remaining > kMaxOpsPerBlock then kMaxOpsPerBlock else s.remaining) =
      min 4096 (ops - 4096 * i) := by
    rw [hrem, kMaxOpsPerBlock_eq]; split <;> omega
  unfold chainStep
  simp only [sizeofDmaCb, sizeofGpioData, hn, hsrc]
  rcases Nat.eq_zero_or_pos i with rfl | hpos
  · -- the first block has no predecessor
    simp only [hprev, ↓reduceIte]
    refine ⟨_, rfl, ⟨rfl, by simp only [hrem]; omega, by simp only [hstart']; omega, ?_, ?_⟩⟩
    · intro j hj
      obtain rfl : j = 0 := by omega
      simp [readCb, cbAt, Mem.write, hstart', hrest]
    · intro o ho
      simp (disch := omega) only [Mem.write_ne]
      exact hrest o (by omega)
  · simp only [hprev, show i ≠ 0 by omega, ↓reduceIte, hcb]
    refine ⟨_, rfl, ⟨by simp, by simp only [hrem]; omega, by simp only [hstart']; omega, ?_, ?_⟩⟩
    · intro j hj
      rcases Nat.lt_or_ge j i with hji | hji
      · have hold := hblocks j hji
        simp only [readCb, cbAt, ControlBlock.mk.injEq] at hold ⊢
        obtain ⟨h1, h2, h3, h4, h5, h6⟩ := hold
        rcases Nat.lt_or_ge (j + 1) i with hlast | hlast
        · simp only [hlast, ↓reduceIte] at h6
          simp (disch := omega) only [Mem.write_ne, h1, h2, h3, h4, h5, h6, show j + 1 < i + 1 by omega,
            ↓reduceIte, and_self]
        · -- block `i - 1` gets its link now
          obtain rfl : i = j + 1 := by omega
          have hlink : (j + 1 - 1) * 32 + 20 = 32 * j + 20 := by omega
          simp (disch := omega) only [Mem.write_ne, h1, h2, h3, h4, h5, hlink, Mem.write_same, Nat.lt_succ_self,
            ↓reduceIte, and_self, Nat.mul_comm (j + 1) 32]
      · obtain rfl : j = i := by omega
        have hfresh : ∀ c, s.mem (32 * j + c) = 0#32 := fun c => hrest _ (by omega)
        simp (disch := omega) only [readCb, cbAt, show j * 32 = 32 * j by omega, Mem.write_same, Mem.write_ne,
          hfresh, hstart', Nat.lt_irrefl, ↓reduceIte]
    · intro o ho
      simp (disch := omega) only [Mem.write_ne]
      exact hrest o (by omega)

/-- The finished chain. -/
theorem buildChain_spec (blk : UncachedMemBlock) {n ops : Nat} (hn : n = (ops + 4095) / 4096) (hops : 0 < ops)
    (hbase : base = n * 32) (hsize : base + 16 * ops ≤ blk.size) (hfit : base + 16 * ops < 2 ^ 32) :
    ∃ m, buildChain blk n ops = .ok m ∧
      (∀ j < n, readCb m (32 * j) =
        cbAt blk base ops j (if j + 1 < n then blk.busAddr + BitVec.ofNat 32 (32 * (j + 1)) else 0#32)) ∧
      ∀ o, base ≤ o → m o = 0#32 := by
  have h0 : ChainInv blk base ops 0
      { mem := Mem.zero, previous := none, startGpio := n * sizeofDmaCb, remaining := ops } :=
    ⟨rfl, by simp, by simp [hbase, sizeofDmaCb], fun j hj => absurd hj (by omega), fun o _ => rfl⟩
  obtain ⟨t, ht, hinv⟩ := Run.run_range (ChainInv blk base ops) (n := n) h0
    fun i m hi hm => chainStep_spec hsize hfit (by omega) (by omega) hm
  obtain ⟨hprev, -, -, hblocks, hrest⟩ := hinv
  rw [if_neg (by omega)] at hprev
  refine ⟨t.mem.write ((n - 1) * 32 + 20) 0#32, ?_, ?_, ?_⟩
  · simp only [buildChain, ht, hprev, bind, Except.bind, pure, Except.pure]
  · -- the last link is zero already
    have hsame : t.mem.write ((n - 1) * 32 + 20) 0#32 = t.mem := by
      have hnext := congrArg ControlBlock.next (hblocks (n - 1) (by omega))
      simp only [readCb, cbAt, show ¬(n - 1 + 1 < n) by omega, ↓reduceIte] at hnext
      funext o
      by_cases ho : o = (n - 1) * 32 + 20
      · rw [ho, Mem.write_same, ← hnext, Nat.mul_comm]
      · exact Mem.write_ne _ _ ho
    rw [hsame]; exact hblocks
  · intro o ho
    rw [Mem.write_ne _ _ (by omega)]
    exact hrest o (by omega)

end Build

/-! ### `FinishRegistration` -/

/-- The number of operations for streams of `n` bytes. -/
def gpioOps (n : Nat) : Nat := 16 * n + 1

def controlBlocks (n : Nat) : Nat := (gpioOps n + 4095) / 4096

/-- The offset of the operations behind the control blocks. -/
def gpioBase (n : Nat) : Nat := controlBlocks n * 32

def allocSize (n : Nat) : Nat := gpioBase n + 16 * gpioOps n

theorem bytesToGpioOps_eq_ok {n m : Nat} : bytesToGpioOps n = .ok m ↔ gpioOps n < 2 ^ 31 ∧ m = gpioOps n := by
  rw [bytesToGpioOps, toInt_eq_ok, show n * 8 * 2 + 1 = gpioOps n by unfold gpioOps; omega]

/-- What `FinishRegistration` leaves behind: the linked control blocks, and zeros where the operations go. -/
structure Chained (blk : UncachedMemBlock) (n : Nat) (m : Mem) : Prop where
  blocks : ∀ j < controlBlocks n, readCb m (32 * j) = cbAt blk (gpioBase n) (gpioOps n) j
    (if j + 1 < controlBlocks n then blk.busAddr + BitVec.ofNat 32 (32 * (j + 1)) else 0#32)
  rest : ∀ o, gpioBase n ≤ o → m o = 0#32

theorem size_of_alloc {mbox : Mbox} {n : Nat} {blk : UncachedMemBlock}
    (h : uncachedMemBlockAlloc mbox n = .ok blk) :
    blk.size = roundUpToPage n ∧ blk.busAddr ≠ 0#32 := by
  unfold uncachedMemBlockAlloc uncachedMemBlockAllocTrace at h
  simp only at h
  split at h
  · cases h
  · rename_i hne
    simp only at h
    split at h
    · cases h; exact ⟨rfl, hne⟩
    · cases h

theorem ceilDivInt_eq_ok {n k m : Nat} : ceilDivInt n k = .ok m ↔ n + k - 1 < 2 ^ 31 ∧ m = (n + k - 1) / k := by
  unfold ceilDivInt toInt
  split <;> simp_all [Except.map, eq_comm]

theorem ceil_gpioOps (n : Nat) : (gpioOps n + kMaxOpsPerBlock - 1) / kMaxOpsPerBlock = controlBlocks n := by
  rw [kMaxOpsPerBlock_eq, controlBlocks, show gpioOps n + 4096 - 1 = gpioOps n + 4095 by omega]

theorem allocSize_eq (n : Nat) :
    controlBlocks n * sizeofDmaCb + gpioOps n * sizeofGpioData = allocSize n := by
  rw [allocSize, gpioBase, sizeofDmaCb, sizeofGpioData, Nat.mul_comm 16]

section Finish

variable {env : Env} {s t : DMAMultiSPI} {blk : UncachedMemBlock}

/-- With memory for it, the chain is built and no assertion fails. -/
theorem finishRegistration_spec (hs : s.alloced = none) (hsize : allocSize s.serialByteSize < 2 ^ 31)
    (hblk : uncachedMemBlockAlloc env.mbox (allocSize s.serialByteSize) = .ok blk) :
    ∃ m, s.finishRegistration env = .ok { s with
        alloced := some blk, mem := m, gpioDma := some (gpioBase s.serialByteSize), startBlock := 0 } ∧
      Chained blk s.serialByteSize m := by
  have hlt : gpioBase s.serialByteSize + 16 * gpioOps s.serialByteSize < 2 ^ 31 := hsize
  obtain ⟨hsz, -⟩ := size_of_alloc hblk
  have hle := le_roundUpToPage hsize
  obtain ⟨m, hm, hblocks, hrest⟩ := buildChain_spec blk
    (show controlBlocks s.serialByteSize = (gpioOps s.serialByteSize + 4095) / 4096 from rfl)
    (by unfold gpioOps; omega) (show gpioBase s.serialByteSize = controlBlocks s.serialByteSize * 32 from rfl)
    (by rw [hsz]; exact hle) (by omega)
  refine ⟨m, ?_, hblocks, hrest⟩
  have hops : bytesToGpioOps s.serialByteSize = .ok (gpioOps s.serialByteSize) :=
    bytesToGpioOps_eq_ok.2 ⟨by omega, rfl⟩
  have hcb : ceilDivInt (gpioOps s.serialByteSize) kMaxOpsPerBlock = .ok (controlBlocks s.serialByteSize) :=
    ceilDivInt_eq_ok.2 ⟨by rw [kMaxOpsPerBlock_eq]; unfold gpioOps at hlt ⊢; omega, (ceil_gpioOps _).symm⟩
  have hint : toInt (controlBlocks s.serialByteSize * sizeofDmaCb + gpioOps s.serialByteSize * sizeofGpioData) =
      .ok (allocSize s.serialByteSize) := toInt_eq_ok.2 (by rw [allocSize_eq]; exact ⟨hsize, rfl⟩)
  rw [finishRegistration, if_pos hs]
  exact Run.bind_eq_ok.2 ⟨_, hops, Run.bind_eq_ok.2 ⟨_, hcb, Run.bind_eq_ok.2 ⟨_, hint,
    Run.bind_eq_ok.2 ⟨_, hblk, Run.bind_eq_ok.2 ⟨_, hm, rfl⟩⟩⟩⟩⟩

/-- When it returns, the sizes fit and there was memory. -/
theorem finishRegistration_inv (h : s.finishRegistration env = .ok t) :
    s.alloced = none ∧ allocSize s.serialByteSize < 2 ^ 31 ∧
      ∃ blk, uncachedMemBlockAlloc env.mbox (allocSize s.serialByteSize) = .ok blk := by
  unfold finishRegistration at h
  split at h
  · rename_i hs
    obtain ⟨ops, hops, h⟩ := Run.bind_eq_ok.1 h
    obtain ⟨-, rfl⟩ := bytesToGpioOps_eq_ok.1 hops
    obtain ⟨c, hc, h⟩ := Run.bind_eq_ok.1 h
    obtain ⟨-, rfl⟩ := ceilDivInt_eq_ok.1 hc
    rw [ceil_gpioOps] at h
    obtain ⟨size, hsize, h⟩ := Run.bind_eq_ok.1 h
    obtain ⟨hlt, rfl⟩ := toInt_eq_ok.1 hsize
    obtain ⟨blk, hblk, -⟩ := Run.bind_eq_ok.1 h
    rw [allocSize_eq] at hlt hblk
    exact ⟨hs, hlt, blk, hblk⟩
  · cases h

end Finish

/-! ### Following the chain -/

/-- The bus addresses of the control blocks. -/
def cbAddrs (blk : UncachedMemBlock) (n : Nat) : List (BitVec 32) :=
  (List.range (controlBlocks n)).map fun j => blk.busAddr + BitVec.ofNat 32 (32 * j)

/-- The chain from the bus address `start` on plays the `gpioOps n` operations behind the control blocks. -/
structure Plays (blk : UncachedMemBlock) (n : Nat) (m : Mem) (start : BitVec 32) : Prop where
  /-- The links lead through the control blocks and end with zero. -/
  walk : ∀ fuel, controlBlocks n ≤ fuel → DmaEngine.follow (busRead blk m) fuel start = some (cbAddrs blk n)
  once : (cbAddrs blk n).Nodup
  placed : ∀ a ∈ cbAddrs blk n,
    a.toNat % 32 = 0 ∧ blk.busAddr.toNat ≤ a.toNat ∧ a.toNat + 32 ≤ blk.busAddr.toNat + gpioBase n
  room : gpioBase n + 16 * gpioOps n ≤ blk.size
  twoD : ∀ a ∈ cbAddrs blk n, (DmaEngine.fetch (busRead blk m) a).twoD = true
  /-- The rows start at operations `0, 1, …`, each once and in order. -/
  reads : ((cbAddrs blk n).flatMap fun a => DmaEngine.rows (DmaEngine.fetch (busRead blk m) a)).map Row.src =
    (List.range (gpioOps n)).map fun k => blk.busAddr + BitVec.ofNat 32 (gpioBase n + 16 * k)
  /-- A row moves the four words of an operation; the first goes to the set register, the last to the clear
  register. -/
  writes : ∀ a ∈ cbAddrs blk n, ∀ r ∈ DmaEngine.rows (DmaEngine.fetch (busRead blk m) a),
    r.words (DmaEngine.fetch (busRead blk m) a) =
      [(r.src, 0x7E20001C#32), (r.src + 4#32, 0x7E200020#32), (r.src + 8#32, 0x7E200024#32),
        (r.src + 12#32, 0x7E200028#32)]

section Follow

variable {blk : UncachedMemBlock} {n : Nat} {m : Mem}

theorem toNat_cbAddr (hwrap : blk.busAddr.toNat + gpioBase n ≤ 2 ^ 32) (j : Nat) (hj : j < controlBlocks n) :
    (blk.busAddr + BitVec.ofNat 32 (32 * j)).toNat = blk.busAddr.toNat + 32 * j := by
  unfold gpioBase at hwrap
  rw [BitVec.toNat_add, BitVec.toNat_ofNat]; omega

private theorem words_row {cb : ControlBlock} (hs : cb.srcInc = true) (hd : cb.destInc = true) {r : Row}
    (hdst : r.dst = 0x7E20001C#32) (hlen : r.len = 16) :
    r.words cb = [(r.src, 0x7E20001C#32), (r.src + 4#32, 0x7E200020#32), (r.src + 8#32, 0x7E200024#32),
      (r.src + 12#32, 0x7E200028#32)] := by
  rw [Row.words, hlen, hs, hd, hdst]
  simp [List.range_succ]

private theorem mem_cbAddrs {a : BitVec 32} :
    a ∈ cbAddrs blk n ↔ ∃ j < controlBlocks n, blk.busAddr + BitVec.ofNat 32 (32 * j) = a := by
  simp [cbAddrs]

private theorem nodup_cbAddrs (hwrap : blk.busAddr.toNat + gpioBase n ≤ 2 ^ 32) : (cbAddrs blk n).Nodup := by
  refine List.Nodup.map_on ?_ List.nodup_range
  intro i hi j hj hij
  have hi' := toNat_cbAddr hwrap i (List.mem_range.1 hi)
  rw [hij, toNat_cbAddr hwrap j (List.mem_range.1 hj)] at hi'
  omega

section Linked

variable {next : Nat → BitVec 32} (hfetch : ∀ j < controlBlocks n,
  DmaEngine.fetch (busRead blk m) (blk.busAddr + BitVec.ofNat 32 (32 * j)) =
    cbAt blk (gpioBase n) (gpioOps n) j (next j))
include hfetch

/-- The links lead from each control block to the one behind it. -/
private theorem follow_cbAddrs (hbus : 0 < blk.busAddr.toNat) (hwrap : blk.busAddr.toNat + gpioBase n ≤ 2 ^ 32)
    (hnext : next = fun j =>
      if j + 1 < controlBlocks n then blk.busAddr + BitVec.ofNat 32 (32 * (j + 1)) else 0#32)
    {fuel : Nat} (hf : controlBlocks n ≤ fuel) :
    DmaEngine.follow (busRead blk m) fuel blk.busAddr = some (cbAddrs blk n) := by
  have hpos : 0 < controlBlocks n := by unfold controlBlocks gpioOps; omega
  have hw := DmaEngine.follow_eq (busRead blk m) (fun j => blk.busAddr + BitVec.ofNat 32 (32 * j))
    (n := controlBlocks n) ?_ ?_ hf hpos
  · simpa [cbAddrs] using hw
  · intro j hj h0
    have := toNat_cbAddr hwrap j hj
    rw [h0] at this
    simp at this; omega
  · intro j hj
    rw [hfetch j hj, hnext]; rfl

/-- The rows of all control blocks one after the other. -/
private theorem rows_cbAddrs :
    ((cbAddrs blk n).flatMap fun a => DmaEngine.rows (DmaEngine.fetch (busRead blk m) a)) =
      (List.range (gpioOps n)).map fun k =>
        (⟨blk.busAddr + BitVec.ofNat 32 (gpioBase n + 16 * k), 0x7E20001C#32, 16⟩ : Row) := by
  have hrows : ((cbAddrs blk n).flatMap fun a => DmaEngine.rows (DmaEngine.fetch (busRead blk m) a)) =
      (List.range (controlBlocks n)).flatMap fun j => (List.range (min 4096 (gpioOps n - 4096 * j))).map fun k =>
        (⟨blk.busAddr + BitVec.ofNat 32 (gpioBase n + 16 * (4096 * j + k)), 0x7E20001C#32, 16⟩ : Row) := by
    rw [cbAddrs, List.flatMap_map]
    apply List.flatMap_congr
    intro j hj
    have hj' := List.mem_range.1 hj
    rw [hfetch j hj', rows_cbAt]
    unfold controlBlocks at hj'; omega
  rw [hrows, DmaEngine.flatMap_chunks (fun k =>
    (⟨blk.busAddr + BitVec.ofNat 32 (gpioBase n + 16 * k), 0x7E20001C#32, 16⟩ : Row)),
    Nat.min_eq_left (by unfold controlBlocks; omega)]

end Linked

/-- Control blocks that are linked in order play the operations. -/
theorem plays_of_blocks
    (hblocks : ∀ j < controlBlocks n, readCb m (32 * j) = cbAt blk (gpioBase n) (gpioOps n) j
      (if j + 1 < controlBlocks n then blk.busAddr + BitVec.ofNat 32 (32 * (j + 1)) else 0#32))
    (hne : blk.busAddr ≠ 0#32) (halign : blk.busAddr.toNat % 32 = 0) (hroom : allocSize n ≤ blk.size)
    (hwrap : blk.busAddr.toNat + allocSize n ≤ 2 ^ 32) : Plays blk n m blk.busAddr := by
  have hbus : 0 < blk.busAddr.toNat := by
    rcases Nat.eq_zero_or_pos blk.busAddr.toNat with h0 | h0
    · exact absurd (BitVec.eq_of_toNat_eq h0) hne
    · exact h0
  have hbase : gpioBase n = controlBlocks n * 32 := rfl
  have hsize : allocSize n = gpioBase n + 16 * gpioOps n := rfl
  have hwrap' : blk.busAddr.toNat + gpioBase n ≤ 2 ^ 32 := by omega
  have hfetch : ∀ j < controlBlocks n, DmaEngine.fetch (busRead blk m) (blk.busAddr + BitVec.ofNat 32 (32 * j)) =
      cbAt blk (gpioBase n) (gpioOps n) j
        (if j + 1 < controlBlocks n then blk.busAddr + BitVec.ofNat 32 (32 * (j + 1)) else 0#32) := by
    intro j hj
    rw [fetch_busRead blk m (by omega), hblocks j hj]
  constructor
  case walk => exact fun fuel hf => follow_cbAddrs hfetch hbus hwrap' rfl hf
  case once => exact nodup_cbAddrs hwrap'
  case placed =>
    intro a ha
    obtain ⟨j, hj, rfl⟩ := mem_cbAddrs.1 ha
    rw [toNat_cbAddr hwrap' j hj]
    omega
  case room => omega
  case twoD =>
    intro a ha
    obtain ⟨j, hj, rfl⟩ := mem_cbAddrs.1 ha
    rw [hfetch j hj]; exact twoD_cbAt ..
  case reads => rw [rows_cbAddrs hfetch, List.map_map]; rfl
  case writes =>
    intro a ha r hr
    obtain ⟨j, hj, rfl⟩ := mem_cbAddrs.1 ha
    rw [hfetch j hj] at hr ⊢
    rw [rows_cbAt _ _ (by unfold controlBlocks at hj; omega)] at hr
    obtain ⟨k, -, rfl⟩ := List.mem_map.1 hr
    exact words_row (srcInc_cbAt ..) (destInc_cbAt ..) rfl rfl

end Follow

/-- `FinishRegistration` builds a chain that plays all operations, for every stream length whose sizes fit `int`
and every block the bus can address. -/
theorem finishRegistration_plays (env : Env) {s : DMAMultiSPI} {blk : UncachedMemBlock} (hs : s.alloced = none)
    (hsize : allocSize s.serialByteSize < 2 ^ 31)
    (hblk : uncachedMemBlockAlloc env.mbox (allocSize s.serialByteSize) = .ok blk)
    (halign : blk.busAddr.toNat % 32 = 0) (hwrap : blk.busAddr.toNat + blk.size ≤ 2 ^ 32) :
    ∃ t, s.finishRegistration env = .ok t ∧ t.alloced = some blk ∧ t.gpioDma = some (gpioBase s.serialByteSize) ∧
      ∃ start, uncachedMemBlockToPhysical blk t.startBlock = .ok start ∧
        Plays blk s.serialByteSize t.mem start := by
  obtain ⟨m, hm, hchain⟩ := finishRegistration_spec hs hsize hblk
  obtain ⟨hsz, hne⟩ := size_of_alloc hblk
  have hle := le_roundUpToPage hsize
  have hpos : 0 < allocSize s.serialByteSize := by unfold allocSize gpioOps; omega
  refine ⟨_, hm, rfl, rfl, blk.busAddr, ?_, plays_of_blocks hchain.blocks hne halign (by omega) (by omega)⟩
  rw [toPhysical_eq_ok _ (by simp only; omega) (by simp)]
  simp

/-- A stream of 512 bytes needs three control blocks. -/
theorem finishRegistration_plays_512 :
    ∃ t, DMAMultiSPI.finishRegistration (Env.replying 0xC0001000#32)
        { gpio := Gpio.initialised fun _ => 0#32, clockGpio := 27, serialByteSize := 512, alloced := none
          mem := Mem.zero, gpioDma := none, startBlock := 0, gpioShadow := none,
          gpioBufferSize := 16 * 8193 } = .ok t ∧
      ∃ start, Plays ⟨0xC0001000#32, 0xC0001000#32, 135168⟩ 512 t.mem start := by
  obtain ⟨t, ht, -, -, start, -, hplays⟩ := finishRegistration_plays (Env.replying 0xC0001000#32)
    (s := { gpio := Gpio.initialised fun _ => 0#32, clockGpio := 27, serialByteSize := 512, alloced := none
            mem := Mem.zero, gpioDma := none, startBlock := 0, gpioShadow := none, gpioBufferSize := 16 * 8193 })
    rfl (by decide) (show _ = Except.ok (UncachedMemBlock.mk 0xC0001000#32 0xC0001000#32 135168) by rfl)
    (by decide) (by decide)
  exact ⟨t, ht, start, hplays⟩

end DMAMultiSPI

end Spixels
