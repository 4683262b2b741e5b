import Spixels.Gpio

/-!
# Uncached memory for DMA (`rpi-dma.h`, `rpi-dma.c`, `mailbox.c`)

The words of the DMA registers and control blocks as the macros build them, and the memory block that the firmware
hands out through its mailbox.  A pointer into the block is its byte offset from `mem`.
-/

namespace Spixels

/-! ### Register words -/

def dmaCbTiNoWideBursts : BitVec 32 := 1#32 <<< 26
def dmaCbTiSrcInc : BitVec 32 := 1#32 <<< 8
def dmaCbTiDestInc : BitVec 32 := 1#32 <<< 4
def dmaCbTiTdmode : BitVec 32 := 1#32 <<< 1

def dmaCsReset : BitVec 32 := 1#32 <<< 31
def dmaCsAbort : BitVec 32 := 1#32 <<< 30
def dmaCsDisdebug : BitVec 32 := 1#32 <<< 28
def dmaCsError : BitVec 32 := 1#32 <<< 8
def dmaCsEnd : BitVec 32 := 1#32 <<< 1
def dmaCsActive : BitVec 32 := 1#32 <<< 0

def dmaCbTxfrLenYlength (y : BitVec 32) : BitVec 32 := ((y - 1#32) &&& 0x4fff#32) <<< 16
def dmaCbTxfrLenXlength (x : BitVec 32) : BitVec 32 := x &&& 0xffff#32
def dmaCbStrideDStride (x : BitVec 32) : BitVec 32 := (x &&& 0xffff#32) <<< 16
def dmaCbStrideSStride (x : BitVec 32) : BitVec 32 := x &&& 0xffff#32

-- In C the shift binds tighter than the `&`.
def dmaCsPriority (x : BitVec 32) : BitVec 32 := x &&& (0xf#32 <<< 16)
def dmaCsPanicPriority (x : BitVec 32) : BitVec 32 := x &&& (0xf#32 <<< 20)

/-- `sizeof(struct dma_cb)` -/
def sizeofDmaCb : Nat := 32

/-! ### The mailbox -/

/-- The mailbox driver: an `ioctl` fails, or succeeds with a word in the reply slot of the message. -/
abbrev Mbox := List (BitVec 32) → Option (BitVec 32)

/-- The message buffer after the call: a failed call is reported on the console only, and leaves it as sent. -/
def mboxProperty (mbox : Mbox) (p : List (BitVec 32)) : List (BitVec 32) :=
  match mbox p with
  | none => p
  | some reply => p.set 5 reply

def memAlloc (mbox : Mbox) (size align flags : BitVec 32) : BitVec 32 :=
  (mboxProperty mbox [36#32, 0#32, 0x3000c#32, 12#32, 12#32, size, align, flags, 0#32]).getD 5 0#32

def memLock (mbox : Mbox) (handle : BitVec 32) : BitVec 32 :=
  (mboxProperty mbox [28#32, 0#32, 0x3000d#32, 4#32, 4#32, handle, 0#32]).getD 5 0#32

/-! ### Uncached memory blocks -/

def pageSize : Nat := 4096

/-- `MEM_FLAG_DIRECT | MEM_FLAG_COHERENT` -/
def memFlagL1Nonallocating : BitVec 32 := (1#32 <<< 2) ||| (2#32 <<< 2)

structure UncachedMemBlock where
  busAddr : BitVec 32
  memHandle : BitVec 32
  size : Nat
deriving DecidableEq, Repr

/-- `size % PAGE_SIZE == 0 ? size : (size + PAGE_SIZE) & ~(PAGE_SIZE - 1)`, where the sum is a `size_t`. -/
def roundUpToPage (size : Nat) : Nat :=
  if size % pageSize = 0 then size else (size + pageSize) % 2 ^ 64 / pageSize * pageSize

/-- `BUS_TO_PHYS` -/
def busToPhys (x : BitVec 32) : BitVec 32 := x &&& ~~~0xC0000000#32

/-- What happens to physical memory from `base` on. -/
inductive MemEffect
  | mapmem (base size : BitVec 32)
  | memset (base : BitVec 32) (n : Nat)
deriving DecidableEq, Repr

/-- The effects on physical memory, in order, and the block.  `mem_alloc` and `mapmem` take the size as an
`unsigned`, so a `memset` of `2^32` bytes or more runs past the end of what has been mapped. -/
def uncachedMemBlockAllocTrace (mbox : Mbox) (size : Nat) : List MemEffect × Except Fault UncachedMemBlock :=
  let size := roundUpToPage size
  let size32 := BitVec.ofNat 32 size
  let memHandle := memAlloc mbox size32 (BitVec.ofNat 32 pageSize) memFlagL1Nonallocating
  let busAddr := memLock mbox memHandle
  let mapped := MemEffect.mapmem (busToPhys busAddr) size32
  if busAddr = 0#32 then ([mapped], .error .assertion)
  else ([mapped, .memset (busToPhys busAddr) size],
    if size ≤ size32.toNat then .ok { busAddr, memHandle, size } else .error .outOfBounds)

/-- The memory of a fresh block is zeroed out, see `Mem.zero`. -/
def uncachedMemBlockAlloc (mbox : Mbox) (size : Nat) : Except Fault UncachedMemBlock :=
  (uncachedMemBlockAllocTrace mbox size).2

/-- The bus address of the pointer `p` into the block. -/
def uncachedMemBlockToPhysical (blk : UncachedMemBlock) (p : Nat) : Except Fault (BitVec 32) :=
  let offset := BitVec.ofNat 32 p
  if offset.toNat < blk.size then .ok (blk.busAddr + offset) else .error .assertion

/-- The words of a block, by byte offset. -/
abbrev Mem := Nat → BitVec 32

def Mem.zero : Mem := fun _ => 0#32

def Mem.write (m : Mem) (off : Nat) (v : BitVec 32) : Mem := fun o => if o = off then v else m o

@[simp] theorem Mem.write_same (m : Mem) (off : Nat) (v : BitVec 32) : m.write off v off = v := by simp [Mem.write]

theorem Mem.write_ne (m : Mem) {off o : Nat} (v : BitVec 32) (h : o ≠ off) : m.write off v o = m o := by
  simp [Mem.write, h]

theorem le_roundUpToPage {size : Nat} (hsize : size < 2 ^ 31) : size ≤ roundUpToPage size := by
  unfold roundUpToPage pageSize; split <;> omega

/-- Translation succeeds on a pointer into a block that the bus can address. -/
theorem toPhysical_eq_ok (blk : UncachedMemBlock) {p : Nat} (hp : p < blk.size) (hw : p < 2 ^ 32) :
    uncachedMemBlockToPhysical blk p = .ok (blk.busAddr + BitVec.ofNat 32 p) := by
  have h : (BitVec.ofNat 32 p).toNat = p := by rw [BitVec.toNat_ofNat, Nat.mod_eq_of_lt hw]
  simp only [uncachedMemBlockToPhysical, h, hp, ↓reduceIte]

theorem roundUpToPage_lt {size : Nat} (hsize : size < 2 ^ 31) : roundUpToPage size < 2 ^ 32 := by
  unfold roundUpToPage pageSize; split <;> omega

/-- The block, when its size fits the word in which it is asked for. -/
theorem uncachedMemBlockAlloc_of_lt (mbox : Mbox) {size : Nat} (hsize : roundUpToPage size < 2 ^ 32) :
    uncachedMemBlockAlloc mbox size =
      let memHandle := memAlloc mbox (BitVec.ofNat 32 (roundUpToPage size)) (BitVec.ofNat 32 pageSize)
        memFlagL1Nonallocating
      let busAddr := memLock mbox memHandle
      if busAddr = 0#32 then .error .assertion else .ok { busAddr, memHandle, size := roundUpToPage size } := by
  have hword : (BitVec.ofNat 32 (roundUpToPage size)).toNat = roundUpToPage size := by
    rw [BitVec.toNat_ofNat, Nat.mod_eq_of_lt hsize]
  simp only [uncachedMemBlockAlloc, uncachedMemBlockAllocTrace, hword, le_refl, ↓reduceIte]
  split <;> rfl

/-- A driver that answers every request with the same address hands out blocks there. -/
theorem uncachedMemBlockAlloc_const {reply : BitVec 32} (hr : reply ≠ 0#32) {size : Nat} (hsize : size < 2 ^ 31) :
    uncachedMemBlockAlloc (fun _ => some reply) size = .ok ⟨reply, reply, roundUpToPage size⟩ := by
  rw [uncachedMemBlockAlloc_of_lt _ (roundUpToPage_lt hsize)]
  exact if_neg hr

end Spixels
