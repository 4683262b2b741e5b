import Spixels.MultiSpi
import Spixels.RpiDma
import Spixels.Storage

/-!
# The DMA backend (`dma-multi-spi.cc`)

`DMAMultiSPI` is the source's class.  The user's bytes are painted into `gpioShadow`, two `GpioData` entries per
bit and one at the end; the first `SendBuffers` builds the chain of control blocks in uncached memory, and every
`SendBuffers` copies the shadow behind the chain and has the DMA engine play it.

What the code gets from outside is in `Env`: the contents of fresh heap storage and the mailbox driver.
`/dev/vcio` and the mappings of physical memory are taken to open.
-/

namespace Spixels

open Waveform (RegWrite)
open Run (run)

structure GpioData where
  set : BitVec 32
  ignoredUpperSetBits : BitVec 32
  reservedArea : BitVec 32
  clr : BitVec 32
deriving DecidableEq, Repr

def GpioData.zero : GpioData := { set := 0#32, ignoredUpperSetBits := 0#32, reservedArea := 0#32, clr := 0#32 }

/-- An entry raises the pins in `set`, then lowers the pins in `clr`. -/
def GpioData.writes (e : GpioData) : List (RegWrite 32) := [.raise e.set, .lower e.clr]

def sizeofGpioData : Nat := 16

structure Env where
  /-- What `realloc` finds in the new storage of a request for that many bytes. -/
  fresh : Nat → Nat → GpioData
  mbox : Mbox

/-- New storage reads zero and the mailbox driver answers every request with `reply`. -/
def Env.replying (reply : BitVec 32) : Env := { fresh := fun _ _ => GpioData.zero, mbox := fun _ => some reply }

structure DMAMultiSPI where
  gpio : Gpio
  clockGpio : Int
  serialByteSize : Nat
  /-- `none` while `alloced_.mem` is `NULL`. -/
  alloced : Option UncachedMemBlock
  /-- The contents of the uncached block. -/
  mem : Mem
  /-- `none` while `gpio_dma_` is `NULL`. -/
  gpioDma : Option Nat
  startBlock : Nat
  /-- `none` while `gpio_shadow_` is `NULL`. -/
  gpioShadow : Option (List GpioData)
  gpioBufferSize : Nat

namespace DMAMultiSPI

/-- The operations for that many bytes: two per bit, and one at the end to set the clock low.  The model stops where
the number does not fit `int`; `bytesToGpioOpsWrapped` is what the source goes on with there. -/
def bytesToGpioOps (bytes : Nat) : Except Fault Nat := toInt (bytes * 8 * 2 + 1)

/-- The constructor, with `port` the registers that `Init` maps.  It sets neither `gpio_buffer_size_` nor
`start_block_`: they hold `bufferGarbage` and `startGarbage`. -/
def create (port : Nat → BitVec 32) (clockGpio : Int) (bufferGarbage startGarbage : Nat) :
    Except Fault DMAMultiSPI :=
  let (gpio, success) := (Gpio.initialised port).addOutput clockGpio
  if success then
    .ok { gpio, clockGpio, serialByteSize := 0, alloced := none, mem := Mem.zero, gpioDma := none
          startBlock := startGarbage, gpioShadow := none, gpioBufferSize := bufferGarbage }
  else .error .assertion

/-- The body of the loop that prepares the clock: even entries lower it, odd ones raise it. -/
def prepareClock (clockGpio : Int) (i : Nat) (e : GpioData) : GpioData :=
  if i % 2 = 0 then { e with clr := shl1 clockGpio } else { e with set := shl1 clockGpio }

/-- The shadow buffer with new storage behind `prevGpioEnd`. -/
def growTo (env : Env) (s : DMAMultiSPI) (requestedBytes prevGpioEnd gpioOperations : Nat) : DMAMultiSPI :=
  let gpioBufferSize := gpioOperations * sizeofGpioData
  let shadow := Storage.resize (env.fresh gpioBufferSize) (s.gpioShadow.getD []) gpioOperations
  let shadow := Storage.fill shadow prevGpioEnd (gpioOperations - prevGpioEnd) GpioData.zero
  let shadow := Storage.sweep id (prepareClock s.clockGpio) shadow
    (List.range' prevGpioEnd (gpioOperations - prevGpioEnd))
  { s with serialByteSize := requestedBytes, gpioBufferSize, gpioShadow := some shadow }

/-- The part of `RegisterDataGPIO` that runs when the stream gets longer. -/
def grow (env : Env) (s : DMAMultiSPI) (requestedBytes : Nat) : Except Fault DMAMultiSPI := do
  let prevGpioEnd := (← bytesToGpioOps s.serialByteSize) - 1
  let gpioOperations ← bytesToGpioOps requestedBytes
  return s.growTo env requestedBytes prevGpioEnd gpioOperations

def registerDataGpio (env : Env) (s : DMAMultiSPI) (gpio : Int) (requestedBytes : Nat) :
    Except Fault (DMAMultiSPI × Bool) :=
  if s.gpioDma = none then
    (if requestedBytes > s.serialByteSize then s.grow env requestedBytes else .ok s).map fun s =>
      let (port, success) := s.gpio.addOutput gpio
      ({ s with gpio := port }, success)
  else .error .assertion

/-- The body of the loop over the bits of a byte, for `bit = 0x80 >> k`. -/
def paintBit (dataGpio : Int) (data : BitVec 8) (k : Nat) (e : GpioData) : GpioData :=
  if data &&& (0x80#8 >>> k) ≠ 0#8 then
    { e with set := e.set ||| shl1 dataGpio, clr := e.clr &&& ~~~shl1 dataGpio }
  else
    { e with set := e.set &&& ~~~shl1 dataGpio, clr := e.clr ||| shl1 dataGpio }

def setBufferedByte (s : DMAMultiSPI) (dataGpio : Int) (pos : Nat) (data : BitVec 8) : Except Fault DMAMultiSPI :=
  if pos < s.serialByteSize then
    match s.gpioShadow with
    | none => .error .outOfBounds
    | some shadow =>
      -- the last entry the loop reaches
      if 2 * 8 * pos + 2 * 7 < shadow.length then
        .ok { s with
          gpioShadow := some
            (Storage.sweep (fun k => 2 * 8 * pos + 2 * k) (paintBit dataGpio data) shadow (List.range 8)) }
      else .error .outOfBounds
  else .error .assertion

/-! ### The control blocks -/

/-- One DMA operation can only span a limited amount of range. -/
def kMaxOpsPerBlock : Nat := (2 <<< 15) / sizeofGpioData

/-- `PHYSICAL_GPIO_BUS` -/
def physicalGpioBus : BitVec 32 := 0x7E000000#32 + 0x200000#32

def gpioSetOffset : BitVec 32 := 0x1C#32

/-- The locals of the loop in `FinishRegistration`; `previous` is also the value of `cb` after an iteration. -/
structure Chain where
  mem : Mem
  previous : Option Nat
  startGpio : Nat
  remaining : Nat

/-- One iteration: link the previous control block to this one and fill this one in. -/
def chainStep (blk : UncachedMemBlock) (s : Chain) (i : Nat) : Except Fault Chain := do
  let cb := i * sizeofDmaCb
  let mem ← match s.previous with
    | some previous => do
      let next ← uncachedMemBlockToPhysical blk cb
      pure (s.mem.write (previous + 20) next)
    | none => pure s.mem
  let n := if s.remaining > kMaxOpsPerBlock then kMaxOpsPerBlock else s.remaining
  let mem := mem.write cb (dmaCbTiSrcInc ||| dmaCbTiDestInc ||| dmaCbTiNoWideBursts ||| dmaCbTiTdmode)
  let src ← uncachedMemBlockToPhysical blk s.startGpio
  let mem := mem.write (cb + 4) src
  let mem := mem.write (cb + 8) (physicalGpioBus + gpioSetOffset)
  let mem := mem.write (cb + 12)
    (dmaCbTxfrLenYlength (BitVec.ofNat 32 n) ||| dmaCbTxfrLenXlength (BitVec.ofNat 32 sizeofGpioData))
  let mem := mem.write (cb + 16) (dmaCbStrideDStride (-16#32) ||| dmaCbStrideSStride 0#32)
  return { mem, previous := some cb, startGpio := s.startGpio + n * sizeofGpioData, remaining := s.remaining - n }

/-- The chain for `gpioOperations` operations in a fresh block. -/
def buildChain (blk : UncachedMemBlock) (controlBlocks gpioOperations : Nat) : Except Fault Mem := do
  let s ← run (chainStep blk)
    { mem := Mem.zero, previous := none, startGpio := controlBlocks * sizeofDmaCb, remaining := gpioOperations }
    (List.range controlBlocks)
  match s.previous with
  | none => throw .outOfBounds
  | some cb => return s.mem.write (cb + 20) 0#32

/-- `(n + k - 1) / k` in `int`. -/
def ceilDivInt (n k : Nat) : Except Fault Nat := (toInt (n + k - 1)).map (· / k)

def finishRegistration (env : Env) (s : DMAMultiSPI) : Except Fault DMAMultiSPI :=
  if s.alloced = none then do
    let gpioOperations ← bytesToGpioOps s.serialByteSize
    let controlBlocks ← ceilDivInt gpioOperations kMaxOpsPerBlock
    let allocSize ← toInt (controlBlocks * sizeofDmaCb + gpioOperations * sizeofGpioData)
    let blk ← uncachedMemBlockAlloc env.mbox allocSize
    let mem ← buildChain blk controlBlocks gpioOperations
    return { s with alloced := some blk, mem, gpioDma := some (controlBlocks * sizeofDmaCb), startBlock := 0 }
  else .error .assertion

/-! ### Sending -/

/-- The `GpioData` at the byte offset `off`. -/
def readGpioData (m : Mem) (off : Nat) : GpioData :=
  { set := m off, ignoredUpperSetBits := m (off + 4), reservedArea := m (off + 8), clr := m (off + 12) }

def writeGpioData (m : Mem) (off : Nat) (e : GpioData) : Mem :=
  (((m.write off e.set).write (off + 4) e.ignoredUpperSetBits).write (off + 8) e.reservedArea).write
    (off + 12) e.clr

/-- The `memcpy` of `SendBuffers`: it reads `n` bytes of a source of `src` bytes and writes them to `dst, …` -/
structure Copy where
  dst : Nat
  src : Nat
  n : Nat
deriving DecidableEq, Repr

def copyArgs (s : DMAMultiSPI) (dst : Nat) : Copy :=
  { dst, src := sizeofGpioData * (s.gpioShadow.getD []).length, n := s.gpioBufferSize }

/-- The first part of `SendBuffers`: the chain is built when there is none yet. -/
def prepareSend (env : Env) (s : DMAMultiSPI) : Except Fault DMAMultiSPI :=
  if s.gpioDma = none then s.finishRegistration env else .ok s

/-- The block after `memcpy(dst, shadow, n)`. -/
def copyShadow (m : Mem) (dst : Nat) (shadow : List GpioData) (n : Nat) : Mem :=
  (List.range (n / sizeofGpioData)).foldl
    (fun m i => writeGpioData m (dst + sizeofGpioData * i) (shadow.getD i GpioData.zero)) m

/-- The operations behind the control blocks, in the order in which the DMA engine plays them. -/
def played (m : Mem) (dst gpioOperations : Nat) : List GpioData :=
  (List.range gpioOperations).map fun i => readGpioData m (dst + sizeofGpioData * i)

/-- What `SendBuffers` hands to the DMA engine: the control block to start with, the control word that starts the
transfer, and the operations it plays. -/
structure Transfer where
  cblock : BitVec 32
  cs : BitVec 32
  entries : List GpioData
deriving DecidableEq, Repr

def sendBuffers (env : Env) (s : DMAMultiSPI) : Except Fault (DMAMultiSPI × Transfer) := do
  let s ← s.prepareSend env
  match s.alloced, s.gpioDma with
  | some blk, some dst =>
    let c := s.copyArgs dst
    if c.n ≤ c.src ∧ dst + c.n ≤ blk.size then
      let mem := copyShadow s.mem dst (s.gpioShadow.getD []) c.n
      let cblock ← uncachedMemBlockToPhysical blk s.startBlock
      let cs := (dmaCsPriority 7#32 ||| dmaCsPanicPriority 7#32 ||| dmaCsDisdebug) ||| dmaCsActive
      return ({ s with mem }, { cblock, cs, entries := played mem dst (← bytesToGpioOps s.serialByteSize) })
    else throw .outOfBounds
  | _, _ => throw .outOfBounds

/-! ### Histories -/

/-- One call, with the transfer it starts. -/
def call (env : Env) (s : DMAMultiSPI) : Call → Except Fault (DMAMultiSPI × Option Transfer)
  | .registerDataGpio gpio n => (s.registerDataGpio env gpio n).map fun r => (r.1, none)
  | .setBufferedByte gpio pos data => (s.setBufferedByte gpio pos data).map fun s => (s, none)
  | .sendBuffers => (s.sendBuffers env).map fun r => (r.1, some r.2)

def step (env : Env) (s : DMAMultiSPI) (c : Call) : Except Fault DMAMultiSPI := (s.call env c).map Prod.fst

end DMAMultiSPI

end Spixels
