import Mathlib.Algebra.Order.Group.Multiset
import Spixels.RegisterMap
import Spixels.SharedRegisters
import Spixels.UncachedMemory

/-!
# A process that uses the library

A process makes `MultiSPI` objects of both kinds, calls them in any order and deletes them.  An object of the direct
backend holds a mapping of the GPIO registers; one of the DMA backend holds that, and from its first send on an
uncached block and a page of the DMA registers.  All of them share the mailbox and the model of the board, which the
library keeps in static variables, and the GPIO registers themselves: whatever an object finds at its `gpio_port_` has
been left there by all of them.
-/

namespace Spixels

open Run (run)

/-- `DMA_BASE` -/
def dmaBase : Nat := 0x007000

/-- What is found in memory that has been allocated on the heap. -/
structure Heap where
  words : Nat → Nat → BitVec 32
  entries : Nat → Nat → GpioData

/-- Where no block is asked for, the mailbox does not matter. -/
def Heap.env (heap : Heap) : Env := { fresh := heap.entries, mbox := fun _ => none }

/-- A `DMAMultiSPI` with the addresses it keeps. -/
structure DmaObject where
  spi : DMAMultiSPI
  /-- `gpio_port_` -/
  port : Nat
  /-- `alloced_.mem`, where there is a block. -/
  mem : Nat
  /-- What `mmap_bcm_register` has returned for the DMA registers, once it has been called. -/
  registers : Option Nat

namespace DmaObject

def finishRegistration (os : Os) (o : DmaObject) : Action DmaObject :=
  if o.spi.alloced = none then do
    let gpioOperations ← Action.ofExcept (DMAMultiSPI.bytesToGpioOps o.spi.serialByteSize)
    let controlBlocks ← Action.ofExcept (DMAMultiSPI.ceilDivInt gpioOperations DMAMultiSPI.kMaxOpsPerBlock)
    let allocSize ← Action.ofExcept (toInt (controlBlocks * sizeofDmaCb + gpioOperations * sizeofGpioData))
    let (blk, addr) ← os.uncachedMemBlockAlloc allocSize
    let mem ← Action.ofExcept (DMAMultiSPI.buildChain blk controlBlocks gpioOperations)
    let registers ← os.mmapBcmRegister dmaBase
    let spi := { o.spi with
      alloced := some blk, mem, gpioDma := some (controlBlocks * sizeofDmaCb), startBlock := 0 }
    return { o with spi, mem := addr, registers }
  else throw (.fault .assertion)

/-- The send itself only needs that the registers have been mapped. -/
def transfer (heap : Heap) (o : DmaObject) : Action DmaObject :=
  match o.registers with
  | none => throw (.fault .outOfBounds)
  | some _ => do
    let (spi, _) ← Action.ofExcept (o.spi.sendBuffers heap.env)
    return { o with spi }

def call (os : Os) (heap : Heap) (o : DmaObject) : Call → Action DmaObject
  | .sendBuffers => do
    let o ← if o.spi.gpioDma = none then o.finishRegistration os else pure o
    o.transfer heap
  | .registerDataGpio gpio n => do
    let spi ← Action.ofExcept (o.spi.step heap.env (.registerDataGpio gpio n))
    return { o with spi }
  | .setBufferedByte gpio pos data => do
    let spi ← Action.ofExcept (o.spi.step heap.env (.setBufferedByte gpio pos data))
    return { o with spi }

end DmaObject

/-- A `MultiSPI` of the process.  The registers in its `gpio` are those that its last call has left; every call begins
with the registers as they are then. -/
inductive Object
  | direct (spi : DirectMultiSPI) (port : Nat)
  | dma (o : DmaObject)

namespace Object

/-- The constructor of the direct backend. -/
def createDirect (os : Os) (repeats clockGpio : Int) : Action Object := do
  match ← os.gpioInit with
  | none => throw (.fault .assertion)
  | some port =>
    let spi ← Action.ofExcept (DirectMultiSPI.create (← get).page repeats clockGpio)
    modify fun s => { s with gpio := some spi.gpio.registers }
    return .direct spi port

/-- The constructor of the DMA backend. -/
def createDma (os : Os) (clockGpio : Int) (bufferGarbage startGarbage : Nat) : Action Object := do
  match ← os.gpioInit with
  | none => throw (.fault .assertion)
  | some port =>
    let spi ← Action.ofExcept (DMAMultiSPI.create (← get).page clockGpio bufferGarbage startGarbage)
    modify fun s => { s with gpio := some spi.gpio.registers }
    return .dma { spi, port, mem := 0, registers := none }

def call (os : Os) (heap : Heap) (c : Call) : Object → Action Object
  | direct spi port => do
    let spi ← Action.ofExcept ((spi.withPort (← get).page).step heap.words c)
    modify fun s => { s with gpio := some spi.gpio.registers }
    return .direct spi port
  | dma o => do
    let o ← { o with spi := o.spi.withPort (← get).page }.call os heap c
    modify fun s => { s with gpio := some o.spi.gpio.registers }
    return .dma o

/-- The destructor: the heap of an object is no matter of the system. -/
def delete (os : Os) : Object → Action Unit
  | direct _ _ => return ()
  | dma o => os.uncachedMemBlockFree (o.spi.alloced.map fun blk => (blk, o.mem))

end Object

/-- An object that has been made, and whether it has not been deleted yet. -/
structure Slot where
  object : Object
  live : Bool

structure Process where
  sys : Sys
  objects : List Slot

namespace Process

def initial : Process := { sys := Sys.initial, objects := [] }

inductive Event
  | createDirect (repeats clockGpio : Int)
  | createDma (clockGpio : Int) (bufferGarbage startGarbage : Nat)
  | call (i : Nat) (c : Call) (heap : Heap)
  | delete (i : Nat)

def add (p : Process) (x : Action Object) : Except Stop Process :=
  (x p.sys).map fun r => { sys := r.2, objects := p.objects ++ [⟨r.1, true⟩] }

def step (os : Os) (p : Process) : Event → Except Stop Process
  | .createDirect repeats clockGpio => p.add (Object.createDirect os repeats clockGpio)
  | .createDma clockGpio bufferGarbage startGarbage =>
    p.add (Object.createDma os clockGpio bufferGarbage startGarbage)
  | .call i c heap =>
    match p.objects[i]? with
    | some ⟨object, true⟩ =>
      (object.call os heap c p.sys).map fun r => { sys := r.2, objects := p.objects.set i ⟨r.1, true⟩ }
    | some ⟨_, false⟩ | none => .error (.fault .outOfBounds)
  | .delete i =>
    match p.objects[i]? with
    | some ⟨object, true⟩ =>
      (object.delete os p.sys).map fun r => { sys := r.2, objects := p.objects.set i ⟨object, false⟩ }
    | some ⟨_, false⟩ | none => .error (.fault .outOfBounds)

end Process

/-! ### What the objects own -/

def registerPage (addr : Nat) : Resource := .mapping addr registerBlockSize

/-- What a destructor gives back. -/
def Object.block : Object → Multiset Resource
  | direct _ _ => 0
  | dma o => o.spi.alloced.elim 0 fun blk => blk.resources o.mem

/-- `gpio_port_` -/
def Object.port : Object → Nat
  | direct _ port => port
  | dma o => o.port

/-- The mapped DMA registers. -/
def Object.registers : Object → Option Nat
  | direct _ _ => none
  | dma o => o.registers

/-- What no destructor gives back. -/
def Object.pages (o : Object) : Multiset Resource :=
  registerPage o.port ::ₘ o.registers.elim 0 fun addr => {registerPage addr}

def Slot.owned (s : Slot) : Multiset Resource := (if s.live then s.object.block else 0) + s.object.pages

def Process.owned (p : Process) : Multiset Resource := p.sys.mboxResources + (p.objects.map Slot.owned).sum

end Spixels
