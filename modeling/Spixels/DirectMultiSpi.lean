import Spixels.MultiSpi
import Spixels.Storage

/-!
# The direct backend (`direct-multi-spi.cc`)

`DirectMultiSPI` is the source's class: one word per bit, sent by writing each word to the GPIO port with the
clock low and then with the clock high.  The contents of storage that `malloc` and `realloc` return are a
parameter.

The `bzero` of `RegisterDataGPIO` is given by the words it is asked to clear, `growBzero`.  It takes effect on
those that belong to the buffer; what it does to other storage is left open.
-/

namespace Spixels

open Waveform (RegWrite)

structure DirectMultiSPI where
  clockGpio : Int
  /-- How often write operations are repeated to slow them down. -/
  writeRepeat : Nat
  gpio : Gpio
  size : Nat
  /-- `none` while `gpio_data_` is `NULL`. -/
  gpioData : Option (List (BitVec 32))

namespace DirectMultiSPI

def sizeofUint32 : Nat := 4

/-- The constructor, with `port` the registers that `Init` maps and `repeats` the rounded quotient
`30.0 / speed_mhz`. -/
def create (port : Nat → BitVec 32) (repeats clockGpio : Int) : Except Fault DirectMultiSPI :=
  let (gpio, success) := (Gpio.initialised port).addOutput clockGpio
  if success then
    .ok { clockGpio, writeRepeat := (max 2 repeats).toNat, gpio, size := 0, gpioData := none }
  else .error .assertion

/-- The words `bzero` is asked to clear, counted from `gpio_data_`. -/
structure Bzero where
  off : Nat
  n : Nat
deriving DecidableEq, Repr

/-- `bzero(gpio_data_ + prev_size, new_size - prev_size)`: the sizes are in bytes, the pointer counts words. -/
def growBzero (prevSize newSize : Nat) : Bzero := { off := prevSize, n := (newSize - prevSize) / sizeofUint32 }

/-- The part of `RegisterDataGPIO` that runs when the stream gets longer. -/
def grow (fresh : Nat → Nat → BitVec 32) (s : DirectMultiSPI) (serialByteSize : Nat) :
    Except Fault DirectMultiSPI :=
  do
  let prevSize ← toInt (s.size * 8 * sizeofUint32)
  let newSize ← toInt (serialByteSize * 8 * sizeofUint32)
  let data := Storage.resize (fresh newSize) (s.gpioData.getD []) (newSize / sizeofUint32)
  let b := growBzero prevSize newSize
  return { s with size := serialByteSize, gpioData := some (Storage.fill data b.off b.n 0#32) }

def registerDataGpio (fresh : Nat → Nat → BitVec 32) (s : DirectMultiSPI) (gpio : Int) (serialByteSize : Nat) :
    Except Fault (DirectMultiSPI × Bool) :=
  (if serialByteSize > s.size then s.grow fresh serialByteSize else .ok s).map fun s =>
    let (port, success) := s.gpio.addOutput gpio
    ({ s with gpio := port }, success)

/-- The body of the loop over the bits of a byte, for `bit = 0x80 >> k`. -/
def paintBit (dataGpio : Int) (data : BitVec 8) (k : Nat) (w : BitVec 32) : BitVec 32 :=
  if data &&& (0x80#8 >>> k) ≠ 0#8 then w ||| shl1 dataGpio else w &&& ~~~shl1 dataGpio

def setBufferedByte (s : DirectMultiSPI) (dataGpio : Int) (pos : Nat) (data : BitVec 8) :
    Except Fault DirectMultiSPI :=
  if pos < s.size then
    match s.gpioData with
    | none => .error .outOfBounds
    | some buffer =>
      -- the last word the loop reaches
      if 8 * pos + 7 < buffer.length then
        .ok { s with
          gpioData := some (Storage.sweep (fun k => 8 * pos + k) (paintBit dataGpio data) buffer (List.range 8)) }
      else .error .outOfBounds
  else .error .assertion

/-- `gpio_.Write(value)`, `write_repeat_` times. -/
def writes (s : DirectMultiSPI) (value : BitVec 32) : List (RegWrite 32) :=
  (List.replicate s.writeRepeat (s.gpio.write value)).flatten

/-- What a send writes for one word: the word itself, and then with the positive clock edge. -/
def sendWord (s : DirectMultiSPI) (d : BitVec 32) : List (RegWrite 32) :=
  s.writes d ++ s.writes (d ||| shl1 s.clockGpio)

/-- The register writes of `SendBuffers`. -/
def sendBuffers (s : DirectMultiSPI) : Except Fault (List (RegWrite 32)) :=
  if 8 * s.size ≤ (s.gpioData.getD []).length then
    .ok (((s.gpioData.getD []).take (8 * s.size)).flatMap s.sendWord ++ s.gpio.write 0#32)
  else .error .outOfBounds

/-! ### Histories -/

/-- One call, with the register writes it makes. -/
def call (fresh : Nat → Nat → BitVec 32) (s : DirectMultiSPI) :
    Call → Except Fault (DirectMultiSPI × List (RegWrite 32))
  | .registerDataGpio gpio n => (s.registerDataGpio fresh gpio n).map fun r => (r.1, [])
  | .setBufferedByte gpio pos data => (s.setBufferedByte gpio pos data).map fun s => (s, [])
  | .sendBuffers => s.sendBuffers.map fun ws => (s, ws)

def step (fresh : Nat → Nat → BitVec 32) (s : DirectMultiSPI) (c : Call) : Except Fault DirectMultiSPI :=
  (s.call fresh c).map Prod.fst

end DirectMultiSPI

end Spixels
