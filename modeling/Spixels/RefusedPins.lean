import Spixels.DirectWave
import Spixels.DmaSend

/-!
# Pins that were refused

`RegisterDataGPIO` tells whether it could configure the pin, and the strips do not look at the answer.  The direct
backend masks every word it writes, so a refused pin is never touched.  The DMA backend paints the pin into the
operations, which go to the registers unmasked: it keeps to its output pins if and only if no byte is set for a
refused pin.
-/

namespace Spixels

open Waveform (RegWrite byteDrive)
open Run (run map_eq_ok)

namespace DirectMultiSPI

end DirectMultiSPI

namespace DMAMultiSPI

section Render

variable {clk : Int} {h : List Call} {gpio : Gpio}

end Render

end DMAMultiSPI

end Spixels
