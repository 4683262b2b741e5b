import Spixels.Run
import Spixels.Storage
import Spixels.Waveform
import Spixels.Ledger
import Spixels.Gpio
import Spixels.DmaChannel
import Spixels.Schedule
import Spixels.DmaBuffer
import Spixels.DmaChain
import Spixels.DmaHistory
import Spixels.DmaWave
import Spixels.DmaSend
import Spixels.DmaOverlength
import Spixels.DmaTransfer
import Spixels.DmaConcurrent
import Spixels.DmaProgram
import Spixels.DmaSystem
import Spixels.DmaSharing
import Spixels.DmaConfined
import Spixels.DmaWrap
import Spixels.DmaOrder
import Spixels.DirectBuffer
import Spixels.DirectGrowth
import Spixels.DirectWave
import Spixels.DirectProgram
import Spixels.DirectTiming
import Spixels.RefusedPins
import Spixels.Frame
import Spixels.LedStrip
import Spixels.LedChip
import Spixels.LedFrame
import Spixels.LedSession
import Spixels.LedOverflow
import Spixels.LedPicture
import Spixels.LedDisplay
import Spixels.LedProgram
import Spixels.LedOutside
import Spixels.LedBackends
import Spixels.LedIntensity
import Spixels.Rounding
import Spixels.LedLuminance
import Spixels.LedBrightness
import Spixels.Backends
import Spixels.Chaser
import Spixels.SimpleExample
import Spixels.BitField
import Spixels.RegisterWords
import Spixels.UncachedAlloc
import Spixels.GpioOutputs
import Spixels.CString
import Spixels.BoardModel
import Spixels.SharedRegisters
import Spixels.SystemCalls
import Spixels.RegisterMap
import Spixels.UncachedMemory
import Spixels.Process
import Spixels.ProcessLife
