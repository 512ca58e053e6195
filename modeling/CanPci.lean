import CanPci.Lib.Transition
import CanPci.Pelican
import CanPci.Basiccan
import CanPci.Lib.BitField
import CanPci.RegFile
import CanPci.PelicanFormat
import CanPci.Driver
import CanPci.System
import CanPci.TxRing
import CanPci.TxFifo
import CanPci.Access
import CanPci.TxConfined
import CanPci.RxRing
import CanPci.RxFrames
import CanPci.RxWindow
import CanPci.Controller
import CanPci.TxOrder
import CanPci.TxLock
import CanPci.TxWakeup
import CanPci.TwoWriters
import CanPci.ReadSteps
import CanPci.RxFifo
import CanPci.OpenSteps
import CanPci.BasiccanFormat
import CanPci.Emulated.Device
import CanPci.WriteAtomic
import CanPci.Emulated.Bounds
import CanPci.Emulated.TestDriver
import CanPci.Emulated.Delivery
import CanPci.Overrun
import CanPci.RxProgress
import CanPci.Lifecycle
import CanPci.ModeReg
import CanPci.SharedDevice
import CanPci.Closing
import CanPci.Emulated.Registers
import CanPci.Emulated.Stale
import CanPci.Emulated.Silent
import CanPci.Emulated.Restore
import CanPci.Emulated.Decoders
import CanPci.Emulated.Queue
import CanPci.Early.Memory
import CanPci.Early.Trigger
import CanPci.CharDev
import CanPci.BringUp
import CanPci.Lib.Ledger
import CanPci.Lib.RoundRobin
import CanPci.Uart.Accesses
import CanPci.Uart.CircBuf
import CanPci.Uart.Interrupt
import CanPci.Uart.Transfer
import CanPci.Uart.Wire
import CanPci.Uart.Chain
import CanPci.Uart.Opening
import CanPci.Uart.Settings
import CanPci.Uart.Session
import CanPci.Uart.Migration
import CanPci.Uart.Parameters
import CanPci.Backend.Ringbuf
import CanPci.Backend.Telnet
import CanPci.Backend.Console
import CanPci.Backend.Mux
