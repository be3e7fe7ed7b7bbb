import LiberaDaq.Interaction.Program
import LiberaDaq.Interaction.Layer
import LiberaDaq.Cspi.Codes
import LiberaDaq.Cspi.Interface
import LiberaDaq.Driver.Config
import LiberaDaq.Driver.Time
import LiberaDaq.Driver.Iop
import LiberaDaq.Command.Acquire
import LiberaDaq.Driver.ReadContract
import LiberaDaq.Interaction.History
import LiberaDaq.Command.Station
import LiberaDaq.Driver.IopRuns
import LiberaDaq.Command.Turn
import LiberaDaq.Command.Setup
import LiberaDaq.Command.Counting
import LiberaDaq.Driver.Settime
import LiberaDaq.Driver.Queries
import LiberaDaq.Driver.Lifecycle
import LiberaDaq.Driver.Kinds
import LiberaDaq.Command.ModeAgreement
import LiberaDaq.Command.Ending
import LiberaDaq.Command.Independence
import LiberaDaq.Cspi.Library
import LiberaDaq.Cspi.Connections
import LiberaDaq.Cspi.Read
import LiberaDaq.Memory.LinkedList
import LiberaDaq.Cspi.Frames
import LiberaDaq.Cspi.Calls
import LiberaDaq.Interaction.Environment
import LiberaDaq.Cspi.Locks
import LiberaDaq.Eventd.Daemon
import LiberaDaq.Eventd.World
import LiberaDaq.Eventd.Mask
import LiberaDaq.Cspi.Handles
import LiberaDaq.Eventd.Delivery
import LiberaDaq.Eventd.Callbacks
import LiberaDaq.Eventd.Registration
import LiberaDaq.Kernel.SaPipe
import LiberaDaq.Kernel.SaDevice
import LiberaDaq.Kernel.SaOrder
import LiberaDaq.Kernel.SaLoss
import LiberaDaq.Kernel.Calls
import LiberaDaq.Kernel.Waits
import LiberaDaq.Kernel.DeviceOps
import LiberaDaq.Kernel.EventOps
import LiberaDaq.Kernel.LockBalance
import LiberaDaq.Kernel.CfgDevice
import LiberaDaq.Kernel.CfgGroups
import LiberaDaq.Kernel.CfgInit
import LiberaDaq.Kernel.CfgStation
import LiberaDaq.Kernel.Interlock
import LiberaDaq.Calibration.World
import LiberaDaq.Calibration.Refresh
import LiberaDaq.Calibration.Reading
import LiberaDaq.Calibration.Coherence
import LiberaDaq.Kernel.CfgCall
import LiberaDaq.Kernel.Setenv
import LiberaDaq.Kernel.Rings
import LiberaDaq.Kernel.Ctime
import LiberaDaq.Kernel.TrigDevice
import LiberaDaq.Kernel.TrigPairs
import LiberaDaq.Kernel.RoundTrip
import LiberaDaq.Kernel.Validation
import LiberaDaq.Kernel.CfgRepeat
import LiberaDaq.Kernel.Repeat
import LiberaDaq.Cspi.Conparams
import LiberaDaq.Dd.Times
import LiberaDaq.Dd.Device
import LiberaDaq.Dd.Position
import LiberaDaq.Dd.Contiguous
import LiberaDaq.Dd.DmaRing
import LiberaDaq.Dd.DmaEngine
import LiberaDaq.Dd.DmaRuns
import LiberaDaq.Dd.DmaReader
import LiberaDaq.Cspi.LiveConnections
import LiberaDaq.Cspi.Allocation
import LiberaDaq.Interaction.Path
import LiberaDaq.Kernel.FileAccess
import LiberaDaq.Kernel.SingleWriter
import LiberaDaq.Kernel.TrigEnable
import LiberaDaq.Calibration.FastOffsets
import LiberaDaq.Eventd.Framing
import LiberaDaq.Memory.BitScan
import LiberaDaq.Kernel.TrigDispatch
import LiberaDaq.Kernel.SaRegistry
import LiberaDaq.Kernel.BlockFiles
import LiberaDaq.Memory.Drain
import LiberaDaq.Kernel.QueueFiles
import LiberaDaq.Numeric.Vectoring
import LiberaDaq.Transform.Arithmetic
import LiberaDaq.Transform.Cordic
import LiberaDaq.Transform.Positions
import LiberaDaq.Interaction.Loop
import LiberaDaq.Transform.Spikes
import LiberaDaq.Transform.HoldTurns
import LiberaDaq.Transform.HoldValues
import LiberaDaq.Transform.Averages
import LiberaDaq.Transform.Traps
import LiberaDaq.Msp.Firmware
import LiberaDaq.Msp.Transfer
import LiberaDaq.Kernel.TrigSettime
import LiberaDaq.Numeric.Rescale
import LiberaDaq.Dd.Conversions
import LiberaDaq.Dd.Addresses
import LiberaDaq.Dd.Commands
import LiberaDaq.Dd.Windows
import LiberaDaq.Kernel.EventGenerator
import LiberaDaq.Kernel.TrigFlush
import LiberaDaq.Transform.SinglePass
import LiberaDaq.Command.Job
import LiberaDaq.Command.Loops
import LiberaDaq.Command.Duration
import LiberaDaq.Driver.TimeForm
import LiberaDaq.Eventd.Listeners
import LiberaDaq.Cspi.PllStatus
import LiberaDaq.Cspi.GainTable
import LiberaDaq.Msp.HexFile
import LiberaDaq.Msp.Truncation
import LiberaDaq.Command.Extent
import LiberaDaq.Cspi.Extent
import LiberaDaq.Memory.FreeList
import LiberaDaq.Cspi.Pool
import LiberaDaq.Cspi.Ownership
import LiberaDaq.Driver.Release
import LiberaDaq.Cspi.ReadLaw
import LiberaDaq.Kernel.ModuleBooks
import LiberaDaq.Eventd.EventPath
import LiberaDaq.Kernel.InterruptLoop
import LiberaDaq.Kernel.FaLinear
import LiberaDaq.Msp.Programming
import LiberaDaq.Kernel.PmSnapshot
import LiberaDaq.Kernel.IlkCauses
import LiberaDaq.Msp.Device
import LiberaDaq.Msp.Readings
