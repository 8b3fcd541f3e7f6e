import BsaAcs.Pgt.Basic
import BsaAcs.Lib.Bits
import BsaAcs.Pgt.Theorems.Words
import BsaAcs.Pgt.Theorems.Fill
import BsaAcs.Pgt.Theorems.Pages
import BsaAcs.Pgt.Theorems.Ownership
import BsaAcs.Pgt.Theorems.Visit
import BsaAcs.Pgt.Theorems.Built
import BsaAcs.Pgt.Theorems.Root
import BsaAcs.Pgt.Theorems.Translate
import BsaAcs.Pgt.Theorems.Create
import BsaAcs.Pgt.Theorems.Regions
import BsaAcs.Pgt.Theorems.Refine
import BsaAcs.Pgt.Theorems.Leak
import BsaAcs.Pgt.Theorems.Drop
import BsaAcs.Pgt.Theorems.Destroy
import BsaAcs.Infra.Test
import BsaAcs.Smmu.Reg
import BsaAcs.Gic.Its
import BsaAcs.Gic.Redistributor
import BsaAcs.Gic.Theorems.Its
import BsaAcs.Gic.Theorems.Redistributor
import BsaAcs.Infra.Theorems.Entries
import BsaAcs.Infra.Theorems.Independence
import BsaAcs.Iovirt.Basic
import BsaAcs.Iovirt.Mapping
import BsaAcs.Iovirt.Theorems.Mapping
import BsaAcs.Lib.Loop
import BsaAcs.Pcie.Basic
import BsaAcs.Pcie.Control
import BsaAcs.Pcie.DeviceTable
import BsaAcs.Pcie.Enumeration
import BsaAcs.Pcie.Exerciser
import BsaAcs.Pcie.Theorems.Address
import BsaAcs.Pcie.Theorems.Capability
import BsaAcs.Pcie.Theorems.Control
import BsaAcs.Pcie.Theorems.DeviceTable
import BsaAcs.Pcie.Theorems.Enumeration
import BsaAcs.Lib.Layout
import BsaAcs.Iovirt.Iort
import BsaAcs.Iovirt.Walk
import BsaAcs.Iovirt.Theorems.Walk
import BsaAcs.Iovirt.Theorems.Iort
import BsaAcs.Iovirt.Theorems.Describe
import BsaAcs.Smmu.Basic
import BsaAcs.Smmu.Theorems.Address
import BsaAcs.Pgt.Attributes
import BsaAcs.Pgt.Theorems.Address
import BsaAcs.Pgt.Theorems.Attributes
import BsaAcs.Pgt.Theorems.Failure
import BsaAcs.Iovirt.Theorems.Overlap
import BsaAcs.Lib.Heap
import BsaAcs.Lib.Blocks
import BsaAcs.Smmu.Queue
import BsaAcs.Smmu.Device
import BsaAcs.Smmu.Master
import BsaAcs.Smmu.Run
import BsaAcs.Smmu.Theorems.Poll
import BsaAcs.Smmu.Theorems.Reset
import BsaAcs.Smmu.Theorems.Sizes
import BsaAcs.Smmu.Theorems.Blocks
import BsaAcs.Smmu.Theorems.Step
import BsaAcs.Smmu.Theorems.Registry
import BsaAcs.Smmu.Theorems.Ownership
import BsaAcs.Smmu.Theorems.Contexts
import BsaAcs.Smmu.Theorems.Roots
import BsaAcs.Smmu.Theorems.Stop
import BsaAcs.Smmu.Theorems.Frames
import BsaAcs.Smmu.Theorems.Placement
import BsaAcs.Smmu.Theorems.Separation
import BsaAcs.Smmu.Theorems.Atomic
import BsaAcs.Lib.Ring
import BsaAcs.Smmu.CommandQueue
import BsaAcs.Smmu.Theorems.CommandQueue
import BsaAcs.Iovirt.Query
import BsaAcs.Iovirt.Raw
import BsaAcs.Iovirt.Theorems.Query
import BsaAcs.Iovirt.Theorems.Payload
import BsaAcs.Iovirt.Theorems.Raw
import BsaAcs.Pcie.Trace
import BsaAcs.Pcie.Scan
import BsaAcs.Pcie.Capability
import BsaAcs.Pcie.Theorems.Trace
import BsaAcs.Pcie.Theorems.Scan
import BsaAcs.Pcie.Theorems.Search
import BsaAcs.Pcie.Bitfield
import BsaAcs.Pcie.Theorems.Rootport
import BsaAcs.Pcie.Theorems.Bitfield
import BsaAcs.Smmu.Theorems.StreamTable
import BsaAcs.Smmu.Theorems.Unmap
import BsaAcs.Smmu.Theorems.Hardware
import BsaAcs.Smmu.Theorems.Entries
import BsaAcs.Smmu.Theorems.History
import BsaAcs.Gic.Theorems.Commands
import BsaAcs.Gic.Theorems.Lpi
import BsaAcs.Gic.Theorems.Tables
import BsaAcs.Gic.Isr
import BsaAcs.Gic.Theorems.Isr
import BsaAcs.Pcie.Bar
import BsaAcs.Pcie.Theorems.Bar
import BsaAcs.Pcie.Increment
import BsaAcs.Pcie.Theorems.Increment
import BsaAcs.Pcie.Peripheral
import BsaAcs.Pcie.Theorems.Peripheral
import BsaAcs.Pcie.ExerciserTable
import BsaAcs.Pcie.Theorems.ExerciserTable
import BsaAcs.Pcie.Msix
import BsaAcs.Pcie.Theorems.Msix
import BsaAcs.Pcie.BitfieldTable
import BsaAcs.Pcie.Theorems.BitfieldTable
import BsaAcs.Smmu.Theorems.Alike
import BsaAcs.Smmu.Theorems.Isolation
import BsaAcs.Smmu.Theorems.Descriptors
import BsaAcs.Smmu.Theorems.ContextTables
import BsaAcs.Smmu.Theorems.Records
import BsaAcs.Smmu.Theorems.Substreams
import BsaAcs.Infra.Status
import BsaAcs.Infra.Theorems.Status
import BsaAcs.Pcie.EcamAccess
import BsaAcs.Pcie.Theorems.EcamAccess
import BsaAcs.Pe.Table
import BsaAcs.Pe.Theorems.Table
import BsaAcs.Lib.Scan
import BsaAcs.Info.Memory
import BsaAcs.Info.Theorems.Memory
import BsaAcs.Info.Timer
import BsaAcs.Info.Theorems.Timer
import BsaAcs.Info.Watchdog
import BsaAcs.Info.Theorems.Watchdog
import BsaAcs.Gic.Msi
import BsaAcs.Gic.Theorems.Msi
import BsaAcs.Dt.Fdt
import BsaAcs.Dt.Theorems.Fdt
import BsaAcs.Dt.Watchdog
import BsaAcs.Dt.Theorems.Watchdog
import BsaAcs.Dt.Timer
import BsaAcs.Dt.Theorems.Timer
import BsaAcs.Dt.Pmu
import BsaAcs.Dt.Theorems.Pmu
import BsaAcs.Smmu.Theorems.Queue
import BsaAcs.Smmu.Theorems.Alignment
import BsaAcs.Pgt.Writes
import BsaAcs.Pgt.Theorems.Kinds
import BsaAcs.Infra.Print
import BsaAcs.Infra.Theorems.Print
import BsaAcs.Infra.Skip
import BsaAcs.Infra.Theorems.Skip
import BsaAcs.Info.Gic
import BsaAcs.Info.Madt
import BsaAcs.Info.Theorems.Madt
import BsaAcs.Dt.Gic
import BsaAcs.Dt.Theorems.Gic
import BsaAcs.Info.Peripheral
import BsaAcs.Info.Theorems.Peripheral
import BsaAcs.Dt.Peripheral
import BsaAcs.Dt.Theorems.Peripheral
import BsaAcs.Dt.Theorems.Ranges
import BsaAcs.Dt.Theorems.Agreement
import BsaAcs.Lib.Feed
import BsaAcs.Gic.Translation
import BsaAcs.Gic.Theorems.Handover
import BsaAcs.Gic.Theorems.Translation
import BsaAcs.Gic.PalMsi
import BsaAcs.Gic.Theorems.PalMsi
import BsaAcs.Lib.Sweep
import BsaAcs.Gic.Driver
import BsaAcs.Gic.Distributor
import BsaAcs.Gic.Theorems.Driver
import BsaAcs.Gic.Interrupts
import BsaAcs.Gic.Theorems.Interrupts
import BsaAcs.Lib.MixedRadix
import BsaAcs.Pe.Stack
import BsaAcs.Pe.Theorems.Stack
import BsaAcs.Pe.Registers
import BsaAcs.Smmu.Theorems.Session
import BsaAcs.Pgt.Theorems.Levels
import BsaAcs.Smmu.Theorems.Translation
import BsaAcs.Smmu.Theorems.Dma
import BsaAcs.Infra.Suite
import BsaAcs.Infra.Theorems.Suite
import BsaAcs.Pcie.Topology
import BsaAcs.Pcie.Theorems.Topology
import BsaAcs.Pcie.Theorems.InfoTable
import BsaAcs.Pe.Symmetry
import BsaAcs.Pe.Theorems.Symmetry
