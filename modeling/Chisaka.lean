import Chisaka.Lib.Exec
import Chisaka.Lib.Machine
import Chisaka.Lib.Ensures
import Chisaka.Lib.Bytes
import Chisaka.Lib.Chain
import Chisaka.Lib.Ring
import Chisaka.Lib.RingOps
import Chisaka.Lib.Walk
import Chisaka.Lib.Bits
import Chisaka.Lib.Smear
import Chisaka.Lib.Objects
import Chisaka.Lib.Numeral
import Chisaka.Types
import Chisaka.Memmap.MemoryMap
import Chisaka.Memmap.Queries
import Chisaka.Ram.Freelist
import Chisaka.Ram.FreelistSpec
import Chisaka.Ram.FreelistSupply
import Chisaka.Ram.FreelistBlocks
import Chisaka.Ram.FreelistInit
import Chisaka.Ram.FreelistPool
import Chisaka.Ram.FreelistRuns
import Chisaka.Ram.FreelistFrames
import Chisaka.Ram.FreelistLow
import Chisaka.Ram.FreelistSides
import Chisaka.Ram.FreelistLists
import Chisaka.Ram.FreelistExtract
import Chisaka.Ram.FreelistZeroed
import Chisaka.Ram.FrameArray
import Chisaka.Kheap.Slab.ListDescriptor
import Chisaka.Kheap.Slab.ListDescriptorSpec
import Chisaka.Kheap.Slab.Geometry
import Chisaka.Kheap.Slab.ListDescriptorLinks
import Chisaka.Kheap.Slab.ListDescriptorRuns
import Chisaka.Kheap.Slab.HeapRings
import Chisaka.Kheap.Slab.Buffer
import Chisaka.Kheap.Slab.BufferRings
import Chisaka.Kheap.Slab.BufferSpec
import Chisaka.Kheap.Slab.PartialScan
import Chisaka.Kheap.Slab.BufferRuns
import Chisaka.Kheap.Slab.SlabPool
import Chisaka.Kheap.Slab.BufferPool
import Chisaka.Kheap.Slab.Allocator
import Chisaka.Kheap.Slab.MoveAssign
import Chisaka.Kheap.Slab.AllocatorSpec
import Chisaka.Kheap.Slab.RingLaws
import Chisaka.Kheap.Slab.Detached
import Chisaka.Kheap.Slab.AllocatorObjects
import Chisaka.Kheap.Slab.AllocatorRuns
import Chisaka.Kheap.Slab.AllocatorClasses
import Chisaka.Kheap.Slab.Frames
import Chisaka.KContext
import Chisaka.KContextRuns
import Chisaka.Kheap.SlabV2.ListDescriptor
import Chisaka.Kheap.SlabV2.ListDescriptorRuns
import Chisaka.Kheap.SlabV2.Buffer
import Chisaka.Kheap.SlabV2.BufferRuns
import Chisaka.Kheap.SlabV2.Allocator
import Chisaka.Kheap.SlabV2.SizeClasses
import Chisaka.X8664.Timers.HpetController
import Chisaka.X8664.Segments.SegmentDescriptor
import Chisaka.X8664.Segments.TaskDescriptor
import Chisaka.X8664.Segments.SegmentManager
import Chisaka.X8664.Paging.PageTable
import Chisaka.X8664.Paging.EntryAttributes
import Chisaka.X8664.Paging.EntryCodec
import Chisaka.X8664.Interrupts.GateDescriptor
import Chisaka.X8664.Interrupts.PicController
import Chisaka.X8664.Interrupts.PicRuns
import Chisaka.X8664.Interrupts.InterruptManager
import Chisaka.X8664.X86Pages
import Chisaka.X8664.Utilites
import Chisaka.X8664.X86PagesTree
import Chisaka.X8664.X86PagesMap
import Chisaka.X8664.AddressSpaces
import Chisaka.X8664.X86PagesExhausted
import Chisaka.X8664.X86PagesUser
import Chisaka.Drivers.Ahci.Structs
import Chisaka.Drivers.Ahci.HeaderAttributes
import Chisaka.Drivers.Ahci.AhciDriver
import Chisaka.Drivers.Ahci.PortMemory
import Chisaka.Drivers.Ahci.SectorCommand
import Chisaka.Drivers.Ahci.SectorFrame
import Chisaka.Drivers.Ahci.FrameLayouts
import Chisaka.Drivers.Ahci.CommandSlots
import Chisaka.Drivers.Ahci.AhciDisk
import Chisaka.Drivers.Ahci.DiskRuns
import Chisaka.Drivers.Ahci.PortIdle
import Chisaka.Drivers.Ahci.PortDevices
import Chisaka.Drivers.Pci
import Chisaka.Drivers.Ahci.Initialise
import Chisaka.Drivers.Ahci.InitialiseSteps
import Chisaka.Drivers.Ahci.PortViews
import Chisaka.Drivers.Ahci.BringUp
import Chisaka.Drivers.Serial.Logger
import Chisaka.Drivers.Serial.Kostream
import Chisaka.Drivers.Serial.Console
import Chisaka.Fs.Merofs.FileDescriptorManager
import Chisaka.Fs.Merofs.TableChunks
import Chisaka.Fs.Merofs.MfsManager
import Chisaka.Fs.Merofs.Format
import Chisaka.Fs.Merofs.DataBlocks
import Chisaka.Firmware.Acpi
import Chisaka.Process.ProcessManager
import Chisaka.Process.ProcessRuns
import Chisaka.Pom.PTable
