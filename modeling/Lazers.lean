import Lazers.Boot.Handoff
import Lazers.Elf.HeaderTable
import Lazers.Framebuffer.Echo
import Lazers.Framebuffer.Rendering
import Lazers.Kernel.AcpiShutdown
import Lazers.Kernel.AcpiTables
import Lazers.Kernel.EnvListing
import Lazers.Kernel.Keyboard
import Lazers.Kernel.PackageLength
import Lazers.Kernel.Pci
import Lazers.Kernel.Power
import Lazers.Lash.Lists
import Lazers.Lash.PathSearch
import Lazers.Lash.Screen
import Lazers.Lash.SegmentTokens
import Lazers.Lib.RangeList
import Lazers.LibLazer.Fmt
import Lazers.LibLazer.Process
import Lazers.LibLazer.Runtime
import Lazers.LibLazer.Syscalls
import Lazers.Memory.FreeCapacity
import Lazers.Memory.FreeSet
import Lazers.Memory.Histories
import Lazers.Memory.LoadAtomicity
import Lazers.Memory.LoadCycle
import Lazers.Memory.LoadedImage
import Lazers.Memory.MemoryMap
import Lazers.Memory.SharedContext
import Lazers.Memory.UserSpace
import Lazers.Scheduler.ChainInvariant
import Lazers.Scheduler.ExitStatus
import Lazers.Scheduler.FrameOwnership
import Lazers.Scheduler.Input
import Lazers.Scheduler.Isolation
import Lazers.Scheduler.RoundRobin
import Lazers.Scheduler.SpawnChild
import Lazers.Scheduler.Streams
import Lazers.Storage.Ahci
import Lazers.Storage.Confinement
import Lazers.Storage.FileBuffer
import Lazers.Storage.ListingLookup
import Lazers.Storage.OverflowBounds
import Lazers.Storage.PathLookup
import Lazers.Storage.PathReference
import Lazers.User.Echo
import Lazers.User.Files
