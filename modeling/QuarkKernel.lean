import QuarkKernel.Transition
import QuarkKernel.AvlTree
import QuarkKernel.AvlMap
import QuarkKernel.AvlBalance
import QuarkKernel.PrefixBag
import QuarkKernel.PriorityQueue
import QuarkKernel.ByteMemory
import QuarkKernel.Context
import QuarkKernel.Kernel
import QuarkKernel.KernelSteps
import QuarkKernel.KernelEffects
import QuarkKernel.ReadyOnce
import QuarkKernel.Runnable
import QuarkKernel.Waiting
import QuarkKernel.Delivery
import QuarkKernel.Sender
import QuarkKernel.Fairness
import QuarkKernel.CountedLoop
import QuarkKernel.PagedMemory
import QuarkKernel.Paging
import QuarkKernel.PagingSpecs
import QuarkKernel.MemoryManager
import QuarkKernel.AddressSpaces
import QuarkKernel.UserSpace
import QuarkKernel.ChunkedLoad
import QuarkKernel.Elf
import QuarkKernel.ElfFile
import QuarkKernel.ProcessIdentity
import QuarkKernel.DanglingReferences
import QuarkKernel.SignalFrame
import QuarkKernel.LoadedSpace
import QuarkKernel.SyscallRegistry
import QuarkKernel.BlockSteps
import QuarkKernel.Confinement
import QuarkKernel.X86
import QuarkKernel.Preemption
import QuarkKernel.Mmap
import QuarkKernel.FrameOwnership
import QuarkKernel.BlockHeap
import QuarkKernel.NodeTree
import QuarkKernel.HeapKernel
import QuarkKernel.HeapAccounting
import QuarkKernel.HeapOwnership
import QuarkKernel.HeapRuns
import QuarkKernel.HeapOrder
import QuarkKernel.QueueOrder
import QuarkKernel.QueueAccesses
import QuarkKernel.AvlRotations
import QuarkKernel.QueueTurns
import QuarkKernel.Multiboot
import QuarkKernel.PortOwners
import QuarkKernel.MultibootTable
import QuarkKernel.DirectoryWindow
import QuarkKernel.Munmap
import QuarkKernel.ElfLoading
import QuarkKernel.ElfProgram
import QuarkKernel.LoadedProgram
import QuarkKernel.MappedPages
import QuarkKernel.PageRoundTrip
import QuarkKernel.Heap
import QuarkKernel.BlockingReceive
import QuarkKernel.HeapMapping
import QuarkKernel.MemoryMap
import QuarkKernel.SendFailures
import QuarkKernel.StartPaging
import QuarkKernel.TableInsertion
import QuarkKernel.Spawn
import QuarkKernel.BitmapPages
import QuarkKernel.PageMapBootstrap
import QuarkKernel.ByteCopies
import QuarkKernel.CallFrame
import QuarkKernel.IntegerLog
import QuarkKernel.Itoa
import QuarkKernel.StringFunctions
import QuarkKernel.Console
import QuarkKernel.LinkedQueue
import QuarkKernel.Printf
import QuarkKernel.MultibootBounds
import QuarkKernel.ModuleLoading
import QuarkKernel.ProgramSpace
import QuarkKernel.PlacedProgram
import QuarkKernel.LoadedModule
import QuarkKernel.ModuleReturns
import QuarkKernel.IntactProgram
import QuarkKernel.LeftPath
import QuarkKernel.PriorityScheduling
import QuarkKernel.BootedKernel
import QuarkKernel.BootedProcesses
import QuarkKernel.RunQueue
import QuarkKernel.BootedScheduling
import QuarkKernel.BootedIsolation
import QuarkKernel.FrameUses
import QuarkKernel.SpaceIsolation
import QuarkKernel.MmapIsolation
import QuarkKernel.BitFields
import QuarkKernel.InterruptDelivery
import QuarkKernel.DescriptorTables
import QuarkKernel.InterruptEntry
import QuarkKernel.SystemCallPath
import QuarkKernel.BootTables
import QuarkKernel.KernelText
import QuarkKernel.KernelBoot
