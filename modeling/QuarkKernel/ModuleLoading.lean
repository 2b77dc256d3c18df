import QuarkKernel.ElfProgram
import QuarkKernel.Multiboot
import QuarkKernel.Spawn

/-! # `kernel_load_module`

The pages of a module are mapped at `load_base`, in a new address space, for
`load_program` to read the file there, and unmapped afterwards by their addresses.
`Intact` is what the caller is to find in the end: the program in frames of its own,
the process at the entry point, and none of the module's frames. -/
namespace QuarkKernel
open PagedMemory
open ByteMemory (addrAt)

/-- `load_base` -/
def loadBase : Word := 0x80000000

/-- `elf->entry` -/
def readEntry (m : PagedMemory) (elf : Word) : Option Word := readWord m (addrAt elf 24)

/-- The results for which `kernel_load_module` panics. -/
def Status.Panics (status : Word) : Prop :=
  status = Status.enomem.code ∨ status = Status.eoutofbounds.code

instance (status : Word) : Decidable (Status.Panics status) :=
  inferInstanceAs (Decidable (_ ∨ _))

namespace Multiboot.Module

/-- `module->start & ~(page_size - 1)` -/
def firstPage (module : Module) : Word := module.start &&& ~~~(pageSize - 1)

/-- The number of pages from there to the end of the module. -/
def pageCount (module : Module) : Nat :=
  (module.stop.toNat - 4096 * (module.start.toNat / 4096) + 4095) / 4096

/-- The frame is one of the module's. -/
def InFrame (module : Module) (f : Frame) : Prop :=
  module.start.toNat / 4096 ≤ f.toNat ∧ 4096 * f.toNat < module.stop.toNat

/-- The address is in one of the pages at `load_base`. -/
def InWindow (module : Module) (x : Nat) : Prop :=
  loadBase.toNat ≤ x ∧ x < loadBase.toNat + 4096 * module.pageCount

/-- Bytes of physical memory. -/
def bytesAt (m : PagedMemory) (address length : Nat) : ElfFile :=
  (List.range length).map fun i =>
    (m.ram (BitVec.ofNat 20 ((address + i) / 4096))).byte (BitVec.ofNat 12 (address + i))

/-- The file from `start` to `end`. -/
def file (module : Module) (m : PagedMemory) : ElfFile :=
  bytesAt m module.start.toNat (module.stop.toNat - module.start.toNat)

/-- What can be read from `load_base` on: the module's pages, from the first byte of the
first one. -/
def window (module : Module) (m : PagedMemory) : ElfFile :=
  bytesAt m (4096 * (module.start.toNat / 4096)) (4096 * module.pageCount)

end Multiboot.Module

open Multiboot (Module)

namespace Machine

/-- The loops of `kernel_load_module` over the pages of the module. -/
def forModulePages (pass : Word → Word → Machine → Option Machine) (stop : Word) :
    Nat → Word → Word → Machine → Option Machine
  | fuel, p, loadOffset, m =>
      if p < stop then
        match fuel with
        | 0 => none
        | fuel + 1 => do
            let m ← pass (loadBase + loadOffset) p m
            forModulePages pass stop fuel (p + pageSize) (loadOffset + pageSize) m
      else some m

/-- A pass of the first loop. -/
def mapModulePage (page p : Word) (m : Machine) : Option Machine := do
  let (status, m) ← m.mapPage page p pageRw
  if Status.Panics status.code then none else some m

/-- A pass of the second loop. -/
def unmapModulePage (page _p : Word) (m : Machine) : Option Machine := do
  let (status, m) ← m.unmapPage page
  if Status.Panics status then none else some m

/-- `kernel_load_module` up to `load_program`. -/
def mapModule (m : Machine) (fuel : Nat) (module : Module) : Option Machine := do
  let (table, m) ← m.createAddressSpace
  if table = Status.enomem.code then none
  else
    let m := { m with memory := pagingLoadAddressSpace m.memory table }
    forModulePages mapModulePage module.stop fuel module.firstPage 0 m

/-- `kernel_load_module` from `load_program` on, up to `kernel_spawn_process`, with the
entry point. -/
def loadModule (m : Machine) (fuel : Nat) (module : Module) : Option (Word × Machine) := do
  let (status, m) ← m.loadProgram loadBase
  if Status.Panics status.code then none
  else
    let moduleEntry ← readEntry m.memory loadBase
    let m ← forModulePages unmapModulePage module.stop fuel module.firstPage 0 m
    some (moduleEntry, m)

end Machine

namespace SpawnKernel

/-- `kernel_load_module`.  A `none` result is a page fault in the kernel, `panic`, or a
loop that needs more than `fuel` passes. -/
def kernelLoadModule (s : SpawnKernel) (fuel : Nat) (module : Module) (blocks : ProcessBlocks) :
    Option (Word × SpawnKernel) := do
  let m ← s.machine.mapModule fuel module
  let (moduleEntry, m) ← m.loadModule fuel module
  let addressSpace ← pagingCurrentAddressSpace m.memory
  let kernel := (s.kernel.kernel.loadAddressSpace addressSpace).setMemory addressSpace
    m.memory.loadByte
  let s : SpawnKernel := ⟨{ s.kernel with kernel }, m⟩
  let (pid, s) ← s.kernelSpawnProcess moduleEntry 1 addressSpace blocks
  some (if 0 < pid then Status.enone.code else -1, s)

/-- `load_program` has reserved the frame. -/
def TakenByLoader (s : SpawnKernel) (fuel : Nat) (module : Module) (f : Frame) : Prop :=
  ∃ m m' status, s.machine.mapModule fuel module = some m ∧
    m.loadProgram loadBase = some (status, m') ∧ f ∉ m.pageMap.reserved ∧ f ∈ m'.pageMap.reserved

end SpawnKernel

/-- The entry point. -/
def ElfFile.entry (file : ElfFile) : Word := file.wordAt 24

/-- The program is there: each page of a segment in a frame of its own, the process at the
entry point, and no page of the module. -/
structure Intact (s : SpawnKernel) (fuel : Nat) (module : Module) (file : ElfFile)
    (process : Option Ptr) (s' : SpawnKernel) : Prop where
  segments : ∀ t x, t ∈ file.segments → t.Covers x → s'.machine.memory.UserAccessible (addr x) ∧
    ∃ f, s'.machine.memory.translate (addr x) = some f ∧ s.TakenByLoader fuel module f ∧
      ∀ y, s'.machine.memory.translate y = some f → SamePage (addr x) y
  starts : ∃ p P, process = some p ∧ s'.kernel.kernel.processes p = some P ∧
    P.pageTable = frameAddress s'.machine.memory.cr3 ∧ P.ctx.eip = file.entry
  gone : ∀ x f, s'.machine.memory.translate x = some f → ¬ module.InFrame f

/-- The file has its headers, and the segments are for the user range but for its last
page, which is the stack. -/
structure ElfFile.Loadable (file : ElfFile) : Prop where
  header : 52 ≤ file.length
  entry : 32 ≤ file.phsize
  table : file.phoffset + file.phcount * file.phsize ≤ file.length
  user : ∀ t, t ∈ file.segments → t.vaddr + t.memsize ≤ stackPage.toNat

/-- Byte `i` is one of the headers'. -/
def ElfFile.InHeaders (file : ElfFile) (i : Nat) : Prop :=
  i < 52 ∨ file.phoffset ≤ i ∧ i < file.phoffset + file.phcount * file.phsize

/-- The pages of the headers are not loaded over. -/
def ElfFile.HeadersKept (file : ElfFile) : Prop :=
  ∀ t x i, t ∈ file.segments → t.Covers x → file.InHeaders i →
    pageOf (loadBase.toNat + i) ≠ pageOf x

/-- The caller's state: the module's frames are in use, they hold no table, and the pages of
the kernel show other frames, which are in use, too. -/
structure HostsModule (m : Machine) (module : Module) : Prop where
  inUse : TablesInUse m
  self : m.memory.SelfMapped
  kernelPages : ∀ x v, BelowWindow x → ¬ IsUser x → m.memory.view x = some v →
    v.frame ∈ m.pageMap.reserved ∧ ¬ module.InFrame v.frame
  frames : ∀ f, module.InFrame f → f ∈ m.pageMap.reserved ∧ ¬ HoldsTable m.memory f

/-- The file as the loader reads it has the entry point of the module's and takes up the
pages of its segments. -/
structure ReadsProgram (read file : ElfFile) : Prop where
  entry : read.entry = file.entry
  pages : ∀ t x, t ∈ file.segments → t.Covers x →
    ∃ u y, u ∈ read.segments ∧ u.Covers y ∧ pageOf y = pageOf x

/-- No segment of the file has a page at `load_base`. -/
def ApartFromWindow (module : Module) (file : ElfFile) : Prop :=
  ∀ t x, t ∈ file.segments → t.Covers x → ¬ module.InWindow x

end QuarkKernel
