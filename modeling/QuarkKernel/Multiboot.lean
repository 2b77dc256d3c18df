import QuarkKernel.ByteMemory
import QuarkKernel.Status

/-! # `multiboot2.c`

The boot loader leaves a table of tags of various types and sizes in memory.
`read_multiboot_table` walks over it and fills in `struct boot_info_t`.  Its map is
kept by `memmap_insert_region` of libmalloc, which is not part of this repository
and takes 32-bit values; `map` lists the calls, in order.

A `none` result is a fault, a string that does not fit the buffer it is copied to,
or a loop that needs more than `fuel` rounds. -/
namespace QuarkKernel
namespace Multiboot

open ByteMemory (Memory addrAt loadWords)

/-- `M_AVAILABLE`, `M_DEFECTIVE` and `M_UNAVAILABLE`. -/
inductive RegionType where
  | available
  | defective
  | unavailable
deriving DecidableEq, Repr

/-- A call of `memmap_insert_region`. -/
structure Region where
  location : Word
  size : Word
  type : RegionType
deriving DecidableEq, Repr

/-- `struct module_t`; its `end` is `stop`. -/
structure Module where
  start : Word
  stop : Word
  str : List (BitVec 8)
deriving DecidableEq, Repr

/-- `module_limit` -/
def moduleLimit : Nat := 8

/-- The room for the string of a module. -/
def moduleStringSize : Nat := 56

/-- The room `x86_startup` gives the names of the boot loader and its parameters. -/
def nameSize : Nat := 64

/-- `struct boot_info_t`.  A string is given without its NUL. -/
structure BootInfo where
  bootloader : List (BitVec 8)
  parameters : List (BitVec 8)
  memorySize : Word
  map : List Region
  moduleCount : Nat
  modules : Nat → Module

/-- A `uint32_t`. -/
def readWord (memory : Memory) (addr : Word) : Option Word := do
  let words ← loadWords memory addr 1
  words[0]?

/-- A `uint64_t`. -/
def readLong (memory : Memory) (addr : Word) : Option (BitVec 64) := do
  let low ← readWord memory addr
  let high ← readWord memory (addrAt addr 4)
  some (high ++ low)

/-- `strcpy` into a buffer of `room` bytes. -/
def strcpy (memory : Memory) : Nat → Word → Option (List (BitVec 8))
  | 0, _ => none
  | room + 1, source => do
      let byte ← memory source
      if byte = 0 then some []
      else (strcpy memory room (addrAt source 1)).map (byte :: ·)

/-- The region type for a `multiboot2_memory_types` value. -/
def entryType (type : Word) : RegionType :=
  if type = 1 then .available
  else if type = 5 then .defective
  else .unavailable

/-- The loop over the entries of a memory map. -/
def readEntries (memory : Memory) : Nat → BootInfo → Word → Word → Word → Option BootInfo
  | fuel, bootInfo, entry, tagSize, entrySize =>
      if tagSize = 0 then some bootInfo
      else match fuel with
        | 0 => none
        | fuel + 1 => do
            let base ← readLong memory entry
            let length ← readLong memory (addrAt entry 8)
            let type ← readWord memory (addrAt entry 16)
            -- both are passed as `unsigned long`
            let region := ⟨base.setWidth 32, length.setWidth 32, entryType type⟩
            readEntries memory fuel { bootInfo with map := bootInfo.map ++ [region] }
              (entry + entrySize) (tagSize - entrySize) entrySize

/-- The number of bytes from `start` to `end`, in whole pages. -/
def moduleSize (start stop : Word) : Word := (stop - start + 4095) &&& ~~~4095

/-- What is done about a module there is room for. -/
def BootInfo.addModule (bootInfo : BootInfo) (module : Module) : BootInfo :=
  let region := ⟨module.start, moduleSize module.start module.stop, .unavailable⟩
  { bootInfo with
    modules := Function.update bootInfo.modules bootInfo.moduleCount module
    map := bootInfo.map ++ [region]
    moduleCount := bootInfo.moduleCount + 1 }

/-- The `switch` of `read_multiboot_table_entry`, but for the end tag. -/
def readTag (memory : Memory) (fuel : Nat) (bootInfo : BootInfo) (table type : Word) :
    Option BootInfo :=
  if type = 4 then do
    let high ← readWord memory (addrAt table 12)
    let low ← readWord memory (addrAt table 8)
    some { bootInfo with memorySize := high * 1024 + low * 1024 }
  else if type = 6 then do
    let size ← readWord memory (addrAt table 4)
    let entrySize ← readWord memory (addrAt table 8)
    readEntries memory fuel bootInfo (addrAt table 16) (size - 16) entrySize
  else if type = 3 then
    if bootInfo.moduleCount < moduleLimit then do
      let start ← readWord memory (addrAt table 8)
      let stop ← readWord memory (addrAt table 12)
      let str ← strcpy memory moduleStringSize (addrAt table 16)
      some (bootInfo.addModule ⟨start, stop, str⟩)
    else some bootInfo
  else if type = 1 then do
    let parameters ← strcpy memory nameSize (addrAt table 8)
    some { bootInfo with parameters }
  else if type = 2 then do
    let bootloader ← strcpy memory nameSize (addrAt table 8)
    some { bootInfo with bootloader }
  else some bootInfo

/-- `read_multiboot_table_entry`; NULL is 0. -/
def readMultibootTableEntry (memory : Memory) (fuel : Nat) (bootInfo : BootInfo) (table : Word) :
    Option (Word × BootInfo) := do
  let type ← readWord memory table
  if type = 0 then some (0, bootInfo)
  else do
    let bootInfo ← readTag memory fuel bootInfo table type
    let size ← readWord memory (addrAt table 4)
    some (table + ((size + 7) - (size + 7) % 8), bootInfo)

/-- The loop of `read_multiboot_table`, with the addresses it passes to
`read_multiboot_table_entry`. -/
def readTags (memory : Memory) : Nat → Word → BootInfo → Option (List Word × BootInfo)
  | fuel, table, bootInfo =>
      if table = 0 then some ([], bootInfo)
      else match fuel with
        | 0 => none
        | fuel + 1 => do
            let (next, bootInfo) ← readMultibootTableEntry memory fuel bootInfo table
            let (visited, bootInfo) ← readTags memory fuel next bootInfo
            some (table :: visited, bootInfo)

/-- `read_multiboot_table`, with the addresses of the tags it reads. -/
def readMultibootTable (memory : Memory) (fuel : Nat) (bootInfo : BootInfo) (table : Word) :
    Option (Word × List Word × BootInfo) := do
  let size ← readWord memory table
  let (visited, bootInfo) ← readTags memory fuel (addrAt table 8) bootInfo
  some (table + size, visited, bootInfo)

end Multiboot
end QuarkKernel
