import QuarkKernel.CountedLoop
import QuarkKernel.PagedMemory
import QuarkKernel.Status

/-! # `x86/paging.c`

Page tables are read and written where the last directory entry shows them: the
tables from 0xFFC00000 on, the directory in the last page.  Every access goes
through the page walk, so each function is partial: `none` is a page fault in the
kernel.  The walk sees a change of an entry at once (there is no model of the
TLB), and it does not set the accessed and dirty bits. -/
namespace QuarkKernel

open ByteMemory (addrAt)
open CountedLoop (loop)

/-- `enum page_flag_t` -/
def pageRw : Word := 1
def pageExecutable : Word := 1 <<< 1
def pageUsermode : Word := 1 <<< 2
def pagePresent : Word := 1 <<< 16

/-- `page_bits` -/
def pageBits : Nat := 12

/-- `page_table_levels` -/
def pageTableLevels : Nat := 2

/-- `page_tables` -/
def pageTables : Word := 0xFFC00000

/-- `page_directory` -/
def pageDirectory : Word := 0xFFFFF000

/-- The bits of `flags` that are in `flag` are not all clear. -/
def hasFlag (flags flag : Word) : Bool := flags &&& flag != 0

/-- `addr >> page_bits` as the 20-bit field `physical_address` holds it. -/
def frameNumber (addr : Word) : Frame := (addr >>> pageBits).setWidth 20

/-- `physical_address << page_bits` -/
def frameAddress (frame : Frame) : Word := frame.setWidth 32 <<< pageBits

/-- `&page_directory[index]` -/
def directoryEntry (index : Word) : Word := pageDirectory + 4 * index

/-- `&page_tables[index]` -/
def tableEntry (index : Word) : Word := pageTables + 4 * index

/-- `get_pte_pointer`; the pointer it returns may be NULL. -/
def getPtePointer (m : PagedMemory) (page : Word) (level : Nat) : Option (Option Word) := do
  let directoryIndex := page >>> 22
  if level = 0 then
    some (some (directoryEntry directoryIndex))
  else if level = 1 then do
    let entry ← m.loadEntry (directoryEntry directoryIndex)
    if entry.present then some (some (tableEntry (page >>> pageBits))) else some none
  else some none

/-- The flags `get_pte_type` reads off an entry. -/
def entryFlags (entry : Entry) : Word :=
  (if entry.present then pagePresent ||| pageExecutable else 0) |||
    (if entry.rw then pageRw else 0) ||| (if entry.usermode then pageUsermode else 0)

/-- `get_pte_type` -/
def getPteType (m : PagedMemory) (page : Word) (level : Nat) : Option Word := do
  match ← getPtePointer m page level with
  | some entry => (m.loadEntry entry).map entryFlags
  | none => some 0

/-- `set_pte_type`, with 0 or -1 for what it returns. -/
def setPteType (m : PagedMemory) (page : Word) (level : Nat) (flags : Word) :
    Option (Int × PagedMemory) := do
  match ← getPtePointer m page level with
  | some entry =>
      let m ← m.modifyEntry entry fun e => { e with present := hasFlag flags pagePresent }
      let m ← m.modifyEntry entry fun e => { e with rw := hasFlag flags pageRw }
      let m ← m.modifyEntry entry fun e => { e with usermode := hasFlag flags pageUsermode }
      some (0, m)
  | none => some (-1, m)

/-- `get_pte_address`; -1 is the largest `physaddr_t`. -/
def getPteAddress (m : PagedMemory) (page : Word) (level : Nat) : Option Word := do
  match ← getPtePointer m page level with
  | some entry =>
      let e ← m.loadEntry entry
      some (frameAddress e.physicalAddress ||| page &&& 0xFFF)
  | none => some (-1)

/-- `set_pte_address`, with 0 or -1 for what it returns. -/
def setPteAddress (m : PagedMemory) (page : Word) (level : Nat) (addr : Word) :
    Option (Int × PagedMemory) := do
  match ← getPtePointer m page level with
  | some entry =>
      let m ← m.modifyEntry entry fun e => { e with physicalAddress := frameNumber addr }
      some (0, m)
  | none => some (-1, m)

/-- `set_pte` -/
def setPte (m : PagedMemory) (page : Word) (level : Nat) (flags addr : Word) :
    Option (Int × PagedMemory) := do
  let (status, m) ← setPteAddress m page level addr
  if status = 0 then setPteType m page level flags else some (-1, m)

/-- One pass of the loop in `wipe_page_table`. -/
def wipeEntry (index : Word) (i : Nat) (m : PagedMemory) : Option PagedMemory := do
  let m ← m.modifyEntry (tableEntry (index + BitVec.ofNat 32 i)) fun e =>
    { e with present := false }
  m.modifyEntry (tableEntry (index + BitVec.ofNat 32 i)) fun e => { e with physicalAddress := 0 }

/-- `wipe_page_table` -/
def wipePageTable (m : PagedMemory) (page : Word) (level : Nat) : Option PagedMemory := do
  if level = 1 then
    let type ← getPteType m page 0
    if hasFlag type pagePresent then
      loop (wipeEntry (page >>> pageBits &&& ~~~0x3FF)) 1024 m
    else some m
  else some m

/-- `memset` -/
def memset (m : PagedMemory) (ptr : Word) (value : BitVec 8) (num : Nat) : Option PagedMemory :=
  loop (fun i m => m.storeByte (addrAt ptr i) value) num m

/-- One pass of the loop in `paging_init_top_table`, for directory entry `i`. -/
def copyKernelEntry (i : Nat) (m : PagedMemory) : Option PagedMemory := do
  let e ← m.loadEntry (directoryEntry (BitVec.ofNat 32 i))
  m.storeEntry (tableEntry (BitVec.ofNat 32 i)) e

/-- `paging_init_top_table`.  It returns 0. -/
def pagingInitTopTable (m : PagedMemory) (table : Word) : Option PagedMemory := do
  let buffer ← m.loadEntry (directoryEntry 0)
  let m ← m.modifyEntry (directoryEntry 0) fun e => { e with physicalAddress := frameNumber table }
  let m ← memset m pageTables 0 pageSize.toNat
  let lastIndex := 1023
  let kernelIndex := (kernelStart >>> 22).toNat
  let m ← loop (fun i => copyKernelEntry (kernelIndex + i)) (lastIndex - kernelIndex) m
  let last := tableEntry (BitVec.ofNat 32 lastIndex)
  let m ← m.modifyEntry last fun e => { e with physicalAddress := frameNumber table }
  let m ← m.modifyEntry last fun e => { e with present := true }
  let m ← m.modifyEntry last fun e => { e with rw := true }
  m.storeEntry (directoryEntry 0) buffer

/-- `paging_load_address_space` -/
def pagingLoadAddressSpace (m : PagedMemory) (table : Word) : PagedMemory :=
  { m with cr3 := frameNumber table }

/-- `paging_current_address_space` -/
def pagingCurrentAddressSpace (m : PagedMemory) : Option Word :=
  (m.loadEntry (directoryEntry 1023)).map fun e => frameAddress e.physicalAddress

end QuarkKernel
