import Mathlib.Logic.Function.Basic
import QuarkKernel.ByteMemory

/-! # Memory behind two levels of page tables

Physical memory in frames of 1024 words, a page directory, and the walk that
finds the frame of a 32-bit linear address.  The walk needs the entries of both
levels to be present, and to allow writing where the access is a write.  Entries
can be read and written through linear addresses too; when the last entry of the
directory refers to the directory itself (`SelfMapped`), the tables appear at the
top of the address space. -/

/-- The number of a frame of physical memory. -/
abbrev Frame := BitVec 20

/-- The contents of a frame. -/
abbrev FrameData := BitVec 10 → BitVec 32

/-! ### Bytes of a frame -/

namespace FrameData
open ByteMemory

/-- The word with byte `i` replaced. -/
def setByteOf (word : BitVec 32) (i : Nat) (byte : BitVec 8) : BitVec 32 :=
  (if i = 3 then byte else byteOf word 3) ++ (if i = 2 then byte else byteOf word 2) ++
    (if i = 1 then byte else byteOf word 1) ++ (if i = 0 then byte else byteOf word 0)

theorem byteOf_setByteOf (word : BitVec 32) {i j : Nat} (byte : BitVec 8) (hj : j < 4) :
    byteOf (setByteOf word i byte) j = if i = j then byte else byteOf word j := by
  have happend : ∀ b0 b1 b2 b3 : BitVec 8, ∀ j, j < 4 →
      byteOf (b3 ++ b2 ++ b1 ++ b0) j =
        if j = 3 then b3 else if j = 2 then b2 else if j = 1 then b1 else b0 := by
    intro b0 b1 b2 b3 j hj
    ext k hk
    obtain rfl | rfl | rfl | rfl : j = 0 ∨ j = 1 ∨ j = 2 ∨ j = 3 := by omega
    all_goals
      simp only [byteOf, BitVec.getElem_extractLsb', BitVec.getLsbD_append]
      grind
  rw [setByteOf, happend _ _ _ _ j hj]
  obtain rfl | rfl | rfl | rfl : j = 0 ∨ j = 1 ∨ j = 2 ∨ j = 3 := by omega
  all_goals simp

/-- The byte at an offset. -/
def byte (data : FrameData) (offset : BitVec 12) : BitVec 8 :=
  byteOf (data (offset.extractLsb' 2 10)) (offset.extractLsb' 0 2).toNat

/-- The frame with one byte replaced. -/
def setByte (data : FrameData) (offset : BitVec 12) (b : BitVec 8) : FrameData :=
  let i := offset.extractLsb' 2 10
  Function.update data i (setByteOf (data i) (offset.extractLsb' 0 2).toNat b)

theorem offset_ext {offset offset' : BitVec 12}
    (hword : offset.extractLsb' 2 10 = offset'.extractLsb' 2 10)
    (hbyte : offset.extractLsb' 0 2 = offset'.extractLsb' 0 2) : offset = offset' := by
  have hword := congrArg BitVec.toNat hword
  have hbyte := congrArg BitVec.toNat hbyte
  simp only [BitVec.extractLsb'_toNat, Nat.shiftRight_eq_div_pow] at hword hbyte
  apply BitVec.eq_of_toNat_eq
  omega

theorem byte_setByte (data : FrameData) (offset offset' : BitVec 12) (b : BitVec 8) :
    byte (setByte data offset b) offset' = if offset = offset' then b else byte data offset' := by
  rw [byte, setByte]
  by_cases hword : offset'.extractLsb' 2 10 = offset.extractLsb' 2 10
  · rw [hword, Function.update_self, byteOf_setByteOf _ _ (offset'.extractLsb' 0 2).isLt, byte,
      hword]
    by_cases hbyte : offset.extractLsb' 0 2 = offset'.extractLsb' 0 2
    · rw [if_pos (congrArg BitVec.toNat hbyte), if_pos (offset_ext hword.symm hbyte)]
    · have hne : offset ≠ offset' := by
        rintro rfl
        exact hbyte rfl
      rw [if_neg fun h => hbyte (BitVec.eq_of_toNat_eq h), if_neg hne]
  · have hne : offset ≠ offset' := by
      rintro rfl
      exact hword rfl
    rw [Function.update_of_ne hword, if_neg hne, byte]

@[simp] theorem byte_zero (offset : BitVec 12) : byte (fun _ => 0) offset = 0 := by
  simp [byte, byteOf]

/-- A frame is given by its bytes. -/
theorem ext_byte {data data' : FrameData} (h : ∀ offset, data.byte offset = data'.byte offset) :
    data = data' := by
  funext i
  rw [← byteOf_append (data i), ← byteOf_append (data' i)]
  have hbyte : ∀ k : BitVec 2, byteOf (data i) k.toNat = byteOf (data' i) k.toNat := by
    intro k
    have hi : (i ++ k).extractLsb' 2 10 = i := by
      apply BitVec.eq_of_toNat_eq
      have := k.isLt
      have := i.isLt
      simp only [BitVec.extractLsb'_toNat, Nat.shiftRight_eq_div_pow, BitVec.toNat_append,
        Nat.shiftLeft_eq]
      rw [← Nat.shiftLeft_eq, ← Nat.shiftLeft_add_eq_or_of_lt k.isLt, Nat.shiftLeft_eq]
      omega
    have hk : (i ++ k).extractLsb' 0 2 = k := by
      apply BitVec.eq_of_toNat_eq
      have := k.isLt
      simp only [BitVec.extractLsb'_toNat, Nat.shiftRight_eq_div_pow, BitVec.toNat_append]
      rw [← Nat.shiftLeft_add_eq_or_of_lt k.isLt, Nat.shiftLeft_eq]
      omega
    have := h (i ++ k)
    rwa [byte, byte, hi, hk] at this
  rw [show byteOf (data i) 3 = byteOf (data' i) 3 from hbyte 3,
    show byteOf (data i) 2 = byteOf (data' i) 2 from hbyte 2,
    show byteOf (data i) 1 = byteOf (data' i) 1 from hbyte 1,
    show byteOf (data i) 0 = byteOf (data' i) 0 from hbyte 0]

end FrameData

/-! ### Entries -/

/-- An entry of a page table or of the page directory.  The walk does not look at
the nine bits in `other`. -/
structure Entry where
  present : Bool
  rw : Bool
  usermode : Bool
  other : BitVec 9
  physicalAddress : Frame
deriving DecidableEq, Repr

namespace Entry

/-- The entry in a word: `present` is bit 0, the frame is in bits 12 to 31. -/
def ofWord (word : BitVec 32) : Entry where
  present := word.getLsbD 0
  rw := word.getLsbD 1
  usermode := word.getLsbD 2
  other := word.extractLsb' 3 9
  physicalAddress := word.extractLsb' 12 20

def toWord (entry : Entry) : BitVec 32 :=
  entry.physicalAddress ++ entry.other ++ BitVec.ofBool entry.usermode ++
    BitVec.ofBool entry.rw ++ BitVec.ofBool entry.present

/-- The entry lets an access with supervisor rights pass, write protection being in
force for these too. -/
def permits (entry : Entry) (write : Bool) : Bool := entry.present && (!write || entry.rw)

@[simp] theorem ofWord_toWord (entry : Entry) : ofWord entry.toWord = entry := by
  obtain ⟨present, rw, usermode, other, physicalAddress⟩ := entry
  simp only [ofWord, toWord, Entry.mk.injEq]
  refine ⟨?_, ?_, ?_, ?_, ?_⟩
  · simp only [BitVec.getLsbD_append, BitVec.getLsbD_ofBool]
    rfl
  · simp only [BitVec.getLsbD_append, BitVec.getLsbD_ofBool]
    rfl
  · simp only [BitVec.getLsbD_append, BitVec.getLsbD_ofBool]
    rfl
  · ext i hi
    simp only [BitVec.getElem_extractLsb', BitVec.getLsbD_append]
    grind
  · ext i hi
    simp only [BitVec.getElem_extractLsb', BitVec.getLsbD_append]
    grind

@[simp] theorem toWord_ofWord (word : BitVec 32) : (ofWord word).toWord = word := by
  ext i hi
  simp only [ofWord, toWord]
  grind

theorem permits_false {entry : Entry} (h : entry.permits true = true) :
    entry.permits false = true := by
  simp only [permits, Bool.and_eq_true] at h ⊢
  exact ⟨h.1, rfl⟩

end Entry

/-! ### The walk -/

/-- The index of a linear address into the page directory. -/
def dirIndex (addr : BitVec 32) : BitVec 10 := addr.extractLsb' 22 10

/-- The index of a linear address into a page table. -/
def tableIndex (addr : BitVec 32) : BitVec 10 := addr.extractLsb' 12 10

/-- The index of the word at a linear address within its frame. -/
def wordIndex (addr : BitVec 32) : BitVec 10 := addr.extractLsb' 2 10

/-- The offset of a linear address within its frame. -/
def pageOffset (addr : BitVec 32) : BitVec 12 := addr.extractLsb' 0 12

theorem dirIndex_toNat (addr : BitVec 32) : (dirIndex addr).toNat = addr.toNat / 4194304 := by
  have := addr.isLt
  rw [dirIndex, BitVec.extractLsb'_toNat, Nat.shiftRight_eq_div_pow]
  omega

theorem tableIndex_toNat (addr : BitVec 32) :
    (tableIndex addr).toNat = addr.toNat / 4096 % 1024 := by
  rw [tableIndex, BitVec.extractLsb'_toNat, Nat.shiftRight_eq_div_pow]

theorem wordIndex_toNat (addr : BitVec 32) : (wordIndex addr).toNat = addr.toNat / 4 % 1024 := by
  rw [wordIndex, BitVec.extractLsb'_toNat, Nat.shiftRight_eq_div_pow]

theorem pageOffset_toNat (addr : BitVec 32) : (pageOffset addr).toNat = addr.toNat % 4096 := by
  rw [pageOffset, BitVec.extractLsb'_toNat, Nat.shiftRight_zero]

/-- Physical memory and the register that refers to the page directory. -/
structure PagedMemory where
  ram : Frame → FrameData
  cr3 : Frame

namespace PagedMemory
variable {m m' : PagedMemory} {f f' : Frame} {i i' : BitVec 10} {e : Entry} {addr : BitVec 32}
  {write : Bool}

/-- Entry `i` of the table in frame `f`. -/
def entry (m : PagedMemory) (f : Frame) (i : BitVec 10) : Entry := Entry.ofWord (m.ram f i)

/-- Other contents for a frame. -/
def setFrame (m : PagedMemory) (f : Frame) (data : FrameData) : PagedMemory :=
  { m with ram := Function.update m.ram f data }

/-- Another entry `i` in the table in frame `f`. -/
def setEntry (m : PagedMemory) (f : Frame) (i : BitVec 10) (e : Entry) : PagedMemory :=
  m.setFrame f (Function.update (m.ram f) i e.toWord)

/-- The entry of the page directory for an address. -/
def pde (m : PagedMemory) (addr : BitVec 32) : Entry := m.entry m.cr3 (dirIndex addr)

/-- The entry of the page table for an address. -/
def pte (m : PagedMemory) (addr : BitVec 32) : Entry :=
  m.entry (m.pde addr).physicalAddress (tableIndex addr)

/-- The frame an access to `addr` goes to; `none` is a page fault. -/
def frameOf (m : PagedMemory) (write : Bool) (addr : BitVec 32) : Option Frame :=
  if (m.pde addr).permits write && (m.pte addr).permits write then
    some (m.pte addr).physicalAddress
  else none

/-- Read the entry at a linear address. -/
def loadEntry (m : PagedMemory) (addr : BitVec 32) : Option Entry :=
  (m.frameOf false addr).map fun f => m.entry f (wordIndex addr)

/-- Write the entry at a linear address. -/
def storeEntry (m : PagedMemory) (addr : BitVec 32) (e : Entry) : Option PagedMemory :=
  (m.frameOf true addr).map fun f => m.setEntry f (wordIndex addr) e

/-- Read the entry at a linear address and write it back changed. -/
def modifyEntry (m : PagedMemory) (addr : BitVec 32) (change : Entry → Entry) :
    Option PagedMemory := do
  let e ← m.loadEntry addr
  m.storeEntry addr (change e)

/-- Read the byte at a linear address. -/
def loadByte (m : PagedMemory) (addr : BitVec 32) : Option (BitVec 8) :=
  (m.frameOf false addr).map fun f => (m.ram f).byte (pageOffset addr)

/-- Write the byte at a linear address. -/
def storeByte (m : PagedMemory) (addr : BitVec 32) (b : BitVec 8) : Option PagedMemory :=
  (m.frameOf true addr).map fun f => m.setFrame f ((m.ram f).setByte (pageOffset addr) b)

/-- The frame `addr` is mapped to, whatever accesses its entries permit. -/
def translate (m : PagedMemory) (addr : BitVec 32) : Option Frame :=
  if (m.pde addr).present && (m.pte addr).present then some (m.pte addr).physicalAddress else none

/-- The same memory with another page directory. -/
def under (m : PagedMemory) (directory : Frame) : PagedMemory := { m with cr3 := directory }

/-- A program in user mode may read and write at `addr`. -/
def UserAccessible (m : PagedMemory) (addr : BitVec 32) : Prop :=
  (m.frameOf true addr).isSome ∧ (m.pde addr).usermode ∧ (m.pte addr).usermode

/-! ### Updates -/

@[simp] theorem setFrame_cr3 (m : PagedMemory) (f : Frame) (data : FrameData) :
    (m.setFrame f data).cr3 = m.cr3 := rfl

@[simp] theorem setEntry_cr3 (m : PagedMemory) (f : Frame) (i : BitVec 10) (e : Entry) :
    (m.setEntry f i e).cr3 = m.cr3 := rfl

@[simp] theorem setFrame_ram_self (m : PagedMemory) (f : Frame) (data : FrameData) :
    (m.setFrame f data).ram f = data := by
  show Function.update m.ram f data f = data
  rw [Function.update_self]

theorem setFrame_ram_of_ne (m : PagedMemory) (data : FrameData) (h : f' ≠ f) :
    (m.setFrame f data).ram f' = m.ram f' := by
  show Function.update m.ram f data f' = m.ram f'
  rw [Function.update_of_ne h]

theorem setFrame_setFrame (m : PagedMemory) (f : Frame) (data data' : FrameData) :
    (m.setFrame f data).setFrame f data' = m.setFrame f data' := by
  simp only [setFrame, Function.update_idem]

theorem entry_setFrame_of_ne (m : PagedMemory) (data : FrameData) (i : BitVec 10) (h : f' ≠ f) :
    (m.setFrame f data).entry f' i = m.entry f' i := by
  rw [entry, setFrame_ram_of_ne m data h, entry]

@[simp] theorem entry_setEntry_self (m : PagedMemory) (f : Frame) (i : BitVec 10) (e : Entry) :
    (m.setEntry f i e).entry f i = e := by
  rw [entry, setEntry, setFrame_ram_self, Function.update_self, Entry.ofWord_toWord]

theorem entry_setEntry_of_ne (m : PagedMemory) (e : Entry) (h : ¬ (f' = f ∧ i' = i)) :
    (m.setEntry f i e).entry f' i' = m.entry f' i' := by
  by_cases hf : f' = f
  · subst hf
    rw [entry, setEntry, setFrame_ram_self, Function.update_of_ne fun hi => h ⟨rfl, hi⟩, entry]
  · exact entry_setFrame_of_ne m _ i' hf

theorem setEntry_setEntry (m : PagedMemory) (f : Frame) (i : BitVec 10) (e e' : Entry) :
    (m.setEntry f i e).setEntry f i e' = m.setEntry f i e' := by
  rw [setEntry, setEntry, setEntry, setFrame_ram_self, setFrame_setFrame, Function.update_idem]

/-- Writing back what is there changes nothing. -/
theorem setEntry_entry (m : PagedMemory) (f : Frame) (i : BitVec 10) :
    m.setEntry f i (m.entry f i) = m := by
  rw [setEntry, entry, Entry.toWord_ofWord, Function.update_eq_self, setFrame,
    Function.update_eq_self]

/-- Updates of different frames commute. -/
theorem setFrame_setEntry (m : PagedMemory) (data : FrameData) (i : BitVec 10) (e : Entry)
    (h : f ≠ f') : (m.setEntry f' i e).setFrame f data = (m.setFrame f data).setEntry f' i e := by
  rw [setEntry, setEntry, setFrame_ram_of_ne m data h.symm]
  simp only [setFrame]
  rw [Function.update_comm h]

theorem setEntry_setFrame (m : PagedMemory) (f : Frame) (data : FrameData) (i : BitVec 10)
    (e : Entry) : (m.setFrame f data).setEntry f i e =
      m.setFrame f (Function.update data i e.toWord) := by
  rw [setEntry, setFrame_ram_self, setFrame_setFrame]

@[simp] theorem entry_setFrame_self (m : PagedMemory) (f : Frame) (data : FrameData)
    (i : BitVec 10) : (m.setFrame f data).entry f i = Entry.ofWord (data i) := by
  rw [entry, setFrame_ram_self]

theorem setFrame_ram (m : PagedMemory) (f : Frame) : m.setFrame f (m.ram f) = m := by
  rw [setFrame, Function.update_eq_self]

/-! ### What the walk depends on -/

theorem frameOf_congr (hpde : m'.pde addr = m.pde addr) (hpte : m'.pte addr = m.pte addr)
    (write : Bool) : m'.frameOf write addr = m.frameOf write addr := by
  rw [frameOf, frameOf, hpde, hpte]

theorem pde_setFrame (data : FrameData) (addr : BitVec 32) (h : f ≠ m.cr3) :
    (m.setFrame f data).pde addr = m.pde addr :=
  entry_setFrame_of_ne m data _ h.symm

theorem pte_setFrame (data : FrameData) (h : f ≠ m.cr3) (h' : f ≠ (m.pde addr).physicalAddress) :
    (m.setFrame f data).pte addr = m.pte addr := by
  rw [pte, pde_setFrame data addr h]
  exact entry_setFrame_of_ne m data _ h'.symm

theorem pde_setEntry (e : Entry) (h : ¬ (m.cr3 = f ∧ dirIndex addr = i)) :
    (m.setEntry f i e).pde addr = m.pde addr :=
  entry_setEntry_of_ne m e h

theorem pte_setEntry (e : Entry) (h : ¬ (m.cr3 = f ∧ dirIndex addr = i))
    (h' : ¬ ((m.pde addr).physicalAddress = f ∧ tableIndex addr = i)) :
    (m.setEntry f i e).pte addr = m.pte addr := by
  rw [pte, pde_setEntry e h]
  exact entry_setEntry_of_ne m e h'

theorem frameOf_setEntry (e : Entry) (h : ¬ (m.cr3 = f ∧ dirIndex addr = i))
    (h' : ¬ ((m.pde addr).physicalAddress = f ∧ tableIndex addr = i)) (write : Bool) :
    (m.setEntry f i e).frameOf write addr = m.frameOf write addr :=
  frameOf_congr (pde_setEntry e h) (pte_setEntry e h h') write

theorem permits_of_frameOf (h : m.frameOf write addr = some f) :
    (m.pte addr).permits write = true := by
  simp only [frameOf, Option.ite_none_right_eq_some, Bool.and_eq_true] at h
  exact h.1.2

/-- Where one may write, one may read. -/
theorem frameOf_false (h : m.frameOf true addr = some f) : m.frameOf false addr = some f := by
  simp only [frameOf, Option.ite_none_right_eq_some, Bool.and_eq_true] at h ⊢
  exact ⟨⟨Entry.permits_false h.1.1, Entry.permits_false h.1.2⟩, h.2⟩

/-! ### Entries at linear addresses -/

/-- The linear address refers to entry `i` in frame `f`, and one may write it
without moving anything on the way to it. -/
structure EntryAt (m : PagedMemory) (addr : BitVec 32) (f : Frame) (i : BitVec 10) : Prop where
  frame : m.frameOf true addr = some f
  index : wordIndex addr = i
  not_pde : ¬ (m.cr3 = f ∧ dirIndex addr = i)
  not_pte : ¬ ((m.pde addr).physicalAddress = f ∧ tableIndex addr = i)

theorem EntryAt.loadEntry (h : m.EntryAt addr f i) : m.loadEntry addr = some (m.entry f i) := by
  rw [PagedMemory.loadEntry, frameOf_false h.frame, h.index]
  rfl

theorem EntryAt.storeEntry (h : m.EntryAt addr f i) (e : Entry) :
    m.storeEntry addr e = some (m.setEntry f i e) := by
  rw [PagedMemory.storeEntry, h.frame, h.index]
  rfl

theorem EntryAt.modifyEntry (h : m.EntryAt addr f i) (change : Entry → Entry) :
    m.modifyEntry addr change = some (m.setEntry f i (change (m.entry f i))) := by
  rw [PagedMemory.modifyEntry, h.loadEntry, Option.bind_eq_bind, Option.bind_some, h.storeEntry]

theorem EntryAt.setEntry (h : m.EntryAt addr f i) (e : Entry) :
    (m.setEntry f i e).EntryAt addr f i where
  frame := (frameOf_setEntry e h.not_pde h.not_pte true).trans h.frame
  index := h.index
  not_pde := h.not_pde
  not_pte := by
    rw [pde_setEntry e h.not_pde]
    exact h.not_pte

/-! ### A directory that refers to itself -/

/-- The last entry of the page directory refers to the directory. -/
structure SelfMapped (m : PagedMemory) : Prop where
  permits : (m.entry m.cr3 1023).permits true = true
  frame : (m.entry m.cr3 1023).physicalAddress = m.cr3

theorem SelfMapped.pte_eq (h : m.SelfMapped) (hdir : dirIndex addr = 1023) :
    m.pte addr = m.entry m.cr3 (tableIndex addr) := by
  rw [pte, pde, hdir, h.frame]

/-- Behind the last entry the tables appear as pages. -/
theorem SelfMapped.frameOf (h : m.SelfMapped) (hdir : dirIndex addr = 1023)
    (hpermits : (m.entry m.cr3 (tableIndex addr)).permits write = true) :
    m.frameOf write addr = some (m.entry m.cr3 (tableIndex addr)).physicalAddress := by
  have hpde : m.pde addr = m.entry m.cr3 1023 := by rw [pde, hdir]
  have hpte := h.pte_eq hdir
  have hself : (m.entry m.cr3 1023).permits write = true := by
    cases write with
    | true => exact h.permits
    | false => exact Entry.permits_false h.permits
  rw [PagedMemory.frameOf, hpde, hpte, hself, hpermits]
  rfl

/-- The entries of the directory. -/
theorem SelfMapped.entryAt_directory (h : m.SelfMapped) (hdir : dirIndex addr = 1023)
    (htable : tableIndex addr = 1023) (hword : wordIndex addr = i) (hi : i ≠ 1023) :
    m.EntryAt addr m.cr3 i where
  frame := by
    rw [h.frameOf hdir (by rw [htable]; exact h.permits), htable, h.frame]
  index := hword
  not_pde := fun hp => hi (hp.2.symm.trans hdir)
  not_pte := fun hp => hi (hp.2.symm.trans htable)

/-- The entries of a table. -/
theorem SelfMapped.entryAt_table (h : m.SelfMapped) (hdir : dirIndex addr = 1023)
    (hword : wordIndex addr = i) (hpermits : (m.entry m.cr3 (tableIndex addr)).permits true = true)
    (hframe : (m.entry m.cr3 (tableIndex addr)).physicalAddress = f) (hne : f ≠ m.cr3) :
    m.EntryAt addr f i where
  frame := by rw [h.frameOf hdir hpermits, hframe]
  index := hword
  not_pde := fun hp => hne hp.1.symm
  not_pte := by
    rintro ⟨hp, -⟩
    rw [pde, hdir, h.frame] at hp
    exact hne hp.symm

theorem SelfMapped.setEntry (h : m.SelfMapped) (e : Entry) (hne : ¬ (m.cr3 = f ∧ 1023 = i)) :
    (m.setEntry f i e).SelfMapped := by
  have hself : (m.setEntry f i e).entry m.cr3 1023 = m.entry m.cr3 1023 :=
    entry_setEntry_of_ne m e hne
  exact ⟨hself ▸ h.permits, hself ▸ h.frame⟩

theorem SelfMapped.setFrame (h : m.SelfMapped) (data : FrameData) (hne : f ≠ m.cr3) :
    (m.setFrame f data).SelfMapped := by
  have hself : (m.setFrame f data).entry m.cr3 1023 = m.entry m.cr3 1023 :=
    entry_setFrame_of_ne m data _ hne.symm
  exact ⟨hself ▸ h.permits, hself ▸ h.frame⟩

end PagedMemory
