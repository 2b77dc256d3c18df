import QuarkKernel.ElfProgram

/-! # Programs that are there in the end

What the frames hold that are not in use is nobody's business, so the loader has to do
whatever that is.  It loads the program if its chunks reach and keep apart and zeros
follow what the file has of a segment; otherwise something else is there for some
contents of the free frames (`loadsProgram_iff`). -/
namespace QuarkKernel
open PagedMemory
open ByteMemory (addrAt byteOf)
open ChunkedLoad (Chunk contents mapped AllReach KeepsApart)
open UserFrames (Supplied)

/-- The machine with other contents of the frames that are not in use. -/
def Machine.refill (m : Machine) (fill : Frame → FrameData) : Machine :=
  { m with memory := { m.memory with
      ram := fun f => if m.pageMap.reserved.contains f then m.memory.ram f else fill f } }

/-! ### Free frames do not matter -/

section Refill
variable {m : Machine} {f : Frame}

theorem ram_refill (hf : f ∈ m.pageMap.reserved) (fill : Frame → FrameData) :
    (m.refill fill).memory.ram f = m.memory.ram f :=
  if_pos (List.contains_iff_mem.mpr hf)

theorem ram_refill_of_not_mem (hf : f ∉ m.pageMap.reserved) (fill : Frame → FrameData) :
    (m.refill fill).memory.ram f = fill f :=
  if_neg fun hin => hf (List.contains_iff_mem.mp hin)

theorem entry_refill (hf : f ∈ m.pageMap.reserved) (fill : Frame → FrameData) (i : BitVec 10) :
    (m.refill fill).memory.entry f i = m.memory.entry f i := by
  rw [PagedMemory.entry, ram_refill hf, PagedMemory.entry]

namespace UserSpace
variable (h : UserSpace m.memory m.pageMap.reserved) (fill : Frame → FrameData)
include h

theorem directory_refill (d : BitVec 10) :
    (m.refill fill).memory.entry (m.refill fill).memory.cr3 d = m.memory.entry m.memory.cr3 d :=
  entry_refill h.directory fill d

theorem sameView_refill {x : Word} (hx : IsUser x) :
    SameView m.memory (m.refill fill).memory x := by
  have hpde : (m.refill fill).memory.pde x = m.memory.pde x := h.directory_refill fill _
  by_cases hp : (m.memory.pde x).present = true
  · refine .of_walk hpde ?_
    rw [PagedMemory.pte, hpde, PagedMemory.pte]
    exact entry_refill (h.table _ hx hp).2.2.2 fill _
  · refine .of_absent (fun hpresent => hp hpresent.1) ?_
    rw [hpde]
    exact fun hpresent => hp hpresent.1

theorem loadByte_refill {x : Word} (hx : IsUser x) :
    (m.refill fill).memory.loadByte x = m.memory.loadByte x := by
  rw [PagedMemory.loadByte, (h.sameView_refill fill hx).frameOf, PagedMemory.loadByte]
  rcases Option.eq_none_or_eq_some (m.memory.frameOf false x) with hnone | ⟨f, hf⟩
  · rw [hnone]
    rfl
  · rw [hf, Option.map_some, Option.map_some,
      ram_refill (h.data x f hx (translate_of_frameOf hf)).1]

theorem isTable_refill : IsTable (m.refill fill).memory f ↔ IsTable m.memory f := by
  simp only [IsTable, h.directory_refill fill]
  rfl

theorem refill : UserSpace (m.refill fill).memory (m.refill fill).pageMap.reserved where
  self := by
    obtain ⟨hpermits, hframe⟩ := h.self
    exact ⟨(h.directory_refill fill 1023).symm ▸ hpermits,
      (h.directory_refill fill 1023).symm ▸ hframe⟩
  directory := h.directory
  table := by
    simp only [h.directory_refill fill]
    exact h.table
  distinct := by
    simp only [h.directory_refill fill]
    exact h.distinct
  data x f hx hf := by
    rw [(h.sameView_refill fill hx).translate] at hf
    rw [h.isTable_refill fill]
    exact h.data x f hx hf

theorem source_refill (elf : Word) : source (m.refill fill) elf = source m elf := by
  funext j
  rw [source, source]
  split
  · rename_i hj
    rw [addrAt_eq_addr]
    exact h.loadByte_refill fill (isUser_addr hj)
  · rfl

end UserSpace

theorem Ready.refill {elf : Word} {file : ElfFile} (h : Ready m elf file)
    (fill : Frame → FrameData) : Ready (m.refill fill) elf file where
  space := h.space.refill fill
  fresh := h.fresh
  placed := by
    refine ⟨h.placed.below, ?_, ?_⟩
    · rw [h.space.source_refill fill]
      exact h.placed.bytes
    · intro x hx htrans
      rw [(h.space.sameView_refill fill (isUser_addr hx)).translate] at htrans
      exact h.placed.only x hx htrans
  supplied := by
    rw [h.space.source_refill fill]
    exact h.supplied

end Refill

/-! ### What is to be there -/

/-- Byte `i` of the segment. -/
def Segment.byteOf (s : Segment) (file : ElfFile) (i : Nat) : BitVec 8 :=
  if i < s.filesize then file.byteAt (s.offset + i) else 0

/-- Programs can use the segment, and it holds its part of the file and zeros after
that. -/
def Segment.IsThere (s : Segment) (file : ElfFile) (m : PagedMemory) : Prop :=
  ∀ i, i < s.memsize → m.UserAccessible (addr (s.vaddr + i)) ∧
    m.loadByte (addr (s.vaddr + i)) = some (s.byteOf file i)

/-- `load_program` reads and writes nothing but mapped pages, returns `ENONE`, and all
segments are there. -/
def LoadsProgram (m : Machine) (elf : Word) (file : ElfFile) : Prop :=
  ∃ m', m.loadProgram elf = some (.enone, m') ∧ ∀ s, s ∈ file.segments → s.IsThere file m'.memory

/-- The chunks reach, the later ones do not map what earlier ones have written to, and
where a segment is longer than in the file, zeros follow it there. -/
structure Fits (m : Machine) (elf : Word) (file : ElfFile) : Prop where
  reach : AllReach pageOf [] (chunks (source m elf) file.segments)
  apart : KeepsApart pageOf (chunks (source m elf) file.segments)
  zeros : ∀ s i, s ∈ file.segments → s.filesize ≤ i → i < s.memsize →
    source m elf (s.offset + i) = some 0

section Fits
variable {m : Machine} {elf : Word} {file : ElfFile} {s : Segment} {i : Nat}

/-- The chunk of byte `i` of a segment. -/
theorem exists_chunk_of_lt (m : Machine) (elf : Word) (hs : s ∈ file.segments)
    (hi : i < s.memsize) :
    ∃ c, c ∈ chunks (source m elf) file.segments ∧ c.Covers (s.vaddr + i) ∧
      c.value (s.vaddr + i - c.dst) = source m elf (s.offset + i) := by
  obtain ⟨k, hk, hx⟩ : ∃ k, k < pagesOf s.memsize ∧
      (chunk (source m elf) s k).Covers (s.vaddr + i) := exists_chunk ⟨by omega, by omega⟩
  refine ⟨_, mem_chunks.mpr ⟨s, hs, k, hk, rfl⟩, hx, ?_⟩
  rw [value_chunk hx, Nat.add_sub_cancel_left]

/-- What is to be in a segment is what is copied there. -/
theorem Fits.source_eq (h : Fits m elf file) (hwell : file.WellFormed) (hplaced : Placed m elf file)
    (hs : s ∈ file.segments) (hi : i < s.memsize) :
    source m elf (s.offset + i) = some (s.byteOf file i) := by
  rw [Segment.byteOf]
  by_cases hfile : i < s.filesize
  · have hinside := hwell.inside s hs
    rw [if_pos hfile, hplaced.bytes _ (by omega)]
  · rw [if_neg hfile]
    exact h.zeros s i hs (by omega) hi

/-- The loader gets through on a machine as it does whatever the free frames hold. -/
theorem loadProgram_refill (hwell : file.WellFormed) (hready : Ready m elf file)
    (hapart : ApartFromFile elf file) (fill : Frame → FrameData) :
    LoadsChunks (m.refill fill) [] (chunks (source m elf) file.segments)
      ((m.refill fill).loadProgram elf) := by
  have hchunks := loadProgram_chunks hwell (hready.refill fill) hapart
  rwa [hready.space.source_refill fill] at hchunks

/-- A byte of a segment after the loader has come through: what `contents` says, or what a
free frame held. -/
theorem byte_of_loaded (hwell : file.WellFormed)
    (hreach : AllReach pageOf [] (chunks (source m elf) file.segments)) {m0 m' : Machine}
    (hloaded : Loaded m0 m' ((chunks (source m elf) file.segments).reverse ++ []))
    (hs : s ∈ file.segments) (hi : i < s.memsize) :
    m'.memory.UserAccessible (addr (s.vaddr + i)) ∧ ∃ f, f ∉ m0.pageMap.reserved ∧
      m'.memory.loadByte (addr (s.vaddr + i)) =
        some ((contents pageOf (chunks (source m elf) file.segments).reverse (s.vaddr + i)).getD
          ((m0.memory.ram f).byte (pageOffset (addr (s.vaddr + i))))) := by
  obtain ⟨c, hc, hx, -⟩ := exists_chunk_of_lt m elf hs hi
  have hlt : s.vaddr + i < kernelBase := lt_kernelBase hwell hs ⟨by omega, by omega⟩
  obtain ⟨-, hin⟩ := ChunkedLoad.mem_mapped_of_allReach hreach hc hx
  obtain ⟨huser, -, f, hf, hbyte⟩ := hloaded.toLoading.loaded _ hlt hin
  rw [List.append_nil] at hbyte
  exact ⟨huser, f, hf, hbyte⟩

/-- Once the chunks reach, all are there in the end exactly if they keep apart. -/
theorem contents_eq_value_iff_of_reach (hwell : file.WellFormed)
    (hreach : AllReach pageOf [] (chunks (source m elf) file.segments)) :
    (∀ c x, c ∈ chunks (source m elf) file.segments → c.Covers x →
      contents pageOf (chunks (source m elf) file.segments).reverse x = c.value (x - c.dst)) ↔
      KeepsApart pageOf (chunks (source m elf) file.segments) :=
  ChunkedLoad.contents_eq_value_iff (disjoint_chunks hwell.disjoint) fun _ _ hc hx =>
    (ChunkedLoad.mem_mapped_of_allReach hreach hc hx).1

theorem Fits.loadsProgram (h : Fits m elf file) (hwell : file.WellFormed)
    (hready : Ready m elf file) (hapart : ApartFromFile elf file) (fill : Frame → FrameData) :
    LoadsProgram (m.refill fill) elf file := by
  obtain ⟨m', hload, hloaded⟩ := (loadProgram_refill hwell hready hapart fill).loads h.reach
  refine ⟨m', hload, fun s hs i hi => ?_⟩
  obtain ⟨huser, f, -, hbyte⟩ := byte_of_loaded hwell h.reach hloaded hs hi
  obtain ⟨c, hc, hx, hvalue⟩ := exists_chunk_of_lt m elf hs hi
  have hcontents := (contents_eq_value_iff_of_reach hwell h.reach).mpr h.apart c _ hc hx
  refine ⟨huser, ?_⟩
  rw [hbyte, hcontents, hvalue, h.source_eq hwell hready.placed hs hi]
  rfl

theorem byte_ones (offset : BitVec 12) : FrameData.byte (fun _ => 0xFFFFFFFF) offset = 0xFF := by
  have hbyte : ∀ i : BitVec 2, ByteMemory.byteOf 0xFFFFFFFF i.toNat = 0xFF := by decide
  exact hbyte _

/-- If the program is there whatever the free frames hold, all of it has been copied. -/
theorem contents_of_loadsProgram (hwell : file.WellFormed) (hready : Ready m elf file)
    (hapart : ApartFromFile elf file) (h : ∀ fill, LoadsProgram (m.refill fill) elf file)
    (hreach : AllReach pageOf [] (chunks (source m elf) file.segments))
    (hs : s ∈ file.segments) (hi : i < s.memsize) :
    contents pageOf (chunks (source m elf) file.segments).reverse (s.vaddr + i) =
      some (s.byteOf file i) := by
  have hfill : ∀ fill : Frame → FrameData, ∃ f,
      (contents pageOf (chunks (source m elf) file.segments).reverse (s.vaddr + i)).getD
        ((fill f).byte (pageOffset (addr (s.vaddr + i)))) = s.byteOf file i := by
    intro fill
    obtain ⟨m', hload, hloaded⟩ := (loadProgram_refill hwell hready hapart fill).loads hreach
    obtain ⟨m'', hload', hthere⟩ := h fill
    obtain rfl : m' = m'' := congrArg Prod.snd (Option.some.inj (hload.symm.trans hload'))
    obtain ⟨-, f, hf, hbyte⟩ := byte_of_loaded hwell hreach hloaded hs hi
    have hf : f ∉ m.pageMap.reserved := hf
    rw [(hthere s hs i hi).2, ram_refill_of_not_mem hf] at hbyte
    exact ⟨f, (Option.some.inj hbyte).symm⟩
  -- two fills that differ in every byte
  obtain ⟨_, hzeros⟩ := hfill fun _ _ => 0
  obtain ⟨_, hones⟩ := hfill fun _ _ => 0xFFFFFFFF
  rw [FrameData.byte_zero] at hzeros
  rw [byte_ones] at hones
  rcases Option.eq_none_or_eq_some
    (contents pageOf (chunks (source m elf) file.segments).reverse (s.vaddr + i)) with
    hnone | ⟨b, hb⟩
  · -- it would be both
    rw [hnone] at hzeros hones
    exact absurd (hzeros.trans hones.symm) (by decide)
  · rw [hb] at hzeros ⊢
    exact congrArg some hzeros

theorem fits_of_loadsProgram (hwell : file.WellFormed) (hready : Ready m elf file)
    (hapart : ApartFromFile elf file) (h : ∀ fill, LoadsProgram (m.refill fill) elf file) :
    Fits m elf file := by
  have hreach : AllReach pageOf [] (chunks (source m elf) file.segments) := by
    by_contra hnot
    obtain ⟨m', hload, -⟩ := h fun _ _ => 0
    rw [(loadProgram_refill hwell hready hapart _).faults hnot] at hload
    cases hload
  have hthere : ∀ c x, c ∈ chunks (source m elf) file.segments → c.Covers x →
      contents pageOf (chunks (source m elf) file.segments).reverse x = c.value (x - c.dst) := by
    intro c x hc hx
    obtain ⟨s, hs, k, hk, rfl⟩ := mem_chunks.mp hc
    obtain ⟨hlow, hhigh⟩ := (covers_chunk.mp hx).1
    obtain ⟨i, rfl⟩ := Nat.exists_eq_add_of_le hlow
    have hbyte := contents_of_loadsProgram hwell hready hapart h hreach hs (by omega : i < s.memsize)
    rw [hbyte, ChunkedLoad.contents_eq_value (disjoint_chunks hwell.disjoint) hc hx hbyte]
  refine ⟨hreach, (contents_eq_value_iff_of_reach hwell hreach).mp hthere, ?_⟩
  intro s i hs hfile hi
  obtain ⟨c, hc, hx, hvalue⟩ := exists_chunk_of_lt m elf hs hi
  rw [← hvalue, ← hthere c _ hc hx, contents_of_loadsProgram hwell hready hapart h hreach hs hi,
    Segment.byteOf, if_neg (by omega)]

/-- **The program is there in the end, whatever the free frames held**, exactly if it
fits. -/
theorem loadsProgram_iff (hwell : file.WellFormed) (hready : Ready m elf file)
    (hapart : ApartFromFile elf file) :
    (∀ fill, LoadsProgram (m.refill fill) elf file) ↔ Fits m elf file :=
  ⟨fits_of_loadsProgram hwell hready hapart,
    fun h fill => h.loadsProgram hwell hready hapart fill⟩

end Fits

/-! ### A file of one segment, as `kernel_load_module` maps it -/

def wordBytes (w : Word) : List (BitVec 8) := [byteOf w 0, byteOf w 1, byteOf w 2, byteOf w 3]

/-- The file header and one `PT_LOAD` header. -/
def headerWords (offset vaddr filesize memsize : Word) : List Word :=
  [0x464C457F, 0, 0, 0, 0, 0, 0, 52, 0, 0, 0x200000, 1, 0,
    elfLoad, offset, vaddr, 0, filesize, memsize, 7, 4096]

def oneSegmentFile (offset vaddr filesize memsize : Word) : ElfFile :=
  (headerWords offset vaddr filesize memsize).flatMap wordBytes

def moduleDirectory : FrameData := fun i =>
  if i = 512 then 0x5007 else if i = 1021 then 0x3403 else if i = 1023 then 0x1003 else 0

def moduleTable : FrameData := fun i => if i = 0 then 0x4003 else 0

/-- Frame 4 holds the file and is mapped at 0x80000000, through the table in frame 5. -/
def moduleMemory (file : ElfFile) : PagedMemory where
  ram f :=
    if f = 1 then moduleDirectory
    else if f = 5 then moduleTable
    else if f = 4 then fun i => file.wordAt (4 * i.toNat)
    else fun _ => 0
  cr3 := 1

/-- There are frames for one chunk. -/
def modulePages : PageMap := ⟨[some 6, some 7], [5, 4, 1, 3]⟩

def moduleMachine (file : ElfFile) : Machine := ⟨moduleMemory file, modulePages⟩

section Module
variable {file : ElfFile}

theorem entry_directory (i : BitVec 10) :
    (moduleMemory file).entry 1 i = Entry.ofWord (moduleDirectory i) := rfl

theorem entry_table (i : BitVec 10) :
    (moduleMemory file).entry 5 i = Entry.ofWord (moduleTable i) := by
  rw [PagedMemory.entry, moduleMemory]
  dsimp only
  rw [if_neg (by decide), if_pos rfl]

theorem ram_module : (moduleMemory file).ram 4 = fun i => file.wordAt (4 * i.toNat) := by
  rw [moduleMemory]
  dsimp only
  rw [if_neg (by decide), if_neg (by decide), if_pos rfl]

theorem eq_of_present_module {d : BitVec 10} (hd : d.toNat < 1021)
    (hp : ((moduleMemory file).entry 1 d).present = true) : d = 512 := by
  by_contra hne
  have h1021 : d ≠ 1021 := by
    rintro rfl
    exact absurd hd (by decide)
  have h1023 : d ≠ 1023 := by
    rintro rfl
    exact absurd hd (by decide)
  rw [entry_directory, moduleDirectory, if_neg hne, if_neg h1021, if_neg h1023] at hp
  exact absurd hp (by decide)

/-- The walk of an address in the file's directory entry. -/
theorem walk_module (file : ElfFile) {x : Word} (hdir : dirIndex x = 512) :
    (moduleMemory file).pde x = Entry.ofWord (moduleDirectory 512) ∧
      (moduleMemory file).pte x = Entry.ofWord (moduleTable (tableIndex x)) := by
  have hpde : (moduleMemory file).pde x = Entry.ofWord (moduleDirectory 512) := by
    rw [PagedMemory.pde, hdir, show (moduleMemory file).cr3 = 1 from rfl, entry_directory]
  have hfive : (Entry.ofWord (moduleDirectory 512)).physicalAddress = 5 := by decide
  refine ⟨hpde, ?_⟩
  rw [PagedMemory.pte, hpde, hfive, entry_table]

theorem translate_module {x : Word} {f : Frame} (hx : IsUser x)
    (hf : (moduleMemory file).translate x = some f) : SamePage 0x80000000 x ∧ f = 4 := by
  rw [PagedMemory.translate, Option.ite_none_right_eq_some, Bool.and_eq_true] at hf
  obtain ⟨⟨hpde, hpte⟩, hframe⟩ := hf
  have hdir : dirIndex x = 512 := eq_of_present_module hx hpde
  have htable : (moduleMemory file).pte x = Entry.ofWord (moduleTable (tableIndex x)) :=
    (walk_module file hdir).2
  have hindex : tableIndex x = 0 := by
    by_contra hne
    rw [htable, moduleTable, if_neg hne] at hpte
    exact absurd hpte (by decide)
  rw [htable, hindex] at hframe
  refine ⟨samePage_iff.mpr ⟨?_, ?_⟩, ?_⟩
  · rw [hdir]
    decide
  · rw [hindex]
    decide
  · have hfour : (Entry.ofWord (moduleTable 0)).physicalAddress = 4 := by decide
    exact (Option.some.inj hframe).symm.trans hfour

theorem userSpace_module (file : ElfFile) : UserSpace (moduleMemory file) [5, 4, 1, 3] where
  self := by
    refine ⟨?_, ?_⟩
    · rw [show (moduleMemory file).cr3 = 1 from rfl, entry_directory]
      decide
    · rw [show (moduleMemory file).cr3 = 1 from rfl, entry_directory]
      decide
  directory := List.mem_of_elem_eq_true rfl
  table d hd hp := by
    obtain rfl := eq_of_present_module hd hp
    rw [show (moduleMemory file).cr3 = 1 from rfl, entry_directory]
    decide
  distinct d d' hd hd' hp hp' _ :=
    (eq_of_present_module hd hp).trans (eq_of_present_module hd' hp').symm
  data x f hx hf := by
    obtain ⟨-, rfl⟩ := translate_module hx hf
    refine ⟨by decide, ?_⟩
    rintro (heq | ⟨d, hd, hp, hframe⟩)
    · rw [show (moduleMemory file).cr3 = 1 from rfl] at heq
      exact absurd heq (by decide)
    · obtain rfl := eq_of_present_module hd hp
      rw [show (moduleMemory file).cr3 = 1 from rfl, entry_directory] at hframe
      exact absurd hframe (by decide)

theorem fresh_module : modulePages.Fresh := by
  refine ⟨by decide, fun f hf => ?_⟩
  obtain rfl | rfl : f = 6 ∨ f = 7 := by simpa [modulePages] using hf
  · decide
  · decide

theorem byteOf_wordAt (file : ElfFile) (k : Nat) {j : Nat} (hj : j < 4) :
    byteOf (file.wordAt k) j = file.byteAt (k + j) := by
  unfold ElfFile.wordAt ElfFile.halfAt
  ext n hn
  obtain rfl | rfl | rfl | rfl : j = 0 ∨ j = 1 ∨ j = 2 ∨ j = 3 := by omega
  all_goals
    simp only [byteOf, BitVec.getElem_extractLsb', BitVec.getLsbD_append]
    grind

/-- The page that the file is in. -/
theorem source_module {i : Nat} (hi : i < 4096) :
    source (moduleMachine file) 0x80000000 i = some (file.byteAt i) := by
  have helf : (0x80000000 : Word).toNat = 2147483648 := rfl
  have hx : 2147483648 + i < kernelBase := by
    unfold kernelBase
    omega
  have hdir : dirIndex (addr (2147483648 + i)) = 512 := by
    apply BitVec.eq_of_toNat_eq
    rw [dirIndex_toNat, toNat_addr hx]
    show _ = 512
    omega
  have htable : tableIndex (addr (2147483648 + i)) = 0 := by
    apply BitVec.eq_of_toNat_eq
    rw [tableIndex_toNat, toNat_addr hx]
    show _ = 0
    omega
  have hframe : (moduleMemory file).frameOf false (addr (2147483648 + i)) = some 4 := by
    obtain ⟨hpde, hpte⟩ := walk_module file hdir
    rw [PagedMemory.frameOf, hpde, hpte, htable]
    decide
  rw [source, if_pos (by rw [helf]; exact hx), addrAt_eq_addr, helf]
  show (moduleMemory file).loadByte _ = _
  rw [PagedMemory.loadByte, hframe, Option.map_some, ram_module, FrameData.byte,
    byteOf_wordAt file _ (BitVec.isLt _)]
  congr 2
  have hoffset := pageOffset_toNat (addr (2147483648 + i))
  rw [toNat_addr hx] at hoffset
  simp only [BitVec.extractLsb'_toNat, Nat.shiftRight_eq_div_pow, hoffset]
  omega

theorem byteAt_flatMap (words : List Word) {k j : Nat} (hj : j < 4) :
    ElfFile.byteAt (words.flatMap wordBytes) (4 * k + j) = byteOf (words.getD k 0) j := by
  induction words generalizing k with
  | nil => simp [ElfFile.byteAt, byteOf]
  | cons word words ih =>
    cases k with
    | zero =>
      obtain rfl | rfl | rfl | rfl : j = 0 ∨ j = 1 ∨ j = 2 ∨ j = 3 := by omega
      all_goals rfl
    | succ k =>
      rw [show 4 * (k + 1) + j = 4 * k + j + 4 by omega]
      exact ih

theorem wordAt_flatMap (words : List Word) (k : Nat) :
    ElfFile.wordAt (words.flatMap wordBytes) (4 * k) = words.getD k 0 := by
  rw [← ByteMemory.byteOf_append (ElfFile.wordAt _ _), byteOf_wordAt _ _ (by omega),
    byteOf_wordAt _ _ (by omega), byteOf_wordAt _ _ (by omega), byteOf_wordAt _ _ (by omega),
    byteAt_flatMap _ (by omega), byteAt_flatMap _ (by omega), byteAt_flatMap _ (by omega),
    byteAt_flatMap _ (by omega)]
  exact ByteMemory.byteOf_append _

theorem halfAt_flatMap (words : List Word) (k : Nat) {j : Nat} (hj : j < 3) :
    ElfFile.halfAt (words.flatMap wordBytes) (4 * k + j) =
      byteOf (words.getD k 0) (j + 1) ++ byteOf (words.getD k 0) j := by
  rw [ElfFile.halfAt, byteAt_flatMap _ (by omega), Nat.add_assoc, byteAt_flatMap _ (by omega)]

section OneSegment
variable (offset vaddr filesize memsize : Word)

theorem phoffset_oneSegmentFile : (oneSegmentFile offset vaddr filesize memsize).phoffset = 52 :=
  congrArg BitVec.toNat (wordAt_flatMap (headerWords offset vaddr filesize memsize) 7)

theorem phsize_oneSegmentFile : (oneSegmentFile offset vaddr filesize memsize).phsize = 32 := by
  have hhalf := halfAt_flatMap (headerWords offset vaddr filesize memsize) 10 (by omega : 2 < 3)
  refine (congrArg BitVec.toNat hhalf).trans ?_
  show (byteOf 0x200000 3 ++ byteOf 0x200000 2).toNat = 32
  decide

theorem phcount_oneSegmentFile : (oneSegmentFile offset vaddr filesize memsize).phcount = 1 := by
  have hhalf := halfAt_flatMap (headerWords offset vaddr filesize memsize) 11 (by omega : 0 < 3)
  refine (congrArg BitVec.toNat hhalf).trans ?_
  show (byteOf 1 1 ++ byteOf 1 0).toNat = 1
  decide

theorem segments_oneSegmentFile : (oneSegmentFile offset vaddr filesize memsize).segments =
    [⟨offset.toNat, vaddr.toNat, filesize.toNat, memsize.toNat⟩] := by
  have hheader : (oneSegmentFile offset vaddr filesize memsize).programHeader 0 = 52 := by
    rw [ElfFile.programHeader, phoffset_oneSegmentFile, Nat.zero_mul]
  have hload : (oneSegmentFile offset vaddr filesize memsize).isLoad 0 = true := by
    rw [ElfFile.isLoad, hheader]
    exact decide_eq_true (wordAt_flatMap (headerWords offset vaddr filesize memsize) 13)
  have hsegment : (oneSegmentFile offset vaddr filesize memsize).segment 0 =
      ⟨offset.toNat, vaddr.toNat, filesize.toNat, memsize.toNat⟩ := by
    rw [ElfFile.segment, hheader]
    have hoffset : (oneSegmentFile offset vaddr filesize memsize).wordAt (52 + 4) = offset :=
      wordAt_flatMap (headerWords offset vaddr filesize memsize) 14
    have hvaddr : (oneSegmentFile offset vaddr filesize memsize).wordAt (52 + 8) = vaddr :=
      wordAt_flatMap (headerWords offset vaddr filesize memsize) 15
    have hfilesize : (oneSegmentFile offset vaddr filesize memsize).wordAt (52 + 16) = filesize :=
      wordAt_flatMap (headerWords offset vaddr filesize memsize) 17
    have hmemsize : (oneSegmentFile offset vaddr filesize memsize).wordAt (52 + 20) = memsize :=
      wordAt_flatMap (headerWords offset vaddr filesize memsize) 18
    rw [hoffset, hvaddr, hfilesize, hmemsize]
  rw [ElfFile.segments, phcount_oneSegmentFile, ElfFile.segmentsFrom, if_pos hload, hsegment]
  rfl

variable {offset vaddr filesize memsize}

theorem length_oneSegmentFile : (oneSegmentFile offset vaddr filesize memsize).length = 84 := rfl

theorem wellFormed_oneSegmentFile (hfile : filesize.toNat ≤ memsize.toNat)
    (hinside : offset.toNat + filesize.toNat ≤ 84)
    (huser : vaddr.toNat + memsize.toNat ≤ 0xFF400000) :
    (oneSegmentFile offset vaddr filesize memsize).WellFormed where
  header := by
    rw [length_oneSegmentFile]
    decide
  entry := by rw [phsize_oneSegmentFile]
  table := by rw [phoffset_oneSegmentFile, phcount_oneSegmentFile, phsize_oneSegmentFile,
    length_oneSegmentFile]
  filesize s hs := by
    rw [segments_oneSegmentFile, List.mem_singleton] at hs
    exact hs ▸ hfile
  inside s hs := by
    rw [segments_oneSegmentFile, List.mem_singleton] at hs
    exact hs ▸ hinside
  user s hs := by
    rw [segments_oneSegmentFile, List.mem_singleton] at hs
    exact hs ▸ huser
  disjoint := by
    rw [segments_oneSegmentFile]
    exact List.pairwise_singleton ..

/-- A segment of one chunk at most. -/
theorem ready_oneSegmentFile (hmemsize : memsize.toNat ≤ 4096) :
    Ready (moduleMachine (oneSegmentFile offset vaddr filesize memsize)) 0x80000000
      (oneSegmentFile offset vaddr filesize memsize) where
  space := userSpace_module _
  fresh := fresh_module
  placed := by
    refine ⟨?_, ?_, ?_⟩
    · rw [length_oneSegmentFile]
      decide
    · intro i hi
      rw [length_oneSegmentFile] at hi
      exact source_module (by omega)
    · intro x hx htrans
      obtain ⟨f, hf⟩ := Option.isSome_iff_exists.mp htrans
      have hpage := (translate_module (isUser_addr hx) hf).1
      rw [SamePage, toNat_addr hx] at hpage
      exact ⟨0, by rw [length_oneSegmentFile]; decide, hpage⟩
  supplied := by
    intro k hk
    rw [segments_oneSegmentFile, chunks, List.flatMap_singleton, length_chunksFrom, pagesOf] at hk
    dsimp only at hk
    obtain rfl | rfl : k = 0 ∨ k = 1 := by omega
    · exact ⟨6, rfl⟩
    · exact ⟨7, rfl⟩

/-- A segment before the file, copied from its page. -/
theorem apart_oneSegmentFile (hvaddr : vaddr.toNat + memsize.toNat ≤ 2147483648)
    (hoffset : offset.toNat + memsize.toNat ≤ 4096) :
    ApartFromFile 0x80000000 (oneSegmentFile offset vaddr filesize memsize) := by
  have helf : (0x80000000 : Word).toNat = 2147483648 := rfl
  constructor
  all_goals rw [segments_oneSegmentFile]
  · intro s i hs hi
    obtain rfl := List.mem_singleton.mp hs
    dsimp only at hi
    rw [helf]
    unfold kernelBase
    dsimp only
    omega
  · rintro s x i hs ⟨-, hx⟩ hi
    obtain rfl := List.mem_singleton.mp hs
    dsimp only at hx
    rw [helf]
    unfold pageOf
    omega
  · rintro s t x i hs ⟨-, hx⟩ ht hi
    obtain rfl := List.mem_singleton.mp hs
    dsimp only at hx
    rw [helf]
    unfold pageOf
    omega

end OneSegment
end Module

/-- 16 bytes of the file and 16 zeros. -/
def bssFile : ElfFile := oneSegmentFile 68 0x400000 16 32

/-- 32 bytes of the file, across the end of a page. -/
def crossingFile : ElfFile := oneSegmentFile 0 0x400FF0 32 32

theorem fits_bssFile : Fits (moduleMachine bssFile) 0x80000000 bssFile := by
  have hsegments : bssFile.segments = [⟨68, 0x400000, 16, 32⟩] := segments_oneSegmentFile ..
  constructor
  all_goals rw [hsegments]
  · refine ⟨fun x hx => ?_, trivial⟩
    obtain ⟨⟨hlow, hhigh⟩, -, -⟩ := covers_chunk.mp hx
    dsimp only at hlow hhigh
    refine ⟨?_, List.mem_cons.mpr (.inl ?_)⟩
    · rw [value_chunk hx, source_module (by dsimp only; omega)]
      rfl
    · show x / 4096 = 0x400000 / 4096
      omega
  · exact List.pairwise_singleton ..
  · intro s i hs hfile hi
    obtain rfl := List.mem_singleton.mp hs
    dsimp only at hfile hi
    rw [source_module (by dsimp only; omega), ElfFile.byteAt, List.getD_eq_default]
    show 84 ≤ 68 + i
    omega

/-- A program with a `.bss` of zeros in the file is loaded. -/
theorem loadsProgram_iff_bssFile :
    Fits (moduleMachine bssFile) 0x80000000 bssFile ∧
      ∀ fill, LoadsProgram ((moduleMachine bssFile).refill fill) 0x80000000 bssFile :=
  ⟨fits_bssFile,
    (loadsProgram_iff (wellFormed_oneSegmentFile (by decide) (by decide) (by decide))
      (ready_oneSegmentFile (by decide)) (apart_oneSegmentFile (by decide) (by decide))).mpr
        fits_bssFile⟩

/-- The page behind the first is not mapped when the chunk gets there. -/
theorem not_loadsProgram_crossingFile :
    ¬ ∀ (m : Machine) (elf : Word) (file : ElfFile), file.WellFormed → Ready m elf file →
      (∀ s x, s ∈ file.segments → s.Covers x → x < elf.toNat ∨ elf.toNat + file.length ≤ x) →
      LoadsProgram m elf file := by
  intro hall
  have hsegments : crossingFile.segments = [⟨0, 0x400FF0, 32, 32⟩] := segments_oneSegmentFile ..
  have hwell : crossingFile.WellFormed :=
    wellFormed_oneSegmentFile (by decide) (by decide) (by decide)
  have hready : Ready (moduleMachine crossingFile) 0x80000000 crossingFile :=
    ready_oneSegmentFile (by decide)
  have hapart : ApartFromFile 0x80000000 crossingFile := apart_oneSegmentFile (by decide) (by decide)
  have hclear : ∀ s x, s ∈ crossingFile.segments → s.Covers x →
      x < (0x80000000 : Word).toNat ∨ (0x80000000 : Word).toNat + crossingFile.length ≤ x := by
    rw [hsegments]
    rintro s x hs ⟨-, hx⟩
    obtain rfl := List.mem_singleton.mp hs
    exact .inl (Nat.lt_trans hx (by decide))
  have hnot : ¬ AllReach pageOf [] (chunks (source (moduleMachine crossingFile) 0x80000000)
      crossingFile.segments) := by
    rw [hsegments]
    rintro ⟨hreach, -⟩
    obtain ⟨-, hin⟩ := hreach 0x401000 (by decide)
    exact absurd hin (by decide)
  obtain ⟨m', hload, -⟩ := hall _ _ _ hwell hready hclear
  rw [(loadProgram_chunks hwell hready hapart).faults hnot] at hload
  cases hload

end QuarkKernel
