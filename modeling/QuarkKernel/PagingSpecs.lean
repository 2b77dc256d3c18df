import QuarkKernel.Paging

/-! # What the functions of `paging.c` do to the tables

Once the directory refers to itself, each of them is a read or an update of one
entry, or of one frame.  `UsableTable` is what it takes to get at the entries of a
table: that its directory entry is present and writable, and that the table is not
the directory. -/
namespace QuarkKernel
open PagedMemory
open ByteMemory (addrAt)
open CountedLoop (loop)

/-! ### The addresses of entries -/

section Addresses
variable (page : Word)

theorem toNat_directoryEntry {x : Word} (hx : x.toNat < 1024) :
    (directoryEntry x).toNat = 4294963200 + 4 * x.toNat := by
  rw [directoryEntry, pageDirectory, BitVec.toNat_add, BitVec.toNat_mul,
    show (4 : Word).toNat = 4 from rfl, show (0xFFFFF000 : Word).toNat = 4294963200 from rfl]
  omega

theorem toNat_tableEntry {x : Word} (hx : x.toNat < 1048576) :
    (tableEntry x).toNat = 4290772992 + 4 * x.toNat := by
  rw [tableEntry, pageTables, BitVec.toNat_add, BitVec.toNat_mul,
    show (4 : Word).toNat = 4 from rfl, show (0xFFC00000 : Word).toNat = 4290772992 from rfl]
  omega

theorem toNat_directoryIndex : (page >>> 22).toNat = (dirIndex page).toNat := by
  rw [dirIndex_toNat, BitVec.toNat_ushiftRight, Nat.shiftRight_eq_div_pow]

theorem toNat_pageIndex : (page >>> pageBits).toNat = page.toNat / 4096 := by
  rw [pageBits, BitVec.toNat_ushiftRight, Nat.shiftRight_eq_div_pow]

/-- Where `&page_directory[x]` is. -/
theorem index_directoryEntry {x : Word} {i : BitVec 10} (hx : x.toNat = i.toNat) :
    dirIndex (directoryEntry x) = 1023 ∧ tableIndex (directoryEntry x) = 1023 ∧
      wordIndex (directoryEntry x) = i := by
  have hi := i.isLt
  have haddr := toNat_directoryEntry (x := x) (by omega)
  refine ⟨?_, ?_, ?_⟩
  · apply BitVec.eq_of_toNat_eq
    rw [dirIndex_toNat, haddr, show (1023 : BitVec 10).toNat = 1023 from rfl]
    omega
  · apply BitVec.eq_of_toNat_eq
    rw [tableIndex_toNat, haddr, show (1023 : BitVec 10).toNat = 1023 from rfl]
    omega
  · apply BitVec.eq_of_toNat_eq
    rw [wordIndex_toNat, haddr]
    omega

/-- Where `&page_tables[x]` is. -/
theorem index_tableEntry {x : Word} {d i : BitVec 10} (hx : x.toNat = 1024 * d.toNat + i.toNat) :
    dirIndex (tableEntry x) = 1023 ∧ tableIndex (tableEntry x) = d ∧
      wordIndex (tableEntry x) = i := by
  have hd := d.isLt
  have hi := i.isLt
  have haddr := toNat_tableEntry (x := x) (by omega)
  refine ⟨?_, ?_, ?_⟩
  · apply BitVec.eq_of_toNat_eq
    rw [dirIndex_toNat, haddr, show (1023 : BitVec 10).toNat = 1023 from rfl]
    omega
  · apply BitVec.eq_of_toNat_eq
    rw [tableIndex_toNat, haddr]
    omega
  · apply BitVec.eq_of_toNat_eq
    rw [wordIndex_toNat, haddr]
    omega

theorem pageIndex_eq :
    (page >>> pageBits).toNat = 1024 * (dirIndex page).toNat + (tableIndex page).toNat := by
  rw [toNat_pageIndex, dirIndex_toNat, tableIndex_toNat]
  omega

end Addresses

variable {m : PagedMemory} {page flags addr : Word} {i : BitVec 10} {f : Frame}

/-- Entry `i` of the directory. -/
theorem entryAt_directoryEntry {x : Word} (h : m.SelfMapped) (hx : x.toNat = i.toNat)
    (hi : i ≠ 1023) : m.EntryAt (directoryEntry x) m.cr3 i := by
  obtain ⟨hdir, htable, hword⟩ := index_directoryEntry hx
  exact h.entryAt_directory hdir htable hword hi

theorem entryAt_pde (h : m.SelfMapped) (hd : dirIndex page ≠ 1023) :
    m.EntryAt (directoryEntry (page >>> 22)) m.cr3 (dirIndex page) :=
  entryAt_directoryEntry h (toNat_directoryIndex page) hd

/-- Directory entry `d` leads to a table in frame `f` that can be written. -/
structure UsableTable (m : PagedMemory) (d : BitVec 10) (f : Frame) : Prop where
  permits : (m.entry m.cr3 d).permits true = true
  frame : (m.entry m.cr3 d).physicalAddress = f
  ne : f ≠ m.cr3

theorem UsableTable.present {d : BitVec 10} (h : UsableTable m d f) :
    (m.entry m.cr3 d).present = true := by
  have := h.permits
  simp only [Entry.permits, Bool.and_eq_true] at this
  exact this.1

theorem UsableTable.setEntry {d : BitVec 10} (h : UsableTable m d f) (i : BitVec 10) (e : Entry) :
    UsableTable (m.setEntry f i e) d f := by
  have hsame : (m.setEntry f i e).entry m.cr3 d = m.entry m.cr3 d :=
    entry_setEntry_of_ne m e fun hp => h.ne hp.1.symm
  exact ⟨hsame ▸ h.permits, hsame ▸ h.frame, h.ne⟩

theorem UsableTable.setFrame {d : BitVec 10} (h : UsableTable m d f) (data : FrameData) :
    UsableTable (m.setFrame f data) d f := by
  have hsame : (m.setFrame f data).entry m.cr3 d = m.entry m.cr3 d :=
    entry_setFrame_of_ne m data _ h.ne.symm
  exact ⟨hsame ▸ h.permits, hsame ▸ h.frame, h.ne⟩

/-- Entry `i` of the table under directory entry `d`. -/
theorem entryAt_tableEntry {x : Word} {d : BitVec 10} (h : m.SelfMapped) (ht : UsableTable m d f)
    (hx : x.toNat = 1024 * d.toNat + i.toNat) : m.EntryAt (tableEntry x) f i := by
  obtain ⟨hdir, htable, hword⟩ := index_tableEntry hx
  refine h.entryAt_table hdir hword ?_ ?_ ht.ne
  · rw [htable]
    exact ht.permits
  · rw [htable]
    exact ht.frame

theorem entryAt_pte (h : m.SelfMapped) (ht : UsableTable m (dirIndex page) f) :
    m.EntryAt (tableEntry (page >>> pageBits)) f (tableIndex page) :=
  entryAt_tableEntry h ht (pageIndex_eq page)

/-! ### Reading -/

theorem hasFlag_entryFlags_present (e : Entry) : hasFlag (entryFlags e) pagePresent = e.present := by
  have hbits : ∀ present rw usermode : Bool, hasFlag ((if present then pagePresent ||| pageExecutable
      else 0) ||| (if rw then pageRw else 0) ||| (if usermode then pageUsermode else 0))
      pagePresent = present := by decide
  exact hbits e.present e.rw e.usermode

theorem hasFlag_or (flag flags : Word) (h : flag ≠ 0) : hasFlag (flag ||| flags) flag = true := by
  have hand : (flag ||| flags) &&& flag = flag := by
    ext i hi
    simp only [BitVec.getElem_and, BitVec.getElem_or]
    grind
  rw [hasFlag, hand, bne_iff_ne]
  exact h

theorem hasFlag_or_of_hasFlag {flag flags : Word} (others : Word) (h : hasFlag flags flag = true) :
    hasFlag (others ||| flags) flag = true := by
  rw [hasFlag, bne_iff_ne] at h ⊢
  intro hzero
  apply h
  ext i hi
  have hbit := congrArg (fun w : Word => w[i]) hzero
  simp only [BitVec.getElem_and, BitVec.getElem_or] at hbit ⊢
  grind

theorem getPtePointer_directory (m : PagedMemory) (page : Word) :
    getPtePointer m page 0 = some (some (directoryEntry (page >>> 22))) := rfl

/-- The pointer into a table is NULL when the directory entry is absent. -/
theorem getPtePointer_table (h : m.SelfMapped) (hd : dirIndex page ≠ 1023) :
    getPtePointer m page 1 = some
      (if (m.pde page).present then some (tableEntry (page >>> pageBits)) else none) := by
  show (m.loadEntry _).bind _ = _
  rw [(entryAt_pde h hd).loadEntry]
  show (if _ then _ else _) = _
  rw [PagedMemory.pde]
  split <;> rfl

theorem getPteType_directory (h : m.SelfMapped) (hd : dirIndex page ≠ 1023) :
    getPteType m page 0 = some (entryFlags (m.pde page)) := by
  rw [getPteType, getPtePointer_directory]
  show (m.loadEntry _).map _ = _
  rw [(entryAt_pde h hd).loadEntry]
  rfl

theorem loadEntry_pte (h : m.SelfMapped) (hp : (m.pde page).present = true) :
    m.loadEntry (tableEntry (page >>> pageBits)) = some (m.pte page) := by
  obtain ⟨hdir, htable, hword⟩ := index_tableEntry (pageIndex_eq page)
  have hpermits :
      (m.entry m.cr3 (tableIndex (tableEntry (page >>> pageBits)))).permits false = true := by
    rw [htable]
    show (m.pde page).permits false = true
    rw [Entry.permits, hp]
    rfl
  have hframe := h.frameOf hdir hpermits
  rw [PagedMemory.loadEntry, hframe, hword, htable]
  rfl

theorem getPteType_table (h : m.SelfMapped) (hd : dirIndex page ≠ 1023) :
    getPteType m page 1 =
      some (if (m.pde page).present then entryFlags (m.pte page) else 0) := by
  rw [getPteType, getPtePointer_table h hd]
  by_cases hp : (m.pde page).present = true
  · rw [if_pos hp, if_pos hp]
    show (m.loadEntry _).map _ = _
    rw [loadEntry_pte h hp]
    rfl
  · rw [if_neg hp, if_neg hp]
    rfl

theorem getPteAddress_table (h : m.SelfMapped) (hd : dirIndex page ≠ 1023) :
    getPteAddress m page 1 = some (if (m.pde page).present then
      frameAddress (m.pte page).physicalAddress ||| page &&& 0xFFF else -1) := by
  rw [getPteAddress, getPtePointer_table h hd]
  by_cases hp : (m.pde page).present = true
  · rw [if_pos hp, if_pos hp]
    show (m.loadEntry _).bind _ = _
    rw [loadEntry_pte h hp]
    rfl
  · rw [if_neg hp, if_neg hp]
    rfl

/-! ### Writing one entry -/

/-- The entry that `set_pte` leaves. -/
def pteWith (e : Entry) (flags addr : Word) : Entry where
  present := hasFlag flags pagePresent
  rw := hasFlag flags pageRw
  usermode := hasFlag flags pageUsermode
  other := e.other
  physicalAddress := frameNumber addr

/-- Four updates of one entry in a row. -/
theorem setPte_of_entryAt {level : Nat} {ptr : Word} (hptr : getPtePointer m page level = some (some ptr))
    (hptr' : ∀ e, getPtePointer (m.setEntry f i e) page level = some (some ptr))
    (hat : m.EntryAt ptr f i) :
    setPte m page level flags addr =
      some (0, m.setEntry f i (pteWith (m.entry f i) flags addr)) := by
  have haddr : setPteAddress m page level addr =
      some (0, m.setEntry f i { m.entry f i with physicalAddress := frameNumber addr }) := by
    rw [setPteAddress, hptr]
    show (m.modifyEntry ptr _).bind _ = _
    rw [hat.modifyEntry]
    rfl
  rw [setPte, haddr]
  show setPteType _ page level flags = _
  rw [setPteType, hptr']
  show (PagedMemory.modifyEntry _ ptr _).bind _ = _
  rw [(hat.setEntry _).modifyEntry, Option.bind_some, Option.bind_eq_bind,
    ((hat.setEntry _).setEntry _).modifyEntry, Option.bind_some,
    (((hat.setEntry _).setEntry _).setEntry _).modifyEntry]
  simp only [entry_setEntry_self, setEntry_setEntry]
  rfl

theorem setPte_directory (h : m.SelfMapped) (hd : dirIndex page ≠ 1023) (flags addr : Word) :
    setPte m page 0 flags addr = some (0, m.setEntry m.cr3 (dirIndex page)
      (pteWith (m.pde page) flags addr)) :=
  setPte_of_entryAt (getPtePointer_directory m page) (fun _ => getPtePointer_directory _ page)
    (entryAt_pde h hd)

theorem setPte_table (h : m.SelfMapped) (hd : dirIndex page ≠ 1023)
    (ht : UsableTable m (dirIndex page) f) (flags addr : Word) :
    setPte m page 1 flags addr = some (0, m.setEntry f (tableIndex page)
      (pteWith (m.entry f (tableIndex page)) flags addr)) := by
  have hptr : ∀ m : PagedMemory, m.SelfMapped → UsableTable m (dirIndex page) f →
      getPtePointer m page 1 = some (some (tableEntry (page >>> pageBits))) := by
    intro m h ht
    rw [getPtePointer_table h hd, if_pos]
    exact ht.present
  refine setPte_of_entryAt (hptr m h ht) ?_ (entryAt_pte h ht)
  intro e
  exact hptr _ (h.setEntry e fun hp => ht.ne hp.1.symm) (ht.setEntry _ e)

/-! ### Wiping a table -/

/-- `~0x3FF` clears the index into the table. -/
theorem toNat_and_not (x : Word) : (x &&& ~~~(0x3FF : Word)).toNat = 1024 * (x.toNat / 1024) := by
  have hshift : x &&& ~~~(0x3FF : Word) = x >>> 10 <<< 10 := by
    ext i hi
    have hbit : (0x3FF : Word)[i] = decide (i < 10) := by
      rw [← BitVec.getLsbD_eq_getElem hi]
      exact Nat.testBit_two_pow_sub_one 10 i
    simp only [BitVec.getElem_and, BitVec.getElem_not, hbit, BitVec.getElem_shiftLeft,
      BitVec.getElem_ushiftRight]
    grind
  have := x.isLt
  rw [hshift, BitVec.toNat_shiftLeft, BitVec.toNat_ushiftRight, Nat.shiftLeft_eq,
    Nat.shiftRight_eq_div_pow]
  omega

/-- The entry that `wipe_page_table` leaves. -/
def wiped (e : Entry) : Entry := { e with present := false, physicalAddress := 0 }

/-- The table after the first `n` passes. -/
def wipedBelow (data : FrameData) (n : Nat) : FrameData := fun i =>
  if i.toNat < n then (wiped (Entry.ofWord (data i))).toWord else data i

theorem wipedBelow_succ (data : FrameData) {n : Nat} (hn : n < 1024) :
    Function.update (wipedBelow data n) (BitVec.ofNat 10 n)
      (wiped (Entry.ofWord (data (BitVec.ofNat 10 n)))).toWord = wipedBelow data (n + 1) := by
  have hto : (BitVec.ofNat 10 n).toNat = n := by
    rw [BitVec.toNat_ofNat]
    omega
  funext i
  by_cases hi : i = BitVec.ofNat 10 n
  · rw [hi, Function.update_self, wipedBelow, if_pos (by omega)]
  · have hne : i.toNat ≠ n := fun h => hi (BitVec.eq_of_toNat_eq (h.trans hto.symm))
    rw [Function.update_of_ne hi, wipedBelow, wipedBelow]
    by_cases hlt : i.toNat < n
    · rw [if_pos hlt, if_pos (by omega)]
    · rw [if_neg hlt, if_neg (by omega)]

theorem wipeEntry_eq {x : Word} {d : BitVec 10} (h : m.SelfMapped) (ht : UsableTable m d f)
    {n : Nat} (hn : n < 1024) (hx : x.toNat = 1024 * d.toNat) :
    wipeEntry x n m =
      some (m.setEntry f (BitVec.ofNat 10 n) (wiped (m.entry f (BitVec.ofNat 10 n)))) := by
  have hat : m.EntryAt (tableEntry (x + BitVec.ofNat 32 n)) f (BitVec.ofNat 10 n) := by
    apply entryAt_tableEntry h ht
    have := d.isLt
    rw [BitVec.toNat_add, BitVec.toNat_ofNat, BitVec.toNat_ofNat]
    omega
  show (m.modifyEntry _ _).bind _ = _
  rw [hat.modifyEntry, Option.bind_some, (hat.setEntry _).modifyEntry]
  simp only [entry_setEntry_self, setEntry_setEntry]
  rfl

/-- **Wiping a table.** -/
theorem wipePageTable_eq (h : m.SelfMapped) (hd : dirIndex page ≠ 1023)
    (ht : UsableTable m (dirIndex page) f) :
    wipePageTable m page 1 = some (m.setFrame f fun i => (wiped (m.entry f i)).toWord) := by
  have hx : (page >>> pageBits &&& ~~~0x3FF).toNat = 1024 * (dirIndex page).toNat := by
    rw [toNat_and_not, toNat_pageIndex, dirIndex_toNat, Nat.div_div_eq_div_mul]
  have hpresent : hasFlag (entryFlags (m.pde page)) pagePresent = true := by
    rw [hasFlag_entryFlags_present]
    exact ht.present
  obtain ⟨m', hloop, hm'⟩ := CountedLoop.loop_of_invariant
    (wipeEntry (page >>> pageBits &&& ~~~0x3FF)) 1024 m
    (fun n m' => m' = m.setFrame f (wipedBelow (m.ram f) n)) (by
      show m = m.setFrame f fun i => if i.toNat < 0 then _ else m.ram f i
      simp only [Nat.not_lt_zero, if_false]
      exact (setFrame_ram m f).symm) (by
      rintro n m' hn rfl
      have hself := h.setFrame (wipedBelow (m.ram f) n) ht.ne
      refine ⟨_, wipeEntry_eq hself (ht.setFrame _) hn hx, ?_⟩
      have hnot : ¬ (BitVec.ofNat 10 n).toNat < n := by
        rw [BitVec.toNat_ofNat]
        omega
      rw [setEntry_setFrame, entry_setFrame_self, ← wipedBelow_succ _ hn]
      rw [show wipedBelow (m.ram f) n (BitVec.ofNat 10 n) = m.ram f (BitVec.ofNat 10 n) from
        if_neg hnot])
  rw [wipePageTable, if_pos rfl]
  show (getPteType m page 0).bind _ = _
  rw [getPteType_directory h hd, Option.bind_some, hpresent, if_pos rfl, hloop, hm']
  have hall : wipedBelow (m.ram f) 1024 = fun i => (wiped (m.entry f i)).toWord := by
    funext i
    exact if_pos i.isLt
  rw [hall]

/-! ### A new directory -/

/-- `memset` of the page that shows table 0. -/
theorem memset_pageTables (h : m.SelfMapped) (ht : UsableTable m 0 f) :
    memset m pageTables 0 pageSize.toNat = some (m.setFrame f fun _ => 0) := by
  obtain ⟨m', hloop, data, rfl, hdata⟩ := CountedLoop.loop_of_invariant
    (fun i m => m.storeByte (addrAt pageTables i) 0) 4096 m
    (fun n m' => ∃ data, m' = m.setFrame f data ∧ ∀ offset,
      data.byte offset = if offset.toNat < n then 0 else (m.ram f).byte offset)
    ⟨m.ram f, (setFrame_ram m f).symm, fun offset => by rw [if_neg (Nat.not_lt_zero _)]⟩ (by
      -- after `n` passes the first `n` bytes of the table are 0
      rintro n _ hn ⟨data, rfl, hdata⟩
      have haddr : (addrAt pageTables n).toNat = 4290772992 + n := by
        rw [addrAt, pageTables, BitVec.toNat_add, BitVec.toNat_ofNat,
          show (0xFFC00000 : Word).toNat = 4290772992 from rfl]
        omega
      have hdir : dirIndex (addrAt pageTables n) = 1023 := by
        apply BitVec.eq_of_toNat_eq
        rw [dirIndex_toNat, haddr, show (1023 : BitVec 10).toNat = 1023 from rfl]
        omega
      have htab : tableIndex (addrAt pageTables n) = 0 := by
        apply BitVec.eq_of_toNat_eq
        rw [tableIndex_toNat, haddr, show (0 : BitVec 10).toNat = 0 from rfl]
        omega
      have htable := ht.setFrame data
      have hframe : (m.setFrame f data).frameOf true (addrAt pageTables n) = some f := by
        rw [(h.setFrame data ht.ne).frameOf hdir (by rw [htab]; exact htable.permits), htab,
          htable.frame]
      refine ⟨m.setFrame f (data.setByte (pageOffset (addrAt pageTables n)) 0), ?_, _, rfl, ?_⟩
      · rw [PagedMemory.storeByte, hframe, Option.map_some, setFrame_ram_self, setFrame_setFrame]
      · intro offset
        have hoff : (pageOffset (addrAt pageTables n)).toNat = n := by
          rw [pageOffset_toNat, haddr]
          omega
        rw [FrameData.byte_setByte, hdata]
        by_cases heq : pageOffset (addrAt pageTables n) = offset
        · rw [if_pos heq, if_pos (by rw [← heq, hoff]; omega)]
        · have hne : offset.toNat ≠ n :=
            fun hn => heq (BitVec.eq_of_toNat_eq (hoff.trans hn.symm))
          rw [if_neg heq]
          by_cases hlt : offset.toNat < n
          · rw [if_pos hlt, if_pos (by omega)]
          · rw [if_neg hlt, if_neg (by omega)])
  have hzero : data = fun _ => 0 := by
    apply FrameData.ext_byte
    intro offset
    rw [hdata, if_pos offset.isLt, FrameData.byte_zero]
  rw [← hzero]
  exact hloop

/-- The kernel's part of a directory, and zeros elsewhere: what the first `n` passes
have copied. -/
def kernelPart (directory : FrameData) (n : Nat) : FrameData := fun i =>
  if 1021 ≤ i.toNat ∧ i.toNat < 1021 + n then directory i else 0

theorem kernelPart_succ (directory : FrameData) {n : Nat} (hn : n < 2) :
    Function.update (kernelPart directory n) (BitVec.ofNat 10 (1021 + n))
      (directory (BitVec.ofNat 10 (1021 + n))) = kernelPart directory (n + 1) := by
  have hto : (BitVec.ofNat 10 (1021 + n)).toNat = 1021 + n := by
    rw [BitVec.toNat_ofNat]
    omega
  funext i
  by_cases hi : i = BitVec.ofNat 10 (1021 + n)
  · rw [hi, Function.update_self, kernelPart, if_pos (by omega)]
  · have hne : i.toNat ≠ 1021 + n := fun h => hi (BitVec.eq_of_toNat_eq (h.trans hto.symm))
    rw [Function.update_of_ne hi, kernelPart, kernelPart]
    by_cases hin : 1021 ≤ i.toNat ∧ i.toNat < 1021 + n
    · rw [if_pos hin, if_pos (by omega)]
    · rw [if_neg hin, if_neg (by omega)]

/-- The entry of a directory for itself. -/
def selfEntry (f : Frame) : Entry where
  present := true
  rw := true
  usermode := false
  other := 0
  physicalAddress := f

/-- The directory that `paging_init_top_table` leaves. -/
def topTable (directory : FrameData) (f : Frame) : FrameData :=
  Function.update (kernelPart directory 2) 1023 (selfEntry f).toWord

/-- The loop over the kernel's entries. -/
theorem copyKernelEntries_eq (h : m.SelfMapped) (ht : UsableTable m 0 f) :
    loop (fun i => copyKernelEntry (1021 + i)) 2 (m.setFrame f fun _ => 0) =
      some (m.setFrame f (kernelPart (m.ram m.cr3) 2)) := by
  obtain ⟨m', hloop, rfl⟩ := CountedLoop.loop_of_invariant
    (fun i => copyKernelEntry (1021 + i)) 2 (m.setFrame f fun _ => 0)
    (fun n m' => m' = m.setFrame f (kernelPart (m.ram m.cr3) n)) (by
      congr 1
      funext i
      exact (if_neg (by omega)).symm) (by
      rintro n m' hn rfl
      have hto : (BitVec.ofNat 10 (1021 + n)).toNat = 1021 + n := by
        rw [BitVec.toNat_ofNat]
        omega
      have hx : (BitVec.ofNat 32 (1021 + n)).toNat = (BitVec.ofNat 10 (1021 + n)).toNat := by
        rw [hto, BitVec.toNat_ofNat]
        omega
      have hlast : BitVec.ofNat 10 (1021 + n) ≠ 1023 := by
        intro heq
        have := congrArg BitVec.toNat heq
        rw [hto, show (1023 : BitVec 10).toNat = 1023 from rfl] at this
        omega
      have hself := h.setFrame (kernelPart (m.ram m.cr3) n) ht.ne
      have hload := (entryAt_directoryEntry hself hx hlast).loadEntry
      have hstore := (entryAt_tableEntry (i := BitVec.ofNat 10 (1021 + n))
        (x := BitVec.ofNat 32 (1021 + n)) hself (ht.setFrame _) (by
          rw [hx, show (0 : BitVec 10).toNat = 0 from rfl]
          omega)).storeEntry
      refine ⟨_, ?_, rfl⟩
      show (PagedMemory.loadEntry _ _).bind _ = _
      rw [hload, Option.bind_some, hstore, setFrame_cr3, entry_setFrame_of_ne m _ _ ht.ne.symm,
        setEntry_setFrame, PagedMemory.entry, Entry.toWord_ofWord, kernelPart_succ _ hn])
  exact hloop

/-- The three assignments to the last entry of the new directory. -/
theorem setSelfEntry_eq {ptr table : Word} (hat : m.EntryAt ptr f i)
    (hzero : m.entry f i = Entry.ofWord 0) (hf : frameNumber table = f)
    (next : PagedMemory → Option PagedMemory) :
    ((m.modifyEntry ptr fun e => { e with physicalAddress := frameNumber table }).bind fun m =>
      (m.modifyEntry ptr fun e => { e with present := true }).bind fun m =>
        (m.modifyEntry ptr fun e => { e with rw := true }).bind next) =
      next (m.setEntry f i (selfEntry f)) := by
  rw [hat.modifyEntry, Option.bind_some, (hat.setEntry _).modifyEntry, Option.bind_some,
    ((hat.setEntry _).setEntry _).modifyEntry, Option.bind_some]
  simp only [entry_setEntry_self, setEntry_setEntry]
  rw [hzero, hf]
  rfl

/-- **A new directory.**  Nothing else changes: entry 0 of the current directory,
through which the new one is written, is put back. -/
theorem pagingInitTopTable_eq {table : Word} (h : m.SelfMapped)
    (h0 : (m.entry m.cr3 0).permits true = true) (hf : frameNumber table = f) (hne : f ≠ m.cr3) :
    pagingInitTopTable m table = some (m.setFrame f (topTable (m.ram m.cr3) f)) := by
  have hat0 : ∀ m : PagedMemory, m.SelfMapped → m.EntryAt (directoryEntry 0) m.cr3 0 :=
    fun m h => entryAt_directoryEntry h rfl (by decide)
  -- entry 0 refers to the new directory meanwhile
  obtain ⟨m1, hm1⟩ : ∃ m1, m1 = m.setEntry m.cr3 0
    { m.entry m.cr3 0 with physicalAddress := frameNumber table } := ⟨_, rfl⟩
  have hcr3 : m1.cr3 = m.cr3 := by rw [hm1, setEntry_cr3]
  have hself1 : m1.SelfMapped := by
    rw [hm1]
    exact h.setEntry _ fun hp => absurd hp.2 (by decide)
  have htable1 : UsableTable m1 0 f := by
    rw [hm1]
    refine ⟨?_, ?_, hne⟩
    · rw [setEntry_cr3, entry_setEntry_self]
      exact h0
    · rw [setEntry_cr3, entry_setEntry_self]
      exact hf
  have hself : ∀ data, (m1.setFrame f data).SelfMapped := fun data => hself1.setFrame data htable1.ne
  have hpart : kernelPart (m1.ram m1.cr3) 2 = kernelPart (m.ram m.cr3) 2 := by
    funext i
    rw [kernelPart, kernelPart]
    split
    · rename_i hi
      have hne0 : i ≠ 0 := by
        rintro rfl
        exact absurd hi.1 (by decide)
      rw [hcr3, hm1, setEntry, setFrame_ram_self, Function.update_of_ne hne0]
    · rfl
  have hzero : kernelPart (m.ram m.cr3) 2 1023 = 0 := if_neg (by decide)
  have hlast := entryAt_tableEntry (i := 1023) (x := BitVec.ofNat 32 1023)
    (hself (kernelPart (m.ram m.cr3) 2)) (htable1.setFrame _) rfl
  rw [pagingInitTopTable, (hat0 m h).loadEntry]
  show (m.modifyEntry _ _).bind _ = _
  rw [(hat0 m h).modifyEntry, Option.bind_some, ← hm1, memset_pageTables hself1 htable1]
  show (loop (fun i => copyKernelEntry (1021 + i)) 2 _).bind _ = _
  rw [copyKernelEntries_eq hself1 htable1, hpart, Option.bind_some]
  refine (setSelfEntry_eq hlast (by rw [entry_setFrame_self, hzero]) hf
    fun m' => m'.storeEntry (directoryEntry 0) (m.entry m.cr3 0)).trans ?_
  rw [setEntry_setFrame]
  show (m1.setFrame f (topTable (m.ram m.cr3) f)).storeEntry _ _ = _
  rw [(hat0 _ (hself _)).storeEntry, setFrame_cr3, hcr3, hm1, setFrame_setEntry _ _ _ _ hne,
    setEntry_setEntry, ← entry_setFrame_of_ne m (topTable (m.ram m.cr3) f) 0 hne.symm,
    setEntry_entry]

/-- Without write access through entry 0 the first store of `memset` faults. -/
theorem permits_of_pagingInitTopTable {table : Word} {m' : PagedMemory} (h : m.SelfMapped)
    (hinit : pagingInitTopTable m table = some m') : (m.entry m.cr3 0).permits true = true := by
  have hat0 : m.EntryAt (directoryEntry 0) m.cr3 0 := entryAt_directoryEntry h rfl (by decide)
  rw [pagingInitTopTable, hat0.loadEntry] at hinit
  have hinit : (m.modifyEntry (directoryEntry 0) _).bind _ = some m' := hinit
  rw [hat0.modifyEntry, Option.bind_some] at hinit
  obtain ⟨m2, hmemset, -⟩ := Option.bind_eq_some_iff.mp hinit
  obtain ⟨m3, hfirst⟩ := CountedLoop.loop_prefix (i := 1) (by decide) hmemset
  obtain ⟨f, hframe, -⟩ := Option.map_eq_some_iff.mp hfirst
  -- that store goes to the page behind entry 0
  have hself := h.setEntry (f := m.cr3) (i := 0)
    { m.entry m.cr3 0 with physicalAddress := frameNumber table } fun hp => absurd hp.2 (by decide)
  have hpte := permits_of_frameOf hframe
  rwa [hself.pte_eq (by decide), show tableIndex (addrAt pageTables 0) = 0 by decide,
    setEntry_cr3, entry_setEntry_self] at hpte

end QuarkKernel
