import QuarkKernel.MemoryManager
import QuarkKernel.Transition

/-! # The kernel's part of every address space

`paging_init_top_table` copies the kernel's directory entries into each new
directory.  The copies lead to the same tables, so what `map_page` and `unmap_page`
do inside a table shows everywhere.  A table that is added later is entered in the
directory that is loaded and in no other, which is fine only as long as there is no
other. -/
namespace QuarkKernel
open PagedMemory

/-- Memory and the directories there are: that of boot, and those that
`create_address_space` has made. -/
structure Spaces where
  machine : Machine
  spaces : List Frame

namespace Spaces

/-- The memory. -/
abbrev memory (s : Spaces) : PagedMemory := s.machine.memory

/-- The addresses from `_kernel_start` to the page tables. -/
def inKernelRange (page : Word) : Bool := kernelStart ≤ page && page < pageTables

/-- The calls, with their arguments. -/
inductive Op where
  | createAddressSpace
  | loadAddressSpace (table : Frame)
  | mapPage (page frame flags : Word)
  | unmapPage (page : Word)

/-- The state after a call, if the kernel survives it. -/
def step (s : Spaces) : Op → Option Spaces
  | .createAddressSpace =>
      s.machine.createAddressSpace.map fun (table, machine) =>
        if table = Status.enomem.code then { s with machine }
        else ⟨machine, frameNumber table :: s.spaces⟩
  | .loadAddressSpace table =>
      if table ∈ s.spaces then
        some { s with machine.memory := pagingLoadAddressSpace s.memory (frameAddress table) }
      else none
  | .mapPage page frame flags =>
      if inKernelRange page then
        (s.machine.mapPage page frame flags).map fun (_, machine) => { s with machine }
      else none
  | .unmapPage page =>
      if inKernelRange page then
        (s.machine.unmapPage page).map fun (_, machine) => { s with machine }
      else none

/-- At boot there is one directory.  It refers to itself, and the kernel's tables in
it are writable, are not the directory and are in use. -/
structure Boot (s : Spaces) : Prop where
  spaces : s.spaces = [s.memory.cr3]
  selfMapped : s.memory.SelfMapped
  tables : ∀ i, 1021 ≤ i.toNat → i ≠ 1023 → (s.memory.entry s.memory.cr3 i).present = true →
    (s.memory.entry s.memory.cr3 i).rw = true ∧
      (s.memory.entry s.memory.cr3 i).physicalAddress ≠ s.memory.cr3 ∧
      (s.memory.entry s.memory.cr3 i).physicalAddress ∈ s.machine.pageMap.reserved
  reserved : s.memory.cr3 ∈ s.machine.pageMap.reserved
  fresh : s.machine.pageMap.Fresh

def system : Transition.System Spaces Op := .ofStep Boot step

/-- Every kernel address has the same translation in all address spaces. -/
def Coherent (s : Spaces) : Prop :=
  ∀ a b addr, a ∈ s.spaces → b ∈ s.spaces → inKernelRange addr = true →
    (s.memory.under a).translate addr = (s.memory.under b).translate addr

/-- `map_page` gets a table for a part of the kernel's range that has none. -/
def addsTable (s : Spaces) : Op → Bool
  | .mapPage page frame _ =>
      frame % pageSize = 0 && !(s.memory.pde page).present && s.machine.pageMap.next.isSome
  | _ => false

/-- Tables are added only while there is one address space. -/
def addsTableAlone (s : Spaces) (op : Op) : Prop := s.addsTable op = true → s.spaces.length = 1

instance (s : Spaces) (op : Op) : Decidable (s.addsTableAlone op) :=
  inferInstanceAs (Decidable (_ → _))

/-! ### The invariant -/

/-- All directories agree on the kernel's entries, and what these lead to is in use
and is not a directory. -/
structure KernelHalf (s : Spaces) : Prop where
  current : s.memory.cr3 ∈ s.spaces
  nodup : s.spaces.Nodup
  selfMapped : ∀ a, a ∈ s.spaces → (s.memory.under a).SelfMapped
  agree : ∀ a b i, a ∈ s.spaces → b ∈ s.spaces → 1021 ≤ i.toNat → i ≠ 1023 →
    s.memory.ram a i = s.memory.ram b i
  tables : ∀ a i, a ∈ s.spaces → 1021 ≤ i.toNat → i ≠ 1023 →
    (s.memory.entry a i).present = true →
    (s.memory.entry a i).rw = true ∧ (s.memory.entry a i).physicalAddress ∉ s.spaces ∧
      (s.memory.entry a i).physicalAddress ∈ s.machine.pageMap.reserved
  reserved : ∀ a, a ∈ s.spaces → a ∈ s.machine.pageMap.reserved
  fresh : s.machine.pageMap.Fresh

variable {s s' : Spaces} {page frame flags : Word} {f : Frame}

theorem index_of_inKernelRange (h : inKernelRange page = true) :
    1021 ≤ (dirIndex page).toNat ∧ dirIndex page ≠ 1023 := by
  rw [inKernelRange, Bool.and_eq_true, decide_eq_true_eq, decide_eq_true_eq, BitVec.le_def,
    BitVec.lt_def, show kernelStart.toNat = 4282384384 from rfl,
    show pageTables.toNat = 4290772992 from rfl] at h
  constructor
  · rw [dirIndex_toNat]
    omega
  · intro heq
    have := congrArg BitVec.toNat heq
    rw [dirIndex_toNat, show (1023 : BitVec 10).toNat = 1023 from rfl] at this
    omega

/-- **Coherence.**  Equal directory entries lead to the same table. -/
theorem KernelHalf.coherent (h : s.KernelHalf) : s.Coherent := by
  intro a b addr ha hb hrange
  obtain ⟨hlow, hne⟩ := index_of_inKernelRange hrange
  have hpde : (s.memory.under a).pde addr = (s.memory.under b).pde addr :=
    congrArg Entry.ofWord (h.agree a b _ ha hb hlow hne)
  have hpte : (s.memory.under a).pte addr = (s.memory.under b).pte addr := by
    rw [PagedMemory.pte, PagedMemory.pte, hpde]
    rfl
  rw [PagedMemory.translate, PagedMemory.translate, hpde, hpte]

/-- As long as the directories keep their contents, so does everything else that
matters. -/
theorem KernelHalf.of_ram (h : s.KernelHalf) (hspaces : s'.spaces = s.spaces)
    (hcurrent : s'.memory.cr3 ∈ s.spaces)
    (hram : ∀ a, a ∈ s.spaces → s'.memory.ram a = s.memory.ram a)
    (hreserved : ∀ f, f ∈ s.machine.pageMap.reserved → f ∈ s'.machine.pageMap.reserved)
    (hfresh : s'.machine.pageMap.Fresh) : s'.KernelHalf := by
  have hentry : ∀ a i, a ∈ s.spaces → s'.memory.entry a i = s.memory.entry a i := by
    intro a i ha
    rw [PagedMemory.entry, hram a ha, PagedMemory.entry]
  refine ⟨hspaces ▸ hcurrent, hspaces ▸ h.nodup, ?_, ?_, ?_, ?_, hfresh⟩
  · intro a ha
    rw [hspaces] at ha
    have hself := h.selfMapped a ha
    have hsame : (s'.memory.under a).entry a 1023 = (s.memory.under a).entry a 1023 :=
      hentry a 1023 ha
    exact ⟨hsame ▸ hself.permits, hsame ▸ hself.frame⟩
  · intro a b i ha hb hlow hne
    rw [hspaces] at ha hb
    rw [hram a ha, hram b hb]
    exact h.agree a b i ha hb hlow hne
  · intro a i ha hlow hne hp
    rw [hspaces] at ha
    rw [hentry a i ha] at hp ⊢
    obtain ⟨hrw, hnot, hres⟩ := h.tables a i ha hlow hne hp
    exact ⟨hrw, hspaces ▸ hnot, hreserved _ hres⟩
  · intro a ha
    rw [hspaces] at ha
    exact hreserved a (h.reserved a ha)

/-- The current directory refers to itself. -/
theorem KernelHalf.self (h : s.KernelHalf) : s.memory.SelfMapped := h.selfMapped _ h.current

theorem KernelHalf.usable (h : s.KernelHalf) (hlow : 1021 ≤ (dirIndex page).toNat)
    (hne : dirIndex page ≠ 1023) (hp : (s.memory.pde page).present = true) :
    UsableTable s.memory (dirIndex page) (s.memory.pde page).physicalAddress ∧
      (s.memory.pde page).physicalAddress ∉ s.spaces := by
  obtain ⟨hrw, hnot, -⟩ := h.tables _ _ h.current hlow hne hp
  refine ⟨⟨?_, rfl, ?_⟩, hnot⟩
  · show (s.memory.pde page).permits true = true
    rw [Entry.permits, hp]
    exact hrw
  · intro heq
    apply hnot
    show (s.memory.pde page).physicalAddress ∈ s.spaces
    rw [heq]
    exact h.current

/-- An entry of one of the kernel's tables changes. -/
theorem KernelHalf.setEntry (h : s.KernelHalf) (hf : f ∉ s.spaces) (i : BitVec 10) (e : Entry) :
    KernelHalf { s with machine.memory := s.memory.setEntry f i e } := by
  refine h.of_ram rfl h.current ?_ (fun _ hf => hf) h.fresh
  intro a ha
  refine setFrame_ram_of_ne _ _ ?_
  rintro rfl
  exact hf ha

/-- A reservation that fails. -/
theorem KernelHalf.noFrame (h : s.KernelHalf) :
    KernelHalf { s with
      machine.pageMap := ⟨s.machine.pageMap.answers.tail, s.machine.pageMap.reserved⟩ } :=
  h.of_ram rfl h.current (fun _ _ => rfl) (fun _ hf => hf) h.fresh.tail

/-- The frame that is given out is none of the directories. -/
theorem KernelHalf.next (h : s.KernelHalf) (hnext : s.machine.pageMap.next = some f) :
    f ∉ s.spaces := by
  intro hf
  exact (h.fresh.next hnext).1 (h.reserved f hf)

/-- A table is added while there is one directory. -/
theorem KernelHalf.withTable (h : s.KernelHalf) (hone : s.spaces.length = 1)
    (hd : dirIndex page ≠ 1023) (hnext : s.machine.pageMap.next = some f) :
    KernelHalf { s with machine :=
      ⟨Machine.withTable s.memory page f, ⟨s.machine.pageMap.answers.tail,
        f :: s.machine.pageMap.reserved⟩⟩ } := by
  obtain ⟨c, hc⟩ := List.length_eq_one_iff.mp hone
  have hcr3 : s.memory.cr3 = c := by
    have := h.current
    rwa [hc, List.mem_singleton] at this
  have hf := h.next hnext
  have hne : f ≠ s.memory.cr3 := by
    rintro rfl
    exact hf h.current
  have hself := Machine.withTable_selfMapped h.self hd hne
  have hres : ∀ g, g ∈ s.machine.pageMap.reserved → g ∈ f :: s.machine.pageMap.reserved :=
    fun g hg => List.mem_cons_of_mem _ hg
  have hentry : ∀ i, (Machine.withTable s.memory page f).entry s.memory.cr3 i =
      if i = dirIndex page then Machine.tablePde (s.memory.pde page) f
      else s.memory.entry s.memory.cr3 i := by
    intro i
    rw [Machine.withTable, entry_setFrame_of_ne _ _ _ hne.symm]
    by_cases hi : i = dirIndex page
    · rw [hi, entry_setEntry_self, if_pos rfl]
    · rw [entry_setEntry_of_ne _ _ fun hp => hi hp.2, if_neg hi]
  refine ⟨h.current, h.nodup, ?_, ?_, ?_, ?_, (h.fresh.next hnext).2⟩
  · intro a ha
    obtain rfl : a = s.memory.cr3 := by
      rw [hcr3]
      simpa [hc] using ha
    exact hself
  · intro a b i ha hb _ _
    obtain rfl : a = b := by
      rw [hc, List.mem_singleton] at ha hb
      rw [ha, hb]
    rfl
  · intro a i ha hlow hi hp
    obtain rfl : a = s.memory.cr3 := by
      rw [hcr3]
      simpa [hc] using ha
    rw [hentry i] at hp ⊢
    split
    · exact ⟨rfl, hf, List.mem_cons_self ..⟩
    · rename_i hne'
      rw [if_neg hne'] at hp
      obtain ⟨hrw, hnot, hin⟩ := h.tables _ i h.current hlow hi hp
      exact ⟨hrw, hnot, hres _ hin⟩
  · intro a ha
    exact hres a (h.reserved a ha)

/-- The new directory has the kernel's entries of the current one. -/
theorem topTable_kernel (directory : FrameData) (f : Frame) {i : BitVec 10}
    (hlow : 1021 ≤ i.toNat) (hne : i ≠ 1023) : topTable directory f i = directory i := by
  have hlt : i.toNat < 1023 := by
    have := i.isLt
    have hne' : i.toNat ≠ 1023 := fun h => hne (BitVec.eq_of_toNat_eq h)
    omega
  rw [topTable, Function.update_of_ne hne, kernelPart, if_pos ⟨hlow, by omega⟩]

theorem KernelHalf.create (h : s.KernelHalf) (hnext : s.machine.pageMap.next = some f) :
    KernelHalf ⟨⟨s.memory.setFrame f (topTable (s.memory.ram s.memory.cr3) f),
      ⟨s.machine.pageMap.answers.tail, f :: s.machine.pageMap.reserved⟩⟩, f :: s.spaces⟩ := by
  have hf := h.next hnext
  have hold : ∀ a, a ∈ s.spaces → a ≠ f := by
    rintro a ha rfl
    exact hf ha
  have hram : ∀ a, a ∈ f :: s.spaces → ∀ i, 1021 ≤ i.toNat → i ≠ 1023 →
      (s.memory.setFrame f (topTable (s.memory.ram s.memory.cr3) f)).ram a i =
        s.memory.ram s.memory.cr3 i := by
    intro a ha i hlow hi
    rcases List.mem_cons.mp ha with rfl | ha
    · rw [setFrame_ram_self, topTable_kernel _ _ hlow hi]
    · rw [setFrame_ram_of_ne _ _ (hold a ha)]
      exact h.agree a _ i ha h.current hlow hi
  refine ⟨List.mem_cons_of_mem _ h.current, List.nodup_cons.mpr ⟨hf, h.nodup⟩, ?_, ?_, ?_, ?_,
    (h.fresh.next hnext).2⟩
  · intro a ha
    have hself : (s.memory.setFrame f (topTable (s.memory.ram s.memory.cr3) f)).entry a 1023 =
        if a = f then selfEntry f else s.memory.entry a 1023 := by
      split
      · rename_i haf
        rw [haf, entry_setFrame_self, topTable, Function.update_self, Entry.ofWord_toWord]
      · rename_i haf
        exact entry_setFrame_of_ne _ _ _ haf
    constructor
    · show ((s.memory.setFrame f (topTable (s.memory.ram s.memory.cr3) f)).entry a 1023).permits
        true = true
      rw [hself]
      split
      · rfl
      · rename_i haf
        exact (h.selfMapped a ((List.mem_cons.mp ha).resolve_left haf)).permits
    · show ((s.memory.setFrame f (topTable (s.memory.ram s.memory.cr3) f)).entry a
        1023).physicalAddress = a
      rw [hself]
      split
      · rename_i haf
        exact haf.symm
      · rename_i haf
        exact (h.selfMapped a ((List.mem_cons.mp ha).resolve_left haf)).frame
  · intro a b i ha hb hlow hi
    exact (hram a ha i hlow hi).trans (hram b hb i hlow hi).symm
  · intro a i ha hlow hi hp
    have hentry : (s.memory.setFrame f (topTable (s.memory.ram s.memory.cr3) f)).entry a i =
        s.memory.entry s.memory.cr3 i := congrArg Entry.ofWord (hram a ha i hlow hi)
    rw [hentry] at hp ⊢
    obtain ⟨hrw, hnot, hin⟩ := h.tables _ i h.current hlow hi hp
    refine ⟨hrw, ?_, List.mem_cons_of_mem _ hin⟩
    intro hmem
    rcases List.mem_cons.mp hmem with heq | hmem
    · exact (h.fresh.next hnext).1 (heq ▸ hin)
    · exact hnot hmem
  · intro a ha
    rcases List.mem_cons.mp ha with rfl | ha
    · exact List.mem_cons_self ..
    · exact List.mem_cons_of_mem _ (h.reserved a ha)

theorem KernelHalf.boot (h : s.Boot) : s.KernelHalf := by
  have hmem : ∀ a, a ∈ s.spaces → a = s.memory.cr3 := by
    intro a ha
    rwa [h.spaces, List.mem_singleton] at ha
  refine ⟨?_, ?_, ?_, ?_, ?_, ?_, h.fresh⟩
  · rw [h.spaces]
    exact List.mem_singleton_self _
  · rw [h.spaces]
    exact List.nodup_singleton _
  · intro a ha
    rw [hmem a ha]
    exact h.selfMapped
  · intro a b i ha hb _ _
    rw [hmem a ha, hmem b hb]
  · intro a i ha hlow hi hp
    rw [hmem a ha] at hp ⊢
    obtain ⟨hrw, hne, hin⟩ := h.tables i hlow hi hp
    exact ⟨hrw, fun hin => hne (hmem _ hin), hin⟩
  · intro a ha
    rw [hmem a ha]
    exact h.reserved

/-- The state with a new address space in frame `f`. -/
def withSpace (s : Spaces) (f : Frame) : Spaces :=
  ⟨⟨s.memory.setFrame f (topTable (s.memory.ram s.memory.cr3) f),
    ⟨s.machine.pageMap.answers.tail, f :: s.machine.pageMap.reserved⟩⟩, f :: s.spaces⟩

theorem KernelHalf.step_create (h : s.KernelHalf) (hnext : s.machine.pageMap.next = some f)
    (h0 : (s.memory.entry s.memory.cr3 0).permits true = true) :
    s.step .createAddressSpace = some (s.withSpace f) := by
  have hne : f ≠ s.memory.cr3 := by
    rintro rfl
    exact h.next hnext h.current
  rw [Spaces.step, Machine.createAddressSpace_of_some h.self hnext h0 hne, Option.map_some]
  show some (if frameAddress f = Status.enomem.code then _ else _) = _
  rw [if_neg (frameAddress_ne_enomem f), frameNumber_frameAddress]
  rfl

/-- The state with a new table in frame `f`, and `page` mapped in it. -/
def withMapping (s : Spaces) (page frame flags : Word) (f : Frame) : Spaces :=
  { s with machine :=
    ⟨(Machine.withTable s.memory page f).setEntry f (tableIndex page)
      (pteWith ((Machine.withTable s.memory page f).entry f (tableIndex page))
        (pagePresent ||| flags) frame),
      ⟨s.machine.pageMap.answers.tail, f :: s.machine.pageMap.reserved⟩⟩ }

theorem KernelHalf.step_mapPage (h : s.KernelHalf) (page frame flags : Word)
    (hrange : inKernelRange page = true) (ha : frame % pageSize = 0) (hp : (s.memory.pde page).present = false)
    (hnext : s.machine.pageMap.next = some f) :
    s.step (.mapPage page frame flags) = some (s.withMapping page frame flags f) := by
  have hne : f ≠ s.memory.cr3 := by
    rintro rfl
    exact h.next hnext h.current
  have hd := (index_of_inKernelRange hrange).2
  rw [Spaces.step, if_pos hrange, Machine.mapPage_of_some h.self hd ha hp hnext hne]
  rfl

theorem KernelHalf.step (h : s.KernelHalf) {op : Op} (hok : s.addsTableAlone op)
    (hst : s.step op = some s') : s'.KernelHalf := by
  cases op with
  | createAddressSpace =>
    rcases Option.eq_none_or_eq_some s.machine.pageMap.next with hnext | ⟨f, hnext⟩
    · rw [Spaces.step, Machine.createAddressSpace_of_none hnext] at hst
      cases hst
      exact h.noFrame
    · obtain ⟨result, hcreate, -⟩ := Option.map_eq_some_iff.mp hst
      have h0 := Machine.permits_of_createAddressSpace h.self hnext hcreate
      rw [h.step_create hnext h0] at hst
      cases hst
      exact h.create hnext
  | loadAddressSpace table =>
    rw [Spaces.step] at hst
    split at hst
    · rename_i htable
      obtain rfl := Option.some.inj hst
      refine h.of_ram rfl ?_ (fun _ _ => rfl) (fun _ hf => hf) h.fresh
      show frameNumber (frameAddress table) ∈ s.spaces
      rwa [frameNumber_frameAddress]
    · cases hst
  | mapPage page frame flags =>
    rw [Spaces.step] at hst
    split at hst
    · rename_i hrange
      obtain ⟨⟨status, machine⟩, hmap, rfl⟩ := Option.map_eq_some_iff.mp hst
      obtain ⟨hlow, hd⟩ := index_of_inKernelRange hrange
      by_cases ha : frame % pageSize = 0
      · by_cases hp : (s.memory.pde page).present = true
        · obtain ⟨htable, hnot⟩ := h.usable hlow hd hp
          rw [Machine.mapPage_of_present h.self hd ha htable] at hmap
          cases hmap
          exact h.setEntry hnot _ _
        · have hp : (s.memory.pde page).present = false := Bool.eq_false_of_not_eq_true hp
          rcases Option.eq_none_or_eq_some s.machine.pageMap.next with hnext | ⟨f, hnext⟩
          · rw [Machine.mapPage_of_none h.self hd ha hp hnext] at hmap
            cases hmap
            exact h.noFrame
          · -- a new table: there is only one directory
            have hone : s.spaces.length = 1 := by
              apply hok
              rw [addsTable, hp, hnext, ha]
              rfl
            rw [Machine.mapPage_of_some h.self hd ha hp hnext fun hf => h.next hnext
              (hf ▸ h.current)] at hmap
            cases hmap
            exact (h.withTable hone hd hnext).setEntry (h.next hnext) _ _
      · rw [Machine.mapPage_of_unaligned ha] at hmap
        cases hmap
        exact h
    · cases hst
  | unmapPage page =>
    rw [Spaces.step] at hst
    split at hst
    · rename_i hrange
      obtain ⟨⟨result, machine⟩, hunmap, rfl⟩ := Option.map_eq_some_iff.mp hst
      obtain ⟨hlow, hd⟩ := index_of_inKernelRange hrange
      by_cases hp : (s.memory.pde page).present = true ∧ (s.memory.pte page).present = true
      · -- the entry changes in a table that all directories share
        obtain ⟨htable, hnot⟩ := h.usable hlow hd hp.1
        rw [Machine.unmapPage_of_present h.self hd htable hp.2] at hunmap
        cases hunmap
        exact h.setEntry hnot _ _
      · rw [Machine.unmapPage_of_absent h.self hd hp] at hunmap
        cases hunmap
        exact h
    · cases hst

theorem kernelHalf_of_reachable (h : system.Reachable addsTableAlone s) : s.KernelHalf :=
  h.invariant KernelHalf (fun _ => .boot) fun _ _ _ hinv hok hst => hinv.step hok hst

/-- **Coherence of the kernel's part.**  In every run that adds tables to the kernel's
range only while there is one address space. -/
theorem coherent_of_reachable (h : system.Reachable addsTableAlone s) : s.Coherent :=
  (kernelHalf_of_reachable h).coherent

/-- The memory at boot: directory in frame 1, the table for low memory in frame 2, and
the kernel's table in frame 3. -/
def bootMemory : PagedMemory where
  ram f i :=
    if f = 1 ∧ i = 0 then 0x2003
    else if f = 1 ∧ i = 1021 then 0x3403
    else if f = 1 ∧ i = 1023 then 0x1003
    else 0
  cr3 := 1

/-- The state at boot, with two frames to be had. -/
def bootSpaces : Spaces := ⟨⟨bootMemory, ⟨[some 4, some 5], [1, 2, 3]⟩⟩, [1]⟩

theorem boot_bootSpaces : bootSpaces.Boot := by
  refine ⟨rfl, ⟨rfl, rfl⟩, ?_, by decide, by decide, ?_⟩
  · intro i hlow hne hp
    have hlt := i.isLt
    have hne' : i.toNat ≠ 1023 := fun h => hne (BitVec.eq_of_toNat_eq h)
    obtain h1021 | h1022 : i.toNat = 1021 ∨ i.toNat = 1022 := by omega
    · obtain rfl : i = 1021 := BitVec.eq_of_toNat_eq h1021
      decide
    · obtain rfl : i = 1022 := BitVec.eq_of_toNat_eq h1022
      exact absurd hp (by decide)
  · intro f hf
    obtain rfl | rfl : f = 4 ∨ f = 5 := by simpa [bootSpaces] using hf
    · decide
    · decide

/-- A table is added, and then an address space is created. -/
theorem coherent_tableFirst :
    ∃ s, system.Reachable addsTableAlone s ∧ s.spaces.length = 2 ∧ s.Coherent := by
  have hmap := (KernelHalf.boot boot_bootSpaces).step_mapPage 0xFF800000 0x7000 pageRw (f := 4)
    (by decide) (by decide) (by decide) rfl
  have hreach1 : system.Reachable addsTableAlone (bootSpaces.withMapping 0xFF800000 0x7000 pageRw 4) :=
    .step (.init boot_bootSpaces) (by decide) hmap
  have hcreate := (kernelHalf_of_reachable hreach1).step_create (f := 5) rfl (by decide)
  have hreach2 : system.Reachable addsTableAlone
      ((bootSpaces.withMapping 0xFF800000 0x7000 pageRw 4).withSpace 5) :=
    .step hreach1 (by decide) hcreate
  exact ⟨_, hreach2, rfl, coherent_of_reachable hreach2⟩

/-- A table that is added with another address space around is missing there. -/
theorem KernelHalf.not_coherent (h : s.KernelHalf) (htwo : s.spaces.length ≠ 1)
    (hrange : inKernelRange page = true) (hp : (s.memory.pde page).present = false)
    (hnext : s.machine.pageMap.next = some f) :
    ¬ (s.withMapping page frame flags f).Coherent := by
  intro hcoherent
  obtain ⟨hlow, hd⟩ := index_of_inKernelRange hrange
  have hf := h.next hnext
  -- another directory, which does not get the new table
  obtain ⟨a, ha, hne⟩ : ∃ a, a ∈ s.spaces ∧ a ≠ s.memory.cr3 := by
    by_contra hall
    apply htwo
    have hsub : s.spaces ⊆ [s.memory.cr3] := by
      intro a ha
      by_contra hne
      exact hall ⟨a, ha, fun heq => hne (List.mem_singleton.mpr heq)⟩
    have hle := (h.nodup.subperm hsub).length_le
    have hpos := List.length_pos_of_mem h.current
    rw [List.length_singleton] at hle
    omega
  have hfa : a ≠ f := by
    rintro rfl
    exact hf ha
  have hfc : s.memory.cr3 ≠ f := fun heq => hf (heq ▸ h.current)
  have hsame := hcoherent s.memory.cr3 a page h.current ha hrange
  have hother : ((s.withMapping page frame flags f).memory.under a).pde page =
      s.memory.pde page := by
    show (PagedMemory.setEntry _ f _ _).entry a (dirIndex page) = _
    rw [entry_setEntry_of_ne _ _ fun heq => hfa heq.1, Machine.withTable,
      entry_setFrame_of_ne _ _ _ hfa, entry_setEntry_of_ne _ _ fun heq => hne heq.1]
    exact congrArg Entry.ofWord (h.agree a _ _ ha h.current hlow hd)
  have hown : ((s.withMapping page frame flags f).memory.under s.memory.cr3).pde page =
      Machine.tablePde (s.memory.pde page) f := by
    show (PagedMemory.setEntry _ f _ _).entry s.memory.cr3 (dirIndex page) = _
    rw [entry_setEntry_of_ne _ _ fun heq => hfc heq.1, Machine.withTable,
      entry_setFrame_of_ne _ _ _ hfc, entry_setEntry_self]
  have hmapped : ((s.withMapping page frame flags f).memory.under s.memory.cr3).pte page =
      pteWith ((Machine.withTable s.memory page f).entry f (tableIndex page))
        (pagePresent ||| flags) frame := by
    rw [PagedMemory.pte, hown]
    exact entry_setEntry_self _ _ _ _
  have hflag : hasFlag (pagePresent ||| flags) pagePresent = true := hasFlag_or _ _ (by decide)
  rw [PagedMemory.translate, PagedMemory.translate, hother, hp, hown, hmapped] at hsame
  simp [Machine.tablePde, pteWith, hflag] at hsame

/-- The other way round: an address space is created, and then a table is added. -/
theorem not_coherent_spaceFirst :
    ¬ ∀ s, system.Reachable Transition.anyStep s → s.Coherent := by
  intro hall
  have hkernel := KernelHalf.boot boot_bootSpaces
  have hcreate := hkernel.step_create (f := 4) rfl (by decide)
  have hkernel1 : (bootSpaces.withSpace 4).KernelHalf := hkernel.create rfl
  have hmap := hkernel1.step_mapPage 0xFF800000 0x7000 pageRw (f := 5) (by decide) (by decide)
    (by decide) rfl
  have hreach : system.Reachable Transition.anyStep
      ((bootSpaces.withSpace 4).withMapping 0xFF800000 0x7000 pageRw 5) :=
    .step (.step (.init boot_bootSpaces) trivial hcreate) trivial hmap
  exact hkernel1.not_coherent (by decide) (by decide) (by decide) rfl (hall _ hreach)

end Spaces
end QuarkKernel
