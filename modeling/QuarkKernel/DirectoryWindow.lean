import QuarkKernel.AddressSpaces

/-! # Entry 0 of the directory as a window

`paging_init_top_table` writes the new directory through entry 0 of the current one.
It puts another frame there but relies on the entry being present and writable.  At
boot it is, since the kernel still is where it was loaded; the function itself clears
entry 0 of each directory it makes, and only `map_page` for a page of the first
4 MiB fills it again.  So whether an address space can be made depends on what has
happened in the current one. -/
namespace QuarkKernel
open PagedMemory

/-- `kernel_index` -/
def kernelIndex : Nat := (kernelStart >>> 22).toNat

/-- Frame `f` holds a directory that is empty but for the kernel's entries and for the
entry for itself, and nothing else has changed. -/
structure HoldsTopTable (m m' : PagedMemory) (f : Frame) : Prop where
  user : ∀ i, i.toNat < kernelIndex → m'.ram f i = 0
  kernel : ∀ i, kernelIndex ≤ i.toNat → i.toNat < 1023 → m'.ram f i = m.ram m.cr3 i
  present : (m'.entry f 1023).present = true
  rw : (m'.entry f 1023).rw = true
  self : (m'.entry f 1023).physicalAddress = f
  cr3 : m'.cr3 = m.cr3
  others : ∀ g, g ≠ f → m'.ram g = m.ram g

/-- `paging_init_top_table` does what it is for. -/
def InitializesTopTable (m : PagedMemory) (f : Frame) : Prop :=
  ∃ m', pagingInitTopTable m (frameAddress f) = some m' ∧ HoldsTopTable m m' f

/-- Entry 0 of the current directory is present and writable. -/
def WindowOpen (m : PagedMemory) : Prop := (m.entry m.cr3 0).permits true = true

instance (m : PagedMemory) : Decidable (WindowOpen m) :=
  inferInstanceAs (Decidable (_ = true))

theorem holdsTopTable_setFrame (m : PagedMemory) (f : Frame) :
    HoldsTopTable m (m.setFrame f (topTable (m.ram m.cr3) f)) f := by
  have hself : (m.setFrame f (topTable (m.ram m.cr3) f)).entry f 1023 = selfEntry f := by
    rw [entry_setFrame_self, topTable, Function.update_self, Entry.ofWord_toWord]
  refine ⟨?_, ?_, ?_, ?_, ?_, rfl, fun g hg => setFrame_ram_of_ne _ _ hg⟩
  · intro i hi
    have hlow : ¬ (1021 ≤ i.toNat ∧ i.toNat < 1021 + 2) := by
      rw [show kernelIndex = 1021 by decide] at hi
      omega
    have hlast : i ≠ 1023 := by
      rintro rfl
      exact absurd hi (by decide)
    rw [setFrame_ram_self, topTable, Function.update_of_ne hlast, kernelPart, if_neg hlow]
  · intro i hlow hhigh
    rw [show kernelIndex = 1021 by decide] at hlow
    have hlast : i ≠ 1023 := by
      rintro rfl
      exact absurd hhigh (by decide)
    rw [setFrame_ram_self, Spaces.topTable_kernel _ _ hlow hlast]
  · rw [hself]
    rfl
  · rw [hself]
    rfl
  · rw [hself]
    rfl

/-- In a directory that refers to itself, the window decides. -/
theorem initializesTopTable_iff {m : PagedMemory} (h : m.SelfMapped) {f : Frame}
    (hne : f ≠ m.cr3) : InitializesTopTable m f ↔ WindowOpen m := by
  constructor
  · rintro ⟨m', hinit, -⟩
    exact permits_of_pagingInitTopTable h hinit
  · intro hopen
    exact ⟨_, pagingInitTopTable_eq h hopen (frameNumber_frameAddress f) hne,
      holdsTopTable_setFrame m f⟩

namespace Spaces

/-! ### Runs -/

/-- A call, with any page below the page tables. -/
def callStep (s : Spaces) : Op → Option Spaces
  | .createAddressSpace => s.step .createAddressSpace
  | .loadAddressSpace table => s.step (.loadAddressSpace table)
  | .mapPage page frame flags =>
      if page < pageTables then
        (s.machine.mapPage page frame flags).map fun (_, machine) => { s with machine }
      else none
  | .unmapPage page =>
      if page < pageTables then
        (s.machine.unmapPage page).map fun (_, machine) => { s with machine }
      else none

/-- What `start_paging` leaves: a directory that refers to itself, with the window open.
The tables it leads to are writable, are not the directory and are in use. -/
structure Started (s : Spaces) : Prop where
  spaces : s.spaces = [s.memory.cr3]
  selfMapped : s.memory.SelfMapped
  window : WindowOpen s.memory
  tables : ∀ i, i ≠ 1023 → (s.memory.entry s.memory.cr3 i).present = true →
    (s.memory.entry s.memory.cr3 i).rw = true ∧
      (s.memory.entry s.memory.cr3 i).physicalAddress ≠ s.memory.cr3 ∧
      (s.memory.entry s.memory.cr3 i).physicalAddress ∈ s.machine.pageMap.reserved
  reserved : s.memory.cr3 ∈ s.machine.pageMap.reserved
  fresh : s.machine.pageMap.Fresh

def callSystem : Transition.System Spaces Op := .ofStep Started callStep

/-- Every directory refers to itself, and what else it leads to is writable, in use and
not a directory. -/
structure Directories (s : Spaces) : Prop where
  current : s.memory.cr3 ∈ s.spaces
  selfMapped : ∀ a, a ∈ s.spaces → (s.memory.under a).SelfMapped
  tables : ∀ a i, a ∈ s.spaces → i ≠ 1023 → (s.memory.entry a i).present = true →
    (s.memory.entry a i).rw = true ∧ (s.memory.entry a i).physicalAddress ∉ s.spaces ∧
      (s.memory.entry a i).physicalAddress ∈ s.machine.pageMap.reserved
  reserved : ∀ a, a ∈ s.spaces → a ∈ s.machine.pageMap.reserved
  fresh : s.machine.pageMap.Fresh

variable {s s' : Spaces} {page frame flags : Word} {f : Frame}

theorem Directories.self (h : s.Directories) : s.memory.SelfMapped := h.selfMapped _ h.current

/-- A frame that is not in use is no directory. -/
theorem Directories.free (h : s.Directories) (hf : f ∉ s.machine.pageMap.reserved) :
    f ∉ s.spaces :=
  fun hin => hf (h.reserved f hin)

theorem Directories.next (h : s.Directories) (hnext : s.machine.pageMap.next = some f) :
    f ∉ s.spaces :=
  h.free (h.fresh.next hnext).1

theorem Directories.ne_cr3 (h : s.Directories) (hf : f ∉ s.spaces) : f ≠ s.memory.cr3 := by
  rintro rfl
  exact hf h.current

theorem dirIndex_ne_of_lt (h : page < pageTables) : dirIndex page ≠ 1023 := by
  intro heq
  have hindex := congrArg BitVec.toNat heq
  rw [dirIndex_toNat, show (1023 : BitVec 10).toNat = 1023 from rfl] at hindex
  rw [BitVec.lt_def, show pageTables.toNat = 4290772992 from rfl] at h
  omega

theorem Directories.usable (h : s.Directories) (hd : dirIndex page ≠ 1023)
    (hp : (s.memory.pde page).present = true) :
    UsableTable s.memory (dirIndex page) (s.memory.pde page).physicalAddress ∧
      (s.memory.pde page).physicalAddress ∉ s.spaces := by
  obtain ⟨hrw, hnot, -⟩ := h.tables _ _ h.current hd hp
  refine ⟨⟨?_, rfl, ?_⟩, hnot⟩
  · show (s.memory.pde page).permits true = true
    rw [Entry.permits, hp]
    exact hrw
  · exact h.ne_cr3 hnot

/-- No directory changes, and no frame is given out. -/
structure KeepsDirectories (s s' : Spaces) : Prop where
  spaces : s'.spaces = s.spaces
  current : s'.memory.cr3 ∈ s.spaces
  ram : ∀ a, a ∈ s.spaces → s'.memory.ram a = s.memory.ram a
  reserved : s'.machine.pageMap.reserved = s.machine.pageMap.reserved
  fresh : s'.machine.pageMap.Fresh

theorem KeepsDirectories.entry (h : KeepsDirectories s s') {a : Frame} (ha : a ∈ s.spaces)
    (i : BitVec 10) : s'.memory.entry a i = s.memory.entry a i := by
  rw [PagedMemory.entry, h.ram a ha, PagedMemory.entry]

theorem Directories.keeps (h : s.Directories) (hkeeps : KeepsDirectories s s') :
    s'.Directories := by
  refine ⟨hkeeps.spaces ▸ hkeeps.current, ?_, ?_, ?_, hkeeps.fresh⟩
  · intro a ha
    rw [hkeeps.spaces] at ha
    have hself := h.selfMapped a ha
    have hsame : (s'.memory.under a).entry a 1023 = (s.memory.under a).entry a 1023 :=
      hkeeps.entry ha 1023
    exact ⟨hsame ▸ hself.permits, hsame ▸ hself.frame⟩
  · intro a i ha hne hp
    rw [hkeeps.spaces] at ha
    rw [hkeeps.entry ha i] at hp ⊢
    rw [hkeeps.spaces, hkeeps.reserved]
    exact h.tables a i ha hne hp
  · intro a ha
    rw [hkeeps.spaces] at ha
    rw [hkeeps.reserved]
    exact h.reserved a ha

/-- An entry of a table changes. -/
theorem Directories.keeps_setEntry (h : s.Directories) (hf : f ∉ s.spaces) (i : BitVec 10)
    (e : Entry) :
    KeepsDirectories s { s with machine.memory := s.memory.setEntry f i e } := by
  refine ⟨rfl, h.current, ?_, rfl, h.fresh⟩
  intro a ha
  refine setFrame_ram_of_ne _ _ ?_
  rintro rfl
  exact hf ha

/-- A reservation fails. -/
theorem Directories.keeps_noFrame (h : s.Directories) :
    KeepsDirectories s { s with
      machine.pageMap := ⟨s.machine.pageMap.answers.tail, s.machine.pageMap.reserved⟩ } :=
  ⟨rfl, h.current, fun _ _ => rfl, rfl, h.fresh.tail⟩

theorem Directories.keeps_refl (h : s.Directories) : KeepsDirectories s s :=
  ⟨rfl, h.current, fun _ _ => rfl, rfl, h.fresh⟩

/-- A table in frame `f` is added to the current directory. -/
theorem entry_withMapping (hf : f ∉ s.spaces) {a : Frame} (ha : a ∈ s.spaces) (i : BitVec 10) :
    (s.withMapping page frame flags f).memory.entry a i =
      if a = s.memory.cr3 ∧ i = dirIndex page then Machine.tablePde (s.memory.pde page) f
      else s.memory.entry a i := by
  have hne : a ≠ f := by
    rintro rfl
    exact hf ha
  show (PagedMemory.setEntry _ f _ _).entry a i = _
  rw [entry_setEntry_of_ne _ _ fun hhere => hne hhere.1, Machine.withTable,
    entry_setFrame_of_ne _ _ _ hne]
  split
  · rename_i hhere
    rw [hhere.1, hhere.2, entry_setEntry_self]
  · rename_i hhere
    exact entry_setEntry_of_ne _ _ hhere

theorem Directories.withMapping (h : s.Directories) (hd : dirIndex page ≠ 1023)
    (hnext : s.machine.pageMap.next = some f) :
    (s.withMapping page frame flags f).Directories := by
  have hf := h.next hnext
  refine ⟨h.current, ?_, ?_, ?_, (h.fresh.next hnext).2⟩
  · intro a ha
    have hself := h.selfMapped a ha
    have hsame : ((s.withMapping page frame flags f).memory.under a).entry a 1023 =
        (s.memory.under a).entry a 1023 :=
      (entry_withMapping hf ha 1023).trans (if_neg fun hhere => hd hhere.2.symm)
    exact ⟨hsame ▸ hself.permits, hsame ▸ hself.frame⟩
  · intro a i ha hne hp
    rw [entry_withMapping hf ha] at hp ⊢
    split
    · exact ⟨rfl, hf, List.mem_cons_self ..⟩
    · rename_i hhere
      rw [if_neg hhere] at hp
      obtain ⟨hrw, hnot, hin⟩ := h.tables a i ha hne hp
      exact ⟨hrw, hnot, List.mem_cons_of_mem _ hin⟩
  · intro a ha
    exact List.mem_cons_of_mem _ (h.reserved a ha)

/-- A new directory has entries of the current one and the one for itself. -/
theorem Directories.withSpace (h : s.Directories) (hnext : s.machine.pageMap.next = some f) :
    (s.withSpace f).Directories := by
  have hf := h.next hnext
  have hfree := (h.fresh.next hnext).1
  have hnew := holdsTopTable_setFrame s.memory f
  have hold : ∀ a i, a ∈ s.spaces → (s.withSpace f).memory.entry a i = s.memory.entry a i := by
    intro a i ha
    refine entry_setFrame_of_ne _ _ _ ?_
    rintro rfl
    exact hf ha
  have hnot : ∀ {g}, g ∉ s.spaces → g ∈ s.machine.pageMap.reserved → g ∉ f :: s.spaces := by
    intro g hg hin hmem
    rcases List.mem_cons.mp hmem with rfl | hmem
    · exact hfree hin
    · exact hg hmem
  refine ⟨List.mem_cons_of_mem _ h.current, ?_, ?_, ?_, (h.fresh.next hnext).2⟩
  · intro a ha
    rcases List.mem_cons.mp ha with rfl | ha
    · refine ⟨?_, hnew.self⟩
      show ((s.withSpace a).memory.entry a 1023).permits true = true
      rw [Entry.permits, show ((s.withSpace a).memory.entry a 1023).present = true from hnew.present,
        show ((s.withSpace a).memory.entry a 1023).rw = true from hnew.rw]
      rfl
    · have hself := h.selfMapped a ha
      have hsame : ((s.withSpace f).memory.under a).entry a 1023 =
          (s.memory.under a).entry a 1023 := hold a 1023 ha
      exact ⟨hsame ▸ hself.permits, hsame ▸ hself.frame⟩
  · intro a i ha hne hp
    rcases List.mem_cons.mp ha with rfl | ha
    · by_cases hlow : i.toNat < kernelIndex
      · -- below the kernel's part there is nothing
        have hzero : (s.withSpace a).memory.entry a i = Entry.ofWord 0 :=
          congrArg Entry.ofWord (hnew.user i hlow)
        rw [hzero] at hp
        cases hp
      · have hlast : i.toNat < 1023 := by
          have hlt := i.isLt
          have hne' : i.toNat ≠ 1023 := fun heq => hne (BitVec.eq_of_toNat_eq heq)
          omega
        have hsame : (s.withSpace a).memory.entry a i = s.memory.entry s.memory.cr3 i :=
          congrArg Entry.ofWord (hnew.kernel i (Nat.le_of_not_lt hlow) hlast)
        rw [hsame] at hp ⊢
        obtain ⟨hrw, hno, hin⟩ := h.tables _ i h.current hne hp
        exact ⟨hrw, hnot hno hin, List.mem_cons_of_mem _ hin⟩
    · rw [hold a i ha] at hp ⊢
      obtain ⟨hrw, hno, hin⟩ := h.tables a i ha hne hp
      exact ⟨hrw, hnot hno hin, List.mem_cons_of_mem _ hin⟩
  · intro a ha
    rcases List.mem_cons.mp ha with rfl | ha
    · exact List.mem_cons_self ..
    · exact List.mem_cons_of_mem _ (h.reserved a ha)

theorem Directories.started (h : s.Started) : s.Directories := by
  have hmem : ∀ a, a ∈ s.spaces → a = s.memory.cr3 := by
    intro a ha
    rwa [h.spaces, List.mem_singleton] at ha
  refine ⟨?_, ?_, ?_, ?_, h.fresh⟩
  · rw [h.spaces]
    exact List.mem_singleton_self _
  · intro a ha
    rw [hmem a ha]
    exact h.selfMapped
  · intro a i ha hne hp
    rw [hmem a ha] at hp ⊢
    obtain ⟨hrw, hnot, hin⟩ := h.tables i hne hp
    exact ⟨hrw, fun hin => hnot (hmem _ hin), hin⟩
  · intro a ha
    rw [hmem a ha]
    exact h.reserved

/-- A call of `create_address_space` that gets a frame survives only with the window
open. -/
theorem Directories.create (h : s.Directories) (hnext : s.machine.pageMap.next = some f)
    (hst : s.step .createAddressSpace = some s') :
    WindowOpen s.memory ∧ s' = s.withSpace f := by
  obtain ⟨result, hcreate, rfl⟩ := Option.map_eq_some_iff.mp hst
  have hopen := Machine.permits_of_createAddressSpace h.self hnext hcreate
  rw [Machine.createAddressSpace_of_some h.self hnext hopen (h.ne_cr3 (h.next hnext))] at hcreate
  obtain rfl := Option.some.inj hcreate
  refine ⟨hopen, ?_⟩
  show (if frameAddress f = Status.enomem.code then _ else _) = _
  rw [if_neg (frameAddress_ne_enomem f), frameNumber_frameAddress]
  rfl

/-- The call finds what it needs, or fails. -/
def AddsNothing (s : Spaces) : Op → Prop
  | .createAddressSpace => s.machine.pageMap.next = none
  | .mapPage page frame flags =>
      (s.machine.mapPage page frame flags).map Prod.fst = some .enone →
        dirIndex page ≠ 1023 ∧ (s.memory.pde page).present = true
  | _ => True

/-- `map_page` adds a table to the current directory, or leaves all directories as they
are. -/
theorem Directories.callStep_mapPage (h : s.Directories)
    (hst : s.callStep (.mapPage page frame flags) = some s') :
    (∃ f, dirIndex page ≠ 1023 ∧
      (s.machine.mapPage page frame flags).map Prod.fst = some .enone ∧
      s.machine.pageMap.next = some f ∧ s' = s.withMapping page frame flags f) ∨
    (KeepsDirectories s s' ∧ s.AddsNothing (.mapPage page frame flags)) := by
  rw [Spaces.callStep] at hst
  split at hst
  · rename_i hbelow
    have hd := dirIndex_ne_of_lt hbelow
    obtain ⟨⟨status, machine⟩, hmap, rfl⟩ := Option.map_eq_some_iff.mp hst
    rw [AddsNothing, hmap]
    by_cases ha : frame % pageSize = 0
    · by_cases hp : (s.memory.pde page).present = true
      · -- the table is there: one of its entries changes
        obtain ⟨htable, hnot⟩ := h.usable hd hp
        rw [Machine.mapPage_of_present h.self hd ha htable] at hmap
        cases hmap
        exact .inr ⟨h.keeps_setEntry hnot _ _, fun _ => ⟨hd, hp⟩⟩
      · have hp : (s.memory.pde page).present = false := Bool.eq_false_of_not_eq_true hp
        rcases Option.eq_none_or_eq_some s.machine.pageMap.next with hnext | ⟨f, hnext⟩
        · rw [Machine.mapPage_of_none h.self hd ha hp hnext] at hmap
          cases hmap
          exact .inr ⟨h.keeps_noFrame, nofun⟩
        · -- a new table, and the page in it
          rw [Machine.mapPage_of_some h.self hd ha hp hnext (h.ne_cr3 (h.next hnext))] at hmap
          cases hmap
          exact .inl ⟨f, hd, rfl, hnext, rfl⟩
    · rw [Machine.mapPage_of_unaligned ha] at hmap
      cases hmap
      exact .inr ⟨h.keeps_refl, nofun⟩
  · cases hst

/-- What a call can do: make a directory, add a table to the current one, or leave all
directories as they are. -/
theorem Directories.callStep_cases (h : s.Directories) {op : Op} (hst : s.callStep op = some s') :
    (∃ f, op = .createAddressSpace ∧ s.machine.pageMap.next = some f ∧ s' = s.withSpace f) ∨
    (∃ page frame flags f, op = .mapPage page frame flags ∧ dirIndex page ≠ 1023 ∧
      (s.machine.mapPage page frame flags).map Prod.fst = some .enone ∧
      s.machine.pageMap.next = some f ∧ s' = s.withMapping page frame flags f) ∨
    (KeepsDirectories s s' ∧ s.AddsNothing op) := by
  cases op with
  | createAddressSpace =>
    rcases Option.eq_none_or_eq_some s.machine.pageMap.next with hnext | ⟨f, hnext⟩
    · rw [Spaces.callStep, Spaces.step, Machine.createAddressSpace_of_none hnext] at hst
      cases hst
      exact .inr (.inr ⟨h.keeps_noFrame, hnext⟩)
    · exact .inl ⟨f, rfl, hnext, (h.create hnext hst).2⟩
  | loadAddressSpace table =>
    rw [Spaces.callStep, Spaces.step] at hst
    split at hst
    · rename_i htable
      obtain rfl := Option.some.inj hst
      have hcurrent : frameNumber (frameAddress table) ∈ s.spaces := by
        rwa [frameNumber_frameAddress]
      exact .inr (.inr ⟨⟨rfl, hcurrent, fun _ _ => rfl, rfl, h.fresh⟩, trivial⟩)
    · cases hst
  | mapPage page frame flags =>
    rcases h.callStep_mapPage hst with ⟨f, hadd⟩ | hkeeps
    · exact .inr (.inl ⟨page, frame, flags, f, rfl, hadd⟩)
    · exact .inr (.inr hkeeps)
  | unmapPage page =>
    rw [Spaces.callStep] at hst
    split at hst
    · rename_i hbelow
      have hd := dirIndex_ne_of_lt hbelow
      obtain ⟨⟨result, machine⟩, hunmap, rfl⟩ := Option.map_eq_some_iff.mp hst
      refine .inr (.inr ⟨?_, trivial⟩)
      by_cases hp : (s.memory.pde page).present = true ∧ (s.memory.pte page).present = true
      · obtain ⟨htable, hnot⟩ := h.usable hd hp.1
        rw [Machine.unmapPage_of_present h.self hd htable hp.2] at hunmap
        cases hunmap
        exact h.keeps_setEntry hnot _ _
      · rw [Machine.unmapPage_of_absent h.self hd hp] at hunmap
        cases hunmap
        exact h.keeps_refl
    · cases hst

theorem Directories.callStep (h : s.Directories) {op : Op} (hst : s.callStep op = some s') :
    s'.Directories := by
  rcases h.callStep_cases hst with ⟨f, -, hnext, rfl⟩ | ⟨page, frame, flags, f, -, hd, -, hnext, rfl⟩
    | ⟨hkeeps, -⟩
  · exact h.withSpace hnext
  · exact h.withMapping hd hnext
  · exact h.keeps hkeeps

/-! ### Which windows are closed -/

/-- The directories that `create_address_space` has made and in which `map_page` has not
mapped a page of the first 4 MiB since. -/
def updateClosed (closed : List Frame) (s : Spaces) (op : Op) (_ : Spaces) : List Frame :=
  match op with
  | .createAddressSpace =>
      match s.machine.pageMap.next with
      | some f => f :: closed
      | none => closed
  | .mapPage page frame flags =>
      if page < 0x400000 ∧ (s.machine.mapPage page frame flags).map Prod.fst = some .enone then
        closed.filter fun a => decide (a ≠ s.memory.cr3)
      else closed
  | _ => closed

/-- Runs that keep track of the closed windows. -/
def windowSystem : Transition.System (Spaces × List Frame) Op := callSystem.record [] updateClosed

/-- The list is right. -/
structure WindowsTracked (s : Spaces × List Frame) : Prop where
  directories : s.1.Directories
  closed : ∀ a, a ∈ s.1.spaces → ((s.1.memory.entry a 0).permits true = true ↔ a ∉ s.2)

theorem dirIndex_eq_zero_iff (page : Word) : dirIndex page = 0 ↔ page < 0x400000 := by
  rw [BitVec.lt_def, show (0x400000 : Word).toNat = 4194304 from rfl]
  constructor
  · intro heq
    have hindex := congrArg BitVec.toNat heq
    rw [dirIndex_toNat, show (0 : BitVec 10).toNat = 0 from rfl] at hindex
    omega
  · intro hlt
    apply BitVec.eq_of_toNat_eq
    rw [dirIndex_toNat, show (0 : BitVec 10).toNat = 0 from rfl]
    omega

/-- After a successful `map_page` of a page there, the window of the current directory is
no longer listed. -/
theorem not_mem_updateClosed {closed : List Frame}
    (hok : (s.machine.mapPage page frame flags).map Prod.fst = some .enone) (a : Frame) :
    a ∉ updateClosed closed s (.mapPage page frame flags) s' ↔
      (a = s.memory.cr3 ∧ page < 0x400000) ∨ a ∉ closed := by
  rw [updateClosed]
  by_cases hlow : page < 0x400000
  · rw [if_pos ⟨hlow, hok⟩, List.mem_filter, decide_eq_true_eq]
    tauto
  · rw [if_neg fun hboth => hlow hboth.1]
    tauto

theorem WindowsTracked.started {closed : List Frame} (h : s.Started) (hclosed : closed = []) :
    WindowsTracked (s, closed) := by
  refine ⟨.started h, ?_⟩
  intro a ha
  rw [h.spaces, List.mem_singleton] at ha
  rw [ha, hclosed]
  exact ⟨fun _ => List.not_mem_nil, fun _ => h.window⟩

theorem WindowsTracked.step {closed : List Frame} (h : WindowsTracked (s, closed)) {op : Op}
    (hst : s.callStep op = some s') : WindowsTracked (s', updateClosed closed s op s') := by
  obtain ⟨hdirs, hclosed⟩ := h
  refine ⟨hdirs.callStep hst, ?_⟩
  dsimp only at hdirs hclosed ⊢
  rcases hdirs.callStep_cases hst with ⟨f, rfl, hnext, rfl⟩ |
    ⟨page, frame, flags, f, rfl, hd, hok, hnext, rfl⟩ | ⟨hkeeps, hnothing⟩
  · -- a new directory has nothing in entry 0
    intro a ha
    rw [updateClosed, hnext]
    dsimp only
    rcases List.mem_cons.mp ha with rfl | ha
    · have hzero : (s.withSpace a).memory.entry a 0 = Entry.ofWord 0 :=
        congrArg Entry.ofWord ((holdsTopTable_setFrame s.memory a).user 0 (by decide))
      rw [hzero]
      exact ⟨fun hpermits => absurd hpermits (by decide),
        fun hnot => absurd (List.mem_cons_self ..) hnot⟩
    · have hne : a ≠ f := fun heq => hdirs.next hnext (heq ▸ ha)
      have hsame : (s.withSpace f).memory.entry a 0 = s.memory.entry a 0 :=
        entry_setFrame_of_ne _ _ _ hne
      rw [hsame, hclosed a ha, List.mem_cons]
      tauto
  · -- a new table may be the one for entry 0 of the current directory
    intro a ha
    have hzero : (0 : BitVec 10) = dirIndex page ↔ page < 0x400000 := by
      rw [eq_comm, dirIndex_eq_zero_iff]
    rw [entry_withMapping (hdirs.next hnext) ha, not_mem_updateClosed hok]
    split
    · rename_i hhere
      rw [hzero] at hhere
      exact ⟨fun _ => .inl hhere, fun _ => rfl⟩
    · rename_i hhere
      rw [hzero] at hhere
      rw [hclosed a ha]
      tauto
  · -- no entry of a directory is added, so nothing may leave the list
    intro a ha
    rw [hkeeps.spaces] at ha
    rw [hkeeps.entry ha, hclosed a ha]
    cases op with
    | createAddressSpace => rw [updateClosed, show s.machine.pageMap.next = none from hnothing]
    | loadAddressSpace table => rfl
    | unmapPage page => rfl
    | mapPage page frame flags =>
      by_cases hok : (s.machine.mapPage page frame flags).map Prod.fst = some .enone
      · obtain ⟨hd, hp⟩ := hnothing hok
        rw [not_mem_updateClosed hok]
        refine ⟨.inr, ?_⟩
        rintro (⟨rfl, hlow⟩ | hnot)
        · -- the window was open before
          rw [← dirIndex_eq_zero_iff] at hlow
          obtain ⟨htable, -⟩ := hdirs.usable hd hp
          rw [hlow] at htable
          exact (hclosed _ ha).mp htable.permits
        · exact hnot
      · rw [updateClosed, if_neg fun hboth => hok hboth.2]

theorem reachable_call {closed : List Frame} {op : Op}
    (h : windowSystem.Reachable Transition.anyStep (s, closed)) (hst : s.callStep op = some s') :
    windowSystem.Reachable Transition.anyStep (s', updateClosed closed s op s') :=
  .step h trivial ⟨hst, rfl⟩

theorem windowsTracked_of_reachable {s : Spaces × List Frame}
    (h : windowSystem.Reachable Transition.anyStep s) : WindowsTracked s := by
  refine h.invariant WindowsTracked ?_ ?_
  · rintro ⟨s, closed⟩ ⟨hstarted, hclosed⟩
    exact .started hstarted hclosed
  · rintro ⟨s, closed⟩ op ⟨s', closed'⟩ hinv - ⟨hst, hclosed⟩
    obtain rfl : closed' = updateClosed closed s op s' := hclosed
    exact hinv.step hst

/-! ### Where an address space can be made -/

/-- **Main result.** In every state a run can reach, a free frame can be made into a
directory exactly when the current directory is that of boot, or a page of the first
4 MiB has been mapped in it. -/
theorem initializesTopTable_iff_of_reachable {s : Spaces × List Frame}
    (h : windowSystem.Reachable Transition.anyStep s) (hf : f ∉ s.1.machine.pageMap.reserved) :
    InitializesTopTable s.1.memory f ↔ s.1.memory.cr3 ∉ s.2 := by
  obtain ⟨hdirs, hclosed⟩ := windowsTracked_of_reachable h
  rw [initializesTopTable_iff hdirs.self (hdirs.ne_cr3 (hdirs.free hf))]
  exact hclosed _ hdirs.current

theorem started_bootSpaces : bootSpaces.Started := by
  refine ⟨rfl, ⟨rfl, rfl⟩, by decide, ?_, by decide, boot_bootSpaces.fresh⟩
  intro i hne hp
  by_cases hzero : i = 0
  · subst hzero
    decide
  · by_cases hkernel : i = 1021
    · subst hkernel
      decide
    · have hnone : bootSpaces.memory.ram bootSpaces.memory.cr3 i = 0 := by
        show (if (1 : Frame) = 1 ∧ i = 0 then _ else if (1 : Frame) = 1 ∧ i = 1021 then _
          else if (1 : Frame) = 1 ∧ i = 1023 then _ else (0 : Word)) = 0
        rw [if_neg fun h => hzero h.2, if_neg fun h => hkernel h.2, if_neg fun h => hne h.2]
      rw [PagedMemory.entry, hnone] at hp
      cases hp

/-- The first address space is made and loaded. -/
def loadedSpaces : Spaces :=
  { bootSpaces.withSpace 4 with
    machine.memory := pagingLoadAddressSpace (bootSpaces.withSpace 4).memory (frameAddress 4) }

theorem callStep_withSpace : bootSpaces.callStep .createAddressSpace = some (bootSpaces.withSpace 4) :=
  (KernelHalf.boot boot_bootSpaces).step_create rfl (by decide)

theorem callStep_loadedSpaces :
    (bootSpaces.withSpace 4).callStep (.loadAddressSpace 4) = some loadedSpaces := by
  rw [callStep, step, if_pos (by decide)]
  rfl

/-- A page of the first 4 MiB is mapped there: a second one can be made. -/
theorem initializesTopTable_iff_lowPageRun :
    ∃ s, windowSystem.Reachable Transition.anyStep s ∧ s.1.memory.cr3 = 4 ∧
      (InitializesTopTable s.1.memory 6 ↔ s.1.memory.cr3 ∉ s.2) := by
  have h0 : windowSystem.Reachable Transition.anyStep (bootSpaces, []) :=
    .init ⟨started_bootSpaces, rfl⟩
  have h2 := reachable_call (reachable_call h0 callStep_withSpace) callStep_loadedSpaces
  have hdirs : loadedSpaces.Directories := (windowsTracked_of_reachable h2).directories
  have hmap : loadedSpaces.callStep (.mapPage 0x1000 0x7000 pageRw) =
      some (loadedSpaces.withMapping 0x1000 0x7000 pageRw 5) := by
    have hd : dirIndex 0x1000 ≠ 1023 := by decide
    have hp : (loadedSpaces.memory.pde 0x1000).present = false := by decide
    have hnext : loadedSpaces.machine.pageMap.next = some 5 := by decide
    have hadd : loadedSpaces.machine.mapPage 0x1000 0x7000 pageRw = _ :=
      Machine.mapPage_of_some hdirs.self hd (by decide) hp hnext (by decide)
    rw [callStep, if_pos (by decide), hadd]
    rfl
  have h3 := reachable_call h2 hmap
  exact ⟨_, h3, rfl, initializesTopTable_iff_of_reachable h3 (by decide)⟩

/-- Without that, making the second one is a page fault. -/
theorem not_initializesTopTable_secondSpace :
    ¬ ∀ s, callSystem.Reachable Transition.anyStep s →
      ∀ f, f ∉ s.machine.pageMap.reserved → InitializesTopTable s.memory f := by
  intro hall
  have hreach : callSystem.Reachable Transition.anyStep loadedSpaces :=
    .step (.step (.init started_bootSpaces) trivial callStep_withSpace) trivial
      callStep_loadedSpaces
  have hdirs : loadedSpaces.Directories :=
    ((Directories.started started_bootSpaces).callStep callStep_withSpace).callStep
      callStep_loadedSpaces
  have hopen := (initializesTopTable_iff hdirs.self (by decide)).mp
    (hall _ hreach 5 (by decide))
  exact absurd hopen (by decide)

end Spaces
end QuarkKernel
