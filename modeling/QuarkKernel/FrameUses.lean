import QuarkKernel.AddressSpaces
import QuarkKernel.ProgramSpace

/-! # What the frames are used for

All the directories there are, and every call that changes one of them or the frames it
refers to: frames are reserved and given back, address spaces created and loaded, pages
mapped and unmapped, bytes stored.  A frame has one use at a time: it is a directory, one
of the kernel's tables or pages, or a certain table or page of a certain address space.
What a directory or table may refer to depends on its own use (`Fits`), so a call that
writes to one frame leaves all others as fitting as they were. -/
namespace QuarkKernel
open PagedMemory

/-- The directories and memory, the directory `start_paging` has made, and the frames that
have been reserved and are not mapped. -/
structure HeldFrames extends Spaces where
  bootSpace : Frame
  held : List Frame

instance (x : Word) : Decidable (IsUser x) := inferInstanceAs (Decidable (_ < _))

namespace HeldFrames

/-- The calls, with their arguments.  Before any of them `reserve_region` may have come to
other answers. -/
inductive Op where
  | answers (answers : List (Option Frame))
  | reservePage
  | freePage (frame : Frame)
  | createAddressSpace
  | loadAddressSpace (table : Frame)
  | mapPage (page frame flags : Word)
  | unmapPage (page : Word)
  | storeByte (x : Word) (b : BitVec 8)

/-- The state after a call, if the kernel survives it. -/
def step (s : HeldFrames) : Op → Option HeldFrames
  | .answers answers => some { s with machine.pageMap.answers := answers }
  | .reservePage =>
      let (frame, pageMap) := s.machine.pageMap.reservePage
      some { s with
        machine.pageMap := pageMap
        held := if frame = Status.enomem.code then s.held else frameNumber frame :: s.held }
  | .freePage frame =>
      some { s with
        machine.pageMap.reserved := s.machine.pageMap.reserved.erase frame
        held := s.held.erase frame }
  | .createAddressSpace =>
      (s.toSpaces.step .createAddressSpace).map fun t => { s with toSpaces := t }
  | .loadAddressSpace table =>
      (s.toSpaces.step (.loadAddressSpace table)).map fun t => { s with toSpaces := t }
  | .mapPage page frame flags =>
      (s.machine.mapPage page frame flags).map fun (status, machine) =>
        { s with
          machine
          held := if status = .enone then s.held.erase (frameNumber frame) else s.held }
  | .unmapPage page =>
      (s.machine.unmapPage page).map fun (_, machine) =>
        { s with
          machine
          held := if IsUser page then (s.memory.translate page).toList ++ s.held else s.held }
  | .storeByte x b =>
      (s.memory.storeByte x b).map fun memory => { s with machine.memory := memory }

/-- How the calls are made: `reserve_region` does not answer with a frame in use, what is
mapped has been reserved for it, what is given back has been unmapped, programs' pages are
mapped in their own address spaces and the kernel's pages without `PAGE_USERMODE`, and a
store is one that a program can make, or leaves the tables alone and does not go through
the first tables for low memory. -/
def Orderly (s : HeldFrames) : Op → Prop
  | .answers answers => PageMap.Fresh ⟨answers, s.machine.pageMap.reserved⟩
  | .freePage frame => frame ∈ s.held
  | .mapPage page frame flags =>
      BelowWindow page ∧ (frame % pageSize = 0 → frameNumber frame ∈ s.held) ∧
        (if IsUser page then s.memory.cr3 ≠ s.bootSpace else hasFlag flags pageUsermode = false)
  | .unmapPage page => BelowWindow page ∧ (IsUser page → s.memory.cr3 ≠ s.bootSpace)
  | .storeByte x _ => s.memory.UserAccessible x ∨ (IsUser x → s.memory.cr3 ≠ s.bootSpace) ∧
      ∀ a f, a ∈ s.spaces → s.memory.frameOf true x = some f → ¬ HoldsTable (s.memory.under a) f
  | _ => True

/-! ### Uses -/

/-- What a frame is used for.  The identity tables are those below the kernel in the first
directory, and what they show may be anything. -/
inductive Use where
  | directory
  | identityTable
  | kernelTable (d : BitVec 10)
  | kernelPage
  | table (space : Frame) (d : BitVec 10)
  | page (space : Frame) (d i : BitVec 10)
deriving DecidableEq

/-- The use of the table that entry `d` of a directory refers to. -/
def tableUse (boot a : Frame) (d : BitVec 10) : Use :=
  if 1021 ≤ d.toNat then .kernelTable d else if a = boot then .identityTable else .table a d

/-- The frame is one the kernel's tables may refer to: the kernel shows its own tables and
the first directory among its pages. -/
def IsKernel (boot : Frame) (use : Frame → Option Use) (f : Frame) : Prop :=
  f = boot ∨ use f = some .identityTable ∨ (∃ d, use f = some (.kernelTable d)) ∨
    use f = some .kernelPage

/-- What is in a frame fits its use. -/
def Fits (m : PagedMemory) (boot : Frame) (use : Frame → Option Use) (f : Frame) : Use → Prop
  | .directory =>
      ((m.entry f 1023).permits true = true ∧ (m.entry f 1023).usermode = false ∧
        (m.entry f 1023).physicalAddress = f) ∧
      ∀ d, d ≠ 1023 → (m.entry f d).present = true → (m.entry f d).rw = true ∧
        use (m.entry f d).physicalAddress = some (tableUse boot f d)
  | .identityTable =>
      (∃ a d, use a = some .directory ∧ d ≠ 1023 ∧ (m.entry a d).present = true ∧
        (m.entry a d).physicalAddress = f) ∧
      ∀ i, (m.entry f i).present = true → (m.entry f i).usermode = false
  | .kernelTable d =>
      (∃ a, use a = some .directory ∧ d ≠ 1023 ∧ (m.entry a d).present = true ∧
        (m.entry a d).physicalAddress = f) ∧
      ∀ i, (m.entry f i).present = true → (m.entry f i).usermode = false ∧
        IsKernel boot use (m.entry f i).physicalAddress
  | .table a d =>
      (use a = some .directory ∧ d ≠ 1023 ∧ (m.entry a d).present = true ∧
        (m.entry a d).physicalAddress = f) ∧
      ∀ i, (m.entry f i).present = true →
        use (m.entry f i).physicalAddress = some (.page a d i)
  | .kernelPage | .page .. => True

/-- The frames are used like this. -/
structure Uses (s : HeldFrames) (use : Frame → Option Use) : Prop where
  fits : ∀ f u, use f = some u → Fits s.memory s.bootSpace use f u
  spaces : ∀ a, a ∈ s.spaces ↔ use a = some .directory
  current : s.memory.cr3 ∈ s.spaces
  boot : s.bootSpace ∈ s.spaces
  reserved : ∀ f u, use f = some u → f ∈ s.machine.pageMap.reserved
  held : ∀ f, f ∈ s.held → f ∈ s.machine.pageMap.reserved ∧ use f = none
  nodup : s.held.Nodup
  fresh : s.machine.pageMap.Fresh

/-- The entries that a call may write in frames that are in use. -/
def Touches (s : HeldFrames) : Op → Frame → BitVec 10 → Prop
  | .mapPage page _ _, f, i =>
      (s.memory.pde page).present = false ∧ f = s.memory.cr3 ∧ i = dirIndex page ∨
        (s.memory.pde page).present = true ∧ f = (s.memory.pde page).physicalAddress ∧
          i = tableIndex page
  | .unmapPage page, f, i =>
      (s.memory.pde page).present = true ∧ f = (s.memory.pde page).physicalAddress ∧
        i = tableIndex page
  | .storeByte x _, f, _ => s.memory.frameOf true x = some f
  | _, _, _ => False

/-- The frame belongs to the address space with directory `a`. -/
def BelongsTo (use : Frame → Option Use) (a f : Frame) : Prop :=
  f = a ∨ (∃ d, use f = some (.table a d)) ∨ ∃ d i, use f = some (.page a d i)

/-- Only programs' pages are put to other uses. -/
def KeepsUses (use use' : Frame → Option Use) : Prop :=
  ∀ f u, use f = some u → (∀ a d i, u ≠ .page a d i) → use' f = some u

/-- The uses after a call.  What the kernel's tables newly refer to was in no use. -/
structure NewUses (s : HeldFrames) (use : Frame → Option Use) (s' : HeldFrames)
    (use' : Frame → Option Use) : Prop where
  uses : s'.Uses use'
  keeps : KeepsUses use use'
  maps : ∀ f d i, use' f = some (.kernelTable d) → (s'.memory.entry f i).present = true →
    use f = some (.kernelTable d) ∧ s'.memory.entry f i = s.memory.entry f i ∨
      use (s'.memory.entry f i).physicalAddress = none

/-- The frames have their uses after a call, and of those in use only what it touches is
written to. -/
structure Advances (s : HeldFrames) (use : Frame → Option Use) (op : Op) (s' : HeldFrames) :
    Prop where
  uses : ∃ use', NewUses s use s' use'
  bootSpace : s'.bootSpace = s.bootSpace
  spaces : ∀ a, a ∈ s.spaces → a ∈ s'.spaces
  ram : ∀ f i, use f ≠ none → ¬ s.Touches op f i → s'.memory.ram f i = s.memory.ram f i

variable {s s' : HeldFrames} {use use' : Frame → Option Use} {a f g : Frame} {u : Use}
  {op : Op} {page x : Word}

theorem KeepsUses.of_extends (hext : ∀ g u, use g = some u → use' g = some u) :
    KeepsUses use use' := fun f u hu _ => hext f u hu

theorem tableUse_eq_kernelTable {boot a : Frame} {d : BitVec 10} (h : 1021 ≤ d.toNat) :
    tableUse boot a d = .kernelTable d := if_pos h

theorem tableUse_eq_table {boot a : Frame} {d : BitVec 10} (ha : a ≠ boot) (hd : d.toNat < 1021) :
    tableUse boot a d = .table a d := by
  rw [tableUse, if_neg (Nat.not_le_of_lt hd), if_neg ha]

theorem tableUse_ne_directory (boot a : Frame) (d : BitVec 10) :
    tableUse boot a d ≠ .directory := by
  rw [tableUse]
  repeat' split
  all_goals simp

theorem page_ne_tableUse (boot c : Frame) (e : BitVec 10) {d i : BitVec 10} :
    Use.page a d i ≠ tableUse boot c e := by
  rw [tableUse]
  repeat' split
  all_goals simp

/-- What entry `i` of a table may refer to, of the table that entry `d` of a directory
refers to. -/
def FitsEntry (boot : Frame) (use : Frame → Option Use) (a : Frame) (d i : BitVec 10) (e : Entry) :
    Prop :=
  if 1021 ≤ d.toNat then e.usermode = false ∧ IsKernel boot use e.physicalAddress
  else if a = boot then e.usermode = false
  else use e.physicalAddress = some (.page a d i)

theorem fitsEntry_of_kernel {boot : Frame} {d i : BitVec 10} {e : Entry} (hd : 1021 ≤ d.toNat) :
    FitsEntry boot use a d i e ↔ e.usermode = false ∧ IsKernel boot use e.physicalAddress := by
  rw [FitsEntry, if_pos hd]

theorem fitsEntry_of_user {boot : Frame} {d i : BitVec 10} {e : Entry} (hd : d.toNat < 1021)
    (ha : a ≠ boot) : FitsEntry boot use a d i e ↔ use e.physicalAddress = some (.page a d i) := by
  rw [FitsEntry, if_neg (Nat.not_le_of_lt hd), if_neg ha]

theorem fits_tableUse {m : PagedMemory} {boot : Frame} {d : BitVec 10}
    (ha : use a = some .directory) (hd : d ≠ 1023) (hp : (m.entry a d).present = true)
    (hf : (m.entry a d).physicalAddress = f)
    (hent : ∀ i, (m.entry f i).present = true → FitsEntry boot use a d i (m.entry f i)) :
    Fits m boot use f (tableUse boot a d) := by
  unfold FitsEntry at hent
  rw [tableUse]
  split
  · rename_i hkernel
    simp only [if_pos hkernel] at hent
    exact ⟨⟨a, ha, hd, hp, hf⟩, hent⟩
  · rename_i hlow
    simp only [if_neg hlow] at hent
    split
    · rename_i hboot
      simp only [if_pos hboot] at hent
      exact ⟨⟨a, d, ha, hd, hp, hf⟩, hent⟩
    · rename_i huser
      simp only [if_neg huser] at hent
      exact ⟨⟨ha, hd, hp, hf⟩, hent⟩

theorem Fits.entry {m : PagedMemory} {boot : Frame} {d i : BitVec 10}
    (h : Fits m boot use f (tableUse boot a d)) (hi : (m.entry f i).present = true) :
    FitsEntry boot use a d i (m.entry f i) := by
  rw [tableUse] at h
  rw [FitsEntry]
  split at h
  · rename_i hkernel
    rw [if_pos hkernel]
    exact h.2 i hi
  · rename_i hlow
    rw [if_neg hlow]
    split at h
    · rename_i hboot
      rw [if_pos hboot]
      exact h.2 i hi
    · rename_i huser
      rw [if_neg huser]
      exact h.2 i hi

/-! ### Frames that stay as they are -/

/-- A use the frames have keeps its meaning when more frames come into use. -/
theorem IsKernel.mono {boot : Frame} (hext : ∀ g u, use g = some u → use' g = some u)
    (h : IsKernel boot use f) : IsKernel boot use' f := by
  rcases h with h | h | ⟨d, h⟩ | h
  · exact .inl h
  · exact .inr (.inl (hext _ _ h))
  · exact .inr (.inr (.inl ⟨d, hext _ _ h⟩))
  · exact .inr (.inr (.inr (hext _ _ h)))

theorem FitsEntry.mono {boot : Frame} {d i : BitVec 10} {e : Entry}
    (hext : ∀ g u, use g = some u → use' g = some u) (h : FitsEntry boot use a d i e) :
    FitsEntry boot use' a d i e := by
  rw [FitsEntry] at h ⊢
  split at h
  · rename_i hkernel
    rw [if_pos hkernel]
    exact ⟨h.1, h.2.mono hext⟩
  · rename_i hlow
    rw [if_neg hlow]
    split at h
    · rename_i hboot
      rwa [if_pos hboot]
    · rename_i huser
      rw [if_neg huser]
      exact hext _ _ h

/-- A frame that is not written to fits as before, as long as the entries of directories
that are present stay. -/
theorem Fits.congr {m m' : PagedMemory} {boot : Frame}
    (hext : ∀ g u, use g = some u → use' g = some u)
    (hdir : ∀ a d, use a = some .directory → d ≠ 1023 → (m.entry a d).present = true →
      m'.entry a d = m.entry a d)
    (hf : m'.ram f = m.ram f) (h : Fits m boot use f u) : Fits m' boot use' f u := by
  have hentry : ∀ i, m'.entry f i = m.entry f i := by
    intro i
    rw [PagedMemory.entry, hf, PagedMemory.entry]
  cases u with
  | directory =>
    obtain ⟨hself, hent⟩ := h
    refine ⟨by rwa [hentry], ?_⟩
    intro d hd hp
    rw [hentry] at hp ⊢
    exact ⟨(hent d hd hp).1, hext _ _ (hent d hd hp).2⟩
  | identityTable =>
    obtain ⟨⟨a, d, ha, hd, hp, hfa⟩, hent⟩ := h
    refine ⟨⟨a, d, hext _ _ ha, hd, ?_⟩, ?_⟩
    · rw [hdir a d ha hd hp]
      exact ⟨hp, hfa⟩
    · intro i hp
      rw [hentry] at hp ⊢
      exact hent i hp
  | kernelTable d =>
    obtain ⟨⟨a, ha, hd, hp, hfa⟩, hent⟩ := h
    refine ⟨⟨a, hext _ _ ha, hd, ?_⟩, ?_⟩
    · rw [hdir a d ha hd hp]
      exact ⟨hp, hfa⟩
    · intro i hp
      rw [hentry] at hp ⊢
      exact ⟨(hent i hp).1, (hent i hp).2.mono hext⟩
  | kernelPage => trivial
  | table a d =>
    obtain ⟨⟨ha, hd, hp, hfa⟩, hent⟩ := h
    refine ⟨⟨hext _ _ ha, hd, ?_⟩, ?_⟩
    · rw [hdir a d ha hd hp]
      exact ⟨hp, hfa⟩
    · intro i hp
      rw [hentry] at hp ⊢
      exact hext _ _ (hent i hp)
  | page a d i => trivial

/-- A frame comes into another use than that of a table of the kernel. -/
theorem use_of_update {d : BitVec 10} (hu : ∀ d, u ≠ .kernelTable d)
    (hg : Function.update use f (some u) g = some (.kernelTable d)) :
    g ≠ f ∧ use g = some (.kernelTable d) := by
  by_cases hgf : g = f
  · rw [hgf, Function.update_self] at hg
    exact absurd (Option.some.inj hg) (hu d)
  · rw [Function.update_of_ne hgf] at hg
    exact ⟨hgf, hg⟩

/-- A frame comes into use. -/
theorem extends_update (hf : use f = none) (u : Use) :
    ∀ g v, use g = some v → Function.update use f (some u) g = some v := by
  intro g v hg
  rw [Function.update_of_ne, hg]
  rintro rfl
  rw [hf] at hg
  cases hg

/-- **The rule for a write.**  Frames come into use, and those that are written to fit
their uses again. -/
theorem Uses.rewrite {boot : Frame} {m' : PagedMemory} (h : s.Uses use) (hboot : boot = s.bootSpace)
    (hext : ∀ g u, use g = some u → use' g = some u)
    (hdir : ∀ a d, use a = some .directory → d ≠ 1023 → (s.memory.entry a d).present = true →
      m'.entry a d = s.memory.entry a d)
    (hold : ∀ g u, use g = some u → m'.ram g = s.memory.ram g ∨ Fits m' boot use' g u)
    (hnew : ∀ g u, use g = none → use' g = some u → Fits m' boot use' g u) :
    ∀ g u, use' g = some u → Fits m' boot use' g u := by
  subst hboot
  intro g u hu
  rcases hg : use g with _ | v
  · exact hnew g u hg hu
  · obtain rfl : v = u := Option.some.inj ((hext g v hg).symm.trans hu)
    rcases hold g v hg with hram | hfits
    · exact (h.fits g v hg).congr hext hdir hram
    · exact hfits

/-- The directories are the same when a frame comes into another use. -/
theorem Uses.spaces_update (h : s.Uses use) (hf : use f = none) (hu : u ≠ .directory) (a : Frame) :
    a ∈ s.spaces ↔ Function.update use f (some u) a = some .directory := by
  rw [h.spaces]
  refine ⟨extends_update hf u a .directory, fun ha => ?_⟩
  by_cases haf : a = f
  · rw [haf, Function.update_self] at ha
    exact absurd (Option.some.inj ha) hu
  · rwa [Function.update_of_ne haf] at ha

/-- What belongs to an address space is in use, and is neither the directory nor a table of
another one. -/
theorem Uses.ne_of_belongsTo {c : Frame} (h : s.Uses use) (ha : a ∈ s.spaces) (hc : c ∈ s.spaces)
    (hne : a ≠ c) (hg : BelongsTo use a g) :
    use g ≠ none ∧ g ≠ c ∧ ∀ d, use g ≠ some (tableUse s.bootSpace c d) := by
  have hdir := (h.spaces a).mp ha
  have hother := (h.spaces c).mp hc
  rcases hg with rfl | ⟨e, he⟩ | ⟨e, i, he⟩
  · refine ⟨by simp [hdir], hne, fun d heq => ?_⟩
    rw [hdir] at heq
    exact tableUse_ne_directory _ _ _ (Option.some.inj heq).symm
  · refine ⟨by simp [he], ?_, fun d heq => ?_⟩
    · rintro rfl
      simp [he] at hother
    · rw [he, tableUse] at heq
      split at heq
      · simp at heq
      · split at heq
        · simp at heq
        · exact hne (Use.table.inj (Option.some.inj heq)).1
  · refine ⟨by simp [he], ?_, fun d heq => ?_⟩
    · rintro rfl
      simp [he] at hother
    · rw [he] at heq
      exact page_ne_tableUse _ _ _ (Option.some.inj heq)

theorem BelongsTo.mono (hext : ∀ g u, use g = some u → use' g = some u) (h : BelongsTo use a g) :
    BelongsTo use' a g := by
  rcases h with h | ⟨d, h⟩ | ⟨d, i, h⟩
  · exact .inl h
  · exact .inr (.inl ⟨d, hext _ _ h⟩)
  · exact .inr (.inr ⟨d, i, hext _ _ h⟩)

/-- No frame is written to. -/
theorem Uses.advances_of_ram (huse : s'.Uses use) (hboot : s'.bootSpace = s.bootSpace)
    (hspaces : s'.spaces = s.spaces) (hram : s'.memory.ram = s.memory.ram) :
    Advances s use op s' :=
  ⟨⟨use, huse, fun _ _ hu _ => hu, fun f d i hf _ =>
    .inl ⟨hf, by rw [PagedMemory.entry, hram, PagedMemory.entry]⟩⟩, hboot,
    fun a ha => hspaces ▸ ha, fun f i _ _ => by rw [hram]⟩

/-! ### Frames -/

/-- `reserve_region` comes to other answers. -/
theorem Uses.answers (h : s.Uses use) {answers : List (Option Frame)}
    (hfresh : PageMap.Fresh ⟨answers, s.machine.pageMap.reserved⟩) :
    Uses { s with machine.pageMap.answers := answers } use :=
  ⟨h.fits, h.spaces, h.current, h.boot, h.reserved, h.held, h.nodup, hfresh⟩

/-- A reservation that fails. -/
theorem Uses.noFrame (h : s.Uses use) :
    Uses { s with
      machine.pageMap := ⟨s.machine.pageMap.answers.tail, s.machine.pageMap.reserved⟩ } use :=
  ⟨h.fits, h.spaces, h.current, h.boot, h.reserved, h.held, h.nodup, h.fresh.tail⟩

/-- The frame that is given out has no use. -/
theorem Uses.next (h : s.Uses use) (hnext : s.machine.pageMap.next = some f) :
    use f = none ∧ f ∉ s.held := by
  have hunused := (h.fresh.next hnext).1
  constructor
  · rcases hf : use f with _ | u
    · rfl
    · exact absurd (h.reserved f u hf) hunused
  · exact fun hin => hunused (h.held f hin).1

theorem Uses.reservePage (h : s.Uses use) (hnext : s.machine.pageMap.next = some f) :
    Uses { s with
      machine.pageMap := ⟨s.machine.pageMap.answers.tail, f :: s.machine.pageMap.reserved⟩
      held := f :: s.held } use := by
  obtain ⟨hnone, hnot⟩ := h.next hnext
  refine ⟨h.fits, h.spaces, h.current, h.boot, ?_, ?_, List.nodup_cons.mpr ⟨hnot, h.nodup⟩,
    (h.fresh.next hnext).2⟩
  · intro g u hg
    exact List.mem_cons_of_mem _ (h.reserved g u hg)
  · intro g hg
    rcases List.mem_cons.mp hg with rfl | hg
    · exact ⟨List.mem_cons_self .., hnone⟩
    · exact ⟨List.mem_cons_of_mem _ (h.held g hg).1, (h.held g hg).2⟩

theorem Uses.freePage (h : s.Uses use) (hf : f ∈ s.held) :
    Uses { s with
      machine.pageMap.reserved := s.machine.pageMap.reserved.erase f
      held := s.held.erase f } use := by
  refine ⟨h.fits, h.spaces, h.current, h.boot, ?_, ?_, h.nodup.erase f, h.fresh.nodup, ?_⟩
  · intro g u hg
    refine (List.mem_erase_of_ne ?_).mpr (h.reserved g u hg)
    rintro rfl
    rw [(h.held g hf).2] at hg
    cases hg
  · intro g hg
    obtain ⟨hne, hin⟩ := h.nodup.mem_erase_iff.mp hg
    exact ⟨(List.mem_erase_of_ne hne).mpr (h.held g hin).1, (h.held g hin).2⟩
  · intro g hg hin
    exact h.fresh.unused g hg (List.mem_of_mem_erase hin)

/-! ### Directories -/

/-- The current directory refers to itself. -/
theorem Uses.self (h : s.Uses use) : s.memory.SelfMapped := by
  obtain ⟨⟨hpermits, -, hframe⟩, -⟩ : Fits s.memory s.bootSpace use s.memory.cr3 .directory :=
    h.fits _ _ ((h.spaces _).mp h.current)
  exact ⟨hpermits, hframe⟩

/-- The entries of a directory. -/
theorem Uses.entry (h : s.Uses use) (ha : a ∈ s.spaces) {d : BitVec 10} (hd : d ≠ 1023)
    (hp : (s.memory.entry a d).present = true) : (s.memory.entry a d).rw = true ∧
      use (s.memory.entry a d).physicalAddress = some (tableUse s.bootSpace a d) := by
  obtain ⟨-, hent⟩ : Fits s.memory s.bootSpace use a .directory := h.fits _ _ ((h.spaces a).mp ha)
  exact hent d hd hp

theorem Uses.usable (h : s.Uses use) (hpage : BelowWindow page)
    (hp : (s.memory.pde page).present = true) :
    UsableTable s.memory (dirIndex page) (s.memory.pde page).physicalAddress := by
  obtain ⟨hrw, huse⟩ := h.entry h.current hpage hp
  refine ⟨permits_iff.mpr ⟨hp, hrw⟩, rfl, fun heq => ?_⟩
  have hdir := (h.spaces _).mp h.current
  rw [← heq] at hdir
  have hsame : some (tableUse s.bootSpace s.memory.cr3 (dirIndex page)) = some .directory :=
    huse.symm.trans hdir
  exact tableUse_ne_directory _ _ _ (Option.some.inj hsame)

/-- The entries of a new directory are the kernel's, and that for itself. -/
theorem Uses.fits_topTable (h : s.Uses use) (hext : ∀ g u, use g = some u → use' g = some u) :
    Fits (s.memory.setFrame f (topTable (s.memory.ram s.memory.cr3) f)) s.bootSpace use' f
      .directory := by
  have hself : (s.memory.setFrame f (topTable (s.memory.ram s.memory.cr3) f)).entry f 1023 =
      selfEntry f := by
    rw [entry_setFrame_self, topTable, Function.update_self, Entry.ofWord_toWord]
  refine ⟨by rw [hself]; exact ⟨rfl, rfl, rfl⟩, ?_⟩
  intro d hd hp
  rw [entry_setFrame_self] at hp ⊢
  by_cases hlow : 1021 ≤ d.toNat
  · rw [Spaces.topTable_kernel _ _ hlow hd] at hp ⊢
    obtain ⟨hrw, huse⟩ := h.entry h.current hd hp
    refine ⟨hrw, ?_⟩
    rw [tableUse_eq_kernelTable hlow] at huse ⊢
    exact hext _ _ huse
  · -- below the kernel the directory is empty
    rw [topTable, Function.update_of_ne hd, kernelPart, if_neg fun h => hlow h.1] at hp
    cases hp

/-- The new directory in frame `f`. -/
theorem Uses.withSpace (h : s.Uses use) (hnext : s.machine.pageMap.next = some f) :
    Uses { s with toSpaces := s.toSpaces.withSpace f }
      (Function.update use f (some .directory)) := by
  obtain ⟨hnone, hnot⟩ := h.next hnext
  have hext := extends_update hnone .directory
  have hne : ∀ g u, use g = some u → g ≠ f := by
    rintro g u hg rfl
    rw [hnone] at hg
    cases hg
  have hdir : ∀ a, a ∈ s.spaces → a ≠ f := fun a ha => hne a _ ((h.spaces a).mp ha)
  have hram : ∀ g, g ≠ f → (s.memory.setFrame f (topTable (s.memory.ram s.memory.cr3) f)).ram g =
      s.memory.ram g := fun g hg => setFrame_ram_of_ne _ _ hg
  refine ⟨?_, ?_, List.mem_cons_of_mem _ h.current, List.mem_cons_of_mem _ h.boot, ?_, ?_, h.nodup,
    (h.fresh.next hnext).2⟩
  · refine h.rewrite rfl hext ?_ (fun g u hg => .inl (hram g (hne g u hg))) ?_
    · intro a d ha _ _
      exact entry_setFrame_of_ne _ _ _ (hne a _ ha)
    · intro g u hg hu
      by_cases hgf : g = f
      · subst hgf
        rw [Function.update_self] at hu
        obtain rfl := Option.some.inj hu
        exact h.fits_topTable hext
      · rw [Function.update_of_ne hgf, hg] at hu
        cases hu
  · intro a
    show a ∈ f :: s.spaces ↔ _
    by_cases haf : a = f
    · simp [haf]
    · rw [Function.update_of_ne haf, List.mem_cons, or_iff_right haf, h.spaces]
  · intro g u hg
    by_cases hgf : g = f
    · exact hgf ▸ List.mem_cons_self ..
    · rw [Function.update_of_ne hgf] at hg
      exact List.mem_cons_of_mem _ (h.reserved g u hg)
  · intro g hg
    have hgf : g ≠ f := by
      rintro rfl
      exact hnot hg
    rw [Function.update_of_ne hgf]
    exact ⟨List.mem_cons_of_mem _ (h.held g hg).1, (h.held g hg).2⟩

theorem Uses.next_ne (h : s.Uses use) (hnext : s.machine.pageMap.next = some f)
    (hu : use g = some u) : g ≠ f := by
  rintro rfl
  rw [(h.next hnext).1] at hu
  cases hu

theorem Uses.step_createAddressSpace (h : s.Uses use) (hnext : s.machine.pageMap.next = some f)
    (h0 : (s.memory.entry s.memory.cr3 0).permits true = true) :
    s.step .createAddressSpace = some { s with toSpaces := s.toSpaces.withSpace f } := by
  have hne := h.next_ne hnext ((h.spaces _).mp h.current)
  rw [HeldFrames.step, Spaces.step, Machine.createAddressSpace_of_some h.self hnext h0 hne.symm,
    Option.map_some]
  show Option.map _ (some (if frameAddress f = Status.enomem.code then _ else _)) = _
  rw [if_neg (frameAddress_ne_enomem f), frameNumber_frameAddress]
  rfl

/-- `create_address_space` writes to the new directory alone. -/
theorem Uses.createAddressSpace (h : s.Uses use) (hst : s.step .createAddressSpace = some s') :
    Advances s use .createAddressSpace s' := by
  rcases Option.eq_none_or_eq_some s.machine.pageMap.next with hnext | ⟨f, hnext⟩
  · rw [HeldFrames.step, Spaces.step, Machine.createAddressSpace_of_none hnext] at hst
    cases hst
    exact advances_of_ram h.noFrame rfl rfl rfl
  · obtain ⟨t, ht, -⟩ := Option.map_eq_some_iff.mp hst
    obtain ⟨result, hcreate, -⟩ := Option.map_eq_some_iff.mp ht
    have h0 := Machine.permits_of_createAddressSpace h.self hnext hcreate
    rw [h.step_createAddressSpace hnext h0] at hst
    obtain rfl := Option.some.inj hst
    refine ⟨⟨_, h.withSpace hnext, .of_extends (extends_update (h.next hnext).1 _), ?_⟩, rfl,
      fun a ha => List.mem_cons_of_mem _ ha, ?_⟩
    · intro g d i hg _
      obtain ⟨hgf, hg⟩ := use_of_update (by simp) hg
      exact .inl ⟨hg, entry_setFrame_of_ne _ _ _ hgf⟩
    · intro g i hused _
      obtain ⟨u, hu⟩ := Option.ne_none_iff_exists'.mp hused
      exact congrFun (setFrame_ram_of_ne _ _ (h.next_ne hnext hu)) i

theorem Uses.loadAddressSpace {table : Frame} (h : s.Uses use)
    (hst : s.step (.loadAddressSpace table) = some s') :
    Advances s use (.loadAddressSpace table) s' := by
  obtain ⟨t, ht, rfl⟩ := Option.map_eq_some_iff.mp hst
  rw [Spaces.step] at ht
  split at ht
  · rename_i htable
    obtain rfl := Option.some.inj ht
    have hcurrent : frameNumber (frameAddress table) ∈ s.spaces := by
      rwa [frameNumber_frameAddress]
    exact advances_of_ram ⟨h.fits, h.spaces, hcurrent, h.boot, h.reserved, h.held, h.nodup, h.fresh⟩
      rfl rfl rfl
  · cases ht

/-! ### Tables -/

/-- A table is added for a part of the loaded address space. -/
def withTable (s : HeldFrames) (page : Word) (f : Frame) : HeldFrames :=
  { s with machine := ⟨Machine.withTable s.memory page f,
      ⟨s.machine.pageMap.answers.tail, f :: s.machine.pageMap.reserved⟩⟩ }

section WithTable
variable (h : s.Uses use) (hpage : BelowWindow page) (hp : (s.memory.pde page).present = false)
  (hnext : s.machine.pageMap.next = some f)
include h hnext

/-- The entry in a directory, with a new table for the loaded one. -/
theorem Uses.entry_withTable (ha : a ∈ s.spaces) (d : BitVec 10) :
    (s.withTable page f).memory.entry a d =
      if a = s.memory.cr3 ∧ d = dirIndex page then Machine.tablePde (s.memory.pde page) f
      else s.memory.entry a d := by
  have hne := h.next_ne hnext ((h.spaces a).mp ha)
  have hcr3 := h.next_ne hnext ((h.spaces _).mp h.current)
  by_cases hac : a = s.memory.cr3
  · subst hac
    rw [show (s.withTable page f).memory.entry s.memory.cr3 d = _ from
      directory_withTable hcr3.symm d]
    simp
  · rw [if_neg fun hc => hac hc.1]
    show (PagedMemory.setFrame _ f _).entry a d = _
    rw [entry_setFrame_of_ne _ _ _ hne]
    exact entry_setEntry_of_ne _ _ fun hc => hac hc.1

omit h hnext in
/-- The new table is empty. -/
theorem entry_newTable (i : BitVec 10) :
    ((s.withTable page f).memory.entry f i).present = false := by
  show (PagedMemory.entry (PagedMemory.setFrame _ f _) f i).present = false
  rw [entry_setFrame_self, Entry.ofWord_toWord]
  rfl

omit h hnext in
/-- Nothing is written to but the directory and the table. -/
theorem ram_withTable (hf : g ≠ f) (hc : g ≠ s.memory.cr3) :
    (s.withTable page f).memory.ram g = s.memory.ram g := by
  show (Machine.withTable s.memory page f).ram g = _
  rw [Machine.withTable, setFrame_ram_of_ne _ _ hf]
  exact setFrame_ram_of_ne _ _ hc

include hpage hp

theorem Uses.withTable : (s.withTable page f).Uses
    (Function.update use f (some (tableUse s.bootSpace s.memory.cr3 (dirIndex page)))) := by
  obtain ⟨hnone, hnot⟩ := h.next hnext
  have hext := extends_update hnone (tableUse s.bootSpace s.memory.cr3 (dirIndex page))
  have hpresent : ∀ a d, a ∈ s.spaces → (s.memory.entry a d).present = true →
      ¬ (a = s.memory.cr3 ∧ d = dirIndex page) := by
    rintro a d - hpd ⟨rfl, rfl⟩
    rw [show s.memory.entry s.memory.cr3 (dirIndex page) = s.memory.pde page from rfl, hp] at hpd
    cases hpd
  have hkeeps : ∀ a d, use a = some .directory → d ≠ 1023 → (s.memory.entry a d).present = true →
      (s.withTable page f).memory.entry a d = s.memory.entry a d := by
    intro a d ha _ hpd
    have ha := (h.spaces a).mpr ha
    rw [h.entry_withTable hnext ha, if_neg (hpresent a d ha hpd)]
  refine ⟨?_, h.spaces_update hnone (tableUse_ne_directory _ _ _), h.current, h.boot, ?_, ?_,
    h.nodup, (h.fresh.next hnext).2⟩
  · refine h.rewrite rfl hext hkeeps ?_ ?_
    · intro g u hu
      have hgf := h.next_ne hnext hu
      by_cases hgc : g = s.memory.cr3
      · -- the directory
        right
        have hg : g ∈ s.spaces := hgc ▸ h.current
        obtain rfl : u = .directory := Option.some.inj (hu.symm.trans ((h.spaces g).mp hg))
        obtain ⟨hself, hent⟩ : Fits s.memory s.bootSpace use g .directory := h.fits _ _ hu
        have h1023 : (s.withTable page f).memory.entry g 1023 = s.memory.entry g 1023 := by
          rw [h.entry_withTable hnext hg, if_neg fun hc => hpage hc.2.symm]
        refine ⟨by rwa [h1023], ?_⟩
        intro d hd hpd
        rw [h.entry_withTable hnext hg] at hpd ⊢
        split at hpd
        · rename_i hc
          rw [if_pos hc]
          refine ⟨rfl, ?_⟩
          rw [hc.1, hc.2]
          exact Function.update_self ..
        · rename_i hc
          rw [if_neg hc]
          exact ⟨(hent d hd hpd).1, hext _ _ (hent d hd hpd).2⟩
      · exact .inl (ram_withTable hgf hgc)
    · intro g u hg hu
      by_cases hgf : g = f
      · -- the new table, which is empty
        subst hgf
        rw [Function.update_self] at hu
        obtain rfl := Option.some.inj hu
        refine fits_tableUse (hext _ _ ((h.spaces _).mp h.current)) hpage ?_ ?_ fun i hi => ?_
        · rw [h.entry_withTable hnext h.current, if_pos ⟨rfl, rfl⟩]
          rfl
        · rw [h.entry_withTable hnext h.current, if_pos ⟨rfl, rfl⟩]
          rfl
        · rw [entry_newTable] at hi
          cases hi
      · rw [Function.update_of_ne hgf, hg] at hu
        cases hu
  · intro g u hg
    by_cases hgf : g = f
    · exact hgf ▸ List.mem_cons_self ..
    · rw [Function.update_of_ne hgf] at hg
      exact List.mem_cons_of_mem _ (h.reserved g u hg)
  · intro g hg
    have hgf : g ≠ f := by
      rintro rfl
      exact hnot hg
    rw [Function.update_of_ne hgf]
    exact ⟨List.mem_cons_of_mem _ (h.held g hg).1, (h.held g hg).2⟩

end WithTable

/-! ### Entries of tables -/

section SetEntry
variable (h : s.Uses use) (hpage : BelowWindow page) (hp : (s.memory.pde page).present = true)
include h hpage hp

/-- The table of a page has the use that the directory gives it. -/
theorem Uses.use_table : use (s.memory.pde page).physicalAddress =
    some (tableUse s.bootSpace s.memory.cr3 (dirIndex page)) :=
  (h.entry h.current hpage hp).2

/-- The table of a page is no directory. -/
theorem Uses.ne_table (ha : a ∈ s.spaces) : a ≠ (s.memory.pde page).physicalAddress := by
  rintro rfl
  have huse := h.use_table hpage hp
  rw [(h.spaces _).mp ha] at huse
  exact tableUse_ne_directory _ _ _ (Option.some.inj huse).symm

/-- **Another entry in a table.**  All frames fit their uses if the entry fits its place. -/
theorem Uses.fits_setEntry {e : Entry} (hext : ∀ g u, use g = some u → use' g = some u)
    (hnew : ∀ g u, use g = none → use' g = some u → u = .kernelPage ∨ ∃ a d i, u = .page a d i)
    (he : e.present = true →
      FitsEntry s.bootSpace use' s.memory.cr3 (dirIndex page) (tableIndex page) e) :
    ∀ g u, use' g = some u → Fits
      (s.memory.setEntry (s.memory.pde page).physicalAddress (tableIndex page) e)
      s.bootSpace use' g u := by
  have hdir : ∀ a d, a ∈ s.spaces →
      (s.memory.setEntry (s.memory.pde page).physicalAddress (tableIndex page) e).entry a d =
        s.memory.entry a d :=
    fun a d ha => entry_setEntry_of_ne _ _ fun heq => h.ne_table hpage hp ha heq.1
  refine h.rewrite rfl hext (fun a d ha _ _ => hdir a d ((h.spaces a).mpr ha)) ?_ ?_
  · intro g u hu
    by_cases hgt : g = (s.memory.pde page).physicalAddress
    · -- the table itself
      right
      subst hgt
      have htable := h.use_table hpage hp
      obtain rfl := Option.some.inj (hu.symm.trans htable)
      refine fits_tableUse (hext _ _ ((h.spaces _).mp h.current)) hpage ?_ ?_ fun i hi => ?_
      · rw [hdir _ _ h.current]
        exact hp
      · rw [hdir _ _ h.current]
        rfl
      · by_cases hi' : i = tableIndex page
        · subst hi'
          rw [entry_setEntry_self] at hi ⊢
          exact he hi
        · rw [entry_setEntry_of_ne _ _ fun heq => hi' heq.2] at hi ⊢
          exact ((h.fits _ _ htable).entry hi).mono hext
    · exact .inl (setFrame_ram_of_ne _ _ hgt)
  · intro g u hg hu
    obtain rfl | ⟨a, d, i, rfl⟩ := hnew g u hg hu
    · trivial
    · trivial

omit h hpage hp in
/-- One entry changes. -/
theorem ram_setEntry {i : BitVec 10} (e : Entry)
    (hg : ¬ (g = (s.memory.pde page).physicalAddress ∧ i = tableIndex page)) :
    (s.memory.setEntry (s.memory.pde page).physicalAddress (tableIndex page) e).ram g i =
      s.memory.ram g i := by
  by_cases hgt : g = (s.memory.pde page).physicalAddress
  · subst hgt
    rw [PagedMemory.setEntry, setFrame_ram_self, Function.update_of_ne fun hi => hg ⟨rfl, hi⟩]
  · exact congrFun (setFrame_ram_of_ne _ _ hgt) i

end SetEntry

/-- The use of the frame that a page is mapped to. -/
def pageUse (s : HeldFrames) (page : Word) : Use :=
  if IsUser page then .page s.memory.cr3 (dirIndex page) (tableIndex page) else .kernelPage

/-- `map_page` with a table for the page. -/
theorem Uses.mapPage_of_present {frame flags : Word} (h : s.Uses use)
    (hok : s.Orderly (.mapPage page frame flags)) (ha : frame % pageSize = 0)
    (hp : (s.memory.pde page).present = true)
    (hst : s.step (.mapPage page frame flags) = some s') :
    Advances s use (.mapPage page frame flags) s' := by
  obtain ⟨hpage, hheld, hrights⟩ := hok
  have hframe := hheld ha
  obtain ⟨hin, hnone⟩ := h.held _ hframe
  obtain ⟨⟨status, m⟩, hmap, rfl⟩ := Option.map_eq_some_iff.mp hst
  rw [Machine.mapPage_of_present h.self hpage ha (h.usable hpage hp)] at hmap
  obtain ⟨rfl, rfl⟩ := Prod.mk.inj (Option.some.inj hmap)
  have hext := extends_update hnone (s.pageUse page)
  have hkind : s.pageUse page = .kernelPage ∨ ∃ a d i, s.pageUse page = .page a d i := by
    rw [pageUse]
    split
    · exact .inr ⟨_, _, _, rfl⟩
    · exact .inl rfl
  refine ⟨⟨Function.update use (frameNumber frame) (some (s.pageUse page)), ?_,
    .of_extends hext, ?_⟩, rfl, fun a ha => ha,
    fun g i _ hg => ram_setEntry _ fun hgi => hg (.inr ⟨hp, hgi⟩)⟩
  rotate_left
  · intro g d i hg _
    obtain ⟨-, hg⟩ := use_of_update (by rintro d heq; simp [heq] at hkind) hg
    by_cases hgi : g = (s.memory.pde page).physicalAddress ∧ i = tableIndex page
    · obtain ⟨rfl, rfl⟩ := hgi
      right
      show use ((PagedMemory.setEntry _ _ _ _).entry _ _).physicalAddress = none
      rw [entry_setEntry_self]
      exact hnone
    · exact .inl ⟨hg, entry_setEntry_of_ne _ _ hgi⟩
  refine ⟨h.fits_setEntry hpage hp hext ?_ ?_, h.spaces_update hnone ?_, h.current, h.boot, ?_, ?_,
    h.nodup.erase _, h.fresh⟩
  · intro g u hg hu
    by_cases hgf : g = frameNumber frame
    · rw [hgf, Function.update_self] at hu
      exact Option.some.inj hu ▸ hkind
    · rw [Function.update_of_ne hgf, hg] at hu
      cases hu
  · intro _
    have huse : Function.update use (frameNumber frame) (some (s.pageUse page))
        (frameNumber frame) = some (s.pageUse page) := Function.update_self ..
    split at hrights
    · rename_i huser
      rw [fitsEntry_of_user huser hrights]
      show Function.update _ _ _ (frameNumber frame) = _
      rw [huse, pageUse, if_pos huser]
    · rename_i huser
      rw [fitsEntry_of_kernel (Nat.le_of_not_lt huser)]
      refine ⟨?_, .inr (.inr (.inr ?_))⟩
      · show hasFlag (pagePresent ||| flags) pageUsermode = false
        rwa [hasFlag_present_or flags pageUsermode (by decide)]
      · rw [pageUse, if_neg huser] at huse ⊢
        exact huse
  · obtain heq | ⟨a, d, i, heq⟩ := hkind
    · simp [heq]
    · simp [heq]
  · intro g u hg
    by_cases hgf : g = frameNumber frame
    · exact hgf ▸ hin
    · rw [Function.update_of_ne hgf] at hg
      exact h.reserved g u hg
  · intro g hg
    obtain ⟨hne, hg⟩ := h.nodup.mem_erase_iff.mp hg
    rw [Function.update_of_ne hne]
    exact h.held g hg

/-- `map_page`, where there may have to be a table first. -/
theorem Uses.mapPage {frame flags : Word} (h : s.Uses use)
    (hok : s.Orderly (.mapPage page frame flags))
    (hst : s.step (.mapPage page frame flags) = some s') :
    Advances s use (.mapPage page frame flags) s' := by
  have hpage := hok.1
  by_cases ha : frame % pageSize = 0
  · by_cases hp : (s.memory.pde page).present = true
    · exact h.mapPage_of_present hok ha hp hst
    · have hp : (s.memory.pde page).present = false := Bool.eq_false_of_not_eq_true hp
      rcases Option.eq_none_or_eq_some s.machine.pageMap.next with hnext | ⟨f, hnext⟩
      · rw [HeldFrames.step, Machine.mapPage_of_none h.self hpage ha hp hnext] at hst
        cases hst
        exact advances_of_ram h.noFrame rfl rfl rfl
      · -- a table first, and then as before
        have hcr3 := h.next_ne hnext ((h.spaces _).mp h.current)
        have h1 := h.withTable hpage hp hnext
        have hentry : (s.withTable page f).memory.entry s.memory.cr3 (dirIndex page) = _ :=
          h.entry_withTable hnext h.current (dirIndex page)
        rw [if_pos ⟨rfl, rfl⟩] at hentry
        have hp1 : ((s.withTable page f).memory.pde page).present = true :=
          congrArg Entry.present hentry
        have hlevel := Machine.mapLevel_of_some h.self hpage hp hnext hcr3.symm
        have hlevel1 := Machine.mapLevel_of_present h1.self hpage hp1
        have hsame : s.step (.mapPage page frame flags) =
            (s.withTable page f).step (.mapPage page frame flags) := by
          have hmap : s.machine.mapPage page frame flags =
              (s.withTable page f).machine.mapPage page frame flags :=
            Machine.mapPage_congr ha hlevel hlevel1
          rw [HeldFrames.step, HeldFrames.step, hmap]
          rfl
        rw [hsame] at hst
        have hext := extends_update (h.next hnext).1
          (tableUse s.bootSpace s.memory.cr3 (dirIndex page))
        obtain ⟨⟨use', huse', hkeeps, hmaps⟩, hboot, hspaces, hram⟩ :=
          h1.mapPage_of_present hok ha hp1 hst
        refine ⟨⟨use', huse', fun g u hg hu => hkeeps g u (hext g u hg) hu, ?_⟩, hboot, hspaces, ?_⟩
        · intro g d i hg hpi
          rcases hmaps g d i hg hpi with ⟨hg1, hsame⟩ | hnone
          · by_cases hgf : g = f
            · -- the new table is empty
              rw [hsame, hgf, entry_newTable] at hpi
              cases hpi
            · rw [Function.update_of_ne hgf] at hg1
              have hgc : g ≠ s.memory.cr3 := by
                rintro rfl
                rw [(h.spaces _).mp h.current] at hg1
                cases hg1
              refine .inl ⟨hg1, ?_⟩
              rw [hsame, PagedMemory.entry, ram_withTable hgf hgc, PagedMemory.entry]
          · right
            by_contra hused
            obtain ⟨u, hu⟩ := Option.ne_none_iff_exists'.mp hused
            rw [hext _ u hu] at hnone
            cases hnone
        intro g i hused hg
        obtain ⟨u, hu⟩ := Option.ne_none_iff_exists'.mp hused
        have hgf := h.next_ne hnext hu
        rw [hram g i (by simp [hext g u hu])]
        · -- of the frames that were in use, the directory gets an entry
          by_cases hgc : g = s.memory.cr3
          · subst hgc
            have hi : i ≠ dirIndex page := fun hi => hg (.inl ⟨hp, rfl, hi⟩)
            show (Machine.withTable s.memory page f).ram _ i = _
            rw [Machine.withTable, setFrame_ram_of_ne _ _ hgf, PagedMemory.setEntry,
              setFrame_ram_self, Function.update_of_ne hi]
          · exact congrFun (ram_withTable hgf hgc) i
        · rintro (⟨hp0, -⟩ | ⟨-, hgt, -⟩)
          · rw [hp1] at hp0
            cases hp0
          · rw [hgt] at hgf
            exact hgf (congrArg Entry.physicalAddress hentry)
  · rw [HeldFrames.step, Machine.mapPage_of_unaligned ha] at hst
    cases hst
    exact advances_of_ram h rfl rfl rfl

/-- A program's page is not shown any more, and its frame is free for another use. -/
theorem Uses.release {d i : BitVec 10} (h : s.Uses use) (hf : use f = some (.page a d i))
    (hgone : ∀ t, use t = some (.table a d) → (s.memory.entry t i).present = false) :
    Uses { s with held := f :: s.held } (Function.update use f none) := by
  have hsome : ∀ g u, Function.update use f none g = some u → use g = some u := by
    intro g u hg
    rw [Function.update_apply] at hg
    split at hg
    · cases hg
    · exact hg
  -- any other use is kept
  have hkeep : ∀ g u, use g = some u → u ≠ .page a d i → Function.update use f none g = some u := by
    intro g u hg hu
    rwa [Function.update_of_ne]
    rintro rfl
    exact hu (Option.some.inj (hg.symm.trans hf))
  have hnot : f ∉ s.held := by
    intro hin
    rw [(h.held f hin).2] at hf
    cases hf
  refine ⟨?_, ?_, h.current, h.boot, fun g u hg => h.reserved g u (hsome g u hg), ?_,
    List.nodup_cons.mpr ⟨hnot, h.nodup⟩, h.fresh⟩
  · intro g u hg
    have hfits := h.fits g u (hsome g u hg)
    cases u with
    | directory =>
      obtain ⟨hself, hent⟩ := hfits
      refine ⟨hself, fun e he hp => ?_⟩
      obtain ⟨hrw, huse⟩ := hent e he hp
      exact ⟨hrw, hkeep _ _ huse (page_ne_tableUse _ _ _).symm⟩
    | identityTable =>
      obtain ⟨⟨b, e, hb, hlink⟩, hent⟩ := hfits
      exact ⟨⟨b, e, hkeep _ _ hb (by simp), hlink⟩, hent⟩
    | kernelTable e =>
      obtain ⟨⟨b, hb, hlink⟩, hent⟩ := hfits
      refine ⟨⟨b, hkeep _ _ hb (by simp), hlink⟩, fun j hj => ?_⟩
      obtain ⟨hmode, hboot | hlow | ⟨c, htable⟩ | hpage⟩ := hent j hj
      · exact ⟨hmode, .inl hboot⟩
      · exact ⟨hmode, .inr (.inl (hkeep _ _ hlow (by simp)))⟩
      · exact ⟨hmode, .inr (.inr (.inl ⟨c, hkeep _ _ htable (by simp)⟩))⟩
      · exact ⟨hmode, .inr (.inr (.inr (hkeep _ _ hpage (by simp))))⟩
    | table b e =>
      obtain ⟨⟨hb, hlink⟩, hent⟩ := hfits
      refine ⟨⟨hkeep _ _ hb (by simp), hlink⟩, fun j hj => ?_⟩
      refine hkeep _ _ (hent j hj) fun heq => ?_
      obtain ⟨rfl, rfl, rfl⟩ := Use.page.inj heq
      exact absurd ((hgone g (hsome g _ hg)).symm.trans hj) (by decide)
    | kernelPage => trivial
    | page b e j => trivial
  · intro b
    rw [h.spaces]
    exact ⟨fun hb => hkeep b _ hb (by simp), hsome b _⟩
  · intro g hg
    rcases List.mem_cons.mp hg with rfl | hg
    · exact ⟨h.reserved g _ hf, Function.update_self ..⟩
    · refine ⟨(h.held g hg).1, ?_⟩
      rw [Function.update_apply, (h.held g hg).2, ite_self]

/-- Two tables with one use are the same. -/
theorem Uses.table_unique {t t' : Frame} {d : BitVec 10} (h : s.Uses use)
    (ht : use t = some (.table a d)) (ht' : use t' = some (.table a d)) : t = t' := by
  obtain ⟨⟨-, -, -, hlink⟩, -⟩ : Fits s.memory s.bootSpace use t (.table a d) := h.fits _ _ ht
  obtain ⟨⟨-, -, -, hlink'⟩, -⟩ : Fits s.memory s.bootSpace use t' (.table a d) := h.fits _ _ ht'
  exact hlink.symm.trans hlink'

theorem Uses.unmapPage (h : s.Uses use) (hok : s.Orderly (.unmapPage page))
    (hst : s.step (.unmapPage page) = some s') : Advances s use (.unmapPage page) s' := by
  obtain ⟨hpage, hspace⟩ := hok
  by_cases hp : (s.memory.pde page).present = true ∧ (s.memory.pte page).present = true
  · obtain ⟨hpde, hpte⟩ := hp
    have htrans : s.memory.translate page = some (s.memory.pte page).physicalAddress := by
      rw [PagedMemory.translate, hpde, hpte]
      rfl
    rw [HeldFrames.step,
      Machine.unmapPage_of_present h.self hpage (h.usable hpage hpde) hpte] at hst
    obtain rfl := Option.some.inj hst
    obtain ⟨e, he⟩ : ∃ e, e = pteWith (s.machine.memory.entry (s.memory.pde page).physicalAddress
      (tableIndex page)) 0 0 := ⟨_, rfl⟩
    have hgone : e.present = false := by
      rw [he]
      rfl
    dsimp only
    rw [← he]
    have hfits := h.fits_setEntry hpage hpde (e := e) (fun _ _ hg => hg)
      (fun g u hg hu => by rw [hg] at hu; cases hu) (fun hp => by rw [hgone] at hp; cases hp)
    have h1 : Uses { s with
        machine.memory := (s.memory.setEntry (s.memory.pde page).physicalAddress
          (tableIndex page) e) } use :=
      ⟨hfits, h.spaces, h.current, h.boot, h.reserved, h.held, h.nodup, h.fresh⟩
    have hram : ∀ g i, use g ≠ none → ¬ s.Touches (.unmapPage page) g i →
        (s.memory.setEntry (s.memory.pde page).physicalAddress (tableIndex page) e).ram g i =
          s.memory.ram g i :=
      fun g i _ hg => ram_setEntry e fun hgi => hg ⟨hpde, hgi⟩
    have hentry : ∀ g i, ((s.memory.setEntry (s.memory.pde page).physicalAddress (tableIndex page)
        e).entry g i).present = true →
          (s.memory.setEntry (s.memory.pde page).physicalAddress (tableIndex page) e).entry g i =
            s.memory.entry g i := by
      intro g i hpi
      refine entry_setEntry_of_ne _ _ fun hgi => ?_
      rw [hgi.1, hgi.2, entry_setEntry_self, hgone] at hpi
      cases hpi
    by_cases huser : IsUser page
    · rw [if_pos huser, htrans]
      have hboot := hspace huser
      have htable := h.use_table hpage hpde
      have hfit := (h.fits _ _ htable).entry (i := tableIndex page) hpte
      rw [fitsEntry_of_user huser hboot] at hfit
      rw [tableUse_eq_table hboot huser] at htable
      refine ⟨⟨_, h1.release hfit fun t ht => ?_, ?_, ?_⟩, rfl, fun a ha => ha, hram⟩
      rotate_left
      · intro g u hg hu
        rw [Function.update_of_ne, hg]
        rintro rfl
        exact hu _ _ _ (Option.some.inj (hg.symm.trans hfit))
      · intro g d i hg hpi
        refine .inl ⟨?_, hentry g i hpi⟩
        rw [Function.update_apply] at hg
        split at hg
        · cases hg
        · exact hg
      obtain rfl := h.table_unique htable ht
      show (PagedMemory.entry (PagedMemory.setEntry _ _ _ _) _ _).present = false
      rw [entry_setEntry_self]
      exact hgone
    · rw [if_neg huser]
      exact ⟨⟨_, h1, fun _ _ hu _ => hu, fun g d i hg hpi => .inl ⟨hg, hentry g i hpi⟩⟩, rfl,
        fun a ha => ha, hram⟩
  · rw [HeldFrames.step, Machine.unmapPage_of_absent h.self hpage hp] at hst
    obtain rfl := Option.some.inj hst
    have habsent : s.memory.translate page = none := by
      rw [PagedMemory.translate, if_neg (by rwa [Bool.and_eq_true])]
    rw [habsent, Option.toList_none, List.nil_append, ite_self]
    exact advances_of_ram h rfl rfl rfl

end HeldFrames
end QuarkKernel
