import QuarkKernel.BootTables
import QuarkKernel.KernelText

/-! # From the boot loader to the first address space

`bootMemory` is what the kernel does to its tables until it can reserve frames.  If the
boot loader has cleared `.bss`, the multiboot information ends behind the kernel and below
4 MiB, the bitmap fits behind the kernel, no region of the map wraps around and the
screen's frame is none of the available ones, this leads to a state that the runs of
`HeldFrames` start from
(`boot_of_bootMemory`), and the text that every address space shows from then on is the
one that the boot loader put at the physical address of the kernel
(`text_of_bootMemory`). -/
namespace QuarkKernel
open PagedMemory
open StartPaging (kernelFrame Shows FirstEntries Cleared)

/-- From `start_paging` to the end of `initialize_page_map`, with the map that the allocator is
given.  `map` is what `read_multiboot_table` has made of the boot loader's, and `screen` the number
of the kernel's page with this name; what the kernel stores in its variables on the way is left
out, and so is what it prints. -/
def bootMemory (a : StartPaging) (imageSize screen : Nat) (textSize : Word) (lib : Libmalloc)
    (fuel : Nat) (map : MemoryMap) (ram : Frame → FrameData) :
    Option (Status × MemoryMap × PagedMemory) := do
  let (_, m) ← a.startPaging ram fuel
  let kernelEnd := pageAt kernelStart imageSize
  let multibootEnd := kernelStart + (a.endAddr - a.start)
  let machine ← unmapBehind ⟨m, ⟨[], []⟩⟩ kernelEnd multibootEnd
  let (status, machine) ← initializeScreen machine (pageAt kernelStart screen)
  if status = .enone then do
    let m ← protectText machine.memory kernelStart (kernelStart + textSize)
    let map := lib.memmapInsertRegion map a.start (BitVec.ofNat 32 (4096 * imageSize)) .unavailable
    initializePageMap lib fuel map kernelEnd pageSize m
  else none -- hlt

/-- The map with the kernel in it. -/
def mapWithKernel (a : StartPaging) (imageSize : Nat) (lib : Libmalloc) (map : MemoryMap) :
    MemoryMap :=
  lib.memmapInsertRegion map a.start (BitVec.ofNat 32 (4096 * imageSize)) .unavailable

/-- What is relied on: the linker script, cleared tables, `memmap_insert_region`, a map in which
no address wraps around and in which the screen is not available, a kernel behind the screen
whose page of the screen is not one of the text, and a bitmap that ends in the kernel's first
4 MiB. -/
structure Bootable (a : StartPaging) (imageSize screen : Nat) (textSize : Word) (lib : Libmalloc)
    (map : MemoryMap) (ram : Frame → FrameData) : Prop where
  linked : a.Linked (passCount textSize) imageSize
  cleared : Cleared a ram
  retypes : RetypesExactly lib.memmapInsertRegion
  inside : Scan.StaysInside lib.memmapInsertRegion (mapWithKernel a imageSize lib map)
  screen_page : passCount textSize ≤ screen ∧ screen < imageSize
  screen_below : screenFrame.toNat < a.start.toNat / 4096
  screen_taken : ∀ x, frameNumber x = screenFrame → ¬ map.Typed x .available
  bitmap : imageSize +
    passCount (lib.bitmapSize (mapWithKernel a imageSize lib map) pageSize 1) ≤ 1024

/-- The first address space, with an allocator that knows the map. -/
def firstHeld (a : StartPaging) (pageMap : PageMap) (m : PagedMemory) : HeldFrames where
  machine := ⟨m, pageMap⟩
  spaces := [frameNumber a.directory]
  bootSpace := frameNumber a.directory
  held := []

/-- The allocator gives out no frame twice, none that the map has as unavailable, and not the one
of the screen if nothing of it is available. -/
structure Allocates (map : MemoryMap) (pageMap : PageMap) : Prop where
  fresh : pageMap.Fresh
  reserved : ∀ f, map.HasType f .unavailable → f ∈ pageMap.reserved
  screen : (∀ x, frameNumber x = screenFrame → ¬ map.Typed x .available) →
    screenFrame ∈ pageMap.reserved

section Boot
variable {a : StartPaging} {n screen fuel : Nat} {textSize : Word} {lib : Libmalloc}
  {map map' : MemoryMap} {text : Nat} {ram : Frame → FrameData} {m' : PagedMemory}
  {pageMap : PageMap}

/-- The frames of the kernel's pages, and the one of the screen. -/
def kernelFrames (a : StartPaging) (screen : Nat) : Nat → Frame :=
  Function.update a.kernelFrame screen screenFrame

/-- The frames of the kernel are unavailable in the map. -/
theorem Bootable.kernelFrame_typed (h : Bootable a n screen textSize lib map ram) {i : Nat}
    (hi : i < n) {x : Word} (hx : frameNumber x = a.kernelFrame i) (t : Multiboot.RegionType) :
    (mapWithKernel a n lib map).Typed x t ↔ t = .unavailable := by
  have hmax := h.linked.low_pages
  have haligned := h.linked.aligned
  have hframe := Scan.frameNumber_eq_iff.mp hx
  rw [aligned_iff] at haligned
  rw [kernelFrame, BitVec.toNat_ofNat] at hframe
  rw [mapWithKernel, h.retypes, if_pos]
  rw [InRange, BitVec.toNat_ofNat]
  omega

/-- **The stages of the boot.** -/
theorem Bootable.bootTables (h : Bootable a n screen textSize lib map ram)
    (hcall : bootMemory a n screen textSize lib fuel map ram = some (.enone, map', m')) :
    ∃ k, map' = ((Scan.start (mapWithKernel a n lib map)).after lib.memmapInsertRegion k).2.map ∧
      StartPaging.BootTables a ram (kernelFrames a screen) (passCount textSize) n
        (fun _ f => f ∈ ((Scan.start (mapWithKernel a n lib map)).after
          lib.memmapInsertRegion k).1) m' := by
  have hl := h.linked
  obtain ⟨⟨count, m1⟩, hstart, hcall⟩ := Option.bind_eq_some_iff.mp hcall
  have h1 := StartPaging.bootTables_startPaging hl.toLow h.cleared hstart hl.le_mappedPages
  obtain ⟨machine, hunmap', hcall⟩ := Option.bind_eq_some_iff.mp hcall
  obtain ⟨m2, hunmap, h2⟩ := h1.unmapBehind hl
  obtain rfl := Option.some.inj (hunmap.symm.trans hunmap')
  obtain ⟨ms, hscreen, hs⟩ : ∃ ms,
      initializeScreen ⟨m2, ⟨[], []⟩⟩ (pageAt kernelStart screen) =
        some (.enone, ⟨ms, ⟨[], []⟩⟩) ∧
      StartPaging.BootTables a ram (kernelFrames a screen) 0 n _ ms :=
    h2.initializeScreen ⟨Nat.zero_le screen, h.screen_page.2⟩ hl
  obtain ⟨⟨status, machine⟩, hscreen', hcall⟩ := Option.bind_eq_some_iff.mp hcall
  obtain ⟨rfl, rfl⟩ := Prod.mk.inj (Option.some.inj (hscreen.symm.trans hscreen'))
  obtain ⟨m3, hprotect, h3⟩ := hs.protectText hl
  obtain ⟨m3', hprotect', hcall⟩ := Option.bind_eq_some_iff.mp hcall
  obtain rfl := Option.some.inj (hprotect.symm.trans hprotect')
  -- the bitmap
  have hends : EndsBelowWindow (pageAt kernelStart n)
      (lib.bitmapSize (mapWithKernel a n lib map) pageSize 1) := by
    have hsize := h.bitmap
    rw [passCount] at hsize
    rw [EndsBelowWindow, StartPaging.toNat_kernelEnd hl, toNat_kernelStart,
      show pageTables.toNat = 4290772992 from rfl]
    omega
  have hcall : initializePageMap lib fuel (mapWithKernel a n lib map) (pageAt kernelStart n)
      pageSize m3 = some (.enone, map', m') := hcall
  rw [initializePageMap] at hcall
  dsimp only at hcall
  rw [pagesNeeded_eq hends] at hcall
  obtain ⟨⟨status, scan, j, t⟩, hloops, hrest⟩ := Option.bind_eq_some_iff.mp hcall
  have h4 : StartPaging.BootTables a ram (kernelFrames a screen) (passCount textSize) n
      (fun _ f => f ∈ ((Scan.start (mapWithKernel a n lib map)).after
        lib.memmapInsertRegion 0).1) m3 :=
    ⟨h3.cr3, h3.directory, h3.identity, h3.kernel,
      fun i hi hp => absurd (h3.rest i hi hp).2 id, h3.image⟩
  obtain ⟨k, rfl, h5⟩ := h4.mapBitmapPages hl h.bitmap hloops
  dsimp only at hrest
  split at hrest
  · obtain ⟨error, -, hrest⟩ := Option.bind_eq_some_iff.mp hrest
    split at hrest
    · cases hrest
    · obtain ⟨-, rfl, rfl⟩ := hrest
      exact ⟨k, rfl, h5⟩
  · obtain ⟨-, rfl, rfl⟩ := hrest
    exact ⟨k, rfl, h5⟩

/-! ### The first address space -/

section FirstSpace
variable {m : PagedMemory} {t f : Frame} {d : BitVec 10}

/-- What the first directory refers to. -/
theorem refersTo_firstHeld (h : FirstEntries a m) (hcr3 : m.cr3 = frameNumber a.directory) :
    (firstHeld a pageMap m).RefersTo d t ↔ d = 1023 ∧ t = frameNumber a.directory ∨
      d = 1021 ∧ t = frameNumber a.table ∨ d = 0 ∧ t = frameNumber a.identityTable := by
  have hbase : (firstHeld a pageMap m).RefersTo d t ↔
      (m.entry m.cr3 d).present = true ∧ (m.entry m.cr3 d).physicalAddress = t := by
    rw [hcr3]
    rfl
  rw [hbase]
  constructor
  · rintro ⟨hp, rfl⟩
    obtain rfl | rfl | rfl := h.rest d hp
    · exact .inl ⟨rfl, h.self.frame.trans hcr3⟩
    · exact .inr (.inl ⟨rfl, h.kernel.frame⟩)
    · exact .inr (.inr ⟨rfl, h.identity.frame⟩)
  · rintro (⟨rfl, rfl⟩ | ⟨rfl, rfl⟩ | ⟨rfl, rfl⟩)
    · exact ⟨h.self.present, h.self.frame.trans hcr3⟩
    · exact ⟨h.kernel.present, h.kernel.frame⟩
    · exact ⟨h.identity.present, h.identity.frame⟩

theorem isIdentityTable_firstHeld (h : FirstEntries a m) (hcr3 : m.cr3 = frameNumber a.directory) :
    (firstHeld a pageMap m).IsIdentityTable t ↔ t = frameNumber a.identityTable := by
  constructor
  · rintro ⟨d, hd, hrefers⟩
    obtain ⟨rfl, -⟩ | ⟨rfl, -⟩ | ⟨-, rfl⟩ := (refersTo_firstHeld h hcr3).mp hrefers
    · exact absurd hd (by decide)
    · exact absurd hd (by decide)
    · rfl
  · rintro rfl
    exact ⟨0, by decide, (refersTo_firstHeld h hcr3).mpr (.inr (.inr ⟨rfl, rfl⟩))⟩

theorem isKernelTable_firstHeld (h : FirstEntries a m) (hcr3 : m.cr3 = frameNumber a.directory) :
    (firstHeld a pageMap m).IsKernelTable d t ↔ d = 1021 ∧ t = frameNumber a.table := by
  constructor
  · rintro ⟨hlow, hd, hrefers⟩
    obtain ⟨rfl, -⟩ | ⟨rfl, rfl⟩ | ⟨rfl, -⟩ := (refersTo_firstHeld h hcr3).mp hrefers
    · exact absurd rfl hd
    · exact ⟨rfl, rfl⟩
    · exact absurd hlow (by decide)
  · rintro ⟨rfl, rfl⟩
    exact ⟨by decide, by decide, (refersTo_firstHeld h hcr3).mpr (.inr (.inl ⟨rfl, rfl⟩))⟩

end FirstSpace

/-- A frame of the kernel is none of those that the bitmap was put in. -/
theorem Bootable.kernelFrame_not_listed (h : Bootable a n screen textSize lib map ram) {i k : Nat}
    (hi : i < n) : a.kernelFrame i ∉ ((Scan.start (mapWithKernel a n lib map)).after
      lib.memmapInsertRegion k).1 := by
  intro hmem
  have hx := frameNumber_frameAddress (a.kernelFrame i)
  have hwithin := (Scan.listed_of_staysInside h.retypes h.inside k).1 _ hmem _ hx
  cases (h.kernelFrame_typed hi hx _).mp hwithin

/-- Frames of the kernel, and frames that the bitmap was put in, are unavailable in the end. -/
theorem Bootable.unavailable (h : Bootable a n screen textSize lib map ram) {k : Nat} {f : Frame}
    (hf : (∃ i, i < n ∧ f = a.kernelFrame i) ∨
      f ∈ ((Scan.start (mapWithKernel a n lib map)).after lib.memmapInsertRegion k).1) :
    ((Scan.start (mapWithKernel a n lib map)).after
      lib.memmapInsertRegion k).2.map.HasType f .unavailable := by
  intro x hx t
  rw [(Scan.Scanned.after h.retypes k).typed, hx]
  split
  · rfl
  · rename_i hnot
    obtain ⟨i, hi, rfl⟩ | hmem := hf
    · exact h.kernelFrame_typed hi hx t
    · exact absurd hmem hnot

/-- The frame of the screen is not made available on the way. -/
theorem Bootable.screen_reserved (h : Bootable a n screen textSize lib map ram) {k : Nat}
    (halloc : Allocates ((Scan.start (mapWithKernel a n lib map)).after
      lib.memmapInsertRegion k).2.map pageMap) : screenFrame ∈ pageMap.reserved := by
  refine halloc.screen fun x hx => ?_
  rw [(Scan.Scanned.after h.retypes k).typed]
  split
  · nofun
  · rw [mapWithKernel, h.retypes]
    split
    · nofun
    · exact h.screen_taken x hx

/-- What the kernel's table shows. -/
theorem kernelFrames_cases {i : Nat} (hi : i < n) : kernelFrames a screen i = screenFrame ∨
    ∃ j, j < n ∧ kernelFrames a screen i = a.kernelFrame j := by
  rw [kernelFrames]
  by_cases his : i = screen
  · exact .inl (by rw [his, Function.update_self])
  · exact .inr ⟨i, hi, Function.update_of_ne his ..⟩

/-- The screen is in front of the kernel. -/
theorem Bootable.screenFrame_ne (h : Bootable a n screen textSize lib map ram) {i : Nat}
    (hi : i < n) : screenFrame ≠ a.kernelFrame i := by
  have hmax := h.linked.low_pages
  have hbelow := h.screen_below
  intro heq
  rw [heq, kernelFrame, BitVec.toNat_ofNat] at hbelow
  omega

/-- The pages of the text are in frames of their own. -/
theorem Bootable.kernelFrames_inj (h : Bootable a n screen textSize lib map ram) {i j : Nat}
    (hi : i < passCount textSize) (hj : j < n) (heq : kernelFrames a screen j = a.kernelFrame i) :
    j = i := by
  have hle := h.linked.text_le
  rw [kernelFrames] at heq
  by_cases hjs : j = screen
  · rw [hjs, Function.update_self] at heq
    exact absurd heq (h.screenFrame_ne (by omega))
  · rw [Function.update_of_ne hjs] at heq
    exact h.linked.kernelFrame_inj hj (by omega) heq

/-- The page of the screen is none of the text. -/
theorem Bootable.kernelFrames_text (h : Bootable a n screen textSize lib map ram) {i : Nat}
    (hi : i < passCount textSize) : kernelFrames a screen i = a.kernelFrame i := by
  have hscreen := h.screen_page.1
  exact Function.update_of_ne (by omega) ..

/-- The frames of the text are not the ones of the tables. -/
theorem text_ne_table (hl : a.Linked text n) {i : Nat} (hi : i < text) {f : Frame}
    (hf : f = frameNumber a.directory ∨ f = frameNumber a.table ∨ f = frameNumber a.identityTable) :
    a.kernelFrame i ≠ f := by
  have hle := hl.text_le
  obtain ⟨j, hj, hjn, rfl⟩ := hl.data f hf
  intro heq
  have := hl.kernelFrame_inj (by omega) hjn heq
  omega

/-- What an entry in the table of the kernel is for. -/
theorem shown_cases {m : PagedMemory} {frames : Nat → Frame} {rest : BitVec 10 → Frame → Prop}
    {j : BitVec 10}
    (h : StartPaging.BootTables a ram frames text n rest m)
    (hp : (m.entry (frameNumber a.table) j).present = true) :
    (m.entry (frameNumber a.table) j).usermode = false ∧
      (j.toNat < n ∧ (m.entry (frameNumber a.table) j).physicalAddress = frames j.toNat ∨
        rest j (m.entry (frameNumber a.table) j).physicalAddress) := by
  rcases Nat.lt_or_ge j.toNat n with hj | hj
  · have hshows := h.kernel j hj
    exact ⟨hshows.usermode, .inl ⟨hj, hshows.frame⟩⟩
  · obtain ⟨hmode, hrest⟩ := h.rest j hj hp
    exact ⟨hmode, .inr hrest⟩

section FirstState
variable {k : Nat} (h : Bootable a n screen textSize lib map ram)
  (htables : StartPaging.BootTables a ram (kernelFrames a screen) (passCount textSize) n
    (fun _ f => f ∈ ((Scan.start (mapWithKernel a n lib map)).after
      lib.memmapInsertRegion k).1) m')
include h htables

theorem Bootable.boot (halloc : Allocates ((Scan.start (mapWithKernel a n lib map)).after
    lib.memmapInsertRegion k).2.map pageMap) : (firstHeld a pageMap m').Boot := by
  have hl := h.linked
  have hcr3 := htables.cr3
  have hfirst := htables.firstEntries hl
  have hidentity : ∀ t, (firstHeld a pageMap m').IsIdentityTable t ↔
      t = frameNumber a.identityTable := fun _ => isIdentityTable_firstHeld hfirst hcr3
  have hkernel : ∀ d t, (firstHeld a pageMap m').IsKernelTable d t ↔
      d = 1021 ∧ t = frameNumber a.table := fun _ _ => isKernelTable_firstHeld hfirst hcr3
  have htable : ∀ f, f = frameNumber a.directory ∨ f = frameNumber a.table ∨
      f = frameNumber a.identityTable → f ∈ pageMap.reserved := by
    intro f hf
    obtain ⟨i, -, hi, rfl⟩ := hl.data f hf
    exact halloc.reserved _ (h.unavailable (.inl ⟨i, hi, rfl⟩))
  have hself := hfirst.self
  rw [hcr3] at hself
  refine ⟨rfl, hcr3, ⟨permits_iff.mpr ⟨hself.present, hself.rw⟩, hself.usermode, hself.frame⟩,
    ?_, ⟨?_, ?_⟩, ?_, ?_, ?_, fun f hf => absurd hf List.not_mem_nil, List.nodup_nil,
    halloc.fresh⟩
  · intro d hd hp
    have hrw : (m'.entry m'.cr3 d).rw = true := by
      obtain ⟨rfl, -⟩ | ⟨rfl, -⟩ | ⟨rfl, -⟩ :=
        (@refersTo_firstHeld a pageMap m' _ _ hfirst hcr3).mp ⟨hp, rfl⟩
      · exact absurd rfl hd
      · exact hfirst.kernel.rw
      · exact hfirst.identity.rw
    rw [hcr3] at hrw
    exact hrw
  · exact fun hdir => hl.directory_ne_identityTable ((hidentity _).mp hdir)
  · exact fun d hdir => hl.directory_ne_table ((hkernel d _).mp hdir).2
  · intro d t ht
    obtain ⟨rfl, rfl⟩ := (hkernel d t).mp ht
    exact ⟨fun hid => hl.table_ne_identityTable ((hidentity _).mp hid),
      fun d' ht' => ((hkernel d' _).mp ht').1⟩
  · rintro t i (hid | ⟨d, ht⟩) hp
    · obtain rfl := (hidentity t).mp hid
      exact htables.identity i hp
    · obtain ⟨-, rfl⟩ := (hkernel d t).mp ht
      exact (shown_cases htables hp).1
  · intro f hf
    refine ⟨?_, List.not_mem_nil⟩
    obtain rfl | hid | ⟨d, ht⟩ | ⟨d, t, i, ht, hp, rfl⟩ := hf
    · exact htable _ (.inl rfl)
    · exact htable _ (.inr (.inr ((hidentity f).mp hid)))
    · exact htable _ (.inr (.inl ((hkernel d f).mp ht).2))
    · obtain ⟨-, rfl⟩ := (hkernel d t).mp ht
      show (m'.entry (frameNumber a.table) i).physicalAddress ∈ pageMap.reserved
      obtain ⟨-, ⟨hi, hframe⟩ | hmem⟩ := shown_cases htables hp
      · rw [hframe]
        have hcases : kernelFrames a screen i.toNat = screenFrame ∨ _ := kernelFrames_cases hi
        obtain hscreen | ⟨j, hj, hkernel⟩ := hcases
        · rw [hscreen]
          exact h.screen_reserved halloc
        · rw [hkernel]
          exact halloc.reserved _ (h.unavailable (.inl ⟨j, hj, rfl⟩))
      · exact halloc.reserved _ (h.unavailable (.inr hmem))

theorem Bootable.showsText :
    (firstHeld a pageMap m').ShowsText (frameNumber a.table) (passCount textSize) := by
  have hl := h.linked
  have hle := hl.text_le
  have hfirst := htables.firstEntries hl
  have hidentity : ∀ t, (firstHeld a pageMap m').IsIdentityTable t ↔
      t = frameNumber a.identityTable := fun _ => isIdentityTable_firstHeld hfirst htables.cr3
  have hkernel : ∀ d t, (firstHeld a pageMap m').IsKernelTable d t ↔
      d = 1021 ∧ t = frameNumber a.table := fun _ _ => isKernelTable_firstHeld hfirst htables.cr3
  have hshows : ∀ i : BitVec 10, i.toNat < passCount textSize →
      Shows ((firstHeld a pageMap m').memory.entry (frameNumber a.table) i) false
        (a.kernelFrame i.toNat) := by
    intro i hi
    have hshows := htables.kernel i (by omega)
    rwa [decide_eq_false (Nat.not_le_of_lt hi), h.kernelFrames_text hi] at hshows
  refine ⟨(hkernel _ _).mpr ⟨rfl, rfl⟩, fun i hi => ?_, fun i hi d t j ht hp heq => ?_,
    fun i hi => ?_⟩
  · exact ⟨(hshows i hi).present, (hshows i hi).rw, (hshows i hi).usermode⟩
  · obtain ⟨-, rfl⟩ := (hkernel d t).mp ht
    refine ⟨rfl, ?_⟩
    rw [(hshows i hi).frame] at heq
    obtain ⟨-, ⟨hj, hframe⟩ | hmem⟩ := shown_cases htables hp
    · exact BitVec.eq_of_toNat_eq (h.kernelFrames_inj hi hj (hframe.symm.trans heq))
    · have hmem : ((firstHeld a pageMap m').memory.entry (frameNumber a.table) j).physicalAddress ∈
        _ := hmem
      rw [heq] at hmem
      exact absurd hmem (h.kernelFrame_not_listed (by omega))
  · have hne := fun f => text_ne_table (f := f) hl hi
    rw [(hshows i hi).frame]
    exact ⟨hne _ (.inl rfl), fun hid => hne _ (.inr (.inr rfl)) ((hidentity _).mp hid),
      fun d ht => hne _ (.inr (.inl rfl)) ((hkernel d _).mp ht).2⟩

end FirstState

/-- **The first state.**  When `initialize_page_map` has succeeded, the tables are as the runs of
`HeldFrames` need them, and the text is in read-only pages that nothing else shows. -/
theorem boot_of_bootMemory (h : Bootable a n screen textSize lib map ram)
    (hcall : bootMemory a n screen textSize lib fuel map ram = some (.enone, map', m'))
    (halloc : Allocates map' pageMap) :
    (firstHeld a pageMap m').Boot ∧
      (firstHeld a pageMap m').ShowsText (frameNumber a.table) (passCount textSize) := by
  obtain ⟨k, rfl, htables⟩ := h.bootTables hcall
  exact ⟨h.boot htables halloc, h.showsText htables⟩

end Boot

/-! ### A kernel of five pages -/

namespace StartPaging

/-- A page of text is followed by the three tables and the screen, and nothing behind them is
mapped. -/
def fivePages : StartPaging where
  linearAddr := kernelStart
  start := 0x100000
  endAddr := 0x105000
  directory := 0x101000
  table := 0x102000
  identityTable := 0x103000

theorem linked_fivePages : fivePages.Linked (passCount 0x1000) 5 where
  directory := by decide
  table := by decide
  identityTable := by decide
  directory_ne_table := by decide
  directory_ne_identityTable := by decide
  table_ne_identityTable := by decide
  linearAddr := by decide
  linearAddr_pos := by decide
  linearAddr_below := by decide
  aligned := by decide
  le := by decide
  low := by decide
  linear := rfl
  pages := by decide
  text_le := by decide
  data f hf := by
    obtain rfl | rfl | rfl := hf
    · exact ⟨1, by decide, by decide, by decide⟩
    · exact ⟨2, by decide, by decide, by decide⟩
    · exact ⟨3, by decide, by decide, by decide⟩

end StartPaging

open StartPaging (fivePages linked_fivePages)

/-- One region, from the start of the kernel to 2 MiB. -/
def secondMiB : MemoryMap := [⟨0x100000, 0x100000, .available⟩]

/-- What the boot loader has put there: the multiboot header in the first page. -/
def loadedImage (f : Frame) : FrameData := fun i => if f = 256 ∧ i = 0 then 0x1BADB002 else 0

theorem bootable_fivePages : Bootable fivePages 5 4 0x1000 wordBitmap secondMiB loadedImage where
  linked := linked_fivePages
  cleared _ := ⟨if_neg fun h => absurd h.1 (by decide), if_neg fun h => absurd h.1 (by decide),
    if_neg fun h => absurd h.1 (by decide)⟩
  retypes := MemoryMap.retypesExactly_insertRegion
  inside := Scan.staysInside_of_low MemoryMap.retypesExactly_insertRegion
    MemoryMap.keepsLow_insertRegion (by decide)
  screen_page := by decide
  screen_below := by decide
  screen_taken x hx := by
    rintro ⟨r, hr, -, hle, -⟩
    obtain rfl := List.mem_singleton.mp hr
    have hframe := Scan.frameNumber_eq_iff.mp hx
    rw [show (0x100000 : Word).toNat = 1048576 from rfl] at hle
    rw [show screenFrame.toNat = 184 from rfl] at hframe
    omega
  bitmap := by decide

/-- The map in the end: the kernel, the frame of the bitmap, and what is left. -/
def mapBehindBitmap : MemoryMap := [⟨0x100000, 0x5000, .unavailable⟩,
  ⟨0x105000, 0x1000, .unavailable⟩, ⟨0x106000, 0xFA000, .available⟩]

/-- What is left behind the bitmap. -/
def behindBitmap : PageMap :=
  ⟨[some 0x106, some 0x107], [0xB8, 0x100, 0x101, 0x102, 0x103, 0x104, 0x105]⟩

theorem allocates_behindBitmap : Allocates mapBehindBitmap behindBitmap where
  fresh := by
    refine ⟨by decide, fun f hf => ?_⟩
    obtain rfl | rfl : f = 0x106 ∨ f = 0x107 := by simpa [behindBitmap] using hf
    all_goals decide
  reserved f hf := by
    obtain ⟨r, hr, htype, hx, hx'⟩ := (hf _ (frameNumber_frameAddress f) .unavailable).mpr rfl
    have hframe := Scan.frameNumber_eq_iff.mp (frameNumber_frameAddress f)
    have hbounds : 256 ≤ f.toNat ∧ f.toNat < 262 := by
      obtain rfl | rfl | rfl : r = ⟨0x100000, 0x5000, .unavailable⟩ ∨
          r = ⟨0x105000, 0x1000, .unavailable⟩ ∨ r = ⟨0x106000, 0xFA000, .available⟩ := by
        simpa [mapBehindBitmap] using hr
      · rw [show (0x100000 : Word).toNat = 1048576 from rfl] at hx hx'
        rw [show (0x5000 : Word).toNat = 20480 from rfl] at hx'
        omega
      · rw [show (0x105000 : Word).toNat = 1069056 from rfl] at hx hx'
        rw [show (0x1000 : Word).toNat = 4096 from rfl] at hx'
        omega
      · cases htype
    obtain ⟨i, hi⟩ : ∃ i, f.toNat = 256 + i := ⟨f.toNat - 256, by omega⟩
    obtain rfl : f = BitVec.ofNat 20 (256 + i) := by
      rw [← hi, BitVec.ofNat_toNat, BitVec.setWidth_eq]
    have hsmall : i < 6 := by omega
    clear * - hsmall
    revert i
    decide
  screen _ := by decide

theorem bootMemory_fivePages : ∃ m',
    bootMemory fivePages 5 4 0x1000 wordBitmap 5 secondMiB loadedImage =
      some (.enone, mapBehindBitmap, m') := by
  have heval : (bootMemory fivePages 5 4 0x1000 wordBitmap 5 secondMiB loadedImage).map
      (fun r => (r.1, r.2.1)) = some (.enone, mapBehindBitmap) := by decide +kernel
  obtain ⟨⟨status, map', m'⟩, hcall, hresult⟩ := Option.map_eq_some_iff.mp heval
  obtain ⟨rfl, rfl⟩ := Prod.mk.inj hresult
  exact ⟨m', hcall⟩

theorem boot_of_bootMemory_fivePages : ∃ m',
    bootMemory fivePages 5 4 0x1000 wordBitmap 5 secondMiB loadedImage =
        some (.enone, mapBehindBitmap, m') ∧
      (firstHeld fivePages behindBitmap m').Boot ∧
      (firstHeld fivePages behindBitmap m').ShowsText 0x102 1 := by
  obtain ⟨m', hcall⟩ := bootMemory_fivePages
  exact ⟨m', hcall, boot_of_bootMemory bootable_fivePages hcall allocates_behindBitmap⟩

end QuarkKernel
