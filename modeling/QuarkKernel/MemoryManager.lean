import QuarkKernel.PagingSpecs

/-! # `mmgr.c`

Address spaces and mapping single pages.  Frames come from `reserve_page`, behind
which stands libmalloc's `reserve_region`: what it answers is a list that
`reserve_page` reads from, and `reserved` collects the frames it has given out.
`PageMap.Fresh` says what is relied on: it never answers with a frame that is in
use. -/
namespace QuarkKernel
open PagedMemory

/-- `page_map`, as `reserve_page` sees it. -/
structure PageMap where
  /-- What `reserve_region` answers from here on; `none` is `NOMEM`, and so is the end. -/
  answers : List (Option Frame)
  /-- The frames in use. -/
  reserved : List Frame

namespace PageMap

/-- `reserve_page` -/
def reservePage (pageMap : PageMap) : Word × PageMap :=
  match pageMap.answers with
  | some frame :: answers => (frameAddress frame, ⟨answers, frame :: pageMap.reserved⟩)
  | none :: answers => (Status.enomem.code, { pageMap with answers })
  | [] => (Status.enomem.code, pageMap)

/-- `reserve_region` does not answer with a frame in use. -/
structure Fresh (pageMap : PageMap) : Prop where
  nodup : (pageMap.answers.filterMap id).Nodup
  unused : ∀ frame, some frame ∈ pageMap.answers → frame ∉ pageMap.reserved

end PageMap

/-- Memory and the frames to be had. -/
structure Machine where
  memory : PagedMemory
  pageMap : PageMap

namespace Machine

/-- `create_address_space`; it returns the address of the directory or `ENOMEM`. -/
def createAddressSpace (m : Machine) : Option (Word × Machine) := do
  let (table, pageMap) := m.pageMap.reservePage
  if table = Status.enomem.code then
    some (Status.enomem.code, { m with pageMap })
  else
    let memory ← pagingInitTopTable m.memory table
    some (table, ⟨memory, pageMap⟩)

/-- One pass of the loop in `map_page`, with what `map_page` returns if it stops
there. -/
def mapLevel (m : Machine) (page : Word) (level : Nat) : Option (Status × Machine) := do
  let type ← getPteType m.memory page level
  if hasFlag type pagePresent then
    some (.enone, m)
  else
    let (newTable, pageMap) := m.pageMap.reservePage
    if newTable = Status.enomem.code then
      some (.enomem, { m with pageMap })
    else
      let (_, memory) ← setPte m.memory page level
        (pagePresent ||| pageUsermode ||| pageRw) newTable
      let memory ← wipePageTable memory page (level + 1)
      some (.enone, ⟨memory, pageMap⟩)

/-- `map_page` -/
def mapPage (m : Machine) (page frame flags : Word) : Option (Status × Machine) := do
  if frame % pageSize ≠ 0 then
    some (.einvalidarg, m)
  else
    -- `page_table_levels` is 2, so the loop is over level 0
    let (status, m) ← m.mapLevel page 0
    if status = .enone then
      let (_, memory) ← setPte m.memory page (pageTableLevels - 1) (pagePresent ||| flags) frame
      some (.enone, { m with memory })
    else
      some (status, m)

/-- `unmap_page`; it returns the address of the frame or `EOUTOFBOUNDS`. -/
def unmapPage (m : Machine) (page : Word) : Option (Word × Machine) := do
  let type ← getPteType m.memory page 0
  if !hasFlag type pagePresent then
    some (Status.eoutofbounds.code, m)
  else
    let type ← getPteType m.memory page 1
    if !hasFlag type pagePresent then
      some (Status.eoutofbounds.code, m)
    else
      let frame ← getPteAddress m.memory page (pageTableLevels - 1)
      let (_, memory) ← setPte m.memory page (pageTableLevels - 1) 0 0
      some (frame, { m with memory })

end Machine

/-! ### Reserving frames -/

@[simp] theorem frameNumber_frameAddress (f : Frame) : frameNumber (frameAddress f) = f := by
  apply BitVec.eq_of_toNat_eq
  have := f.isLt
  rw [frameNumber, frameAddress, pageBits, BitVec.toNat_setWidth, BitVec.toNat_ushiftRight,
    BitVec.toNat_shiftLeft, BitVec.toNat_setWidth, Nat.shiftLeft_eq, Nat.shiftRight_eq_div_pow]
  omega

theorem toNat_frameAddress (f : Frame) : (frameAddress f).toNat = 4096 * f.toNat := by
  have := f.isLt
  rw [frameAddress, pageBits, BitVec.toNat_shiftLeft, BitVec.toNat_setWidth, Nat.shiftLeft_eq]
  omega

theorem frameAddress_aligned (f : Frame) : frameAddress f % pageSize = 0 := by
  apply BitVec.eq_of_toNat_eq
  rw [BitVec.toNat_umod, toNat_frameAddress, show pageSize.toNat = 4096 from rfl,
    Nat.mul_mod_right]
  rfl

/-- The address of a frame is never the error code. -/
theorem frameAddress_ne_enomem (f : Frame) : frameAddress f ≠ Status.enomem.code := by
  intro h
  have := congrArg BitVec.toNat h
  rw [toNat_frameAddress, show Status.enomem.code.toNat = 4 from rfl] at this
  omega

namespace PageMap
variable {pageMap : PageMap}

/-- The frame the next `reserve_page` returns, if it returns one. -/
def next (pageMap : PageMap) : Option Frame := pageMap.answers.head?.join

theorem reservePage_of_some {f : Frame} (h : pageMap.next = some f) :
    pageMap.reservePage =
      (frameAddress f, ⟨pageMap.answers.tail, f :: pageMap.reserved⟩) := by
  rw [next] at h
  rw [reservePage]
  rcases ha : pageMap.answers with _ | ⟨_ | g, answers⟩
  · rw [ha] at h
    cases h
  · rw [ha] at h
    cases h
  · rw [ha] at h
    obtain rfl := Option.some.inj h
    rfl

theorem reservePage_of_none (h : pageMap.next = none) :
    pageMap.reservePage = (Status.enomem.code, ⟨pageMap.answers.tail, pageMap.reserved⟩) := by
  obtain ⟨answers, reserved⟩ := pageMap
  rcases answers with _ | ⟨_ | g, answers⟩
  · rfl
  · rfl
  · cases h

theorem Fresh.tail (h : pageMap.Fresh) : Fresh ⟨pageMap.answers.tail, pageMap.reserved⟩ := by
  obtain ⟨answers, reserved⟩ := pageMap
  obtain ⟨hnodup, hunused⟩ := h
  rcases answers with _ | ⟨_ | g, answers⟩
  · exact ⟨hnodup, hunused⟩
  · exact ⟨hnodup, fun f hf => hunused f (List.mem_cons_of_mem _ hf)⟩
  · exact ⟨(List.nodup_cons.mp hnodup).2, fun f hf => hunused f (List.mem_cons_of_mem _ hf)⟩

/-- The frame that is given out is not in use, and the answers stay fresh. -/
theorem Fresh.next (h : pageMap.Fresh) {f : Frame} (hf : pageMap.next = some f) :
    f ∉ pageMap.reserved ∧ Fresh ⟨pageMap.answers.tail, f :: pageMap.reserved⟩ := by
  obtain ⟨answers, reserved⟩ := pageMap
  obtain ⟨hnodup, hunused⟩ := h
  rcases answers with _ | ⟨_ | g, answers⟩
  · cases hf
  · cases hf
  · obtain rfl := Option.some.inj hf
    refine ⟨hunused _ (List.mem_cons_self ..), (List.nodup_cons.mp hnodup).2, ?_⟩
    intro f' hf' hmem
    rcases List.mem_cons.mp hmem with rfl | hold
    · refine (List.nodup_cons.mp hnodup).1 (List.mem_filterMap.mpr ⟨some f', hf', rfl⟩)
    · exact hunused f' (List.mem_cons_of_mem _ hf') hold

end PageMap

/-! ### What the calls leave -/

namespace Machine
variable {m : Machine} {page frame flags : Word} {f : Frame}

/-- The directory entry for a new table in frame `f`. -/
def tablePde (e : Entry) (f : Frame) : Entry where
  present := true
  rw := true
  usermode := true
  other := e.other
  physicalAddress := f

theorem pteWith_tablePde (e : Entry) (f : Frame) :
    pteWith e (pagePresent ||| pageUsermode ||| pageRw) (frameAddress f) = tablePde e f := by
  rw [pteWith, frameNumber_frameAddress]
  rfl

theorem mapLevel_of_present (h : m.memory.SelfMapped) (hd : dirIndex page ≠ 1023)
    (hp : (m.memory.pde page).present = true) : m.mapLevel page 0 = some (.enone, m) := by
  rw [mapLevel, getPteType_directory h hd]
  show (if hasFlag (entryFlags _) pagePresent = true then _ else _) = _
  rw [hasFlag_entryFlags_present, if_pos hp]

theorem mapLevel_of_none (h : m.memory.SelfMapped) (hd : dirIndex page ≠ 1023)
    (hp : (m.memory.pde page).present = false) (hnext : m.pageMap.next = none) :
    m.mapLevel page 0 =
      some (.enomem, { m with pageMap := ⟨m.pageMap.answers.tail, m.pageMap.reserved⟩ }) := by
  rw [mapLevel, getPteType_directory h hd, PageMap.reservePage_of_none hnext]
  show (if hasFlag (entryFlags _) pagePresent = true then _ else _) = _
  rw [hasFlag_entryFlags_present, if_neg (by rw [hp]; decide)]
  exact if_pos rfl

/-- Memory with an empty table in frame `f` for the directory entry of `page`. -/
def withTable (memory : PagedMemory) (page : Word) (f : Frame) : PagedMemory :=
  (memory.setEntry memory.cr3 (dirIndex page) (tablePde (memory.pde page) f)).setFrame f fun i =>
    (wiped (memory.entry f i)).toWord

theorem usableTable_tablePde {memory : PagedMemory} (page : Word) (hne : f ≠ memory.cr3) :
    UsableTable (memory.setEntry memory.cr3 (dirIndex page) (tablePde (memory.pde page) f))
      (dirIndex page) f := by
  refine ⟨?_, ?_, hne⟩
  · rw [setEntry_cr3, entry_setEntry_self]
    rfl
  · rw [setEntry_cr3, entry_setEntry_self]
    rfl

theorem withTable_usable {memory : PagedMemory} (page : Word) (hne : f ≠ memory.cr3) :
    UsableTable (withTable memory page f) (dirIndex page) f :=
  (usableTable_tablePde page hne).setFrame _

theorem mapLevel_of_some (h : m.memory.SelfMapped) (hd : dirIndex page ≠ 1023)
    (hp : (m.memory.pde page).present = false) (hnext : m.pageMap.next = some f)
    (hne : f ≠ m.memory.cr3) :
    m.mapLevel page 0 = some (.enone, ⟨withTable m.memory page f,
      ⟨m.pageMap.answers.tail, f :: m.pageMap.reserved⟩⟩) := by
  have hself : (m.memory.setEntry m.memory.cr3 (dirIndex page)
      (tablePde (m.memory.pde page) f)).SelfMapped :=
    h.setEntry _ fun hp => hd hp.2.symm
  have hwipe := wipePageTable_eq hself hd (usableTable_tablePde page hne)
  rw [mapLevel, getPteType_directory h hd, PageMap.reservePage_of_some hnext]
  show (if hasFlag (entryFlags _) pagePresent = true then _ else _) = _
  rw [hasFlag_entryFlags_present, if_neg (by rw [hp]; decide)]
  show (if frameAddress f = Status.enomem.code then _ else _) = _
  rw [if_neg (frameAddress_ne_enomem f)]
  show (setPte m.memory page 0 _ _).bind _ = _
  rw [setPte_directory h hd, Option.bind_some, pteWith_tablePde]
  show (wipePageTable _ page 1).bind _ = _
  rw [hwipe, Option.bind_some]
  have hold : ∀ i, (m.memory.setEntry m.memory.cr3 (dirIndex page)
      (tablePde (m.memory.pde page) f)).entry f i = m.memory.entry f i :=
    fun i => entry_setEntry_of_ne m.memory _ fun hp => hne hp.1
  simp only [hold]
  rfl

theorem mapPage_of_unaligned (ha : frame % pageSize ≠ 0) :
    m.mapPage page frame flags = some (.einvalidarg, m) :=
  if_pos ha

/-- The entry `map_page` sets in the table. -/
theorem mapPage_of_mapLevel {m' : Machine} (ha : frame % pageSize = 0)
    (hlevel : m.mapLevel page 0 = some (.enone, m')) (h : m'.memory.SelfMapped)
    (hd : dirIndex page ≠ 1023) (ht : UsableTable m'.memory (dirIndex page) f) :
    m.mapPage page frame flags = some (.enone, { m' with
      memory := m'.memory.setEntry f (tableIndex page)
        (pteWith (m'.memory.entry f (tableIndex page)) (pagePresent ||| flags) frame) }) := by
  rw [mapPage, if_neg (not_not.mpr ha), hlevel]
  show (setPte m'.memory page 1 _ _).bind _ = _
  rw [setPte_table h hd ht]
  rfl

theorem mapPage_of_present (h : m.memory.SelfMapped) (hd : dirIndex page ≠ 1023)
    (ha : frame % pageSize = 0) (ht : UsableTable m.memory (dirIndex page) f) :
    m.mapPage page frame flags = some (.enone, { m with
      memory := m.memory.setEntry f (tableIndex page)
        (pteWith (m.memory.entry f (tableIndex page)) (pagePresent ||| flags) frame) }) :=
  mapPage_of_mapLevel ha (mapLevel_of_present h hd ht.present) h hd ht

theorem mapPage_of_none (h : m.memory.SelfMapped) (hd : dirIndex page ≠ 1023)
    (ha : frame % pageSize = 0) (hp : (m.memory.pde page).present = false)
    (hnext : m.pageMap.next = none) :
    m.mapPage page frame flags =
      some (.enomem, { m with pageMap := ⟨m.pageMap.answers.tail, m.pageMap.reserved⟩ }) := by
  rw [mapPage, if_neg (not_not.mpr ha), mapLevel_of_none h hd hp hnext]
  rfl

theorem withTable_selfMapped {memory : PagedMemory} (h : memory.SelfMapped)
    (hd : dirIndex page ≠ 1023) (hne : f ≠ memory.cr3) : (withTable memory page f).SelfMapped :=
  (h.setEntry _ fun hp => hd hp.2.symm).setFrame _ hne

theorem mapPage_of_some (h : m.memory.SelfMapped) (hd : dirIndex page ≠ 1023)
    (ha : frame % pageSize = 0) (hp : (m.memory.pde page).present = false)
    (hnext : m.pageMap.next = some f) (hne : f ≠ m.memory.cr3) :
    m.mapPage page frame flags = some (.enone,
      ⟨(withTable m.memory page f).setEntry f (tableIndex page)
        (pteWith ((withTable m.memory page f).entry f (tableIndex page))
          (pagePresent ||| flags) frame),
        ⟨m.pageMap.answers.tail, f :: m.pageMap.reserved⟩⟩) := by
  have hself : (withTable m.memory page f).SelfMapped := withTable_selfMapped h hd hne
  have htable : UsableTable (withTable m.memory page f) (dirIndex page) f :=
    withTable_usable page hne
  rw [mapPage_of_mapLevel ha (mapLevel_of_some h hd hp hnext hne) hself hd htable]

/-- `map_page` depends on what the loop leaves. -/
theorem mapPage_congr {m' : Machine} (ha : frame % pageSize = 0)
    (hlevel : m.mapLevel page 0 = some (.enone, m'))
    (hlevel' : m'.mapLevel page 0 = some (.enone, m')) :
    m.mapPage page frame flags = m'.mapPage page frame flags := by
  rw [mapPage, mapPage, hlevel, hlevel', if_neg (not_not.mpr ha), if_neg (not_not.mpr ha)]

/-- A page that is not mapped. -/
theorem unmapPage_of_absent (h : m.memory.SelfMapped) (hd : dirIndex page ≠ 1023)
    (hp : ¬ ((m.memory.pde page).present = true ∧ (m.memory.pte page).present = true)) :
    m.unmapPage page = some (Status.eoutofbounds.code, m) := by
  rw [unmapPage, getPteType_directory h hd]
  show (if (!hasFlag (entryFlags _) pagePresent) = true then _ else _) = _
  rw [hasFlag_entryFlags_present]
  by_cases hpde : (m.memory.pde page).present = true
  · have hpte : (m.memory.pte page).present = false := by
      apply Bool.eq_false_of_not_eq_true
      exact fun hpte => hp ⟨hpde, hpte⟩
    rw [hpde, if_neg (by decide), getPteType_table h hd, if_pos hpde]
    show (if (!hasFlag (entryFlags _) pagePresent) = true then _ else _) = _
    rw [hasFlag_entryFlags_present, hpte]
    rfl
  · rw [Bool.eq_false_of_not_eq_true hpde]
    rfl

theorem unmapPage_of_present (h : m.memory.SelfMapped) (hd : dirIndex page ≠ 1023)
    (ht : UsableTable m.memory (dirIndex page) f) (hp : (m.memory.pte page).present = true) :
    m.unmapPage page = some (frameAddress (m.memory.pte page).physicalAddress ||| page &&& 0xFFF,
      { m with
        memory := m.memory.setEntry f (tableIndex page)
          (pteWith (m.memory.entry f (tableIndex page)) 0 0) }) := by
  have hpde : (m.memory.pde page).present = true := ht.present
  rw [unmapPage, getPteType_directory h hd]
  show (if (!hasFlag (entryFlags _) pagePresent) = true then _ else _) = _
  rw [hasFlag_entryFlags_present, hpde, if_neg (by decide), getPteType_table h hd, if_pos hpde]
  show (if (!hasFlag (entryFlags _) pagePresent) = true then _ else _) = _
  rw [hasFlag_entryFlags_present, hp, if_neg (by decide)]
  show (getPteAddress m.memory page 1).bind _ = _
  rw [getPteAddress_table h hd, if_pos hpde, Option.bind_some]
  show (setPte m.memory page 1 _ _).bind _ = _
  rw [setPte_table h hd ht]
  rfl

theorem createAddressSpace_of_none (hnext : m.pageMap.next = none) :
    m.createAddressSpace = some (Status.enomem.code,
      { m with pageMap := ⟨m.pageMap.answers.tail, m.pageMap.reserved⟩ }) := by
  rw [createAddressSpace, PageMap.reservePage_of_none hnext]
  exact if_pos rfl

theorem createAddressSpace_of_some (h : m.memory.SelfMapped) (hnext : m.pageMap.next = some f)
    (h0 : (m.memory.entry m.memory.cr3 0).permits true = true) (hne : f ≠ m.memory.cr3) :
    m.createAddressSpace = some (frameAddress f,
      ⟨m.memory.setFrame f (topTable (m.memory.ram m.memory.cr3) f),
        ⟨m.pageMap.answers.tail, f :: m.pageMap.reserved⟩⟩) := by
  rw [createAddressSpace, PageMap.reservePage_of_some hnext]
  show (if frameAddress f = Status.enomem.code then _ else _) = _
  rw [if_neg (frameAddress_ne_enomem f)]
  show (pagingInitTopTable m.memory _).bind _ = _
  rw [pagingInitTopTable_eq h h0 (frameNumber_frameAddress f) hne]
  rfl

/-- The new directory is written through entry 0 of the current one. -/
theorem permits_of_createAddressSpace {result : Word × Machine} (h : m.memory.SelfMapped)
    (hnext : m.pageMap.next = some f) (hcreate : m.createAddressSpace = some result) :
    (m.memory.entry m.memory.cr3 0).permits true = true := by
  rw [createAddressSpace, PageMap.reservePage_of_some hnext] at hcreate
  have hcreate : (if frameAddress f = Status.enomem.code then _ else
    (pagingInitTopTable m.memory (frameAddress f)).bind _) = some result := hcreate
  rw [if_neg (frameAddress_ne_enomem f)] at hcreate
  obtain ⟨memory, hinit, -⟩ := Option.bind_eq_some_iff.mp hcreate
  exact permits_of_pagingInitTopTable h hinit

end Machine
end QuarkKernel
