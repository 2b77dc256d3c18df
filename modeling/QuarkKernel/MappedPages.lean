import QuarkKernel.Mmap

/-! # Mapping any page

`map_page` and `unmap_page` for every page below the window in which the tables
appear, the kernel's pages among them.  All that is asked of the tables is that
the last directory entry refers to the directory and that they are different frames
(`PageTables`); what their entries allow is left open, and a call that would write
through a read-only entry faults.  A page is seen as its `view`: the frame, and what
the entries of both levels allow. -/
namespace PagedMemory

/-- A page that is there: the frame behind it, and what the entries allow. -/
structure PageView where
  frame : Frame
  rw : Bool
  usermode : Bool
deriving DecidableEq, Repr

/-- The page of an address, if it is present. -/
def view (m : PagedMemory) (x : BitVec 32) : Option PageView :=
  if (m.pde x).present && (m.pte x).present then
    some ⟨(m.pte x).physicalAddress, (m.pde x).rw && (m.pte x).rw,
      (m.pde x).usermode && (m.pte x).usermode⟩
  else none

end PagedMemory

namespace QuarkKernel
open PagedMemory

/-- `physical_address` -/
def physicalAddress (m : PagedMemory) (linearAddress : Word) : Option Word :=
  getPteAddress m linearAddress (pageTableLevels - 1)

/-- The address is below the window. -/
def BelowWindow (x : Word) : Prop := dirIndex x ≠ 1023

instance (x : Word) : Decidable (BelowWindow x) := inferInstanceAs (Decidable (_ ≠ _))

theorem belowWindow_iff {x : Word} : BelowWindow x ↔ x.toNat < pageTables.toNat := by
  have hx := x.isLt
  rw [BelowWindow, ne_eq, ← BitVec.toNat_inj, dirIndex_toNat,
    show (1023 : BitVec 10).toNat = 1023 from rfl, show pageTables.toNat = 4290772992 from rfl]
  omega

/-- The last entry of the directory refers to the directory, and the tables are
different frames. -/
structure PageTables (m : PagedMemory) : Prop where
  present : (m.entry m.cr3 1023).present = true
  frame : (m.entry m.cr3 1023).physicalAddress = m.cr3
  ne : ∀ d : BitVec 10, d ≠ 1023 → (m.entry m.cr3 d).present = true →
    (m.entry m.cr3 d).physicalAddress ≠ m.cr3
  distinct : ∀ d d' : BitVec 10, d ≠ 1023 → d' ≠ 1023 → (m.entry m.cr3 d).present = true →
    (m.entry m.cr3 d').present = true →
    (m.entry m.cr3 d).physicalAddress = (m.entry m.cr3 d').physicalAddress → d = d'

/-- The frame holds the directory or one of the tables. -/
def HoldsTable (m : PagedMemory) (f : Frame) : Prop :=
  f = m.cr3 ∨ ∃ d : BitVec 10, d ≠ 1023 ∧ (m.entry m.cr3 d).present = true ∧
    (m.entry m.cr3 d).physicalAddress = f

/-! ### Views -/

theorem view_congr {m m' : PagedMemory} {x : Word} (hpde : m'.pde x = m.pde x)
    (hpte : (m.pde x).present = true → m'.pte x = m.pte x) : m'.view x = m.view x := by
  rw [PagedMemory.view, PagedMemory.view, hpde]
  cases hp : (m.pde x).present with
  | false => rfl
  | true => rw [hpte hp]

theorem view_of_absent {m : PagedMemory} {x : Word}
    (h : ¬ ((m.pde x).present = true ∧ (m.pte x).present = true)) : m.view x = none := by
  rw [PagedMemory.view, if_neg]
  rwa [Bool.and_eq_true]

theorem translate_eq_view (m : PagedMemory) (x : Word) :
    m.translate x = (m.view x).map PageView.frame := by
  rw [PagedMemory.translate, PagedMemory.view]
  split <;> rfl

/-- Both walks look at the same entries. -/
theorem walk_of_samePage {m : PagedMemory} {x y : Word} (h : SamePage x y) :
    m.pde x = m.pde y ∧ m.pte x = m.pte y := by
  obtain ⟨hdir, htable⟩ := samePage_iff.mp h
  have hpde : m.pde x = m.pde y := by rw [PagedMemory.pde, hdir, PagedMemory.pde]
  refine ⟨hpde, ?_⟩
  rw [PagedMemory.pte, hpde, htable, PagedMemory.pte]

theorem view_of_samePage {m : PagedMemory} {x y : Word} (h : SamePage x y) :
    m.view x = m.view y := by
  obtain ⟨hpde, hpte⟩ := walk_of_samePage (m := m) h
  rw [PagedMemory.view, PagedMemory.view, hpde, hpte]

namespace PageTables
variable {m : PagedMemory} {f : Frame} {x page ptr : Word}

/-! ### Reading and writing in the window -/

/-- What is read in the window are the tables that are there. -/
theorem frameOf_read (h : PageTables m) (hdir : dirIndex ptr = 1023)
    (hp : (m.entry m.cr3 (tableIndex ptr)).present = true) :
    m.frameOf false ptr = some (m.entry m.cr3 (tableIndex ptr)).physicalAddress := by
  have hpde : m.pde ptr = m.entry m.cr3 1023 := by rw [PagedMemory.pde, hdir]
  have hpte : m.pte ptr = m.entry m.cr3 (tableIndex ptr) := by
    rw [PagedMemory.pte, hpde, h.frame]
  rw [PagedMemory.frameOf, hpde, hpte, Entry.permits, Entry.permits, h.present, hp]
  rfl

theorem loadEntry_pde (h : PageTables m) (page : Word) :
    m.loadEntry (directoryEntry (page >>> 22)) = some (m.pde page) := by
  obtain ⟨hdir, htable, hword⟩ := index_directoryEntry (toNat_directoryIndex page)
  have hframe := h.frameOf_read hdir (by rw [htable]; exact h.present)
  rw [PagedMemory.loadEntry, hframe, htable, h.frame, hword]
  rfl

theorem getPteType_directory (h : PageTables m) (page : Word) :
    getPteType m page 0 = some (entryFlags (m.pde page)) := by
  rw [getPteType, getPtePointer_directory]
  show (m.loadEntry _).map _ = _
  rw [h.loadEntry_pde]
  rfl

theorem getPtePointer_table (h : PageTables m) (page : Word) :
    getPtePointer m page 1 = some
      (if (m.pde page).present then some (tableEntry (page >>> pageBits)) else none) := by
  show (m.loadEntry _).bind _ = _
  rw [h.loadEntry_pde]
  show (if _ then _ else _) = _
  split <;> rfl

theorem loadEntry_pte (h : PageTables m) (hp : (m.pde page).present = true) :
    m.loadEntry (tableEntry (page >>> pageBits)) = some (m.pte page) := by
  obtain ⟨hdir, htable, hword⟩ := index_tableEntry (pageIndex_eq page)
  have hframe := h.frameOf_read hdir (by rw [htable]; exact hp)
  rw [PagedMemory.loadEntry, hframe, htable, hword]
  rfl

theorem getPteType_table (h : PageTables m) (page : Word) :
    getPteType m page 1 = some (if (m.pde page).present then entryFlags (m.pte page) else 0) := by
  rw [getPteType, h.getPtePointer_table]
  by_cases hp : (m.pde page).present = true
  · rw [if_pos hp, if_pos hp]
    show (m.loadEntry _).map _ = _
    rw [h.loadEntry_pte hp]
    rfl
  · rw [if_neg hp, if_neg hp]
    rfl

/-- `page_type` gives the flags of the first entry that is absent, or of the last. -/
theorem pageType_eq (h : PageTables m) (page : Word) :
    pageType m page =
      some (entryFlags (if (m.pde page).present then m.pte page else m.pde page)) := by
  rw [pageType, h.getPteType_directory]
  show (if (!hasFlag (entryFlags _) pagePresent) = true then _ else getPteType m page 1) = _
  rw [hasFlag_entryFlags_present, h.getPteType_table]
  cases (m.pde page).present <;> rfl

theorem physicalAddress_eq (h : PageTables m) (hp : (m.pde page).present = true) :
    physicalAddress m page =
      some (frameAddress (m.pte page).physicalAddress ||| page &&& 0xFFF) := by
  show getPteAddress m page 1 = _
  rw [getPteAddress, h.getPtePointer_table, if_pos hp]
  show (m.loadEntry _).bind _ = _
  rw [h.loadEntry_pte hp]
  rfl

/-- A store in the window goes through the entry of the directory for itself. -/
theorem selfMapped_of_modifyEntry (h : PageTables m) (hdir : dirIndex ptr = 1023)
    {change : Entry → Entry} {m' : PagedMemory} (hmodify : m.modifyEntry ptr change = some m') :
    m.SelfMapped ∧ (m.entry m.cr3 (tableIndex ptr)).permits true = true := by
  obtain ⟨e, -, hstore⟩ := Option.bind_eq_some_iff.mp hmodify
  obtain ⟨f, hframe, -⟩ := Option.map_eq_some_iff.mp hstore
  have hpte := permits_of_frameOf hframe
  have hpde : (m.pde ptr).permits true = true := by
    rw [PagedMemory.frameOf, Option.ite_none_right_eq_some, Bool.and_eq_true] at hframe
    exact hframe.1.1
  rw [PagedMemory.pde, hdir] at hpde
  have hself : m.SelfMapped := ⟨hpde, h.frame⟩
  rw [hself.pte_eq hdir] at hpte
  exact ⟨hself, hpte⟩

end PageTables

/-- `set_pte` begins with a change of the entry. -/
theorem modifyEntry_of_setPte {m : PagedMemory} {page ptr flags addr : Word} {level : Nat}
    {result : Int × PagedMemory} (hptr : getPtePointer m page level = some (some ptr))
    (hset : setPte m page level flags addr = some result) :
    ∃ m', m.modifyEntry ptr (fun e => { e with physicalAddress := frameNumber addr }) = some m' := by
  obtain ⟨r, hr, -⟩ := Option.bind_eq_some_iff.mp hset
  rw [setPteAddress, hptr] at hr
  have hr : (m.modifyEntry ptr _).bind _ = some r := hr
  obtain ⟨m', hm', -⟩ := Option.bind_eq_some_iff.mp hr
  exact ⟨m', hm'⟩

namespace PageTables
variable {m : PagedMemory} {f : Frame} {x page : Word}

theorem holdsTable_pde (hx : BelowWindow x) (hp : (m.pde x).present = true) :
    HoldsTable m (m.pde x).physicalAddress :=
  .inr ⟨dirIndex x, hx, hp, rfl⟩

/-! ### Another entry in a table -/

section SameDirectory
variable {m' : PagedMemory} (hcr3 : m'.cr3 = m.cr3)
  (hdir : ∀ d, m'.entry m.cr3 d = m.entry m.cr3 d)
include hcr3 hdir

/-- The tables are told by the directory alone. -/
theorem congr (h : PageTables m) : PageTables m' where
  present := by
    rw [hcr3, hdir]
    exact h.present
  frame := by
    rw [hcr3, hdir]
    exact h.frame
  ne := by
    simp only [hcr3, hdir]
    exact h.ne
  distinct := by
    simp only [hcr3, hdir]
    exact h.distinct

theorem holdsTable_congr (g : Frame) : HoldsTable m' g ↔ HoldsTable m g := by
  simp only [HoldsTable, hcr3, hdir]

end SameDirectory

section SetPte
variable (h : PageTables m) (hpage : BelowWindow page) (hp : (m.pde page).present = true)
  (e : Entry)
include h hpage hp

/-- The directory stays as it is. -/
theorem entry_setPte (d : BitVec 10) :
    (m.setEntry (m.pde page).physicalAddress (tableIndex page) e).entry m.cr3 d =
      m.entry m.cr3 d :=
  directory_setPte (h.ne _ hpage hp) e d

theorem holdsTable_setPte (g : Frame) :
    HoldsTable (m.setEntry (m.pde page).physicalAddress (tableIndex page) e) g ↔
      HoldsTable m g :=
  holdsTable_congr (setEntry_cr3 ..) (h.entry_setPte hpage hp e) g

theorem setEntry : PageTables (m.setEntry (m.pde page).physicalAddress (tableIndex page) e) :=
  h.congr (setEntry_cr3 ..) (h.entry_setPte hpage hp e)

/-- The page the entry is for. -/
theorem walk_setPte (hx : SamePage page x) :
    (m.setEntry (m.pde page).physicalAddress (tableIndex page) e).pde x = m.pde page ∧
      (m.setEntry (m.pde page).physicalAddress (tableIndex page) e).pte x = e :=
  walk_setPte_self (h.ne _ hpage hp) e hx

/-- All other pages. -/
theorem walk_setPte_of_ne (hx : BelowWindow x) (hne : ¬ SamePage page x) :
    (m.setEntry (m.pde page).physicalAddress (tableIndex page) e).pde x = m.pde x ∧
      ((m.pde x).present = true →
        (m.setEntry (m.pde page).physicalAddress (tableIndex page) e).pte x = m.pte x) := by
  have hpde : (m.setEntry (m.pde page).physicalAddress (tableIndex page) e).pde x = m.pde x :=
    h.entry_setPte hpage hp e _
  refine ⟨hpde, fun hpx => ?_⟩
  rw [PagedMemory.pte, hpde]
  refine entry_setEntry_of_ne m e ?_
  rintro ⟨hframe, hindex⟩
  -- equal tables are the same table
  exact hne (samePage_iff.mpr ⟨h.distinct _ _ hpage hx hp hpx hframe.symm, hindex.symm⟩)

theorem view_setPte (hx : BelowWindow x) (hne : ¬ SamePage page x) :
    (m.setEntry (m.pde page).physicalAddress (tableIndex page) e).view x = m.view x := by
  obtain ⟨hpde, hpte⟩ := h.walk_setPte_of_ne hpage hp e hx hne
  exact view_congr hpde hpte

end SetPte

/-! ### A new table -/

theorem new_ne {m : PagedMemory} {f : Frame} (hf : ¬ HoldsTable m f) : f ≠ m.cr3 :=
  fun heq => hf (.inl heq)

end PageTables

/-- `m'` differs from `m` in one directory entry: that of `page` refers to `f`. -/
structure NewTable (m m' : PagedMemory) (page : Word) (f : Frame) : Prop where
  cr3 : m'.cr3 = m.cr3
  present : (m'.pde page).present = true
  frame : (m'.pde page).physicalAddress = f
  others : ∀ d, d ≠ dirIndex page → m'.entry m'.cr3 d = m.entry m.cr3 d

namespace NewTable
variable {m m' : PagedMemory} {f : Frame} {page : Word}

theorem holdsTable (h : NewTable m m' page f) (hpage : BelowWindow page)
    (hp : (m.pde page).present = false) (g : Frame) :
    HoldsTable m' g ↔ g = f ∨ HoldsTable m g := by
  constructor
  · rintro (hg | ⟨d, hd, hpd, hg⟩)
    · exact .inr (.inl (hg.trans h.cr3))
    · by_cases hdp : d = dirIndex page
      · subst hdp
        exact .inl (hg.symm.trans h.frame)
      · rw [h.others d hdp] at hpd hg
        exact .inr (.inr ⟨d, hd, hpd, hg⟩)
  · rintro (rfl | hg | ⟨d, hd, hpd, hg⟩)
    · exact .inr ⟨dirIndex page, hpage, h.present, h.frame⟩
    · exact .inl (hg.trans h.cr3.symm)
    · have hdp : d ≠ dirIndex page := by
        rintro rfl
        rw [show m.entry m.cr3 (dirIndex page) = m.pde page from rfl, hp] at hpd
        cases hpd
      refine .inr ⟨d, hd, ?_⟩
      rw [h.others d hdp]
      exact ⟨hpd, hg⟩

/-- A table in a frame that holds none. -/
theorem pageTables (h : NewTable m m' page f) (htables : PageTables m) (hpage : BelowWindow page)
    (hf : ¬ HoldsTable m f) : PageTables m' where
  present := by
    rw [h.others 1023 (Ne.symm hpage)]
    exact htables.present
  frame := by
    rw [h.others 1023 (Ne.symm hpage), h.cr3]
    exact htables.frame
  ne d hd hpd := by
    by_cases hdp : d = dirIndex page
    · subst hdp
      have hne : (m'.pde page).physicalAddress ≠ m'.cr3 := by
        rw [h.frame, h.cr3]
        exact PageTables.new_ne hf
      exact hne
    · rw [h.others d hdp] at hpd ⊢
      rw [h.cr3]
      exact htables.ne d hd hpd
  distinct d d' hd hd' hpd hpd' heq := by
    -- an old table is not in the new frame
    have hold : ∀ d, d ≠ 1023 → (m.entry m.cr3 d).present = true →
        (m.entry m.cr3 d).physicalAddress ≠ f :=
      fun d hd hpd heq => hf (.inr ⟨d, hd, hpd, heq⟩)
    by_cases hdp : d = dirIndex page
    · by_cases hdp' : d' = dirIndex page
      · rw [hdp, hdp']
      · rw [h.others d' hdp'] at hpd' heq
        subst hdp
        exact absurd (heq.symm.trans h.frame) (hold d' hd' hpd')
    · rw [h.others d hdp] at hpd heq
      by_cases hdp' : d' = dirIndex page
      · subst hdp'
        exact absurd (heq.trans h.frame) (hold d hd hpd)
      · rw [h.others d' hdp'] at hpd' heq
        exact htables.distinct d d' hd hd' hpd hpd' heq

end NewTable

namespace PageTables
variable {m : PagedMemory} {f : Frame} {x page : Word}

section WithTable
variable (h : PageTables m) (hpage : BelowWindow page) (hf : ¬ HoldsTable m f)
include h hf

omit h in
theorem entry_withTable (d : BitVec 10) :
    (Machine.withTable m page f).entry m.cr3 d =
      if d = dirIndex page then Machine.tablePde (m.pde page) f else m.entry m.cr3 d :=
  directory_withTable (new_ne hf) d

omit h in
/-- The directory entry for the new table. -/
theorem pde_withTable : (Machine.withTable m page f).pde page = Machine.tablePde (m.pde page) f :=
  (entry_withTable hf (dirIndex page)).trans (if_pos rfl)

omit h in
theorem newTable_withTable : NewTable m (Machine.withTable m page f) page f where
  cr3 := rfl
  present := congrArg Entry.present (pde_withTable hf)
  frame := congrArg Entry.physicalAddress (pde_withTable hf)
  others d hd := (entry_withTable hf d).trans (if_neg hd)

include hpage in
omit h in
theorem holdsTable_withTable (hp : (m.pde page).present = false) (g : Frame) :
    HoldsTable (Machine.withTable m page f) g ↔ g = f ∨ HoldsTable m g :=
  (newTable_withTable hf).holdsTable hpage hp g

include hpage in
theorem withTable : PageTables (Machine.withTable m page f) :=
  (newTable_withTable hf).pageTables h hpage hf

/-- An empty table adds no page. -/
theorem view_withTable (hp : (m.pde page).present = false) (hx : BelowWindow x) :
    (Machine.withTable m page f).view x = m.view x := by
  by_cases hdir : dirIndex x = dirIndex page
  · have hold : m.pde x = m.pde page := by rw [PagedMemory.pde, hdir, PagedMemory.pde]
    rw [view_of_absent, view_of_absent]
    · rw [hold, hp]
      exact fun hp => absurd hp.1 (by decide)
    · rw [absent_pte_withTable (new_ne hf) hdir]
      exact fun hp => absurd hp.2 (by decide)
  · obtain ⟨hpde, hpte⟩ := walk_withTable_of_ne (new_ne hf) hdir
    refine view_congr hpde fun hpx => hpte ?_ (h.ne _ hx hpx)
    rintro rfl
    exact hf (holdsTable_pde hx hpx)

end WithTable
end PageTables

/-! ### What `map_page` comes to -/

/-- There is a table for the page: as before, or a new one. -/
inductive HasTable (m : Machine) (page : Word) : Machine → Prop
  | old (hp : (m.memory.pde page).present = true) : HasTable m page m
  | new (f : Frame) (hp : (m.memory.pde page).present = false) (hnext : m.pageMap.next = some f) :
      HasTable m page ⟨Machine.withTable m.memory page f,
        ⟨m.pageMap.answers.tail, f :: m.pageMap.reserved⟩⟩

/-- The memory with the entry that `map_page` sets for the page. -/
def withPage (m : PagedMemory) (page frame flags : Word) : PagedMemory :=
  m.setEntry (m.pde page).physicalAddress (tableIndex page)
    (pteWith (m.pte page) (pagePresent ||| flags) frame)

/-- How a call of `map_page` returns. -/
inductive MapPage (m : Machine) (page frame flags : Word) : Status → Machine → Prop
  | refuses (ha : frame % pageSize ≠ 0) : MapPage m page frame flags .einvalidarg m
  | runsOut (ha : frame % pageSize = 0) (hp : (m.memory.pde page).present = false)
      (hnext : m.pageMap.next = none) :
      MapPage m page frame flags .enomem
        { m with pageMap := ⟨m.pageMap.answers.tail, m.pageMap.reserved⟩ }
  | maps {m' : Machine} (ha : frame % pageSize = 0) (htable : HasTable m page m')
      (hself : m'.memory.SelfMapped)
      (husable : UsableTable m'.memory (dirIndex page) (m'.memory.pde page).physicalAddress) :
      MapPage m page frame flags .enone { m' with memory := withPage m'.memory page frame flags }

namespace PageTables
variable {m m' : Machine} {page frame flags : Word} {status : Status} {f : Frame}

/-- With a new table for the page, `map_page` goes on as if it had been there. -/
theorem usable_withTable (hpage : BelowWindow page) (hself : m.memory.SelfMapped)
    (hf : ¬ HoldsTable m.memory f) :
    (Machine.withTable m.memory page f).SelfMapped ∧
      UsableTable (Machine.withTable m.memory page f) (dirIndex page)
        ((Machine.withTable m.memory page f).pde page).physicalAddress := by
  refine ⟨Machine.withTable_selfMapped hself hpage (new_ne hf), ?_⟩
  rw [pde_withTable hf]
  exact Machine.withTable_usable page (new_ne hf)

theorem mapLevel_of_present (h : PageTables m.memory) (hp : (m.memory.pde page).present = true) :
    m.mapLevel page 0 = some (.enone, m) := by
  rw [Machine.mapLevel, h.getPteType_directory]
  show (if hasFlag (entryFlags _) pagePresent = true then _ else _) = _
  rw [hasFlag_entryFlags_present, if_pos hp]

theorem mapLevel_of_none (h : PageTables m.memory) (hp : (m.memory.pde page).present = false)
    (hnext : m.pageMap.next = none) : m.mapLevel page 0 =
      some (.enomem, { m with pageMap := ⟨m.pageMap.answers.tail, m.pageMap.reserved⟩ }) := by
  rw [Machine.mapLevel, h.getPteType_directory, PageMap.reservePage_of_none hnext]
  show (if hasFlag (entryFlags _) pagePresent = true then _ else _) = _
  rw [hasFlag_entryFlags_present, if_neg (by rw [hp]; decide)]
  exact if_pos rfl

/-- Without write access to the directory the entry for a new table cannot be set. -/
theorem selfMapped_of_mapLevel (h : PageTables m.memory)
    (hp : (m.memory.pde page).present = false) (hnext : m.pageMap.next = some f)
    {result : Status × Machine} (hlevel : m.mapLevel page 0 = some result) :
    m.memory.SelfMapped := by
  rw [Machine.mapLevel, h.getPteType_directory, PageMap.reservePage_of_some hnext] at hlevel
  have hlevel : (if hasFlag (entryFlags (m.memory.pde page)) pagePresent = true then _
    else if frameAddress f = Status.enomem.code then _
      else (setPte m.memory page 0 _ _).bind _) = some result := hlevel
  rw [hasFlag_entryFlags_present, if_neg (by rw [hp]; decide),
    if_neg (frameAddress_ne_enomem f)] at hlevel
  obtain ⟨r, hset, -⟩ := Option.bind_eq_some_iff.mp hlevel
  obtain ⟨m1, hmodify⟩ := modifyEntry_of_setPte (getPtePointer_directory _ page) hset
  obtain ⟨hdir, -, -⟩ := index_directoryEntry (toNat_directoryIndex page)
  exact (h.selfMapped_of_modifyEntry hdir hmodify).1

/-- Nor can the entry of the page, without write access to its table. -/
theorem usable_of_setPte {t : PagedMemory} (h : PageTables t) (hpage : BelowWindow page)
    (hp : (t.pde page).present = true) {addr : Word} {result : Int × PagedMemory}
    (hset : setPte t page 1 flags addr = some result) :
    t.SelfMapped ∧
      UsableTable t (dirIndex page) (t.pde page).physicalAddress := by
  have hptr := h.getPtePointer_table page
  rw [if_pos hp] at hptr
  obtain ⟨m1, hmodify⟩ := modifyEntry_of_setPte hptr hset
  obtain ⟨hdir, htable, -⟩ := index_tableEntry (pageIndex_eq page)
  obtain ⟨hself, hpermits⟩ := h.selfMapped_of_modifyEntry hdir hmodify
  rw [htable] at hpermits
  exact ⟨hself, hpermits, rfl, h.ne _ hpage hp⟩

/-- **The returns of `map_page`.** -/
theorem mapPage_cases (h : PageTables m.memory) (hpage : BelowWindow page)
    (hnew : ∀ f, m.pageMap.next = some f → ¬ HoldsTable m.memory f)
    (hmap : m.mapPage page frame flags = some (status, m')) :
    MapPage m page frame flags status m' := by
  by_cases ha : frame % pageSize = 0
  · have hcall := hmap
    rw [Machine.mapPage, if_neg (not_not.mpr ha)] at hcall
    by_cases hp : (m.memory.pde page).present = true
    · rw [h.mapLevel_of_present hp] at hcall
      have hcall : (setPte m.memory page 1 _ _).bind _ = some (status, m') := hcall
      obtain ⟨r, hset, -⟩ := Option.bind_eq_some_iff.mp hcall
      obtain ⟨hself, husable⟩ := h.usable_of_setPte hpage hp hset
      rw [Machine.mapPage_of_present hself hpage ha husable] at hmap
      obtain ⟨rfl, rfl⟩ := Prod.mk.inj (Option.some.inj hmap)
      exact .maps ha (.old hp) hself husable
    · have hp : (m.memory.pde page).present = false := Bool.eq_false_of_not_eq_true hp
      rcases Option.eq_none_or_eq_some m.pageMap.next with hnext | ⟨f, hnext⟩
      · rw [h.mapLevel_of_none hp hnext] at hcall
        obtain ⟨rfl, rfl⟩ := Prod.mk.inj (Option.some.inj hcall)
        exact .runsOut ha hp hnext
      · obtain ⟨r, hlevel, -⟩ := Option.bind_eq_some_iff.mp hcall
        have hself := h.selfMapped_of_mapLevel hp hnext hlevel
        have hf := hnew f hnext
        obtain ⟨hself', husable⟩ := usable_withTable hpage hself hf
        have hmaps : MapPage m page frame flags .enone _ :=
          .maps ha (.new f hp hnext) hself' husable
        rw [withPage, PagedMemory.pte, pde_withTable hf] at hmaps
        rw [Machine.mapPage_of_some hself hpage ha hp hnext (new_ne hf)] at hmap
        obtain ⟨rfl, rfl⟩ := Prod.mk.inj (Option.some.inj hmap)
        exact hmaps
  · rw [Machine.mapPage_of_unaligned ha] at hmap
    obtain ⟨rfl, rfl⟩ := Prod.mk.inj (Option.some.inj hmap)
    exact .refuses ha

end PageTables

/-! ### The effect of `map_page` -/

theorem permits_iff {e : Entry} : e.permits true = true ↔ e.present = true ∧ e.rw = true := by
  rw [Entry.permits, Bool.and_eq_true]
  exact Iff.rfl

section
variable {m m1 : Machine} {page x : Word}

/-- The tables with one for the page: no page is new, and none is gone. -/
theorem HasTable.tables (htable : HasTable m page m1) (h : PageTables m.memory)
    (hpage : BelowWindow page) (hnew : ∀ f, m.pageMap.next = some f → ¬ HoldsTable m.memory f) :
    PageTables m1.memory ∧ (m1.memory.pde page).present = true ∧
      ∀ x, BelowWindow x → m1.memory.view x = m.memory.view x := by
  cases htable with
  | old hp => exact ⟨h, hp, fun _ _ => rfl⟩
  | new f hp hnext =>
    have hf := hnew f hnext
    refine ⟨h.withTable hpage hf, ?_, fun x hx => h.view_withTable hf hp hx⟩
    rw [PageTables.pde_withTable hf]
    rfl

end

section WithPage
variable {m : PagedMemory} {page x : Word} (frame flags : Word) (h : PageTables m)
  (hpage : BelowWindow page) (hp : (m.pde page).present = true)
include h hpage hp

/-- Both levels of the walk to the page. -/
theorem walk_withPage (hx : SamePage page x) :
    (withPage m page frame flags).pde x = m.pde page ∧
      (withPage m page frame flags).pte x = pteWith (m.pte page) (pagePresent ||| flags) frame :=
  h.walk_setPte hpage hp _ hx

theorem view_withPage_of_ne (hx : BelowWindow x) (hne : ¬ SamePage page x) :
    (withPage m page frame flags).view x = m.view x :=
  h.view_setPte hpage hp _ hx hne

theorem pageTables_withPage : PageTables (withPage m page frame flags) :=
  h.setEntry hpage hp _

end WithPage

/-- The frames after a table has been got for the page, if it had none. -/
inductive TableFrames (m : Machine) (page : Word) (m' : Machine) : Prop
  | old (hp : (m.memory.pde page).present = true) (hpageMap : m'.pageMap = m.pageMap)
      (hholds : ∀ g, HoldsTable m'.memory g ↔ HoldsTable m.memory g)
  | new (f : Frame) (hp : (m.memory.pde page).present = false) (hnext : m.pageMap.next = some f)
      (hpageMap : m'.pageMap = ⟨m.pageMap.answers.tail, f :: m.pageMap.reserved⟩)
      (hholds : ∀ g, HoldsTable m'.memory g ↔ g = f ∨ HoldsTable m.memory g)

namespace TableFrames
variable {m m' : Machine} {page : Word} {f : Frame}

/-- The frames in use stay in use. -/
theorem grows (h : TableFrames m page m') (hf : f ∈ m.pageMap.reserved) :
    f ∈ m'.pageMap.reserved := by
  cases h with
  | old hp hpageMap hholds => rwa [hpageMap]
  | new n hp hnext hpageMap hholds =>
    rw [hpageMap]
    exact List.mem_cons_of_mem _ hf

/-- A table that is new is not in a frame in use. -/
theorem holdsTable_iff (h : TableFrames m page m') (hfresh : m.pageMap.Fresh)
    (hf : f ∈ m.pageMap.reserved) : HoldsTable m'.memory f ↔ HoldsTable m.memory f := by
  cases h with
  | old hp hpageMap hholds => exact hholds f
  | new n hp hnext hpageMap hholds =>
    rw [hholds f]
    refine or_iff_right ?_
    rintro rfl
    exact (hfresh.next hnext).1 hf

end TableFrames

/-- `page` is mapped to `frame` as `flags` say, and no other page below the window has
changed. -/
structure MapsTo (m m' : Machine) (page frame flags : Word) : Prop where
  tables : PageTables m'.memory
  maps : ∀ x, SamePage page x → m'.memory.view x = some ⟨frameNumber frame, hasFlag flags pageRw,
    (!(m.memory.pde page).present || (m.memory.pde page).usermode) && hasFlag flags pageUsermode⟩
  others : ∀ x, BelowWindow x → ¬ SamePage page x → m'.memory.view x = m.memory.view x
  frames : TableFrames m page m'
  directory : ∀ d, (m'.memory.entry m'.memory.cr3 d).present = true ↔
    (m.memory.entry m.memory.cr3 d).present = true ∨ d = dirIndex page

section
variable {m m1 : Machine} {page frame flags : Word}

theorem hasFlag_present_or (flags flag : Word) (h : pagePresent &&& flag = 0) :
    hasFlag (pagePresent ||| flags) flag = hasFlag flags flag := by
  have hand : (pagePresent ||| flags) &&& flag = flags &&& flag := by
    ext i hi
    have hbit := congrArg (fun w : Word => w[i]) h
    simp only [BitVec.getElem_and, BitVec.getElem_or] at hbit ⊢
    grind
  rw [hasFlag, hasFlag, hand]

/-- The entry that `map_page` sets. -/
theorem pteWith_present (e : Entry) :
    (pteWith e (pagePresent ||| flags) frame).present = true :=
  hasFlag_or _ _ (by decide)

theorem HasTable.frames (htable : HasTable m page m1) (frame flags : Word) (h : PageTables m.memory)
    (hpage : BelowWindow page) (hnew : ∀ f, m.pageMap.next = some f → ¬ HoldsTable m.memory f) :
    TableFrames m page { m1 with memory := withPage m1.memory page frame flags } ∧
      (m1.memory.pde page).usermode =
        (!(m.memory.pde page).present || (m.memory.pde page).usermode) ∧
      ∀ d, (m1.memory.entry m1.memory.cr3 d).present = true ↔
        (m.memory.entry m.memory.cr3 d).present = true ∨ d = dirIndex page := by
  obtain ⟨h1, hp1, -⟩ := htable.tables h hpage hnew
  have hholds := h1.holdsTable_setPte hpage hp1
    (pteWith (m1.memory.pte page) (pagePresent ||| flags) frame)
  cases htable with
  | old hp =>
    refine ⟨.old hp rfl hholds, by rw [hp]; rfl, fun d => (or_iff_left_of_imp ?_).symm⟩
    rintro rfl
    exact hp
  | new f hp hnext =>
    have hf := hnew f hnext
    refine ⟨.new f hp hnext rfl fun g => ?_, ?_, fun d => ?_⟩
    · exact (hholds g).trans (PageTables.holdsTable_withTable hpage hf hp g)
    · rw [PageTables.pde_withTable hf, hp]
      rfl
    · have hentry : (Machine.withTable m.memory page f).entry m.memory.cr3 d = _ :=
        PageTables.entry_withTable hf d
      rw [show (Machine.withTable m.memory page f).cr3 = m.memory.cr3 from rfl, hentry]
      by_cases hd : d = dirIndex page
      · rw [if_pos hd]
        exact iff_of_true rfl (.inr hd)
      · rw [if_neg hd]
        exact (or_iff_left hd).symm

/-- **A call that succeeds.** -/
theorem HasTable.mapsTo (htable : HasTable m page m1) (h : PageTables m.memory)
    (hpage : BelowWindow page) (hnew : ∀ f, m.pageMap.next = some f → ¬ HoldsTable m.memory f)
    (husable : UsableTable m1.memory (dirIndex page) (m1.memory.pde page).physicalAddress) :
    MapsTo m { m1 with memory := withPage m1.memory page frame flags } page frame flags := by
  obtain ⟨h1, hp1, hview⟩ := htable.tables h hpage hnew
  obtain ⟨hframes, huser, hdirectory⟩ := htable.frames frame flags h hpage hnew
  refine ⟨pageTables_withPage frame flags h1 hpage hp1, fun x hx => ?_, fun x hx hne => ?_, hframes,
    fun d => ?_⟩
  · obtain ⟨hpde, hpte⟩ := walk_withPage frame flags h1 hpage hp1 hx
    have hrw : (m1.memory.pde page).rw = true := (permits_iff.mp husable.permits).2
    rw [PagedMemory.view, hpde, hpte, hp1, pteWith_present, hrw, huser]
    simp only [pteWith, hasFlag_present_or flags pageRw (by decide),
      hasFlag_present_or flags pageUsermode (by decide), Bool.and_self, Bool.true_and, if_true]
  · exact (view_withPage_of_ne frame flags h1 hpage hp1 hx hne).trans (hview x hx)
  · have hentry := h1.entry_setPte hpage hp1
      (pteWith (m1.memory.pte page) (pagePresent ||| flags) frame) d
    rw [← hdirectory d]
    exact Eq.to_iff (congrArg (fun e : Entry => e.present = true) hentry)

end

end QuarkKernel
