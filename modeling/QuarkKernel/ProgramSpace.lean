import QuarkKernel.HeapMapping

/-! # An address space while a program is loaded

Below the kernel no frame is behind two pages, and none is a table.  So a call of
`map_page` or `unmap_page` concerns its page alone, and a store the bytes of one page,
whatever else is mapped there and with which rights. -/
namespace QuarkKernel
open PagedMemory
open UserFrames (withFrame)

/-- The tables below the kernel are the programs', and each page there has a frame to
itself, which is in use and no table. -/
structure ProgramSpace (m : Machine) : Prop where
  inUse : TablesInUse m
  self : m.memory.SelfMapped
  tables : ∀ x, IsUser x → (m.memory.pde x).present = true →
    (m.memory.pde x).rw = true ∧ (m.memory.pde x).usermode = true
  pages : ∀ x v, BelowWindow x → m.memory.view x = some v → v.frame ∈ m.pageMap.reserved
  data : ∀ x v, IsUser x → m.memory.view x = some v → ¬ HoldsTable m.memory v.frame
  apart : ∀ x y v w, IsUser x → BelowWindow y → m.memory.view x = some v →
    m.memory.view y = some w → v.frame = w.frame → SamePage x y

/-- `page` is mapped to frame `g`, and nothing else is seen to change. -/
structure PutsPage (m m' : Machine) (page : Word) (g : Frame) (flags : Word) : Prop where
  space : ProgramSpace m'
  cr3 : m'.memory.cr3 = m.memory.cr3
  maps : ∀ x, SamePage page x →
    m'.memory.view x = some ⟨g, hasFlag flags pageRw, hasFlag flags pageUsermode⟩
  others : ∀ x, BelowWindow x → ¬ SamePage page x → m'.memory.view x = m.memory.view x
  grows : ∀ f, f ∈ m.pageMap.reserved → f ∈ m'.pageMap.reserved
  tables : ∀ f, f ∈ m.pageMap.reserved → (HoldsTable m'.memory f ↔ HoldsTable m.memory f)
  ram : ∀ f, ¬ HoldsTable m'.memory f → m'.memory.ram f = m.memory.ram f

/-- `page` is not mapped any more. -/
structure TakesPage (m m' : Machine) (page : Word) : Prop where
  space : ProgramSpace m'
  cr3 : m'.memory.cr3 = m.memory.cr3
  absent : ∀ x, SamePage page x → m'.memory.view x = none
  others : ∀ x, BelowWindow x → ¬ SamePage page x → m'.memory.view x = m.memory.view x
  pageMap : m'.pageMap = m.pageMap
  tables : ∀ f, HoldsTable m'.memory f ↔ HoldsTable m.memory f

/-! ### Views -/

section View
variable {m : PagedMemory} {x : Word} {f : Frame}

theorem IsUser.belowWindow (hx : IsUser x) : BelowWindow x := hx.ne

theorem frameOf_eq_view (m : PagedMemory) (x : Word) :
    m.frameOf false x = (m.view x).map PageView.frame := by
  rw [PagedMemory.frameOf, PagedMemory.view, Entry.permits, Entry.permits]
  simp only [Bool.not_false, Bool.true_or, Bool.and_true]
  split <;> rfl

theorem loadByte_eq_view (m : PagedMemory) (x : Word) :
    m.loadByte x = (m.view x).map fun v => (m.ram v.frame).byte (pageOffset x) := by
  rw [PagedMemory.loadByte, frameOf_eq_view, Option.map_map]
  rfl

theorem view_of_frameOf (h : m.frameOf true x = some f) :
    ∃ v, m.view x = some v ∧ v.frame = f := by
  have hread := frameOf_false h
  rw [frameOf_eq_view] at hread
  exact Option.map_eq_some_iff.mp hread

theorem userAccessible_iff_view :
    m.UserAccessible x ↔ ∃ v, m.view x = some v ∧ v.rw = true ∧ v.usermode = true := by
  rw [UserAccessible, PagedMemory.frameOf, PagedMemory.view, Entry.permits, Entry.permits]
  cases (m.pde x).present
  · simp
  · cases (m.pte x).present
    · simp
    · cases (m.pde x).rw <;> cases (m.pte x).rw <;> simp

/-- A frame that holds no table does not matter to the walk. -/
theorem view_setFrame (hf : ¬ HoldsTable m f) (data : FrameData)
    (hx : BelowWindow x) : (m.setFrame f data).view x = m.view x := by
  have hne : f ≠ m.cr3 := PageTables.new_ne hf
  refine view_congr (pde_setFrame data x hne) fun hp => pte_setFrame data hne ?_
  rintro rfl
  exact hf (PageTables.holdsTable_pde hx hp)

end View

/-! ### A page changes -/

section Change
variable {m m' : Machine} {page : Word}

/-- The tables of the programs can be written to. -/
theorem ProgramSpace.usableTable (h : ProgramSpace m) (hpage : IsUser page)
    (hp : (m.memory.pde page).present = true) :
    UsableTable m.memory (dirIndex page) (m.memory.pde page).physicalAddress :=
  ⟨permits_iff.mpr ⟨hp, (h.tables page hpage hp).1⟩, rfl, h.inUse.tables.ne _ hpage.ne hp⟩

/-- **One page more or less.**  It is an address space for programs still when nothing else
is seen to change, and what the page shows now is a frame in use of its own. -/
theorem ProgramSpace.of_view {now : Option PageView} (h : ProgramSpace m) (hinUse : TablesInUse m')
    (hself : m'.memory.SelfMapped)
    (htables : ∀ x, IsUser x → (m'.memory.pde x).present = true →
      (m'.memory.pde x).rw = true ∧ (m'.memory.pde x).usermode = true)
    (hpage : ∀ x, SamePage page x → m'.memory.view x = now)
    (hothers : ∀ x, BelowWindow x → ¬ SamePage page x → m'.memory.view x = m.memory.view x)
    (hgrows : ∀ f, f ∈ m.pageMap.reserved → f ∈ m'.pageMap.reserved)
    (hholds : ∀ f, f ∈ m.pageMap.reserved → (HoldsTable m'.memory f ↔ HoldsTable m.memory f))
    (hnow : ∀ v, now = some v → v.frame ∈ m.pageMap.reserved ∧ ¬ HoldsTable m.memory v.frame ∧
      ∀ y w, BelowWindow y → ¬ SamePage page y → m.memory.view y = some w → w.frame ≠ v.frame) :
    ProgramSpace m' where
  inUse := hinUse
  self := hself
  tables := htables
  pages x v hx hv := by
    by_cases hpx : SamePage page x
    · exact hgrows _ (hnow v ((hpage x hpx).symm.trans hv)).1
    · rw [hothers x hx hpx] at hv
      exact hgrows _ (h.pages x v hx hv)
  data x v hx hv := by
    by_cases hpx : SamePage page x
    · obtain ⟨hused, hnot, -⟩ := hnow v ((hpage x hpx).symm.trans hv)
      exact fun ht => hnot ((hholds _ hused).mp ht)
    · rw [hothers x hx.belowWindow hpx] at hv
      exact fun ht => h.data x v hx hv ((hholds _ (h.pages x v hx.belowWindow hv)).mp ht)
  apart x y v w hx hy hv hw heq := by
    by_cases hpx : SamePage page x
    · obtain ⟨-, -, hfree⟩ := hnow v ((hpage x hpx).symm.trans hv)
      by_contra hne
      have hpy : ¬ SamePage page y := fun hpy => hne (hpx.symm.trans hpy)
      rw [hothers y hy hpy] at hw
      exact hfree y w hy hpy hw heq.symm
    · rw [hothers x hx.belowWindow hpx] at hv
      by_cases hpy : SamePage page y
      · obtain ⟨-, -, hfree⟩ := hnow w ((hpage y hpy).symm.trans hw)
        exact absurd heq (hfree x v hx.belowWindow hpx hv)
      · rw [hothers y hy hpy] at hw
        exact h.apart x y v w hx hy hv hw heq

end Change

/-! ### Mapping a page -/

section Map
variable {m m' m1 : Machine} {page flags : Word} {f g : Frame} {status : Status}

/-- The tables of the programs are theirs, the new one too. -/
theorem HasTable.rights (htable : HasTable m page m1) (h : ProgramSpace m)
    (hnew : ∀ f, m.pageMap.next = some f → ¬ HoldsTable m.memory f) {x : Word} (hx : IsUser x)
    (hp : (m1.memory.pde x).present = true) :
    (m1.memory.pde x).rw = true ∧ (m1.memory.pde x).usermode = true := by
  cases htable with
  | old _ => exact h.tables x hx hp
  | new n _ hnext =>
    have hentry : (Machine.withTable m.memory page n).pde x =
        if dirIndex x = dirIndex page then Machine.tablePde (m.memory.pde page) n
        else m.memory.pde x := PageTables.entry_withTable (hnew n hnext) (dirIndex x)
    dsimp only at hp ⊢
    rw [hentry] at hp ⊢
    split
    · exact ⟨rfl, rfl⟩
    · rename_i hdir
      rw [if_neg hdir] at hp
      exact h.tables x hx hp

/-- Only tables are written to. -/
theorem HasTable.ram (htable : HasTable m page m1) (hbelow : BelowWindow page)
    (hp : (m1.memory.pde page).present = true)
    (hf : ¬ HoldsTable m1.memory f) (frame : Word) :
    (withPage m1.memory page frame flags).ram f = m.memory.ram f := by
  have htab : f ≠ (m1.memory.pde page).physicalAddress := by
    rintro rfl
    exact hf (PageTables.holdsTable_pde hbelow hp)
  have hold : (withPage m1.memory page frame flags).ram f = m1.memory.ram f :=
    setFrame_ram_of_ne _ _ htab
  rw [hold]
  cases htable with
  | old _ => rfl
  | new n hp' hnext =>
    have hcr3 : f ≠ m.memory.cr3 := fun heq => hf (.inl heq)
    have hne : f ≠ n := by
      rintro rfl
      apply htab
      have hpde : (Machine.withTable m.memory page f).pde page =
          Machine.tablePde (m.memory.pde page) f :=
        (directory_withTable hcr3 (dirIndex page)).trans (if_pos rfl)
      rw [hpde]
      rfl
    show (Machine.withTable m.memory page n).ram f = _
    rw [Machine.withTable, setFrame_ram_of_ne _ _ hne]
    exact setFrame_ram_of_ne _ _ hcr3

/-- **`map_page` of a page below the kernel**, to a frame no other page shows. -/
theorem ProgramSpace.mapPage (h : ProgramSpace m) (hpage : IsUser page)
    (hg : g ∈ m.pageMap.reserved) (hnot : ¬ HoldsTable m.memory g)
    (hfree : ∀ y v, BelowWindow y → ¬ SamePage page y → m.memory.view y = some v → v.frame ≠ g)
    (hmap : m.mapPage page (frameAddress g) flags = some (status, m')) :
    status = .enomem ∨ status = .enone ∧ PutsPage m m' page g flags := by
  have hbelow := hpage.belowWindow
  have hnew : ∀ f, m.pageMap.next = some f → ¬ HoldsTable m.memory f :=
    fun f hf => h.inUse.unused hf
  cases h.inUse.tables.mapPage_cases hbelow hnew hmap with
  | refuses ha => exact absurd (frameAddress_aligned g) ha
  | runsOut => exact .inl rfl
  | @maps m1 ha htable hself husable =>
    right
    refine ⟨rfl, ?_⟩
    obtain ⟨htables, hp1, hview⟩ := htable.tables h.inUse.tables hbelow hnew
    have hmaps : MapsTo m _ page (frameAddress g) flags :=
      htable.mapsTo h.inUse.tables hbelow hnew husable
    have hinUse := h.inUse.mapsTo hmaps
    have hcr3 : m1.memory.cr3 = m.memory.cr3 := by
      cases htable <;> rfl
    have hdir : ∀ x, (withPage m1.memory page (frameAddress g) flags).pde x = m1.memory.pde x :=
      fun x => htables.entry_setPte hbelow hp1 _ _
    have hholds : ∀ f, HoldsTable (withPage m1.memory page (frameAddress g) flags) f ↔
        HoldsTable m1.memory f := htables.holdsTable_setPte hbelow hp1 _
    have hgrows : ∀ f, f ∈ m.pageMap.reserved → f ∈ m1.pageMap.reserved :=
      fun f hf => hmaps.frames.grows hf
    have hsame : ∀ f, f ∈ m.pageMap.reserved →
        (HoldsTable (withPage m1.memory page (frameAddress g) flags) f ↔ HoldsTable m.memory f) :=
      fun f hf => hmaps.frames.holdsTable_iff h.inUse.fresh hf
    have hself' : ∀ x, SamePage page x →
        (withPage m1.memory page (frameAddress g) flags).view x =
          some ⟨g, hasFlag flags pageRw, hasFlag flags pageUsermode⟩ := by
      intro x hx
      have hmode : (!(m.memory.pde page).present || (m.memory.pde page).usermode) = true := by
        cases hp : (m.memory.pde page).present with
        | false => rfl
        | true => exact (h.tables page hpage hp).2
      have hpage' := hmaps.maps x hx
      rw [hmode, Bool.true_and, frameNumber_frameAddress] at hpage'
      exact hpage'
    refine ⟨h.of_view hinUse ?_ ?_ hself' hmaps.others hgrows hsame ?_, hcr3, hself', hmaps.others,
      hgrows, hsame, ?_⟩
    · exact hself.setEntry _ fun heq => husable.ne heq.1.symm
    · intro x hx hp
      have hpde := hdir x
      dsimp only at hp ⊢
      rw [hpde] at hp ⊢
      exact htable.rights h hnew hx hp
    · intro v hv
      obtain rfl := Option.some.inj hv
      exact ⟨hg, hnot, hfree⟩
    · intro f hf
      exact htable.ram hbelow hp1 (fun ht => hf ((hholds f).mpr ht)) _

/-- It succeeds when there is a table for the page. -/
theorem ProgramSpace.mapPage_of_table (h : ProgramSpace m) (hpage : IsUser page) (g : Frame)
    (flags : Word) (hp : (m.memory.pde page).present = true) :
    ∃ memory, m.mapPage page (frameAddress g) flags = some (.enone, { m with memory }) := by
  exact ⟨_, Machine.mapPage_of_present h.self hpage.ne (frameAddress_aligned g)
    (h.usableTable hpage hp)⟩

/-- It succeeds when there is a frame for one. -/
theorem ProgramSpace.mapPage_of_next {n : Frame} (h : ProgramSpace m) (hpage : IsUser page)
    (g : Frame) (flags : Word) (hp : (m.memory.pde page).present = false)
    (hnext : m.pageMap.next = some n) :
    ∃ memory, m.mapPage page (frameAddress g) flags =
      some (.enone, ⟨memory, ⟨m.pageMap.answers.tail, n :: m.pageMap.reserved⟩⟩) := by
  have hne : n ≠ m.memory.cr3 := PageTables.new_ne (h.inUse.unused hnext)
  exact ⟨_, Machine.mapPage_of_some h.self hpage.ne (frameAddress_aligned g) hp hnext hne⟩

end Map

/-- A frame more in use. -/
theorem ProgramSpace.withFrame {m : Machine} {g : Frame} (h : ProgramSpace m)
    (hnext : m.pageMap.next = some g) : ProgramSpace (withFrame m g) where
  inUse := h.inUse.withFrame hnext
  self := h.self
  tables := h.tables
  pages x v hx hv := List.mem_cons_of_mem _ (h.pages x v hx hv)
  data := h.data
  apart := h.apart

/-- The bytes of the other pages are where they were. -/
theorem PutsPage.loadByte {m m' : Machine} {page flags x : Word} {g : Frame}
    (h : PutsPage m m' page g flags) (hx : IsUser x) (hne : ¬ SamePage page x) :
    m'.memory.loadByte x = m.memory.loadByte x := by
  have hview := h.others x hx.belowWindow hne
  rw [loadByte_eq_view, loadByte_eq_view, ← hview]
  rcases Option.eq_none_or_eq_some (m'.memory.view x) with hnone | ⟨v, hv⟩
  · rw [hnone]
    rfl
  · rw [hv, Option.map_some, Option.map_some, h.ram _ (h.space.data x v hx hv)]

/-! ### Unmapping a page -/

section Unmap
variable {m m' : Machine} {page frame : Word}

/-- **`unmap_page` of a page below the kernel.** -/
theorem ProgramSpace.unmapPage (h : ProgramSpace m) (hpage : IsUser page)
    (hunmap : m.unmapPage page = some (frame, m')) :
    frame = Status.eoutofbounds.code ∨ TakesPage m m' page := by
  have hbelow := hpage.belowWindow
  by_cases hp : (m.memory.pde page).present = true ∧ (m.memory.pte page).present = true
  · obtain ⟨hpde, hpte⟩ := hp
    have husable := h.usableTable hpage hpde
    rw [Machine.unmapPage_of_present h.self hpage.ne husable hpte] at hunmap
    obtain ⟨-, rfl⟩ := Prod.mk.inj (Option.some.inj hunmap)
    obtain ⟨e, he⟩ : ∃ e, e = pteWith (m.memory.entry (m.memory.pde page).physicalAddress
      (tableIndex page)) 0 0 := ⟨_, rfl⟩
    have hgone : e.present = false := by
      rw [he]
      rfl
    rw [← he]
    have htables := h.inUse.tables
    have hholds := htables.holdsTable_setPte hbelow hpde e
    have habsent : ∀ x, SamePage page x →
        (m.memory.setEntry (m.memory.pde page).physicalAddress (tableIndex page) e).view x =
          none := by
      intro x hx
      obtain ⟨-, hpte'⟩ := htables.walk_setPte hbelow hpde e hx
      refine view_of_absent fun hpres => ?_
      rw [hpte', hgone] at hpres
      cases hpres.2
    have hothers : ∀ x, BelowWindow x → ¬ SamePage page x →
        (m.memory.setEntry (m.memory.pde page).physicalAddress (tableIndex page) e).view x =
          m.memory.view x :=
      fun x hx hne => htables.view_setPte hbelow hpde e hx hne
    have hinUse : TablesInUse
        ⟨m.memory.setEntry (m.memory.pde page).physicalAddress (tableIndex page) e, m.pageMap⟩ :=
      ⟨htables.setEntry hbelow hpde e, h.inUse.fresh,
        fun f hf => h.inUse.reserved f ((hholds f).mp hf)⟩
    right
    refine ⟨h.of_view hinUse ?_ ?_ habsent hothers (fun _ hf => hf) (fun f _ => hholds f) nofun, rfl,
      habsent, hothers, rfl, hholds⟩
    · exact h.self.setEntry _ fun heq => husable.ne heq.1.symm
    · intro x hx hpx
      have hentry : (m.memory.setEntry (m.memory.pde page).physicalAddress (tableIndex page) e).pde x
          = m.memory.pde x := htables.entry_setPte hbelow hpde e _
      dsimp only at hpx ⊢
      rw [hentry] at hpx ⊢
      exact h.tables x hx hpx
  · rw [Machine.unmapPage_of_absent h.self hpage.ne hp] at hunmap
    obtain ⟨rfl, -⟩ := Prod.mk.inj (Option.some.inj hunmap)
    exact .inl rfl

/-- It succeeds for a page that is there. -/
theorem ProgramSpace.exists_unmapPage (h : ProgramSpace m) (hpage : IsUser page)
    (hview : (m.memory.view page).isSome = true) :
    ∃ f m', m.unmapPage page = some (frameAddress f ||| page &&& 0xFFF, m') := by
  obtain ⟨v, hv⟩ := Option.isSome_iff_exists.mp hview
  rw [PagedMemory.view, Option.ite_none_right_eq_some, Bool.and_eq_true] at hv
  obtain ⟨⟨hpde, hpte⟩, -⟩ := hv
  exact ⟨_, _, Machine.unmapPage_of_present h.self hpage.ne (h.usableTable hpage hpde) hpte⟩

end Unmap

/-! ### Storing a byte -/

section Store
variable {m : Machine} {x : Word} {b : BitVec 8} {memory : PagedMemory}

/-- Other contents for a frame that holds no table. -/
theorem ProgramSpace.setFrame {f : Frame} (h : ProgramSpace m) (hf : ¬ HoldsTable m.memory f)
    (data : FrameData) : ProgramSpace { m with memory := m.memory.setFrame f data } := by
  have hne : f ≠ m.memory.cr3 := PageTables.new_ne hf
  have hentry : ∀ d, (m.memory.setFrame f data).entry m.memory.cr3 d =
      m.memory.entry m.memory.cr3 d := fun d => entry_setFrame_of_ne m.memory data d hne.symm
  have hholds := PageTables.holdsTable_congr (setFrame_cr3 m.memory f data) hentry
  have hview : ∀ y, BelowWindow y → (m.memory.setFrame f data).view y = m.memory.view y :=
    fun y hy => view_setFrame hf data hy
  refine ⟨⟨h.inUse.tables.congr (setFrame_cr3 m.memory f data) hentry, h.inUse.fresh, ?_⟩,
    h.self.setFrame data hne, ?_, ?_, ?_, ?_⟩
  · intro g hg
    exact h.inUse.reserved g ((hholds g).mp hg)
  · intro y hy hp
    have hpde := pde_setFrame data y hne
    dsimp only at hp ⊢
    rw [hpde] at hp ⊢
    exact h.tables y hy hp
  · intro y v hy hv
    rw [hview y hy] at hv
    exact h.pages y v hy hv
  · intro y v hy hv
    rw [hview y hy.belowWindow] at hv
    exact fun ht => h.data y v hy hv ((hholds _).mp ht)
  · intro y z v w hy hz hv hw heq
    rw [hview y hy.belowWindow] at hv
    rw [hview z hz] at hw
    exact h.apart y z v w hy hz hv hw heq

/-- **A store below the kernel** changes one page's bytes and no page. -/
theorem ProgramSpace.storeByte (h : ProgramSpace m) (hx : IsUser x)
    (hstore : m.memory.storeByte x b = some memory) :
    ProgramSpace { m with memory } ∧ memory.cr3 = m.memory.cr3 ∧
      (m.memory.view x).isSome = true ∧
      (∀ y, BelowWindow y → memory.view y = m.memory.view y) ∧
      (∀ f, HoldsTable memory f ↔ HoldsTable m.memory f) ∧
      ∀ y, IsUser y → ¬ SamePage x y → memory.loadByte y = m.memory.loadByte y := by
  obtain ⟨f, hframe, rfl⟩ := Option.map_eq_some_iff.mp hstore
  obtain ⟨v, hv, rfl⟩ := view_of_frameOf hframe
  have hnot := h.data x v hx hv
  have hne : v.frame ≠ m.memory.cr3 := PageTables.new_ne hnot
  have hview : ∀ y, BelowWindow y → (m.memory.setFrame v.frame
      ((m.memory.ram v.frame).setByte (pageOffset x) b)).view y = m.memory.view y :=
    fun y hy => view_setFrame hnot _ hy
  refine ⟨h.setFrame hnot _, rfl, by rw [hv]; rfl, hview, ?_, ?_⟩
  · exact PageTables.holdsTable_congr (setFrame_cr3 ..)
      fun d => entry_setFrame_of_ne m.memory _ d hne.symm
  · intro y hy hxy
    rw [loadByte_eq_view, loadByte_eq_view, hview y hy.belowWindow]
    rcases Option.eq_none_or_eq_some (m.memory.view y) with hnone | ⟨w, hw⟩
    · rw [hnone]
      rfl
    · have hother : w.frame ≠ v.frame :=
        fun heq => hxy (h.apart x y v w hx hy.belowWindow hv hw heq.symm)
      rw [hw, Option.map_some, Option.map_some, setFrame_ram_of_ne _ _ hother]

end Store

end QuarkKernel
