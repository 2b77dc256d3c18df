import QuarkKernel.MemoryManager

/-! # The programs' part of an address space

The directory entries below the kernel's.  `UserSpace` is what every address space
made by `create_address_space` and `map_page` has: its tables can be written, are
different frames, are in use, and no page of it shows one of them.  A table is
added without any effect on what programs see (`UserSpace.withTable`), an entry of
a table concerns one page (`UserSpace.setPte`), and a store concerns one frame
(`UserSpace.setFrame`). -/
namespace QuarkKernel
open PagedMemory

/-- An address of a program. -/
def IsUser (x : Word) : Prop := (dirIndex x).toNat < 1021

theorem isUser_iff {x : Word} : IsUser x ↔ x.toNat < 4282384384 := by
  rw [IsUser, dirIndex_toNat]
  omega

theorem IsUser.ne {x : Word} (h : IsUser x) : dirIndex x ≠ 1023 := by
  intro heq
  rw [IsUser, heq] at h
  exact absurd h (by decide)

/-- Two addresses in one page. -/
def SamePage (x y : Word) : Prop := x.toNat / 4096 = y.toNat / 4096

theorem samePage_iff {x y : Word} :
    SamePage x y ↔ dirIndex x = dirIndex y ∧ tableIndex x = tableIndex y := by
  constructor
  · intro h
    unfold SamePage at h
    constructor
    · apply BitVec.eq_of_toNat_eq
      rw [dirIndex_toNat, dirIndex_toNat]
      omega
    · apply BitVec.eq_of_toNat_eq
      rw [tableIndex_toNat, tableIndex_toNat, h]
  · rintro ⟨hdir, htable⟩
    have hdir := congrArg BitVec.toNat hdir
    have htable := congrArg BitVec.toNat htable
    rw [dirIndex_toNat, dirIndex_toNat] at hdir
    rw [tableIndex_toNat, tableIndex_toNat] at htable
    unfold SamePage
    omega

/-- The frame holds the directory or one of the tables of the programs' part. -/
def IsTable (m : PagedMemory) (f : Frame) : Prop :=
  f = m.cr3 ∨ ∃ d : BitVec 10, d.toNat < 1021 ∧ (m.entry m.cr3 d).present = true ∧
    (m.entry m.cr3 d).physicalAddress = f

/-- The programs' part of the current address space is well formed. -/
structure UserSpace (m : PagedMemory) (reserved : List Frame) : Prop where
  self : m.SelfMapped
  directory : m.cr3 ∈ reserved
  table : ∀ d : BitVec 10, d.toNat < 1021 → (m.entry m.cr3 d).present = true →
    (m.entry m.cr3 d).rw = true ∧ (m.entry m.cr3 d).usermode = true ∧
      (m.entry m.cr3 d).physicalAddress ≠ m.cr3 ∧ (m.entry m.cr3 d).physicalAddress ∈ reserved
  distinct : ∀ d d' : BitVec 10, d.toNat < 1021 → d'.toNat < 1021 →
    (m.entry m.cr3 d).present = true → (m.entry m.cr3 d').present = true →
    (m.entry m.cr3 d).physicalAddress = (m.entry m.cr3 d').physicalAddress → d = d'
  data : ∀ x f, IsUser x → m.translate x = some f → f ∈ reserved ∧ ¬ IsTable m f

/-- Nothing changes about the page of an address, its contents apart. -/
structure SameView (m m' : PagedMemory) (x : Word) : Prop where
  frameOf : ∀ write, m'.frameOf write x = m.frameOf write x
  translate : m'.translate x = m.translate x
  user : m'.UserAccessible x ↔ m.UserAccessible x

theorem SameView.trans {m m' m'' : PagedMemory} {x : Word} (h : SameView m m' x)
    (h' : SameView m' m'' x) : SameView m m'' x :=
  ⟨fun write => (h'.frameOf write).trans (h.frameOf write), h'.translate.trans h.translate,
    h'.user.trans h.user⟩

theorem SameView.of_walk {m m' : PagedMemory} {x : Word} (hpde : m'.pde x = m.pde x)
    (hpte : m'.pte x = m.pte x) : SameView m m' x := by
  refine ⟨frameOf_congr hpde hpte, ?_, ?_⟩
  · rw [PagedMemory.translate, PagedMemory.translate, hpde, hpte]
  · rw [UserAccessible, UserAccessible, frameOf_congr hpde hpte, hpde, hpte]

/-- Neither before nor after is there a page. -/
theorem SameView.of_absent {m m' : PagedMemory} {x : Word}
    (h : ¬ ((m.pde x).present = true ∧ (m.pte x).present = true))
    (h' : ¬ ((m'.pde x).present = true ∧ (m'.pte x).present = true)) : SameView m m' x := by
  have hnone : ∀ m : PagedMemory, ¬ ((m.pde x).present = true ∧ (m.pte x).present = true) →
      (∀ write, m.frameOf write x = none) ∧ m.translate x = none := by
    intro m h
    constructor
    · intro write
      rw [PagedMemory.frameOf, if_neg]
      simp only [Entry.permits, Bool.and_eq_true]
      rintro ⟨⟨hpde, -⟩, hpte, -⟩
      exact h ⟨hpde, hpte⟩
    · rw [PagedMemory.translate, if_neg]
      rw [Bool.and_eq_true]
      exact h
  obtain ⟨hframe, htrans⟩ := hnone m h
  obtain ⟨hframe', htrans'⟩ := hnone m' h'
  refine ⟨fun write => by rw [hframe, hframe'], by rw [htrans, htrans'], ?_⟩
  rw [UserAccessible, UserAccessible, hframe, hframe']
  simp

/-! ### One entry more -/

section Entries
variable {m : PagedMemory} {f : Frame} {x page : Word}

/-- An entry in a table, which is not the directory, leaves the directory as it is. -/
theorem directory_setPte (hne : (m.pde page).physicalAddress ≠ m.cr3) (e : Entry) (d : BitVec 10) :
    (m.setEntry (m.pde page).physicalAddress (tableIndex page) e).entry m.cr3 d =
      m.entry m.cr3 d :=
  entry_setEntry_of_ne m e fun heq => hne heq.1.symm

/-- The page the entry is for. -/
theorem walk_setPte_self (hne : (m.pde page).physicalAddress ≠ m.cr3) (e : Entry)
    (hx : SamePage page x) :
    (m.setEntry (m.pde page).physicalAddress (tableIndex page) e).pde x = m.pde page ∧
      (m.setEntry (m.pde page).physicalAddress (tableIndex page) e).pte x = e := by
  obtain ⟨hdir, htable⟩ := samePage_iff.mp hx
  have hpde : (m.setEntry (m.pde page).physicalAddress (tableIndex page) e).pde x =
      m.pde page := by
    rw [PagedMemory.pde, setEntry_cr3, directory_setPte hne e, ← hdir]
    rfl
  refine ⟨hpde, ?_⟩
  rw [PagedMemory.pte, hpde, ← htable, entry_setEntry_self]

/-- The directory with an empty table in frame `f`. -/
theorem directory_withTable (hf : f ≠ m.cr3) (d : BitVec 10) :
    (Machine.withTable m page f).entry m.cr3 d =
      if d = dirIndex page then Machine.tablePde (m.pde page) f else m.entry m.cr3 d := by
  rw [Machine.withTable, entry_setFrame_of_ne _ _ _ hf.symm]
  split
  · rename_i heq
    rw [heq, entry_setEntry_self]
  · rename_i hne
    exact entry_setEntry_of_ne _ _ fun heq => hne heq.2

/-- All entries of the new table are absent. -/
theorem absent_pte_withTable (hf : f ≠ m.cr3) (hdir : dirIndex x = dirIndex page) :
    ((Machine.withTable m page f).pte x).present = false := by
  have hpde : (Machine.withTable m page f).pde x = Machine.tablePde (m.pde page) f :=
    (directory_withTable hf _).trans (if_pos hdir)
  rw [PagedMemory.pte, hpde, Machine.withTable]
  show (PagedMemory.entry (PagedMemory.setFrame _ f _) f _).present = false
  rw [entry_setFrame_self, Entry.ofWord_toWord]
  rfl

/-- The other tables stay as they are. -/
theorem walk_withTable_of_ne (hf : f ≠ m.cr3) (hdir : dirIndex x ≠ dirIndex page) :
    (Machine.withTable m page f).pde x = m.pde x ∧
      ((m.pde x).physicalAddress ≠ f → (m.pde x).physicalAddress ≠ m.cr3 →
        (Machine.withTable m page f).pte x = m.pte x) := by
  have hpde : (Machine.withTable m page f).pde x = m.pde x :=
    (directory_withTable hf _).trans (if_neg hdir)
  refine ⟨hpde, fun hne hcr3 => ?_⟩
  rw [PagedMemory.pte, hpde, Machine.withTable, entry_setFrame_of_ne _ _ _ hne]
  exact entry_setEntry_of_ne _ _ fun heq => hcr3 heq.1

end Entries

namespace UserSpace
variable {m : PagedMemory} {reserved : List Frame} {f : Frame} {x page : Word}

theorem usable (h : UserSpace m reserved) (hx : IsUser x) (hp : (m.pde x).present = true) :
    UsableTable m (dirIndex x) (m.pde x).physicalAddress := by
  obtain ⟨hrw, -, hne, -⟩ := h.table (dirIndex x) hx hp
  refine ⟨?_, rfl, hne⟩
  rw [Entry.permits, Bool.and_eq_true]
  exact ⟨hp, by rw [hrw]; rfl⟩

theorem isTable_pde (hx : IsUser x) (hp : (m.pde x).present = true) :
    IsTable m (m.pde x).physicalAddress :=
  .inr ⟨dirIndex x, hx, hp, rfl⟩

theorem isTable_reserved (h : UserSpace m reserved) (hf : IsTable m f) : f ∈ reserved := by
  rcases hf with rfl | ⟨d, hd, hp, rfl⟩
  · exact h.directory
  · exact (h.table d hd hp).2.2.2

/-- More frames in use. -/
theorem mono (h : UserSpace m reserved) {reserved' : List Frame}
    (hsub : ∀ f, f ∈ reserved → f ∈ reserved') : UserSpace m reserved' := by
  refine ⟨h.self, hsub _ h.directory, ?_, h.distinct, ?_⟩
  · intro d hd hp
    obtain ⟨hrw, huser, hne, hin⟩ := h.table d hd hp
    exact ⟨hrw, huser, hne, hsub _ hin⟩
  · intro x f hx hf
    obtain ⟨hin, hnot⟩ := h.data x f hx hf
    exact ⟨hsub f hin, hnot⟩

/-! ### Stores -/

/-- Other contents for a frame that holds no table. -/
theorem sameView_setFrame (hf : ¬ IsTable m f) (data : FrameData) (hx : IsUser x) :
    SameView m (m.setFrame f data) x := by
  have hne : f ≠ m.cr3 := fun heq => hf (.inl heq)
  have hpde := pde_setFrame data x hne
  by_cases hp : (m.pde x).present = true
  · refine .of_walk hpde (pte_setFrame data hne ?_)
    rintro rfl
    exact hf (isTable_pde hx hp)
  · refine .of_absent (fun h => hp h.1) ?_
    rw [hpde]
    exact fun h => hp h.1

theorem isTable_setFrame (hf : ¬ IsTable m f) (data : FrameData) (g : Frame) :
    IsTable (m.setFrame f data) g ↔ IsTable m g := by
  have hne : m.cr3 ≠ f := fun heq => hf (.inl heq.symm)
  have hentry : ∀ d, (m.setFrame f data).entry m.cr3 d = m.entry m.cr3 d :=
    fun d => entry_setFrame_of_ne m data d hne
  simp only [IsTable, setFrame_cr3, hentry]

theorem setFrame (h : UserSpace m reserved) (hf : ¬ IsTable m f) (data : FrameData) :
    UserSpace (m.setFrame f data) reserved := by
  have hne : m.cr3 ≠ f := fun heq => hf (.inl heq.symm)
  have hentry : ∀ d, (m.setFrame f data).entry m.cr3 d = m.entry m.cr3 d :=
    fun d => entry_setFrame_of_ne m data d hne
  refine ⟨h.self.setFrame data hne.symm, h.directory, ?_, ?_, ?_⟩
  · simp only [setFrame_cr3, hentry]
    exact h.table
  · simp only [setFrame_cr3, hentry]
    exact h.distinct
  · intro x g hx hg
    rw [(sameView_setFrame hf data hx).translate] at hg
    rw [isTable_setFrame hf data]
    exact h.data x g hx hg

/-! ### Another entry in a table -/

section SetPte
variable (h : UserSpace m reserved) (hpage : IsUser page) (hp : (m.pde page).present = true)
  (e : Entry)
include h hpage hp

/-- The directory stays as it is. -/
theorem entry_setPte (d : BitVec 10) :
    (m.setEntry (m.pde page).physicalAddress (tableIndex page) e).entry m.cr3 d =
      m.entry m.cr3 d :=
  directory_setPte (h.usable hpage hp).ne e d

theorem isTable_setPte (g : Frame) :
    IsTable (m.setEntry (m.pde page).physicalAddress (tableIndex page) e) g ↔ IsTable m g := by
  simp only [IsTable, setEntry_cr3, h.entry_setPte hpage hp e]

/-- The page the entry is for. -/
theorem walk_setPte {x : Word} (hx : SamePage page x) :
    (m.setEntry (m.pde page).physicalAddress (tableIndex page) e).pde x = m.pde page ∧
      (m.setEntry (m.pde page).physicalAddress (tableIndex page) e).pte x = e :=
  walk_setPte_self (h.usable hpage hp).ne e hx

/-- All other pages. -/
theorem sameView_setPte {x : Word} (hx : IsUser x) (hne : ¬ SamePage page x) :
    SameView m (m.setEntry (m.pde page).physicalAddress (tableIndex page) e) x := by
  have hpde : (m.setEntry (m.pde page).physicalAddress (tableIndex page) e).pde x = m.pde x :=
    h.entry_setPte hpage hp e _
  by_cases hpx : (m.pde x).present = true
  · refine .of_walk hpde ?_
    rw [PagedMemory.pte, hpde]
    refine entry_setEntry_of_ne m e ?_
    rintro ⟨hframe, hindex⟩
    -- equal tables are the same table
    exact hne (samePage_iff.mpr ⟨h.distinct _ _ hpage hx hp hpx hframe.symm, hindex.symm⟩)
  · refine .of_absent (fun hp => hpx hp.1) ?_
    rw [hpde]
    exact fun hp => hpx hp.1

theorem setPte (hdata : e.present = true → e.physicalAddress ∈ reserved ∧
      ¬ IsTable m e.physicalAddress) :
    UserSpace (m.setEntry (m.pde page).physicalAddress (tableIndex page) e) reserved := by
  have hentry := h.entry_setPte hpage hp e
  refine ⟨h.self.setEntry e fun heq => (h.usable hpage hp).ne heq.1.symm, h.directory, ?_, ?_, ?_⟩
  · simp only [setEntry_cr3, hentry]
    exact h.table
  · simp only [setEntry_cr3, hentry]
    exact h.distinct
  · intro x g hx hg
    rw [h.isTable_setPte hpage hp e]
    by_cases hsame : SamePage page x
    · obtain ⟨hpde, hpte⟩ := h.walk_setPte hpage hp e hsame
      rw [PagedMemory.translate, hpde, hpte, hp, Bool.true_and,
        Option.ite_none_right_eq_some] at hg
      obtain ⟨hpresent, hframe⟩ := hg
      rw [← Option.some.inj hframe]
      exact hdata hpresent
    · rw [(h.sameView_setPte hpage hp e hx hsame).translate] at hg
      exact h.data x g hx hg

end SetPte

/-! ### A new table -/

section WithTable
variable (h : UserSpace m reserved) (hpage : IsUser page) (hp : (m.pde page).present = false)
  (hf : f ∉ reserved)
include h hf

theorem fresh_ne : f ≠ m.cr3 := by
  rintro rfl
  exact hf h.directory

theorem entry_withTable (d : BitVec 10) :
    (Machine.withTable m page f).entry m.cr3 d =
      if d = dirIndex page then Machine.tablePde (m.pde page) f else m.entry m.cr3 d :=
  directory_withTable (h.fresh_ne hf) d

theorem isTable_withTable (hpage : IsUser page) (hp : (m.pde page).present = false) (g : Frame) :
    IsTable (Machine.withTable m page f) g ↔ g = f ∨ IsTable m g := by
  have hcr3 : (Machine.withTable m page f).cr3 = m.cr3 := rfl
  simp only [IsTable, hcr3, h.entry_withTable hf]
  constructor
  · rintro (hg | ⟨d, hd, hpd, hg⟩)
    · exact .inr (.inl hg)
    · split at hpd
      · rename_i heq
        rw [if_pos heq] at hg
        exact .inl hg.symm
      · rename_i hne
        rw [if_neg hne] at hg
        exact .inr (.inr ⟨d, hd, hpd, hg⟩)
  · rintro (rfl | hg | ⟨d, hd, hpd, hg⟩)
    · exact .inr ⟨dirIndex page, hpage, by rw [if_pos rfl]; rfl, by rw [if_pos rfl]; rfl⟩
    · exact .inl hg
    · refine .inr ⟨d, hd, ?_⟩
      have hne : d ≠ dirIndex page := by
        rintro rfl
        rw [show m.entry m.cr3 (dirIndex page) = m.pde page from rfl, hp] at hpd
        cases hpd
      rw [if_neg hne]
      exact ⟨hpd, hg⟩

/-- Nobody sees an empty table. -/
theorem sameView_withTable (hp : (m.pde page).present = false) (hx : IsUser x) :
    SameView m (Machine.withTable m page f) x := by
  have hne := h.fresh_ne hf
  by_cases hdir : dirIndex x = dirIndex page
  · have hold : m.pde x = m.pde page := by rw [PagedMemory.pde, hdir, PagedMemory.pde]
    refine .of_absent ?_ ?_
    · rw [hold, hp]
      exact fun hp => absurd hp.1 (by decide)
    · rw [absent_pte_withTable hne hdir]
      exact fun hp => absurd hp.2 (by decide)
  · obtain ⟨hpde, hpte⟩ := walk_withTable_of_ne hne hdir
    by_cases hpx : (m.pde x).present = true
    · refine .of_walk hpde (hpte ?_ (h.usable hx hpx).ne)
      rintro rfl
      exact hf (h.isTable_reserved (isTable_pde hx hpx))
    · refine .of_absent (fun hp => hpx hp.1) ?_
      rw [hpde]
      exact fun hp => hpx hp.1

include hpage hp in
theorem withTable : UserSpace (Machine.withTable m page f) (f :: reserved) := by
  have hcr3 : (Machine.withTable m page f).cr3 = m.cr3 := rfl
  have hentry : ∀ d, (Machine.withTable m page f).entry m.cr3 d = _ := h.entry_withTable hf
  have hpde : ∀ d : BitVec 10, d.toNat < 1021 → d ≠ dirIndex page →
      (m.entry m.cr3 d).present = true → (m.entry m.cr3 d).physicalAddress ≠ f := by
    intro d hd _ hpd heq
    exact hf (heq ▸ (h.table d hd hpd).2.2.2)
  refine ⟨Machine.withTable_selfMapped h.self hpage.ne (h.fresh_ne hf),
    List.mem_cons_of_mem _ h.directory, ?_, ?_, ?_⟩
  · intro d hd hpd
    rw [hcr3, hentry] at hpd ⊢
    split
    · exact ⟨rfl, rfl, h.fresh_ne hf, List.mem_cons_self ..⟩
    · rename_i hne
      rw [if_neg hne] at hpd
      obtain ⟨hrw, huser, hne', hin⟩ := h.table d hd hpd
      exact ⟨hrw, huser, hne', List.mem_cons_of_mem _ hin⟩
  · intro d d' hd hd' hpd hpd' heq
    rw [hcr3, hentry] at hpd hpd'
    rw [hcr3, hentry, hentry] at heq
    by_cases hdp : d = dirIndex page
    · by_cases hdp' : d' = dirIndex page
      · rw [hdp, hdp']
      · rw [if_neg hdp'] at hpd'
        rw [if_pos hdp, if_neg hdp'] at heq
        exact absurd heq.symm (hpde d' hd' hdp' hpd')
    · rw [if_neg hdp] at hpd heq
      by_cases hdp' : d' = dirIndex page
      · rw [if_pos hdp'] at heq
        exact absurd heq (hpde d hd hdp hpd)
      · rw [if_neg hdp'] at hpd' heq
        exact h.distinct d d' hd hd' hpd hpd' heq
  · intro x g hx hg
    rw [(h.sameView_withTable hf hp hx).translate] at hg
    obtain ⟨hin, hnot⟩ := h.data x g hx hg
    refine ⟨List.mem_cons_of_mem _ hin, ?_⟩
    rw [h.isTable_withTable hf hpage hp]
    rintro (rfl | htable)
    · exact hf hin
    · exact hnot htable

end WithTable

end UserSpace

/-! ### `map_page` for a program -/

/-- `page` is mapped to frame `g` with all rights, and that is all programs see. -/
structure Mapped (m m' : Machine) (page : Word) (g : Frame) : Prop where
  space : UserSpace m'.memory m'.pageMap.reserved
  fresh : m'.pageMap.Fresh
  grows : ∀ f, f ∈ m.pageMap.reserved → f ∈ m'.pageMap.reserved
  answers : m'.pageMap.answers =
    m.pageMap.answers.drop (if (m.memory.pde page).present then 0 else 1)
  maps : ∀ x, SamePage page x → m'.memory.UserAccessible x ∧ m'.memory.translate x = some g
  other : ∀ x, IsUser x → ¬ SamePage page x → SameView m.memory m'.memory x
  tables : ∀ f, f ∈ m.pageMap.reserved → (IsTable m'.memory f ↔ IsTable m.memory f)
  data : ∀ f, ¬ IsTable m'.memory f → m'.memory.ram f = m.memory.ram f

namespace UserSpace
variable {m : Machine} {page flags : Word} {g : Frame}

/-- The case of a page whose table is there. -/
theorem mapPage_of_present (h : UserSpace m.memory m.pageMap.reserved) (hfresh : m.pageMap.Fresh)
    (hpage : IsUser page) (hg : g ∈ m.pageMap.reserved) (hnot : ¬ IsTable m.memory g)
    (hrw : hasFlag flags pageRw = true) (huser : hasFlag flags pageUsermode = true)
    (hp : (m.memory.pde page).present = true) :
    ∃ m', m.mapPage page (frameAddress g) flags = some (.enone, m') ∧ Mapped m m' page g := by
  have htable := h.usable hpage hp
  obtain ⟨e, he⟩ : ∃ e, e = pteWith (m.memory.entry (m.memory.pde page).physicalAddress
    (tableIndex page)) (pagePresent ||| flags) (frameAddress g) := ⟨_, rfl⟩
  have hpresent : e.present = true := by
    rw [he]
    exact hasFlag_or _ _ (by decide)
  have hwrite : e.rw = true := by
    rw [he]
    exact hasFlag_or_of_hasFlag _ hrw
  have hmode : e.usermode = true := by
    rw [he]
    exact hasFlag_or_of_hasFlag _ huser
  have hframe : e.physicalAddress = g := by
    rw [he]
    exact frameNumber_frameAddress g
  have hpermits : ∀ e : Entry, e.present = true → e.rw = true → e.permits true = true := by
    intro e hp hrw
    rw [Entry.permits, hp, hrw]
    rfl
  refine ⟨_, Machine.mapPage_of_present h.self hpage.ne (frameAddress_aligned g) htable, ?_⟩
  rw [← he]
  refine ⟨h.setPte hpage hp e fun _ => ?_, hfresh, fun _ hf => hf, by rw [hp]; rfl, ?_, ?_,
    fun f _ => h.isTable_setPte hpage hp e f, ?_⟩
  · rw [hframe]
    exact ⟨hg, hnot⟩
  · intro x hx
    obtain ⟨hpde, hpte⟩ := h.walk_setPte hpage hp e hx
    have hdir := h.table (dirIndex page) hpage hp
    refine ⟨⟨?_, ?_, ?_⟩, ?_⟩
    · rw [PagedMemory.frameOf, hpde, hpte, hpermits e hpresent hwrite]
      rw [show (m.memory.pde page).permits true = true from htable.permits]
      rfl
    · rw [hpde]
      exact hdir.2.1
    · rw [hpte]
      exact hmode
    · rw [PagedMemory.translate, hpde, hpte, hp, hpresent, hframe]
      rfl
  · intro x hx hne
    exact h.sameView_setPte hpage hp e hx hne
  · intro f hf
    rw [h.isTable_setPte hpage hp e] at hf
    refine setFrame_ram_of_ne _ _ ?_
    rintro rfl
    exact hf (isTable_pde hpage hp)

/-- **Mapping a page for a program.** -/
theorem mapPage (h : UserSpace m.memory m.pageMap.reserved) (hfresh : m.pageMap.Fresh)
    (hpage : IsUser page) (hg : g ∈ m.pageMap.reserved) (hnot : ¬ IsTable m.memory g)
    (hrw : hasFlag flags pageRw = true) (huser : hasFlag flags pageUsermode = true)
    (hnext : m.pageMap.next.isSome) :
    ∃ m', m.mapPage page (frameAddress g) flags = some (.enone, m') ∧ Mapped m m' page g := by
  by_cases hp : (m.memory.pde page).present = true
  · exact h.mapPage_of_present hfresh hpage hg hnot hrw huser hp
  · -- a new table first, and then as before
    have hp : (m.memory.pde page).present = false := Bool.eq_false_of_not_eq_true hp
    obtain ⟨f, hf⟩ := Option.isSome_iff_exists.mp hnext
    obtain ⟨hunused, hfresh'⟩ := hfresh.next hf
    have hgf : g ≠ f := by
      rintro rfl
      exact hunused hg
    have hspace := h.withTable hpage hp hunused
    have hnot' : ¬ IsTable (Machine.withTable m.memory page f) g := by
      rw [h.isTable_withTable hunused hpage hp]
      rintro (heq | htable)
      · exact hgf heq
      · exact hnot htable
    have hlevel := Machine.mapLevel_of_some h.self hpage.ne hp hf (h.fresh_ne hunused)
    have hp' : ((Machine.withTable m.memory page f).pde page).present = true := by
      rw [PagedMemory.pde]
      show ((Machine.withTable m.memory page f).entry m.memory.cr3 (dirIndex page)).present = true
      rw [h.entry_withTable hunused, if_pos rfl]
      rfl
    obtain ⟨m', hmap, hmapped⟩ := mapPage_of_present
      (m := ⟨Machine.withTable m.memory page f, ⟨m.pageMap.answers.tail, f :: m.pageMap.reserved⟩⟩)
      hspace hfresh' hpage (List.mem_cons_of_mem _ hg) hnot' hrw huser hp'
    have htables : ∀ f', f' ∈ m.pageMap.reserved →
        (IsTable m'.memory f' ↔ IsTable m.memory f') := by
      intro f' hf'
      rw [hmapped.tables f' (List.mem_cons_of_mem _ hf'), h.isTable_withTable hunused hpage hp]
      constructor
      · rintro (rfl | htable)
        · exact absurd hf' hunused
        · exact htable
      · exact .inr
    refine ⟨m', ?_, hmapped.space, hmapped.fresh, ?_, ?_, hmapped.maps, ?_, ?_, ?_⟩
    · rw [← hmap]
      exact Machine.mapPage_congr (frameAddress_aligned g) hlevel
        (Machine.mapLevel_of_present hspace.self hpage.ne hp')
    · intro f' hf'
      exact hmapped.grows f' (List.mem_cons_of_mem _ hf')
    · rw [hmapped.answers, hp', hp]
      exact (List.drop_one ..).symm
    · intro x hx hne
      exact (h.sameView_withTable hunused hp hx).trans (hmapped.other x hx hne)
    · exact htables
    · intro f' hf'
      have hne : f' ≠ f := by
        rintro rfl
        apply hf'
        rw [hmapped.tables f' (List.mem_cons_self ..), h.isTable_withTable hunused hpage hp]
        exact .inl rfl
      have hcr3 : f' ≠ m.memory.cr3 := by
        rintro rfl
        exact hf' ((htables _ h.directory).mpr (.inl rfl))
      rw [hmapped.data f' hf', Machine.withTable, setFrame_ram_of_ne _ _ hne]
      exact setFrame_ram_of_ne _ _ hcr3

end UserSpace

/-! ### Bytes -/

/-- No other page of a program shows the frame behind `x`. -/
def Alone (m : PagedMemory) (x : Word) : Prop :=
  ∀ y f, IsUser y → ¬ SamePage x y → m.translate x = some f → m.translate y ≠ some f

theorem translate_of_frameOf {m : PagedMemory} {write : Bool} {x : Word} {f : Frame}
    (h : m.frameOf write x = some f) : m.translate x = some f := by
  simp only [PagedMemory.frameOf, PagedMemory.translate, Entry.permits,
    Option.ite_none_right_eq_some, Bool.and_eq_true] at h ⊢
  exact ⟨⟨h.1.1.1, h.1.2.1⟩, h.2⟩

theorem eq_of_samePage {x y : Word} (h : SamePage x y) (hoffset : pageOffset x = pageOffset y) :
    x = y := by
  have hoffset := congrArg BitVec.toNat hoffset
  rw [pageOffset_toNat, pageOffset_toNat] at hoffset
  unfold SamePage at h
  apply BitVec.eq_of_toNat_eq
  omega

namespace UserSpace
variable {m : PagedMemory} {reserved : List Frame} {x : Word}

/-- **A store to a page of a program** changes one byte of what programs see. -/
theorem storeByte (h : UserSpace m reserved) (hx : IsUser x) (hwrite : (m.frameOf true x).isSome)
    (halone : Alone m x) (b : BitVec 8) :
    ∃ m', m.storeByte x b = some m' ∧ UserSpace m' reserved ∧
      (∀ y, IsUser y → SameView m m' y) ∧
      (∀ y, IsUser y → m'.loadByte y = if y = x then some b else m.loadByte y) ∧
      (∀ f, IsTable m' f ↔ IsTable m f) ∧
      (∀ f, m.translate x ≠ some f → m'.ram f = m.ram f) := by
  obtain ⟨f, hf⟩ := Option.isSome_iff_exists.mp hwrite
  have htrans := translate_of_frameOf hf
  have hnot : ¬ IsTable m f := (h.data x f hx htrans).2
  have hview : ∀ y, IsUser y →
      SameView m (m.setFrame f ((m.ram f).setByte (pageOffset x) b)) y :=
    fun y hy => sameView_setFrame hnot _ hy
  refine ⟨m.setFrame f ((m.ram f).setByte (pageOffset x) b), ?_, h.setFrame hnot _, hview, ?_,
    isTable_setFrame hnot _, ?_⟩
  · rw [PagedMemory.storeByte, hf, Option.map_some]
  · intro y hy
    rw [PagedMemory.loadByte, (hview y hy).frameOf, PagedMemory.loadByte]
    rcases Option.eq_none_or_eq_some (m.frameOf false y) with hnone | ⟨g, hg⟩
    · have hne : y ≠ x := by
        rintro rfl
        rw [frameOf_false hf] at hnone
        cases hnone
      rw [hnone, if_neg hne]
      rfl
    · rw [hg, Option.map_some, Option.map_some]
      by_cases hgf : g = f
      · -- the same frame, so the same page
        subst hgf
        have hsame : SamePage x y := by
          by_contra hne
          exact halone y g hy hne htrans (translate_of_frameOf hg)
        rw [setFrame_ram_self, FrameData.byte_setByte]
        by_cases hxy : y = x
        · rw [hxy, if_pos rfl, if_pos rfl]
        · rw [if_neg fun heq => hxy (eq_of_samePage hsame heq).symm, if_neg hxy]
      · have hne : y ≠ x := by
          rintro rfl
          rw [frameOf_false hf] at hg
          exact hgf (Option.some.inj hg).symm
        rw [setFrame_ram_of_ne _ _ hgf, if_neg hne]
  · intro g hg
    refine setFrame_ram_of_ne _ _ ?_
    rintro rfl
    exact hg htrans

end UserSpace
end QuarkKernel
