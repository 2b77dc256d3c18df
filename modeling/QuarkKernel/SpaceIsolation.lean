import QuarkKernel.FrameUses

/-! # Address spaces that do not overlap

In every run of the calls that reserve, map and unmap frames, a frame behind a program's
page is behind no other page of any address space, and is no table (`Isolated`).  So a
store by a program changes one byte in one address space, and as long as an address space
is not loaded nothing in it changes (`undisturbed_of_reachable`). -/
namespace QuarkKernel
open PagedMemory

namespace HeldFrames
variable {s s' : HeldFrames} {use : Frame → Option Use} {a b f : Frame} {x y : Word}
  {v w : PageView} {byte : BitVec 8}

/-- A page of a program, or of the kernel: all of an address space below the window but the
identity map of the first.  That map is left out: it goes on showing frames behind the
kernel that are given out later, so that they may be behind a page of it and behind a
program's as well.  No process is in the first address space, and programs have no access
to the map. -/
def IsPage (s : HeldFrames) (a : Frame) (x : Word) : Prop :=
  BelowWindow x ∧ (IsUser x → a ≠ s.bootSpace)

/-- **Isolation.**  The frame behind a program's page is behind no other page and holds no
table, and only pages of programs are open to programs. -/
structure Isolated (s : HeldFrames) : Prop where
  apart : ∀ a b x y v w, a ∈ s.spaces → b ∈ s.spaces → IsUser x → s.IsPage a x → s.IsPage b y →
    (s.memory.under a).view x = some v → (s.memory.under b).view y = some w →
    v.frame = w.frame → a = b ∧ SamePage x y
  hidden : ∀ a b x v, a ∈ s.spaces → b ∈ s.spaces → IsUser x → s.IsPage a x →
    (s.memory.under a).view x = some v → ¬ HoldsTable (s.memory.under b) v.frame
  guarded : ∀ a x, a ∈ s.spaces → (s.memory.under a).UserAccessible x → IsUser x ∧ s.IsPage a x

/-- What is seen of all address spaces when a program stores a byte. -/
structure StoresOneByte (s : HeldFrames) (x : Word) (byte : BitVec 8) (memory : PagedMemory) :
    Prop where
  view : ∀ a y, a ∈ s.spaces → s.IsPage a y →
    (memory.under a).view y = (s.memory.under a).view y
  loadByte : ∀ a y, a ∈ s.spaces → s.IsPage a y →
    (memory.under a).loadByte y =
      if a = s.memory.cr3 ∧ y = x then some byte else (s.memory.under a).loadByte y

/-! ### Pages and their uses -/

theorem walk_of_view {m : PagedMemory} (hv : m.view x = some v) :
    (m.pde x).present = true ∧ (m.pte x).present = true ∧ v.frame = (m.pte x).physicalAddress ∧
      (v.usermode = true → (m.pde x).usermode = true ∧ (m.pte x).usermode = true) := by
  rw [PagedMemory.view, Option.ite_none_right_eq_some, Bool.and_eq_true] at hv
  obtain ⟨⟨hpde, hpte⟩, hv⟩ := hv
  obtain rfl := Option.some.inj hv
  exact ⟨hpde, hpte, rfl, by simp⟩

/-- A program's page and its table. -/
theorem Uses.view_user (h : s.Uses use) (ha : a ∈ s.spaces) (hx : IsUser x) (hpage : s.IsPage a x)
    (hv : (s.memory.under a).view x = some v) :
    use ((s.memory.under a).pde x).physicalAddress = some (.table a (dirIndex x)) ∧
      use v.frame = some (.page a (dirIndex x) (tableIndex x)) := by
  obtain ⟨hpde, hpte, hframe, -⟩ := walk_of_view hv
  have hboot := hpage.2 hx
  obtain ⟨-, htable⟩ := h.entry ha hpage.1 hpde
  have hfit := (h.fits _ _ htable).entry (i := tableIndex x) hpte
  rw [fitsEntry_of_user hx hboot] at hfit
  rw [tableUse_eq_table hboot hx] at htable
  exact ⟨htable, hframe ▸ hfit⟩

/-- A page of the kernel. -/
theorem Uses.view_kernel (h : s.Uses use) (ha : a ∈ s.spaces) (hx : ¬ IsUser x)
    (hpage : s.IsPage a x) (hv : (s.memory.under a).view x = some v) :
    v.usermode = false ∧ IsKernel s.bootSpace use v.frame := by
  obtain ⟨hpde, hpte, hframe, hmode⟩ := walk_of_view hv
  obtain ⟨-, htable⟩ := h.entry ha hpage.1 hpde
  have hfit := (h.fits _ _ htable).entry (i := tableIndex x) hpte
  rw [fitsEntry_of_kernel (Nat.le_of_not_lt hx)] at hfit
  refine ⟨Bool.eq_false_of_not_eq_true fun hv => ?_, hframe ▸ hfit.2⟩
  exact absurd ((hmode hv).2.symm.trans hfit.1) (by decide)

/-- A frame that holds a table is used as one. -/
theorem Uses.use_of_holdsTable (h : s.Uses use) (hb : b ∈ s.spaces)
    (hf : HoldsTable (s.memory.under b) f) :
    use f = some .directory ∨ ∃ d, use f = some (tableUse s.bootSpace b d) := by
  rcases hf with rfl | ⟨d, hd, hp, rfl⟩
  · exact .inl ((h.spaces _).mp hb)
  · exact .inr ⟨d, (h.entry hb hd hp).2⟩

/-- What is open to a program is not the kernel's. -/
theorem Uses.guarded (h : s.Uses use) (ha : a ∈ s.spaces)
    (hx : (s.memory.under a).UserAccessible x) : IsUser x ∧ s.IsPage a x := by
  obtain ⟨v, hv, -, hmode⟩ := userAccessible_iff_view.mp hx
  obtain ⟨hpde, hpte, -, hrights⟩ := walk_of_view hv
  obtain ⟨hpdeMode, hpteMode⟩ := hrights hmode
  have hbelow : BelowWindow x := by
    intro hwindow
    obtain ⟨⟨-, hself, -⟩, -⟩ : Fits s.memory s.bootSpace use a .directory :=
      h.fits _ _ ((h.spaces a).mp ha)
    have hpde' : (s.memory.under a).pde x = s.memory.entry a 1023 := by
      rw [PagedMemory.pde, hwindow]
      rfl
    rw [hpde', hself] at hpdeMode
    cases hpdeMode
  by_cases huser : IsUser x
  · refine ⟨huser, hbelow, fun _ => ?_⟩
    rintro rfl
    obtain ⟨-, htable⟩ := h.entry ha hbelow hpde
    have hfit := (h.fits _ _ htable).entry (i := tableIndex x) hpte
    rw [FitsEntry, if_neg (Nat.not_le_of_lt huser), if_pos rfl] at hfit
    exact absurd (hpteMode.symm.trans hfit) (by decide)
  · have hkernel := (h.view_kernel ha huser ⟨hbelow, fun hx => absurd hx huser⟩ hv).1
    rw [hmode] at hkernel
    cases hkernel

theorem Uses.isolated (h : s.Uses use) : s.Isolated := by
  refine ⟨?_, ?_, fun a x ha hx => h.guarded ha hx⟩
  · intro a b x y v w ha hb hx hpx hpy hv hw heq
    obtain ⟨-, huse⟩ := h.view_user ha hx hpx hv
    rw [heq] at huse
    by_cases hy : IsUser y
    · obtain ⟨-, huse'⟩ := h.view_user hb hy hpy hw
      obtain ⟨rfl, hdir, htable⟩ := Use.page.inj (Option.some.inj (huse.symm.trans huse'))
      exact ⟨rfl, samePage_iff.mpr ⟨hdir, htable⟩⟩
    · -- what the kernel shows is in no other use
      obtain ⟨-, hboot | hkernel | ⟨d, hkernel⟩ | hkernel⟩ := h.view_kernel hb hy hpy hw
      · rw [hboot, (h.spaces _).mp h.boot] at huse
        cases huse
      all_goals
        rw [hkernel] at huse
        cases huse
  · intro a b x v ha hb hx hpx hv hholds
    obtain ⟨-, huse⟩ := h.view_user ha hx hpx hv
    rcases h.use_of_holdsTable hb hholds with hdir | ⟨d, htable⟩
    · rw [hdir] at huse
      cases huse
    · rw [htable] at huse
      exact page_ne_tableUse _ _ _ (Option.some.inj huse).symm

/-! ### Stores -/

/-- A store goes to a page, and not through the window. -/
theorem Uses.isPage_of_store (h : s.Uses use) (hok : s.Orderly (.storeByte x byte))
    (hf : s.memory.frameOf true x = some f) : s.IsPage s.memory.cr3 x := by
  obtain ⟨v, hv, rfl⟩ := view_of_frameOf hf
  rcases hok with haccess | ⟨hspace, halone⟩
  · exact (h.guarded h.current haccess).2
  · refine ⟨fun hwindow => halone _ _ h.current hf ?_, hspace⟩
    obtain ⟨-, hpte, hframe, -⟩ := walk_of_view hv
    rw [h.self.pte_eq hwindow] at hpte hframe
    by_cases hlast : tableIndex x = 1023
    · left
      rw [hframe, hlast]
      exact h.self.frame
    · exact .inr ⟨tableIndex x, hlast, hpte, hframe.symm⟩

/-- The frame a store goes to is a page of the loaded address space, or of the kernel. -/
theorem Uses.use_of_store (h : s.Uses use) (hok : s.Orderly (.storeByte x byte))
    (hf : s.memory.frameOf true x = some f) :
    use f = some .kernelPage ∨ ∃ d i, use f = some (.page s.memory.cr3 d i) := by
  have hpage := h.isPage_of_store hok hf
  obtain ⟨v, hv, rfl⟩ := view_of_frameOf hf
  have hv : (s.memory.under s.memory.cr3).view x = some v := hv
  by_cases hx : IsUser x
  · exact .inr ⟨_, _, (h.view_user h.current hx hpage hv).2⟩
  · obtain ⟨-, hkernel⟩ := h.view_kernel h.current hx hpage hv
    rcases hok with haccess | ⟨-, halone⟩
    · exact absurd (h.guarded h.current haccess).1 hx
    · rcases hkernel with hboot | hu | ⟨d, hu⟩ | hpage
      · exact absurd (.inl hboot) (halone _ _ h.boot hf)
      · obtain ⟨⟨a, d, ha, hd, hp, hfa⟩, -⟩ :
          Fits s.memory s.bootSpace use v.frame .identityTable := h.fits _ _ hu
        exact absurd (.inr ⟨d, hd, hp, hfa⟩) (halone a _ ((h.spaces a).mpr ha) hf)
      · obtain ⟨⟨a, ha, hd, hp, hfa⟩, -⟩ :
          Fits s.memory s.bootSpace use v.frame (.kernelTable d) := h.fits _ _ hu
        exact absurd (.inr ⟨d, hd, hp, hfa⟩) (halone a _ ((h.spaces a).mpr ha) hf)
      · exact .inl hpage

theorem Uses.storeByte (h : s.Uses use) (hok : s.Orderly (.storeByte x byte))
    (hst : s.step (.storeByte x byte) = some s') : Advances s use (.storeByte x byte) s' := by
  obtain ⟨memory, hstore, rfl⟩ := Option.map_eq_some_iff.mp hst
  obtain ⟨f, hf, rfl⟩ := Option.map_eq_some_iff.mp hstore
  have huse := h.use_of_store hok hf
  have hram : ∀ g, g ≠ f →
      (s.memory.setFrame f ((s.memory.ram f).setByte (pageOffset x) byte)).ram g =
        s.memory.ram g := fun g hg => setFrame_ram_of_ne _ _ hg
  refine ⟨⟨use, ⟨?_, h.spaces, h.current, h.boot, h.reserved, h.held, h.nodup, h.fresh⟩,
    fun _ _ hu _ => hu, ?_⟩, rfl, fun a ha => ha, fun g i _ hg => congrFun (hram g ?_) i⟩
  · refine h.rewrite rfl (fun _ _ hg => hg) ?_ ?_ (fun g u hg hu => by rw [hg] at hu; cases hu)
    · intro a d ha _ _
      refine entry_setFrame_of_ne _ _ _ ?_
      rintro rfl
      rcases huse with huse | ⟨d, i, huse⟩ <;> rw [ha] at huse <;> cases huse
    · intro g u hg
      by_cases hgf : g = f
      · right
        subst hgf
        rcases huse with huse | ⟨d, i, huse⟩
        · obtain rfl := Option.some.inj (hg.symm.trans huse)
          trivial
        · obtain rfl := Option.some.inj (hg.symm.trans huse)
          trivial
      · exact .inl (hram g hgf)
  · intro g d i hg _
    refine .inl ⟨hg, entry_setFrame_of_ne _ _ _ ?_⟩
    rintro rfl
    rcases huse with huse | ⟨d, i, huse⟩ <;> rw [hg] at huse <;> cases huse
  · rintro rfl
    exact hg hf

theorem Isolated.storesOneByte {memory : PagedMemory} (h : s.Isolated)
    (hcurrent : s.memory.cr3 ∈ s.spaces) (hx : s.memory.UserAccessible x)
    (hstore : s.memory.storeByte x byte = some memory) : s.StoresOneByte x byte memory := by
  obtain ⟨huser, hpage⟩ := h.guarded _ _ hcurrent hx
  obtain ⟨f, hf, rfl⟩ := Option.map_eq_some_iff.mp hstore
  obtain ⟨v, hv, rfl⟩ := view_of_frameOf hf
  have hv : (s.memory.under s.memory.cr3).view x = some v := hv
  have hview : ∀ a y, a ∈ s.spaces → s.IsPage a y →
      (PagedMemory.under (s.memory.setFrame v.frame
        ((s.memory.ram v.frame).setByte (pageOffset x) byte)) a).view y =
          (s.memory.under a).view y :=
    fun a y ha hy => view_setFrame (m := s.memory.under a)
      (h.hidden _ a x v hcurrent ha huser hpage hv) _ hy.1
  refine ⟨hview, ?_⟩
  intro a y ha hy
  rw [loadByte_eq_view, loadByte_eq_view, hview a y ha hy]
  rcases Option.eq_none_or_eq_some ((s.memory.under a).view y) with hnone | ⟨w, hw⟩
  · rw [hnone, if_neg]
    · rfl
    · rintro ⟨rfl, rfl⟩
      rw [hnone] at hv
      cases hv
  · rw [hw, Option.map_some, Option.map_some]
    show some ((PagedMemory.setFrame _ _ _).ram w.frame |>.byte (pageOffset y)) = _
    by_cases hsame : v.frame = w.frame
    · -- the same frame, so the same page
      obtain ⟨rfl, hxy⟩ := h.apart _ a x y v w hcurrent ha huser hpage hy hv hw hsame
      rw [← hsame, setFrame_ram_self, FrameData.byte_setByte]
      by_cases heq : y = x
      · rw [heq, if_pos rfl, if_pos ⟨rfl, rfl⟩]
      · rw [if_neg fun hoffset => heq (eq_of_samePage hxy hoffset).symm, if_neg fun h => heq h.2]
        rfl
    · rw [setFrame_ram_of_ne _ _ (Ne.symm hsame), if_neg]
      · rfl
      · rintro ⟨rfl, rfl⟩
        rw [hw] at hv
        exact hsame (congrArg PageView.frame (Option.some.inj hv)).symm

theorem step_reservePage (hnext : s.machine.pageMap.next = some f) :
    s.step .reservePage = some { s with
      machine.pageMap := ⟨s.machine.pageMap.answers.tail, f :: s.machine.pageMap.reserved⟩
      held := f :: s.held } := by
  rw [HeldFrames.step, PageMap.reservePage_of_some hnext]
  show some _ = some _
  rw [if_neg (frameAddress_ne_enomem f), frameNumber_frameAddress]

/-- **What a call leaves.** -/
theorem Uses.step {op : Op} (h : s.Uses use) (hok : s.Orderly op) (hst : s.step op = some s') :
    Advances s use op s' := by
  cases op with
  | answers answers =>
    obtain rfl := Option.some.inj hst
    exact advances_of_ram (h.answers hok) rfl rfl rfl
  | reservePage =>
    rcases Option.eq_none_or_eq_some s.machine.pageMap.next with hnext | ⟨f, hnext⟩
    · rw [HeldFrames.step, PageMap.reservePage_of_none hnext] at hst
      obtain rfl := Option.some.inj hst
      exact advances_of_ram h.noFrame rfl rfl rfl
    · rw [step_reservePage hnext] at hst
      obtain rfl := Option.some.inj hst
      exact advances_of_ram (h.reservePage hnext) rfl rfl rfl
  | freePage frame =>
    obtain rfl := Option.some.inj hst
    exact advances_of_ram (h.freePage hok) rfl rfl rfl
  | createAddressSpace => exact h.createAddressSpace hst
  | loadAddressSpace table => exact h.loadAddressSpace hst
  | mapPage page frame flags => exact h.mapPage hok hst
  | unmapPage page => exact h.unmapPage hok hst
  | storeByte x byte => exact h.storeByte hok hst

/-- A call touches nothing that belongs to an address space that is not loaded. -/
theorem Uses.not_touches {op : Op} {i : BitVec 10} (h : s.Uses use) (hok : s.Orderly op)
    (ha : a ∈ s.spaces) (hne : s.memory.cr3 ≠ a) (hf : BelongsTo use a f) :
    ¬ s.Touches op f i := by
  obtain ⟨-, hfc, htable⟩ := h.ne_of_belongsTo ha h.current (Ne.symm hne) hf
  intro htouches
  cases op with
  | mapPage page frame flags =>
    rcases htouches with ⟨-, hdir, -⟩ | ⟨hp, rfl, -⟩
    · exact hfc hdir
    · exact htable _ (h.use_table hok.1 hp)
  | unmapPage page =>
    obtain ⟨hp, rfl, -⟩ := htouches
    exact htable _ (h.use_table hok.1 hp)
  | storeByte x byte =>
    rcases h.use_of_store hok htouches with huse | ⟨d, j, huse⟩
    · rcases hf with rfl | ⟨d, hd⟩ | ⟨d, j, hd⟩
      · rw [(h.spaces f).mp ha] at huse
        cases huse
      · rw [hd] at huse
        cases huse
      · rw [hd] at huse
        cases huse
    · rcases hf with rfl | ⟨e, he⟩ | ⟨e, k, he⟩
      · rw [(h.spaces f).mp ha] at huse
        cases huse
      · rw [he] at huse
        cases huse
      · rw [he] at huse
        exact hne (Use.page.inj (Option.some.inj huse)).1.symm
  | answers | reservePage | freePage | createAddressSpace | loadAddressSpace => exact htouches

/-! ### Runs -/

/-- Entry `d` of the first directory refers to a table in frame `t`. -/
def RefersTo (s : HeldFrames) (d : BitVec 10) (t : Frame) : Prop :=
  (s.memory.entry s.bootSpace d).present = true ∧
    (s.memory.entry s.bootSpace d).physicalAddress = t

/-- The frame holds one of the first tables for low memory. -/
def IsIdentityTable (s : HeldFrames) (t : Frame) : Prop := ∃ d, d.toNat < 1021 ∧ s.RefersTo d t

/-- The frame holds the first table for a part of the kernel. -/
def IsKernelTable (s : HeldFrames) (d : BitVec 10) (t : Frame) : Prop :=
  1021 ≤ d.toNat ∧ d ≠ 1023 ∧ s.RefersTo d t

/-- The kernel shows the frame. -/
def IsKernelPage (s : HeldFrames) (f : Frame) : Prop :=
  ∃ d t i, s.IsKernelTable d t ∧ (s.memory.entry t i).present = true ∧
    (s.memory.entry t i).physicalAddress = f

/-- There is one directory, which refers to itself.  Its tables are not open to programs,
and the kernel's frames are in use. -/
structure Boot (s : HeldFrames) : Prop where
  spaces : s.spaces = [s.bootSpace]
  current : s.memory.cr3 = s.bootSpace
  self : (s.memory.entry s.bootSpace 1023).permits true = true ∧
    (s.memory.entry s.bootSpace 1023).usermode = false ∧
      (s.memory.entry s.bootSpace 1023).physicalAddress = s.bootSpace
  rw : ∀ d, d ≠ 1023 → (s.memory.entry s.bootSpace d).present = true →
    (s.memory.entry s.bootSpace d).rw = true
  notDirectory : ¬ s.IsIdentityTable s.bootSpace ∧ ∀ d, ¬ s.IsKernelTable d s.bootSpace
  distinct : ∀ d t, s.IsKernelTable d t → ¬ s.IsIdentityTable t ∧
    ∀ d', s.IsKernelTable d' t → d' = d
  closed : ∀ t i, s.IsIdentityTable t ∨ (∃ d, s.IsKernelTable d t) →
    (s.memory.entry t i).present = true → (s.memory.entry t i).usermode = false
  reserved : ∀ f, f = s.bootSpace ∨ s.IsIdentityTable f ∨ (∃ d, s.IsKernelTable d f) ∨
      s.IsKernelPage f →
    f ∈ s.machine.pageMap.reserved ∧ f ∉ s.held
  held : ∀ f, f ∈ s.held → f ∈ s.machine.pageMap.reserved
  nodup : s.held.Nodup
  fresh : s.machine.pageMap.Fresh

open Classical in
/-- The uses of the frames at boot. -/
noncomputable def bootUse (s : HeldFrames) (f : Frame) : Option Use :=
  if f = s.bootSpace then some .directory
  else if s.IsIdentityTable f then some .identityTable
  else if h : ∃ d, s.IsKernelTable d f then some (.kernelTable h.choose)
  else if s.IsKernelPage f then some .kernelPage
  else none

theorem bootUse_cases {u : Use} (h : s.bootUse f = some u) :
    f = s.bootSpace ∧ u = .directory ∨ s.IsIdentityTable f ∧ u = .identityTable ∨
      (∃ d, s.IsKernelTable d f ∧ u = .kernelTable d) ∨ s.IsKernelPage f ∧ u = .kernelPage := by
  rw [bootUse] at h
  split at h
  · rename_i hboot
    exact .inl ⟨hboot, (Option.some.inj h).symm⟩
  split at h
  · rename_i hid
    exact .inr (.inl ⟨hid, (Option.some.inj h).symm⟩)
  split at h
  · rename_i htable
    exact .inr (.inr (.inl ⟨_, htable.choose_spec, (Option.some.inj h).symm⟩))
  split at h
  · rename_i hpage
    exact .inr (.inr (.inr ⟨hpage, (Option.some.inj h).symm⟩))
  · cases h

theorem bootUse_directory (s : HeldFrames) : s.bootUse s.bootSpace = some .directory := by
  rw [bootUse, if_pos rfl]

section
variable (h : s.Boot)
include h

theorem Boot.bootUse_identityTable (hf : s.IsIdentityTable f) :
    s.bootUse f = some .identityTable := by
  rw [bootUse, if_neg, if_pos hf]
  rintro rfl
  exact h.notDirectory.1 hf

theorem Boot.bootUse_kernelTable {d : BitVec 10} (hf : s.IsKernelTable d f) :
    s.bootUse f = some (.kernelTable d) := by
  have hex : ∃ d, s.IsKernelTable d f := ⟨d, hf⟩
  rw [bootUse, if_neg, if_neg (h.distinct d f hf).1, dif_pos hex,
    (h.distinct d f hf).2 _ hex.choose_spec]
  rintro rfl
  exact h.notDirectory.2 d hf

theorem Boot.isKernel (hf : s.IsKernelPage f) : IsKernel s.bootSpace s.bootUse f := by
  by_cases hboot : f = s.bootSpace
  · exact .inl hboot
  by_cases hid : s.IsIdentityTable f
  · exact .inr (.inl (h.bootUse_identityTable hid))
  by_cases htable : ∃ d, s.IsKernelTable d f
  · obtain ⟨d, hd⟩ := htable
    exact .inr (.inr (.inl ⟨d, h.bootUse_kernelTable hd⟩))
  · refine .inr (.inr (.inr ?_))
    rw [bootUse, if_neg hboot, if_neg hid, dif_neg htable, if_pos hf]

theorem Boot.inUse {u : Use} (hu : s.bootUse f = some u) :
    f ∈ s.machine.pageMap.reserved ∧ f ∉ s.held := by
  apply h.reserved f
  obtain ⟨hf, -⟩ | ⟨hf, -⟩ | ⟨d, hf, -⟩ | ⟨hf, -⟩ := bootUse_cases hu
  · exact .inl hf
  · exact .inr (.inl hf)
  · exact .inr (.inr (.inl ⟨d, hf⟩))
  · exact .inr (.inr (.inr hf))

theorem Boot.uses : s.Uses s.bootUse := by
  have hdirectory := s.bootUse_directory
  refine ⟨?_, ?_, ?_, ?_, fun f u hu => (h.inUse hu).1, ?_, h.nodup, h.fresh⟩
  · intro f u hu
    obtain ⟨rfl, rfl⟩ | ⟨hf, rfl⟩ | ⟨d, hf, rfl⟩ | ⟨-, rfl⟩ := bootUse_cases hu
    · refine ⟨h.self, fun d hd hp => ⟨h.rw d hd hp, ?_⟩⟩
      by_cases hlow : 1021 ≤ d.toNat
      · rw [tableUse_eq_kernelTable hlow]
        exact h.bootUse_kernelTable ⟨hlow, hd, hp, rfl⟩
      · rw [tableUse, if_neg hlow, if_pos rfl]
        exact h.bootUse_identityTable ⟨d, Nat.lt_of_not_le hlow, hp, rfl⟩
    · obtain ⟨d, hd, hp, hfd⟩ := hf
      refine ⟨⟨s.bootSpace, d, hdirectory, ?_, hp, hfd⟩, fun i hi => ?_⟩
      · rintro rfl
        exact absurd hd (by decide)
      · exact h.closed f i (.inl ⟨d, hd, hp, hfd⟩) hi
    · refine ⟨⟨s.bootSpace, hdirectory, hf.2⟩, fun i hi => ?_⟩
      exact ⟨h.closed f i (.inr ⟨d, hf⟩) hi, h.isKernel ⟨d, f, i, hf, hi, rfl⟩⟩
    · trivial
  · intro a
    rw [h.spaces, List.mem_singleton]
    refine ⟨fun ha => ha ▸ hdirectory, fun ha => ?_⟩
    obtain ⟨hf, -⟩ | ⟨-, hu⟩ | ⟨d, -, hu⟩ | ⟨-, hu⟩ := bootUse_cases ha
    · exact hf
    all_goals cases hu
  · rw [h.spaces, h.current]
    exact List.mem_singleton_self _
  · rw [h.spaces]
    exact List.mem_singleton_self _
  · intro f hf
    refine ⟨h.held f hf, ?_⟩
    rcases hu : s.bootUse f with _ | u
    · rfl
    · exact absurd hf (h.inUse hu).2

end

def system : Transition.System HeldFrames Op := .ofStep Boot step

/-- Every frame has its use. -/
theorem uses_of_reachable (h : system.Reachable Orderly s) : ∃ use, s.Uses use :=
  h.invariant (fun s => ∃ use, s.Uses use) (fun _ hs => ⟨_, Boot.uses hs⟩)
    fun _ _ _ ⟨_, hinv⟩ hok hst => (hinv.step hok hst).uses.imp fun _ h => h.uses

/-- **Isolation of the address spaces.**  In every orderly run, and a store by a program
changes one byte of one address space. -/
theorem spacesIsolated_of_reachable (h : system.Reachable Orderly s) : s.Isolated ∧
    ∀ x byte memory, s.memory.UserAccessible x → s.memory.storeByte x byte = some memory →
      s.StoresOneByte x byte memory := by
  obtain ⟨use, huse⟩ := uses_of_reachable h
  exact ⟨huse.isolated, fun x byte memory hx hstore =>
    huse.isolated.storesOneByte huse.current hx hstore⟩

/-! ### While an address space is not loaded -/

/-- The runs from a state. -/
def since (s : HeldFrames) : Transition.System HeldFrames Op := .ofStep (· = s) step

/-- An orderly call, with the address space not loaded. -/
def Unloaded (a : Frame) (s : HeldFrames) (op : Op) : Prop := s.Orderly op ∧ s.memory.cr3 ≠ a

/-- The pages of programs in two memories, and the bytes there, are the same. -/
def SamePages (a : Frame) (m m' : PagedMemory) : Prop :=
  ∀ x, IsUser x → (m'.under a).view x = (m.under a).view x ∧
    (m'.under a).loadByte x = (m.under a).loadByte x

/-- What an address space shows is in the frames that belong to it. -/
theorem Uses.samePages {m' : PagedMemory} (h : s.Uses use) (ha : a ∈ s.spaces)
    (hboot : a ≠ s.bootSpace) (hram : ∀ f, BelongsTo use a f → m'.ram f = s.memory.ram f) :
    SamePages a s.memory m' := by
  intro x hx
  have hpage : s.IsPage a x := ⟨hx.belowWindow, fun _ => hboot⟩
  have hentry : ∀ f i, BelongsTo use a f →
      (m'.under a).entry f i = (s.memory.under a).entry f i := by
    intro f i hf
    rw [PagedMemory.entry, PagedMemory.entry]
    exact congrArg (fun data : FrameData => Entry.ofWord (data i)) (hram f hf)
  have hpde : (m'.under a).pde x = (s.memory.under a).pde x := hentry a _ (.inl rfl)
  have hview : (m'.under a).view x = (s.memory.under a).view x := by
    refine view_congr hpde fun hp => ?_
    rw [PagedMemory.pte, PagedMemory.pte, hpde]
    obtain ⟨-, htable⟩ := h.entry ha hpage.1 hp
    rw [tableUse_eq_table hboot hx] at htable
    exact hentry _ _ (.inr (.inl ⟨_, htable⟩))
  refine ⟨hview, ?_⟩
  rw [loadByte_eq_view, loadByte_eq_view, hview]
  rcases Option.eq_none_or_eq_some ((s.memory.under a).view x) with hnone | ⟨v, hv⟩
  · rw [hnone]
    rfl
  · have hbelongs := (h.view_user ha hx hpage hv).2
    rw [hv, Option.map_some, Option.map_some]
    exact congrArg (fun data : FrameData => some (data.byte (pageOffset x)))
      (hram _ (.inr (.inr ⟨_, _, hbelongs⟩)))

/-- What stays of an address space while it is not loaded. -/
structure Untouched (a : Frame) (s0 s : HeldFrames) : Prop where
  uses : ∃ use, s.Uses use
  bootSpace : s.bootSpace = s0.bootSpace
  spaces : a ∈ s.spaces
  pages : SamePages a s0.memory s.memory

theorem Untouched.step {s0 : HeldFrames} (h : Untouched a s0 s) (hboot : a ≠ s0.bootSpace)
    (hok : Unloaded a s op) (hst : s.step op = some s') : Untouched a s0 s' := by
  obtain ⟨⟨use, huse⟩, hsame, hin, hpages⟩ := h
  obtain ⟨hok, hne⟩ := hok
  obtain ⟨⟨use', huse', -, -⟩, hboot', hgrows, hram⟩ := huse.step hok hst
  refine ⟨⟨use', huse'⟩, hboot'.trans hsame, hgrows a hin, fun x hx => ?_⟩
  have hkeeps : ∀ f, BelongsTo use a f → s'.memory.ram f = s.memory.ram f := by
    intro f hf
    funext i
    exact hram f i (huse.ne_of_belongsTo hin huse.current (Ne.symm hne) hf).1
      (huse.not_touches hok hin hne hf)
  obtain ⟨hview, hbyte⟩ := huse.samePages hin (hsame ▸ hboot) hkeeps x hx
  exact ⟨hview.trans (hpages x hx).1, hbyte.trans (hpages x hx).2⟩

theorem untouched_of_reachable {s0 : HeldFrames} (h0 : system.Reachable Orderly s0)
    (ha : a ∈ s0.spaces) (hboot : a ≠ s0.bootSpace) (h : (since s0).Reachable (Unloaded a) s) :
    Untouched a s0 s := by
  refine h.invariant (Untouched a s0) ?_ fun _ _ _ hinv hok hst => hinv.step hboot hok hst
  rintro s rfl
  exact ⟨uses_of_reachable h0, rfl, ha, fun _ _ => ⟨rfl, rfl⟩⟩

/-- **Nothing changes in an address space that is not loaded**, whatever frames are reserved,
mapped, written to and given back in the meantime. -/
theorem undisturbed_of_reachable {s0 : HeldFrames} (h0 : system.Reachable Orderly s0)
    (ha : a ∈ s0.spaces) (hboot : a ≠ s0.bootSpace) (h : (since s0).Reachable (Unloaded a) s) :
    SamePages a s0.memory s.memory :=
  (untouched_of_reachable h0 ha hboot h).pages

/-! ### Two address spaces -/

/-- The state at boot, with six frames to be had. -/
def start : HeldFrames where
  machine := ⟨Spaces.bootMemory, ⟨[some 4, some 5, some 6, some 7, some 8, some 9], [1, 2, 3]⟩⟩
  spaces := [1]
  bootSpace := 1
  held := []

theorem boot_start : start.Boot := by
  have hrefers : ∀ d t, start.RefersTo d t → d = 0 ∧ t = 2 ∨ d = 1021 ∧ t = 3 ∨ d = 1023 := by
    rintro d t ⟨hp, ht⟩
    by_cases h0 : d = 0
    · subst h0
      exact .inl ⟨rfl, ht.symm⟩
    · by_cases h1 : d = 1021
      · subst h1
        exact .inr (.inl ⟨rfl, ht.symm⟩)
      · by_cases h2 : d = 1023
        · exact .inr (.inr h2)
        · have hzero : start.memory.ram start.bootSpace d = 0 := by
            show (if (1 : Frame) = 1 ∧ d = 0 then _ else if (1 : Frame) = 1 ∧ d = 1021 then _
              else if (1 : Frame) = 1 ∧ d = 1023 then _ else (0 : Word)) = 0
            rw [if_neg fun h => h0 h.2, if_neg fun h => h1 h.2, if_neg fun h => h2 h.2]
          rw [PagedMemory.entry, hzero] at hp
          exact absurd hp (by decide)
  have hidentity : ∀ t, start.IsIdentityTable t → t = 2 := by
    rintro t ⟨d, hd, hrefer⟩
    obtain ⟨-, rfl⟩ | ⟨rfl, -⟩ | rfl := hrefers d t hrefer
    · rfl
    all_goals exact absurd hd (by decide)
  have htable : ∀ d t, start.IsKernelTable d t → d = 1021 ∧ t = 3 := by
    rintro d t ⟨hlow, hd, hrefer⟩
    obtain ⟨rfl, -⟩ | ⟨hd', rfl⟩ | rfl := hrefers d t hrefer
    · exact absurd hlow (by decide)
    · exact ⟨hd', rfl⟩
    · exact absurd rfl hd
  have hempty : ∀ t i, t = 2 ∨ t = 3 → (start.memory.entry t i).present = false := by
    rintro t i (rfl | rfl) <;>
      simp [start, Spaces.bootMemory, Spaces.memory, PagedMemory.entry, Entry.ofWord]
  have hpage : ∀ f, ¬ start.IsKernelPage f := by
    rintro f ⟨d, t, i, ht, hp, -⟩
    rw [hempty t i (.inr (htable d t ht).2)] at hp
    cases hp
  refine ⟨rfl, rfl, ⟨rfl, rfl, rfl⟩, ?_, ⟨?_, ?_⟩, ?_, ?_, ?_, ?_, List.nodup_nil, ?_⟩
  · intro d hd hp
    obtain ⟨rfl, -⟩ | ⟨rfl, -⟩ | rfl := hrefers d _ ⟨hp, rfl⟩
    · rfl
    · rfl
    · exact absurd rfl hd
  · exact fun h => absurd (hidentity _ h) (by decide)
  · exact fun d h => absurd (htable d _ h).2 (by decide)
  · intro d t ht
    obtain ⟨rfl, rfl⟩ := htable d t ht
    exact ⟨fun hid => absurd (hidentity _ hid) (by decide), fun d' ht' => (htable d' _ ht').1⟩
  · rintro t i (hid | ⟨d, ht⟩) hp
    · rw [hempty t i (.inl (hidentity t hid))] at hp
      cases hp
    · rw [hempty t i (.inr (htable d t ht).2)] at hp
      cases hp
  · rintro f (rfl | hid | ⟨d, ht⟩ | hp)
    · decide
    · obtain rfl := hidentity f hid
      decide
    · obtain rfl := (htable d f ht).2
      decide
    · exact absurd hp (hpage f)
  · exact fun f hf => absurd hf List.not_mem_nil
  · refine ⟨by decide, ?_⟩
    intro f hf
    obtain rfl | rfl | rfl | rfl | rfl | rfl :
      f = 4 ∨ f = 5 ∨ f = 6 ∨ f = 7 ∨ f = 8 ∨ f = 9 := by simpa [start] using hf
    all_goals decide

/-- The state with `page` mapped and a new table for it in frame `f`. -/
def withMapping (s : HeldFrames) (page frame flags : Word) (f : Frame) : HeldFrames :=
  { s with
    toSpaces := s.toSpaces.withMapping page frame flags f
    held := s.held.erase (frameNumber frame) }

theorem Uses.step_mapPage {page frame flags : Word} (h : s.Uses use) (hpage : BelowWindow page)
    (ha : frame % pageSize = 0) (hp : (s.memory.pde page).present = false)
    (hnext : s.machine.pageMap.next = some f) :
    s.step (.mapPage page frame flags) = some (s.withMapping page frame flags f) := by
  have hcr3 := h.next_ne hnext ((h.spaces _).mp h.current)
  rw [HeldFrames.step, Machine.mapPage_of_some h.self hpage ha hp hnext hcr3.symm]
  rfl

/-- Another address space is loaded. -/
def loaded (s : HeldFrames) (a : Frame) : HeldFrames :=
  { s with machine.memory := pagingLoadAddressSpace s.memory (frameAddress a) }

theorem step_loadAddressSpace (ha : a ∈ s.spaces) :
    s.step (.loadAddressSpace a) = some (s.loaded a) := by
  rw [HeldFrames.step, Spaces.step, if_pos ha]
  rfl

/-- Two address spaces have been created, and a frame reserved for each. -/
def supplied : HeldFrames :=
  { start with
    toSpaces :=
      { (start.toSpaces.withSpace 4).withSpace 5 with
        machine.pageMap := ⟨[some 8, some 9], [7, 6, 5, 4, 1, 2, 3]⟩ }
    held := [7, 6] }

/-- A page of the first one is mapped. -/
def firstMapped : HeldFrames :=
  (supplied.loaded 4).withMapping 0x1000 0x6000 (pageUsermode ||| pageRw) 8

/-- The page of the same address is mapped in the second one. -/
def secondMapped : HeldFrames :=
  (firstMapped.loaded 5).withMapping 0x1000 0x7000 (pageUsermode ||| pageRw) 9

theorem reachable_created (hreach : system.Reachable Orderly s)
    (hnext : s.machine.pageMap.next = some f)
    (h0 : (s.memory.entry s.memory.cr3 0).permits true = true) :
    system.Reachable Orderly { s with toSpaces := s.toSpaces.withSpace f } := by
  obtain ⟨use, huse⟩ := uses_of_reachable hreach
  have hok : s.Orderly .createAddressSpace := trivial
  exact hreach.step hok (huse.step_createAddressSpace hnext h0)

theorem reachable_reserved (hreach : system.Reachable Orderly s)
    (hnext : s.machine.pageMap.next = some f) : system.Reachable Orderly { s with
      machine.pageMap := ⟨s.machine.pageMap.answers.tail, f :: s.machine.pageMap.reserved⟩
      held := f :: s.held } := by
  have hok : s.Orderly .reservePage := trivial
  exact hreach.step hok (step_reservePage hnext)

theorem reachable_loaded (hreach : system.Reachable Orderly s) (ha : a ∈ s.spaces) :
    system.Reachable Orderly (s.loaded a) := by
  have hok : s.Orderly (.loadAddressSpace a) := trivial
  exact hreach.step hok (step_loadAddressSpace ha)

theorem reachable_supplied : system.Reachable Orderly supplied := by
  have hcreated := reachable_created (.init boot_start) (f := 4) rfl (by decide)
  have hcreated' := reachable_created hcreated (f := 5) rfl (by decide)
  exact reachable_reserved (reachable_reserved hcreated' (f := 6) rfl) (f := 7) rfl

theorem orderly_firstMapped :
    (supplied.loaded 4).Orderly (.mapPage 0x1000 0x6000 (pageUsermode ||| pageRw)) :=
  ⟨by decide, fun _ => by decide, by decide⟩

theorem reachable_firstMapped : system.Reachable Orderly firstMapped := by
  have hreach := reachable_loaded reachable_supplied (a := 4) (by decide)
  obtain ⟨use, huse⟩ := uses_of_reachable hreach
  exact hreach.step orderly_firstMapped
    (huse.step_mapPage (by decide) (by decide) (by decide) rfl)

theorem orderly_secondMapped :
    (firstMapped.loaded 5).Orderly (.mapPage 0x1000 0x7000 (pageUsermode ||| pageRw)) :=
  ⟨by decide, fun _ => by decide, by decide⟩

theorem step_secondMapped : (firstMapped.loaded 5).step
    (.mapPage 0x1000 0x7000 (pageUsermode ||| pageRw)) = some secondMapped := by
  have hreach := reachable_loaded (a := 5) reachable_firstMapped (by decide)
  obtain ⟨use, huse⟩ := uses_of_reachable hreach
  exact huse.step_mapPage (by decide) (by decide) (by decide) rfl

theorem isolated_secondMapped : ∃ memory, secondMapped.memory.storeByte 0x1000 42 = some memory ∧
    secondMapped.Isolated ∧ secondMapped.StoresOneByte 0x1000 42 memory := by
  have hreach := (reachable_loaded (a := 5) reachable_firstMapped (by decide)).step
    orderly_secondMapped step_secondMapped
  have hstore : secondMapped.memory.storeByte 0x1000 42 = some _ := rfl
  obtain ⟨hisolated, hstores⟩ := spacesIsolated_of_reachable hreach
  exact ⟨_, hstore, hisolated, hstores 0x1000 42 _ ⟨rfl, rfl, rfl⟩ hstore⟩

theorem undisturbed_secondMapped :
    SamePages 4 (firstMapped.loaded 5).memory secondMapped.memory := by
  have hsame : (since (firstMapped.loaded 5)).Reachable (Unloaded 4) secondMapped :=
    .step (.init rfl) ⟨orderly_secondMapped, by decide⟩ step_secondMapped
  exact undisturbed_of_reachable (reachable_loaded reachable_firstMapped (by decide))
    (by decide) (by decide) hsame

end HeldFrames
end QuarkKernel
