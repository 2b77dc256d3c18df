import QuarkKernel.DirectoryWindow
import QuarkKernel.PlacedProgram

/-! # What `kernel_load_module` leaves

In the new address space the module's pages are all there is below the kernel, then
come the pages of the program, and in the end whatever is at `load_base` is unmapped,
the module's pages or not.  So the program is intact exactly if what the loader has read
is the program, and no segment has a page there (`kernelLoadModule_intact_iff`). -/
namespace QuarkKernel
open PagedMemory
open ByteMemory (addrAt addrAt_addrAt)
open Multiboot (Module)
open UserFrames (withFrame)

/-! ### The new address space -/

section NewSpace
variable {m : Machine} {module : Module} {m1 : PagedMemory} {f : Frame} {x : Word}

section Directory
variable (h : HoldsTopTable m.memory m1 f)
include h

theorem entry_of_user {d : BitVec 10} (hd : d.toNat < 1021) : (m1.entry f d).present = false := by
  rw [PagedMemory.entry, h.user d (by rw [show kernelIndex = 1021 by decide]; exact hd)]
  rfl

theorem entry_of_kernel {d : BitVec 10} (hd : d ≠ 1023) (hlow : ¬ d.toNat < 1021) :
    m1.entry f d = m.memory.entry m.memory.cr3 d := by
  have hlt : d.toNat < 1023 := by
    have hd' := d.isLt
    have hne : d.toNat ≠ 1023 := fun heq => hd (BitVec.eq_of_toNat_eq heq)
    omega
  rw [PagedMemory.entry, h.kernel d (by rw [show kernelIndex = 1021 by decide]; omega) hlt,
    PagedMemory.entry]

/-- An entry that is present is one of the old directory. -/
theorem entry_of_present {d : BitVec 10} (hd : d ≠ 1023) (hp : (m1.entry f d).present = true) :
    m1.entry f d = m.memory.entry m.memory.cr3 d := by
  refine entry_of_kernel h hd fun hlow => ?_
  rw [entry_of_user h hlow] at hp
  cases hp

/-- There are no pages below the kernel. -/
theorem view_of_user (hx : IsUser x) : (m1.under f).view x = none := by
  refine view_of_absent fun hp => ?_
  have hpde := entry_of_user h hx
  rw [show m1.entry f (dirIndex x) = (m1.under f).pde x from rfl, hp.1] at hpde
  cases hpde

end Directory

/-- The tables there are. -/
theorem holdsTable_under (h : HoldsTopTable m.memory m1 f) {g : Frame}
    (hg : HoldsTable (m1.under f) g) : g = f ∨ HoldsTable m.memory g := by
  rcases hg with rfl | ⟨d, hd, hp, rfl⟩
  · exact .inl rfl
  · have hentry : m1.entry f d = m.memory.entry m.memory.cr3 d := entry_of_present h hd hp
    have hp : (m1.entry f d).present = true := hp
    rw [hentry] at hp
    exact .inr (.inr ⟨d, hd, hp, (congrArg Entry.physicalAddress hentry).symm⟩)

/-- The kernel's pages. -/
theorem view_of_kernel (h : HoldsTopTable m.memory m1 f) (hf : ¬ HoldsTable m.memory f)
    (hx : BelowWindow x) (hk : ¬ IsUser x) : (m1.under f).view x = m.memory.view x := by
  have hpde : (m1.under f).pde x = m.memory.pde x := entry_of_kernel h hx hk
  refine view_congr hpde fun hp => ?_
  have hne : (m.memory.pde x).physicalAddress ≠ f := by
    rintro rfl
    exact hf (PageTables.holdsTable_pde hx hp)
  rw [PagedMemory.pte, hpde, PagedMemory.pte]
  show Entry.ofWord (m1.ram _ _) = Entry.ofWord _
  rw [h.others _ hne]

/-- **The new address space** has the kernel's pages only. -/
theorem HostsModule.programSpace (h : HostsModule m module) (hnext : m.pageMap.next = some f)
    (htop : HoldsTopTable m.memory m1 f) :
    ProgramSpace ⟨m1.under f, ⟨m.pageMap.answers.tail, f :: m.pageMap.reserved⟩⟩ := by
  have hunused := h.inUse.unused hnext
  have htables := h.inUse.tables
  refine ⟨⟨⟨htop.present, htop.self, ?_, ?_⟩, (h.inUse.fresh.next hnext).2, ?_⟩, ⟨?_, htop.self⟩,
    ?_, ?_, ?_, ?_⟩
  · intro d hd hp heq
    have hentry : m1.entry f d = m.memory.entry m.memory.cr3 d := entry_of_present htop hd hp
    have hp : (m1.entry f d).present = true := hp
    have heq : (m1.entry f d).physicalAddress = f := heq
    rw [hentry] at hp heq
    exact hunused (.inr ⟨d, hd, hp, heq⟩)
  · intro d d' hd hd' hp hp' heq
    have hentry : m1.entry f d = m.memory.entry m.memory.cr3 d := entry_of_present htop hd hp
    have hentry' : m1.entry f d' = m.memory.entry m.memory.cr3 d' := entry_of_present htop hd' hp'
    have hp : (m1.entry f d).present = true := hp
    have hp' : (m1.entry f d').present = true := hp'
    have heq : (m1.entry f d).physicalAddress = (m1.entry f d').physicalAddress := heq
    rw [hentry] at hp heq
    rw [hentry'] at hp' heq
    exact htables.distinct d d' hd hd' hp hp' heq
  · intro g hg
    rcases holdsTable_under htop hg with rfl | hg
    · exact List.mem_cons_self ..
    · exact List.mem_cons_of_mem _ (h.inUse.reserved g hg)
  · exact permits_iff.mpr ⟨htop.present, htop.rw⟩
  · intro x hx hp
    have hpde : (m1.entry f (dirIndex x)).present = true := hp
    rw [entry_of_user htop hx] at hpde
    cases hpde
  · intro x v hx hv
    by_cases hk : IsUser x
    · rw [view_of_user htop hk] at hv
      cases hv
    · rw [view_of_kernel htop hunused hx hk] at hv
      exact List.mem_cons_of_mem _ (h.kernelPages x v hx hk hv).1
  · intro x v hx hv
    rw [view_of_user htop hx] at hv
    cases hv
  · intro x y v w hx _ hv
    rw [view_of_user htop hx] at hv
    cases hv

/-- `create_address_space`, when it does not run out of frames. -/
theorem createAddressSpace_of_ne {table : Word} {m' : Machine} (h : HostsModule m module)
    (hcreate : m.createAddressSpace = some (table, m')) (hne : table ≠ Status.enomem.code) :
    ∃ f m1, m.pageMap.next = some f ∧ table = frameAddress f ∧ HoldsTopTable m.memory m1 f ∧
      m' = ⟨m1, ⟨m.pageMap.answers.tail, f :: m.pageMap.reserved⟩⟩ := by
  rcases Option.eq_none_or_eq_some m.pageMap.next with hnext | ⟨f, hnext⟩
  · rw [Machine.createAddressSpace_of_none hnext] at hcreate
    obtain ⟨rfl, -⟩ := Prod.mk.inj (Option.some.inj hcreate)
    exact absurd rfl hne
  · have hopen := Machine.permits_of_createAddressSpace h.self hnext hcreate
    rw [Machine.createAddressSpace_of_some h.self hnext hopen
      (PageTables.new_ne (h.inUse.unused hnext))] at hcreate
    obtain ⟨rfl, rfl⟩ := Prod.mk.inj (Option.some.inj hcreate)
    exact ⟨f, _, hnext, rfl, holdsTopTable_setFrame m.memory f, rfl⟩

end NewSpace

/-! ### The loops over the module's pages -/

section Pages
variable {pass : Word → Word → Machine → Option Machine} {module : Module} {fuel : Nat}
  {m m' : Machine} {p loadOffset : Word}

theorem toNat_and_not_offset (x : Word) :
    (x &&& ~~~(pageSize - 1)).toNat = 4096 * (x.toNat / 4096) := by
  have hshift : x &&& ~~~(pageSize - 1) = x >>> 12 <<< 12 := by
    ext i hi
    have hbit : (pageSize - 1)[i] = decide (i < 12) := by
      rw [← BitVec.getLsbD_eq_getElem hi]
      exact Nat.testBit_two_pow_sub_one 12 i
    simp only [BitVec.getElem_and, BitVec.getElem_not, hbit, BitVec.getElem_shiftLeft,
      BitVec.getElem_ushiftRight]
    grind
  have hx := x.isLt
  rw [hshift, BitVec.toNat_shiftLeft, BitVec.toNat_ushiftRight, Nat.shiftLeft_eq,
    Nat.shiftRight_eq_div_pow]
  omega

/-- Where the module's pages begin. -/
theorem firstPage_eq (module : Module) :
    module.firstPage = addr (4096 * (module.start.toNat / 4096)) := by
  rw [← addr_toNat module.firstPage, Module.firstPage, toNat_and_not_offset]

/-- A module that reaches into the last page of the address space has no end. -/
theorem forModulePages_of_last {stop : Word} (hstop : 4294963200 < stop.toNat)
    (hp : p.toNat % 4096 = 0) : Machine.forModulePages pass stop fuel p loadOffset m = none := by
  have hlt : p < stop := by
    have hbound := p.isLt
    rw [BitVec.lt_def]
    omega
  induction fuel generalizing p loadOffset m with
  | zero => rw [Machine.forModulePages, if_pos hlt]
  | succ fuel ih =>
    have hnext : (p + pageSize).toNat % 4096 = 0 := by
      rw [BitVec.toNat_add, show pageSize.toNat = 4096 from rfl]
      omega
    have hlt' : p + pageSize < stop := by
      have hbound := (p + pageSize).isLt
      rw [BitVec.lt_def]
      omega
    rw [Machine.forModulePages, if_pos hlt]
    rcases Option.eq_none_or_eq_some (pass (loadBase + loadOffset) p m) with hnone | ⟨m1, hpass⟩
    · rw [hnone]
      rfl
    · rw [hpass]
      exact ih hnext hlt'

/-- Page `i` of the module. -/
def modulePage (module : Module) (i : Nat) : Word :=
  addr (4096 * (module.start.toNat / 4096 + i))

/-- Where it is mapped. -/
def windowPage (i : Nat) : Word := addr (loadBase.toNat + 4096 * i)

theorem lt_pageCount {i : Nat} : i < module.pageCount ↔
    4096 * (module.start.toNat / 4096 + i) < module.stop.toNat := by
  unfold Module.pageCount
  omega

/-- The pages end before the address space does. -/
theorem toNat_modulePage {i : Nat} (hstop : module.stop.toNat ≤ 4294963200)
    (hi : i ≤ module.pageCount) :
    (modulePage module i).toNat = 4096 * (module.start.toNat / 4096 + i) := by
  have hstart := module.start.isLt
  rw [modulePage, addr, BitVec.toNat_ofNat, Nat.mod_eq_of_lt]
  unfold Module.pageCount at hi
  omega

/-- The loop goes on with page `i`. -/
theorem forModulePages_of_lt {i : Nat} (hstop : module.stop.toNat ≤ 4294963200)
    (hi : i < module.pageCount) (fuel : Nat) (m : Machine) :
    Machine.forModulePages pass module.stop (fuel + 1) (modulePage module i) (addr (4096 * i)) m =
      (pass (windowPage i) (modulePage module i) m).bind
        (Machine.forModulePages pass module.stop fuel (modulePage module (i + 1))
          (addr (4096 * (i + 1)))) := by
  have hgo : modulePage module i < module.stop := by
    rw [BitVec.lt_def, toNat_modulePage hstop (Nat.le_of_lt hi), ← lt_pageCount]
    exact hi
  have hwindow : loadBase + addr (4096 * i) = windowPage i := addrAt_eq_addr loadBase (4096 * i)
  have hp : modulePage module i + pageSize = modulePage module (i + 1) :=
    addrAt_addr (4096 * (module.start.toNat / 4096 + i)) 4096
  have hoffset : addr (4096 * i) + pageSize = addr (4096 * (i + 1)) := addrAt_addr (4096 * i) 4096
  rw [Machine.forModulePages, if_pos hgo, hwindow, hp, hoffset]
  rfl

/-- The loop ends behind the last page. -/
theorem forModulePages_of_eq (hstop : module.stop.toNat ≤ 4294963200) (fuel : Nat) (m : Machine) :
    Machine.forModulePages pass module.stop fuel (modulePage module module.pageCount)
      (addr (4096 * module.pageCount)) m = some m := by
  have hend : ¬ modulePage module module.pageCount < module.stop := by
    rw [BitVec.lt_def, toNat_modulePage hstop (Nat.le_refl _), ← lt_pageCount]
    exact Nat.lt_irrefl _
  cases fuel with
  | zero => rw [Machine.forModulePages, if_neg hend]
  | succ fuel => rw [Machine.forModulePages, if_neg hend]

/-- Without fuel it does not come to the end. -/
theorem forModulePages_zero {i : Nat} (hstop : module.stop.toNat ≤ 4294963200)
    (hi : i < module.pageCount) :
    Machine.forModulePages pass module.stop 0 (modulePage module i) (addr (4096 * i)) m = none := by
  have hgo : modulePage module i < module.stop := by
    rw [BitVec.lt_def, toNat_modulePage hstop (Nat.le_of_lt hi), ← lt_pageCount]
    exact hi
  rw [Machine.forModulePages, if_pos hgo]

/-- **What each pass keeps, the loop keeps.** -/
theorem forModulePages_preserves (Inv : Nat → Machine → Prop)
    (hstep : ∀ i m m', i < module.pageCount → Inv i m →
      pass (windowPage i) (modulePage module i) m = some m' → Inv (i + 1) m')
    {i : Nat} (hi : i ≤ module.pageCount) (hinv : Inv i m)
    (hrun : Machine.forModulePages pass module.stop fuel (modulePage module i) (addr (4096 * i)) m =
      some m') : Inv module.pageCount m' := by
  have hstop : module.stop.toNat ≤ 4294963200 := by
    by_contra hlast
    have hpage : (modulePage module i).toNat % 4096 = 0 := by
      rw [modulePage, addr, BitVec.toNat_ofNat]
      omega
    rw [forModulePages_of_last (Nat.lt_of_not_le hlast) hpage] at hrun
    cases hrun
  induction fuel generalizing i m with
  | zero =>
    rcases Nat.lt_or_eq_of_le hi with hlt | rfl
    · rw [forModulePages_zero hstop hlt] at hrun
      cases hrun
    · rw [forModulePages_of_eq hstop] at hrun
      exact Option.some.inj hrun ▸ hinv
  | succ fuel ih =>
    rcases Nat.lt_or_eq_of_le hi with hlt | rfl
    · rw [forModulePages_of_lt hstop hlt] at hrun
      obtain ⟨m1, hpass, hrun⟩ := Option.bind_eq_some_iff.mp hrun
      exact ih hlt (hstep i m m1 hlt hinv hpass) hrun
    · rw [forModulePages_of_eq hstop] at hrun
      exact Option.some.inj hrun ▸ hinv

/-- A loop whose passes come through comes through. -/
theorem exists_forModulePages (Inv : Nat → Machine → Prop)
    (hstop : module.stop.toNat ≤ 4294963200)
    (hstep : ∀ i m, i < module.pageCount → Inv i m →
      ∃ m', pass (windowPage i) (modulePage module i) m = some m' ∧ Inv (i + 1) m')
    {i : Nat} (hi : i ≤ module.pageCount) (hfuel : module.pageCount ≤ i + fuel) (hinv : Inv i m) :
    ∃ m', Machine.forModulePages pass module.stop fuel (modulePage module i) (addr (4096 * i)) m =
      some m' ∧ Inv module.pageCount m' := by
  induction fuel generalizing i m with
  | zero =>
    obtain rfl := Nat.le_antisymm hi hfuel
    exact ⟨m, forModulePages_of_eq hstop 0 m, hinv⟩
  | succ fuel ih =>
    rcases Nat.lt_or_eq_of_le hi with hlt | rfl
    · obtain ⟨m1, hpass, hinv1⟩ := hstep i m hlt hinv
      rw [forModulePages_of_lt hstop hlt, hpass, Option.bind_some]
      exact ih hlt (by omega) hinv1
    · exact ⟨m, forModulePages_of_eq hstop _ m, hinv⟩

end Pages

/-! ### The module's pages are mapped -/

section Window
variable {m t t' : Machine} {module : Module} {i x : Nat} {f : Frame}

/-- Frame `i` of the module. -/
def moduleFrame (module : Module) (i : Nat) : Frame :=
  BitVec.ofNat 20 (module.start.toNat / 4096 + i)

theorem toNat_moduleFrame (hi : i < module.pageCount) :
    (moduleFrame module i).toNat = module.start.toNat / 4096 + i := by
  have hstop := module.stop.isLt
  rw [lt_pageCount] at hi
  rw [moduleFrame, BitVec.toNat_ofNat, Nat.mod_eq_of_lt]
  omega

theorem inFrame_moduleFrame (hi : i < module.pageCount) : module.InFrame (moduleFrame module i) := by
  rw [Module.InFrame, toNat_moduleFrame hi, ← lt_pageCount]
  exact ⟨Nat.le_add_right _ _, hi⟩

theorem frameAddress_moduleFrame (hi : i < module.pageCount) :
    frameAddress (moduleFrame module i) = modulePage module i := by
  have hstop := module.stop.isLt
  have hlt := lt_pageCount.mp hi
  apply BitVec.eq_of_toNat_eq
  rw [toNat_frameAddress, toNat_moduleFrame hi, modulePage, addr, BitVec.toNat_ofNat]
  omega

/-- The pages of the window. -/
theorem samePage_windowPage (hi : loadBase.toNat + 4096 * i < kernelBase) (hx : x < kernelBase) :
    SamePage (windowPage i) (addr x) ↔
      loadBase.toNat + 4096 * i ≤ x ∧ x < loadBase.toNat + 4096 * (i + 1) := by
  rw [windowPage, samePage_addr hi hx, pageOf, pageOf]
  rw [show loadBase.toNat = 2147483648 from rfl]
  omega

/-- After `i` passes of the first loop. -/
structure WindowMapped (m : Machine) (module : Module) (i : Nat) (t : Machine) : Prop where
  space : ProgramSpace t
  window : ∀ x, x < kernelBase → t.memory.view (addr x) =
    if loadBase.toNat ≤ x ∧ x < loadBase.toNat + 4096 * i then
      some ⟨moduleFrame module ((x - loadBase.toNat) / 4096), true, false⟩ else none
  kernel : ∀ x, BelowWindow x → ¬ IsUser x → t.memory.view x = m.memory.view x
  frames : ∀ f, module.InFrame f → f ∈ t.pageMap.reserved ∧ ¬ HoldsTable t.memory f ∧
    t.memory.ram f = m.memory.ram f

/-- No other page shows the frame that comes next. -/
theorem WindowMapped.free (h : WindowMapped m module i t) (hhost : HostsModule m module)
    (hi : i < module.pageCount) {y : Word} {v : PageView} (hy : BelowWindow y)
    (hv : t.memory.view y = some v) : v.frame ≠ moduleFrame module i := by
  intro heq
  by_cases huser : IsUser y
  · rw [← addr_toNat y, h.window _ (isUser_iff.mp huser), Option.ite_none_right_eq_some] at hv
    obtain ⟨hin, hv⟩ := hv
    have hj : (y.toNat - loadBase.toNat) / 4096 < i := by omega
    have heq := congrArg BitVec.toNat heq
    rw [← Option.some.inj hv, toNat_moduleFrame (Nat.lt_trans hj hi), toNat_moduleFrame hi] at heq
    omega
  · rw [h.kernel y hy huser] at hv
    exact (hhost.kernelPages y v hy huser hv).2 (heq ▸ inFrame_moduleFrame hi)

/-- **A pass of the first loop.** -/
theorem WindowMapped.pass (h : WindowMapped m module i t) (hhost : HostsModule m module)
    (hfits : loadBase.toNat + 4096 * module.pageCount ≤ kernelBase) (hi : i < module.pageCount)
    (hpass : Machine.mapModulePage (windowPage i) (modulePage module i) t = some t') :
    WindowMapped m module (i + 1) t' := by
  have hbase : loadBase.toNat + 4096 * i < kernelBase := by omega
  have huser : IsUser (windowPage i) := isUser_addr hbase
  obtain ⟨hused, hnot, -⟩ := h.frames _ (inFrame_moduleFrame hi)
  obtain ⟨⟨status, t1⟩, hmap, hpass⟩ := Option.bind_eq_some_iff.mp hpass
  rw [← frameAddress_moduleFrame hi] at hmap
  dsimp only at hpass
  rcases h.space.mapPage huser hused hnot (fun _ _ hy _ hv => h.free hhost hi hy hv) hmap with
    rfl | ⟨rfl, hputs⟩
  · rw [if_pos (.inl rfl)] at hpass
    cases hpass
  rw [if_neg (by decide)] at hpass
  obtain rfl := Option.some.inj hpass
  refine ⟨hputs.space, fun x hx => ?_, fun x hx hk => ?_, fun f hf => ?_⟩
  · by_cases hpage : SamePage (windowPage i) (addr x)
    · rw [hputs.maps _ hpage]
      rw [samePage_windowPage hbase hx] at hpage
      rw [if_pos ⟨by omega, hpage.2⟩, show (x - loadBase.toNat) / 4096 = i by omega]
      rfl
    · rw [hputs.others _ (isUser_addr hx).belowWindow hpage, h.window x hx]
      rw [samePage_windowPage hbase hx] at hpage
      exact if_congr (by omega) rfl rfl
  · rw [hputs.others x hx fun hpage => hk ?_, h.kernel x hx hk]
    rw [isUser_iff] at huser ⊢
    rw [SamePage] at hpage
    omega
  · obtain ⟨hin, hno, hram⟩ := h.frames f hf
    have hno' := fun ht => hno ((hputs.tables f hin).mp ht)
    exact ⟨hputs.grows f hin, hno', (hputs.ram f hno').trans hram⟩

/-- The address space that is loaded. -/
theorem pagingLoadAddressSpace_frameAddress (memory : PagedMemory) (f : Frame) :
    pagingLoadAddressSpace memory (frameAddress f) = memory.under f := by
  rw [pagingLoadAddressSpace, frameNumber_frameAddress]
  rfl

/-- The loop begins without a page. -/
theorem HostsModule.windowMapped {m1 : PagedMemory} (h : HostsModule m module)
    (hnext : m.pageMap.next = some f) (htop : HoldsTopTable m.memory m1 f) :
    WindowMapped m module 0
      ⟨m1.under f, ⟨m.pageMap.answers.tail, f :: m.pageMap.reserved⟩⟩ := by
  have hunused := h.inUse.unused hnext
  refine ⟨h.programSpace hnext htop, fun x hx => ?_, fun x hx hk => view_of_kernel htop hunused hx hk,
    fun g hg => ?_⟩
  · rw [view_of_user htop (isUser_addr hx), if_neg (by omega)]
  · obtain ⟨hin, hno⟩ := h.frames g hg
    have hne : g ≠ f := by
      rintro rfl
      exact (h.inUse.fresh.next hnext).1 hin
    refine ⟨List.mem_cons_of_mem _ hin, fun ht => ?_, htop.others g hne⟩
    rcases holdsTable_under htop ht with rfl | ht
    · exact hne rfl
    · exact hno ht

/-- **What is mapped for `load_program`.** -/
theorem HostsModule.mapModule {fuel : Nat} (h : HostsModule m module)
    (hfits : loadBase.toNat + 4096 * module.pageCount ≤ kernelBase)
    (hmap : m.mapModule fuel module = some t) : WindowMapped m module module.pageCount t := by
  obtain ⟨⟨table, m1⟩, hcreate, hmap⟩ := Option.bind_eq_some_iff.mp hmap
  dsimp only at hmap
  split at hmap
  · cases hmap
  rename_i hne
  obtain ⟨f, m2, hnext, rfl, htop, rfl⟩ := createAddressSpace_of_ne h hcreate hne
  rw [pagingLoadAddressSpace_frameAddress, firstPage_eq] at hmap
  exact forModulePages_preserves (WindowMapped m module)
    (fun i t t' hi hinv hpass => hinv.pass h hfits hi hpass) (Nat.zero_le _)
    (h.windowMapped hnext htop) hmap

theorem byteAt_bytesAt (memory : PagedMemory) (address : Nat) {length : Nat} (hi : i < length) :
    (Module.bytesAt memory address length).byteAt i =
      (memory.ram (BitVec.ofNat 20 ((address + i) / 4096))).byte (BitVec.ofNat 12 (address + i)) := by
  have hlength : i < (Module.bytesAt memory address length).length := by
    rwa [Module.bytesAt, List.length_map, List.length_range]
  rw [ElfFile.byteAt, List.getD_eq_getElem _ _ hlength]
  simp only [Module.bytesAt, List.getElem_map, List.getElem_range]

theorem length_window (module : Module) (memory : PagedMemory) :
    (module.window memory).length = 4096 * module.pageCount := by
  rw [Module.window, Module.bytesAt, List.length_map, List.length_range]

/-- What is read at `load_base`. -/
theorem WindowMapped.loadByte (h : WindowMapped m module module.pageCount t)
    (hfits : loadBase.toNat + 4096 * module.pageCount ≤ kernelBase)
    (hi : i < 4096 * module.pageCount) :
    t.memory.loadByte (addr (loadBase.toNat + i)) = some ((module.window m.memory).byteAt i) := by
  have hframe := (h.frames _ (inFrame_moduleFrame (show i / 4096 < module.pageCount by omega))).2.2
  have hoffset : pageOffset (addr (loadBase.toNat + i)) =
      BitVec.ofNat 12 (4096 * (module.start.toNat / 4096) + i) := by
    apply BitVec.eq_of_toNat_eq
    rw [pageOffset_toNat, toNat_addr (by omega), BitVec.toNat_ofNat,
      show loadBase.toNat = 2147483648 from rfl]
    omega
  rw [loadByte_eq_view, h.window _ (by omega), if_pos ⟨Nat.le_add_right _ _, by omega⟩,
    Nat.add_sub_cancel_left, Option.map_some, hframe, hoffset, Module.window, byteAt_bytesAt _ _ hi]
  rw [moduleFrame, show (4096 * (module.start.toNat / 4096) + i) / 4096 =
    module.start.toNat / 4096 + i / 4096 by omega]

theorem WindowMapped.headersAt (h : WindowMapped m module module.pageCount t)
    (hfits : loadBase.toNat + 4096 * module.pageCount ≤ kernelBase)
    (hfile : (module.window m.memory).Loadable) :
    HeadersAt t.memory (module.window m.memory) := by
  intro i hi
  have hlt := hfile.lt_length hi
  rw [length_window] at hlt
  exact h.loadByte hfits hlt

end Window

/-! ### They are unmapped -/

section Unmap
variable {m t t' : Machine} {module : Module} {i x : Nat}

/-- After `i` passes of the second loop. -/
structure WindowUnmapped (m : Machine) (i : Nat) (t : Machine) : Prop where
  space : ProgramSpace t
  cr3 : t.memory.cr3 = m.memory.cr3
  absent : ∀ x, loadBase.toNat ≤ x → x < loadBase.toNat + 4096 * i → t.memory.view (addr x) = none
  others : ∀ x, BelowWindow x →
    ¬ (loadBase.toNat ≤ x.toNat ∧ x.toNat < loadBase.toNat + 4096 * i) →
    t.memory.view x = m.memory.view x
  pageMap : t.pageMap = m.pageMap
  tables : ∀ f, HoldsTable t.memory f ↔ HoldsTable m.memory f

theorem WindowUnmapped.refl (h : ProgramSpace m) : WindowUnmapped m 0 m where
  space := h
  cr3 := rfl
  absent _ hlow hhigh := absurd hhigh (by omega)
  others _ _ _ := rfl
  pageMap := rfl
  tables _ := Iff.rfl

/-- **A pass of the second loop.** -/
theorem WindowUnmapped.pass (h : WindowUnmapped m i t)
    (hfits : loadBase.toNat + 4096 * module.pageCount ≤ kernelBase) (hi : i < module.pageCount)
    (hpass : Machine.unmapModulePage (windowPage i) (modulePage module i) t = some t') :
    WindowUnmapped m (i + 1) t' := by
  have hbase : loadBase.toNat + 4096 * i < kernelBase := by omega
  have huser : IsUser (windowPage i) := isUser_addr hbase
  obtain ⟨⟨frame, t1⟩, hunmap, hpass⟩ := Option.bind_eq_some_iff.mp hpass
  dsimp only at hpass
  rcases h.space.unmapPage huser hunmap with rfl | htakes
  · rw [if_pos (.inr rfl)] at hpass
    cases hpass
  split at hpass
  · cases hpass
  obtain rfl := Option.some.inj hpass
  refine ⟨htakes.space, htakes.cr3.trans h.cr3, fun x hlow hhigh => ?_, fun x hx hout => ?_,
    htakes.pageMap.trans h.pageMap, fun f => (htakes.tables f).trans (h.tables f)⟩
  · have hx : x < kernelBase := by omega
    by_cases hpage : SamePage (windowPage i) (addr x)
    · exact htakes.absent _ hpage
    · rw [htakes.others _ (isUser_addr hx).belowWindow hpage]
      rw [samePage_windowPage hbase hx] at hpage
      exact h.absent x hlow (by omega)
  · rw [htakes.others x hx fun hpage => hout ?_, h.others x hx fun hin => hout ⟨hin.1, by omega⟩]
    rw [SamePage, windowPage, toNat_addr hbase] at hpage
    rw [show loadBase.toNat = 2147483648 from rfl] at hpage ⊢
    omega

theorem ProgramSpace.unmapModule {fuel : Nat} (h : ProgramSpace m)
    (hfits : loadBase.toNat + 4096 * module.pageCount ≤ kernelBase)
    (hunmap : Machine.forModulePages Machine.unmapModulePage module.stop fuel module.firstPage 0 m =
      some t) : WindowUnmapped m module.pageCount t := by
  rw [firstPage_eq] at hunmap
  exact forModulePages_preserves (WindowUnmapped m)
    (fun i t t' hi hinv hpass => hinv.pass hfits hi hpass) (Nat.zero_le _) (.refl h) hunmap

end Unmap

/-! ### The process is spawned -/

section Spawned
variable {m m' : Machine}

/-- The stack is mapped, or it is not. -/
structure MapsStack (m m' : Machine) : Prop where
  tables : PageTables m'.memory
  cr3 : m'.memory.cr3 = m.memory.cr3
  others : ∀ x, BelowWindow x → ¬ SamePage stackPage x → m'.memory.view x = m.memory.view x
  stack : ∀ x v, SamePage stackPage x → m'.memory.view x = some v →
    m.memory.view x = some v ∨ v.frame ∉ m.pageMap.reserved
  holds : ∀ f, f ∈ m.pageMap.reserved → (HoldsTable m'.memory f ↔ HoldsTable m.memory f)

theorem MapsStack.of_memory (h : TablesInUse m) (heq : m'.memory = m.memory) : MapsStack m m' := by
  refine ⟨heq ▸ h.tables, by rw [heq], fun x _ _ => by rw [heq], fun x v _ hv => .inl ?_, fun f _ => ?_⟩
  · rw [← heq]
    exact hv
  · rw [heq]

theorem SpawnStack.mapsStack {frame : Word} {bytes : Option (Word → BitVec 8)} (h : TablesInUse m)
    (hstack : SpawnStack m frame bytes m') : MapsStack m m' := by
  cases hstack with
  | noFrame hnext => exact .of_memory h rfl
  | noTable g hnext hp htable => exact .of_memory h rfl
  | maps g bytes hnext hcr3 htable hmaps =>
    refine ⟨hmaps.tables, hcr3, hmaps.others, fun x v hx hv => .inr ?_, fun f hf => ?_⟩
    · rw [hmaps.maps x hx, frameNumber_frameAddress] at hv
      rw [← Option.some.inj hv]
      exact (h.fresh.next hnext).1
    · exact hmaps.frames.holdsTable_iff (h.withFrame hnext).fresh (List.mem_cons_of_mem _ hf)

/-- The address space that is loaded, as the directory says. -/
theorem PageTables.currentAddressSpace {m : PagedMemory} (h : PageTables m) :
    pagingCurrentAddressSpace m = some (frameAddress m.cr3) := by
  have hload := h.loadEntry_pde 0xFFFFFFFF
  have hindex : (0xFFFFFFFF : Word) >>> 22 = 1023 := by decide
  have hdir : dirIndex 0xFFFFFFFF = 1023 := by decide
  rw [hindex] at hload
  rw [pagingCurrentAddressSpace, hload, PagedMemory.pde, hdir, Option.map_some, h.frame]

/-- **`kernel_spawn_process`**, if it returns a pid. -/
theorem SpawnKernel.kernelSpawnProcess_mapsStack {s s' : SpawnKernel}
    {programEntry addressSpace pid : Word} {priority : Int} {blocks : ProcessBlocks}
    (h : TablesInUse s.machine) (hpid : pid ≠ 0)
    (hspawn : s.kernelSpawnProcess programEntry priority addressSpace blocks = some (pid, s')) :
    MapsStack s.machine s'.machine ∧ ∃ p, blocks.process = some p ∧
      s'.kernel.kernel.processes p = some
        (Kernel.newProcess s.kernel.kernel.nextPid programEntry priority addressSpace) := by
  obtain ⟨⟨frame, bytes, machine⟩, hstack, hspawn⟩ := Option.bind_eq_some_iff.mp hspawn
  obtain ⟨⟨pid', kernel⟩, hkernel, hspawn⟩ := Option.bind_eq_some_iff.mp hspawn
  obtain ⟨rfl, rfl⟩ := Prod.mk.inj (Option.some.inj hspawn)
  rcases Kernel.spawn_cases (HeapKernel.kernel_spawnProcess hkernel) with
    ⟨hzero, -⟩ | ⟨p, memory, processTable, hprocess, hcontext, -, -, heq⟩
  · exact absurd hzero hpid
  have hprocess : blocks.process = some p := hprocess
  have hcontext : blocks.context.isSome = true := hcontext
  rw [hprocess, hcontext] at hstack
  refine ⟨(spawnStack_cases h hstack).mapsStack h, p, hprocess, ?_⟩
  dsimp only
  rw [heq]
  exact Function.update_self ..

end Spawned

end QuarkKernel
