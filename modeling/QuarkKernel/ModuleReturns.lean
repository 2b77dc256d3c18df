import QuarkKernel.LoadedModule

/-! # When the parts of `kernel_load_module` return

The window takes a table if it is the first in its 4 MiB, `unmap_page` takes none, and a
page of the program takes a frame.  Whether there is a page of the program in the window
does not matter to the calls. -/
namespace QuarkKernel
open PagedMemory
open ByteMemory (addrAt)
open CountedLoop (loop_succ)
open Multiboot (Module)
open UserFrames (withFrame)

/-! ### The window -/

section Window
variable {m t : Machine} {module : Module} {i : Nat} {f n : Frame}

/-- A page that is there has a table. -/
theorem present_of_view {m : PagedMemory} {x : Word} (h : (m.view x).isSome = true) :
    (m.pde x).present = true := by
  by_contra hp
  rw [view_of_absent fun hpresent => hp hpresent.1] at h
  cases h

theorem dirIndex_windowPage (hi : i < 1024) : dirIndex (windowPage i) = 512 := by
  have hbase : loadBase.toNat + 4096 * i < kernelBase := by
    rw [show loadBase.toNat = 2147483648 from rfl]
    unfold kernelBase
    omega
  apply BitVec.eq_of_toNat_eq
  rw [dirIndex_toNat, windowPage, toNat_addr hbase, show loadBase.toNat = 2147483648 from rfl,
    show (512 : BitVec 10).toNat = 512 from rfl]
  omega

/-- The frames after `i` passes: the first takes one for the table. -/
def windowPageMap (pageMap : PageMap) (n : Frame) : Nat → PageMap
  | 0 => pageMap
  | _ + 1 => ⟨pageMap.answers.tail, n :: pageMap.reserved⟩

/-- The table is there after the first pass. -/
theorem WindowMapped.present (h : WindowMapped m module (i + 1) t) {x : Word}
    (hx : dirIndex x = 512) : (t.memory.pde x).present = true := by
  have hbase : loadBase.toNat < kernelBase := by decide
  have hview := h.window loadBase.toNat hbase
  rw [if_pos ⟨Nat.le_refl _, by omega⟩, addr_toNat] at hview
  have hpde : t.memory.pde x = t.memory.pde loadBase := by
    rw [PagedMemory.pde, hx, PagedMemory.pde, show dirIndex loadBase = 512 by decide]
  rw [hpde]
  exact present_of_view (by rw [hview]; rfl)

/-- Of up to 1024 pages each can be mapped. -/
theorem WindowMapped.exists_pass {pageMap : PageMap} (h : WindowMapped m module i t)
    (hhost : HostsModule m module)
    (hfits : loadBase.toNat + 4096 * module.pageCount ≤ kernelBase)
    (hcount : module.pageCount ≤ 1024) (hi : i < module.pageCount)
    (hpde : i = 0 → (t.memory.pde (windowPage 0)).present = false)
    (hpageMap : t.pageMap = windowPageMap pageMap n i) (hnext : pageMap.next = some n) :
    ∃ t', Machine.mapModulePage (windowPage i) (modulePage module i) t = some t' ∧
      WindowMapped m module (i + 1) t' ∧ t'.pageMap = windowPageMap pageMap n (i + 1) := by
  have huser : IsUser (windowPage i) := isUser_addr (by omega)
  obtain ⟨t', hmap, hpageMap'⟩ : ∃ t' : Machine,
      t.mapPage (windowPage i) (frameAddress (moduleFrame module i)) pageRw = some (.enone, t') ∧
        t'.pageMap = windowPageMap pageMap n (i + 1) := by
    cases i with
    | zero =>
      have hpageMap : t.pageMap = pageMap := hpageMap
      obtain ⟨memory, hmap⟩ := h.space.mapPage_of_next huser (moduleFrame module 0) pageRw (hpde rfl)
        (hpageMap ▸ hnext)
      exact ⟨_, hmap, by rw [hpageMap]; rfl⟩
    | succ i =>
      obtain ⟨memory, hmap⟩ := h.space.mapPage_of_table huser (moduleFrame module (i + 1)) pageRw
        (h.present (dirIndex_windowPage (by omega)))
      exact ⟨_, hmap, hpageMap⟩
  have hpass : Machine.mapModulePage (windowPage i) (modulePage module i) t = some t' := by
    have hnone : ¬ Status.Panics Status.enone.code := by decide
    rw [Machine.mapModulePage, ← frameAddress_moduleFrame hi, hmap, Option.bind_eq_bind,
      Option.bind_some]
    dsimp only
    rw [if_neg hnone]
  exact ⟨t', hpass, h.pass hhost hfits hi hpass, hpageMap'⟩

/-- **The module can be mapped** when there is a frame for the directory and one for the
table. -/
theorem exists_mapModule {fuel : Nat} (hhost : HostsModule m module)
    (hfits : loadBase.toNat + 4096 * module.pageCount ≤ kernelBase)
    (hcount : module.pageCount ≤ 1024) (hpos : 0 < module.pageCount)
    (hstop : module.stop.toNat ≤ 4294963200)
    (hopen : (m.memory.entry m.memory.cr3 0).permits true = true)
    (hnext : m.pageMap.next = some f)
    (hnext' : (⟨m.pageMap.answers.tail, f :: m.pageMap.reserved⟩ : PageMap).next = some n)
    (hfuel : module.pageCount ≤ fuel) :
    ∃ m1, m.mapModule fuel module = some m1 ∧ WindowMapped m module module.pageCount m1 ∧
      m1.pageMap = ⟨m.pageMap.answers.tail.tail, n :: f :: m.pageMap.reserved⟩ := by
  have hunused := hhost.inUse.unused hnext
  have hcreate := Machine.createAddressSpace_of_some hhost.self hnext hopen (PageTables.new_ne hunused)
  have htop := holdsTopTable_setFrame m.memory f
  -- the loop begins in the new address space
  obtain ⟨m0, hm0⟩ : ∃ m0 : Machine, m0 =
      ⟨(m.memory.setFrame f (topTable (m.memory.ram m.memory.cr3) f)).under f,
        ⟨m.pageMap.answers.tail, f :: m.pageMap.reserved⟩⟩ := ⟨_, rfl⟩
  have hstart : m.mapModule fuel module =
      Machine.forModulePages Machine.mapModulePage module.stop fuel (modulePage module 0)
        (addr (4096 * 0)) m0 := by
    rw [Machine.mapModule, hcreate, Option.bind_eq_bind, Option.bind_some]
    dsimp only
    rw [if_neg (frameAddress_ne_enomem f), pagingLoadAddressSpace_frameAddress, firstPage_eq, hm0]
    rfl
  have hinit : WindowMapped m module 0 m0 := hm0 ▸ hhost.windowMapped hnext htop
  have habsent : (m0.memory.pde (windowPage 0)).present = false := by
    rw [hm0]
    exact entry_of_user htop (isUser_addr (by decide))
  have hrun : ∃ m1, Machine.forModulePages Machine.mapModulePage module.stop fuel
      (modulePage module 0) (addr (4096 * 0)) m0 = some m1 ∧
      (WindowMapped m module module.pageCount m1 ∧
        m1.pageMap = windowPageMap m0.pageMap n module.pageCount) ∧
      (module.pageCount = 0 → (m1.memory.pde (windowPage 0)).present = false) := by
    refine exists_forModulePages (fun i t => (WindowMapped m module i t ∧
      t.pageMap = windowPageMap m0.pageMap n i) ∧
        (i = 0 → (t.memory.pde (windowPage 0)).present = false)) hstop ?_ (Nat.zero_le _)
      (hfuel.trans (Nat.le_add_left _ _)) ⟨⟨hinit, rfl⟩, fun _ => habsent⟩
    rintro i t hi ⟨⟨hinv, hpageMap⟩, hpde⟩
    obtain ⟨t', hpass, hinv', hpageMap'⟩ := hinv.exists_pass hhost hfits hcount hi hpde hpageMap
      (by rw [hm0]; exact hnext')
    exact ⟨t', hpass, ⟨hinv', hpageMap'⟩, fun h => absurd h (Nat.succ_ne_zero i)⟩
  obtain ⟨m1, hrun, ⟨hwindow, hpageMap⟩, -⟩ := hrun
  obtain ⟨k, hk⟩ := Nat.exists_eq_add_of_lt hpos
  refine ⟨m1, hstart.trans hrun, hwindow, ?_⟩
  rw [hpageMap, hk, hm0]
  rfl

/-- What `unmap_page` returns for a page that was there is no error. -/
theorem not_panics_frameAddress {page : Word} (f : Frame) (hpage : page.toNat % 4096 = 0) :
    ¬ Status.Panics (frameAddress f ||| page &&& 0xFFF) := by
  have hzero : page &&& 0xFFF = 0 := by
    apply BitVec.eq_of_toNat_eq
    rw [BitVec.toNat_and, show (0xFFF : Word).toNat = 2 ^ 12 - 1 from rfl,
      Nat.and_two_pow_sub_one_eq_mod]
    exact hpage
  have hor : frameAddress f ||| page &&& 0xFFF = frameAddress f := by
    rw [hzero]
    exact BitVec.or_zero
  rw [hor]
  have haddress := toNat_frameAddress f
  rintro (heq | heq)
  all_goals
    rw [heq] at haddress
    have hcode := congrArg (· % 4096) haddress
    rw [show 4096 * f.toNat % 4096 = 0 by omega] at hcode
    exact absurd hcode (by decide)

/-- **The window can be unmapped** when all of it is there. -/
theorem exists_unmapModule {fuel : Nat} (h : ProgramSpace m)
    (hfits : loadBase.toNat + 4096 * module.pageCount ≤ kernelBase)
    (hstop : module.stop.toNat ≤ 4294963200) (hfuel : module.pageCount ≤ fuel)
    (hthere : ∀ i, i < module.pageCount → (m.memory.view (windowPage i)).isSome = true) :
    ∃ m', Machine.forModulePages Machine.unmapModulePage module.stop fuel module.firstPage 0 m =
      some m' ∧ WindowUnmapped m module.pageCount m' := by
  rw [firstPage_eq]
  refine exists_forModulePages (WindowUnmapped m) hstop (fun i t hi hinv => ?_) (Nat.zero_le _)
    (by omega) ?_
  · have hbase : loadBase.toNat + 4096 * i < kernelBase := by omega
    have hpage : (windowPage i).toNat = loadBase.toNat + 4096 * i := toNat_addr hbase
    have hview : t.memory.view (windowPage i) = m.memory.view (windowPage i) := by
      refine hinv.others _ (isUser_addr hbase).belowWindow ?_
      rw [hpage]
      omega
    obtain ⟨f, t', hunmap⟩ := hinv.space.exists_unmapPage (isUser_addr hbase)
      (hview ▸ hthere i hi)
    have hpass : Machine.unmapModulePage (windowPage i) (modulePage module i) t = some t' := by
      have hunmap : t.unmapPage (windowPage i) =
        some (frameAddress f ||| windowPage i &&& 0xFFF, t') := hunmap
      rw [Machine.unmapModulePage, hunmap]
      refine if_neg (not_panics_frameAddress f ?_)
      rw [hpage, show loadBase.toNat = 2147483648 from rfl]
      omega
    exact ⟨t', hpass, hinv.pass hfits hi hpass⟩
  · exact .refl h

end Window

/-! ### A program of one byte -/

section Program
variable {m m1 : Machine} {file : ElfFile} {pages : List Nat} {t : Segment} {x : Nat} {g : Frame}

/-- A byte of a page that has been mapped can be written. -/
theorem Placing.exists_storeByte (h : Placing file m1 m pages) (hx : x < kernelBase)
    (hin : pageOf x ∈ pages) (b : BitVec 8) :
    ∃ memory, m.memory.storeByte (addr x) b = some memory := by
  obtain ⟨f, hview, -⟩ := h.placed x hx hin
  have huser : m.memory.UserAccessible (addr x) :=
    userAccessible_iff_view.mpr ⟨_, hview, rfl, rfl⟩
  obtain ⟨f', hframe⟩ := Option.isSome_iff_exists.mp huser.1
  exact ⟨_, Option.map_eq_some_iff.mpr ⟨f', hframe, rfl⟩⟩

/-- A page that was there is there, whether the program has taken it or not. -/
theorem Placing.view_isSome (h : Placing file m1 m pages) (hx : x < kernelBase)
    (hview : (m1.memory.view (addr x)).isSome = true) :
    (m.memory.view (addr x)).isSome = true := by
  by_cases hin : pageOf x ∈ pages
  · obtain ⟨f, hf, -⟩ := h.placed x hx hin
    rw [hf]
    rfl
  · rw [h.others _ (isUser_addr hx).belowWindow fun _ => by rwa [toNat_addr hx]]
    exact hview

/-- A first pass that copies the first byte of the file. -/
theorem exists_loadPage {j : Nat} (hfile : Steady file) (hspace : ProgramSpace m)
    (hheaders : HeadersAt m.memory file) (hj : j < file.phcount) (hseg : file.segment j = t)
    (ht : t ∈ file.segments) (hmemsize : t.memsize = 1)
    (hp : (m.memory.pde (addr t.vaddr)).present = true) (hnext : m.pageMap.next = some g) :
    ∃ memory, m.loadPage (addrAt loadBase (file.programHeader j)) (addr t.vaddr) (loadBase + 0)
      (addr (4096 * 0)) = some (.enone, ⟨memory, ⟨m.pageMap.answers.tail,
        g :: m.pageMap.reserved⟩⟩) := by
  have hx : t.Covers t.vaddr := ⟨Nat.le_refl _, by omega⟩
  have hlt := hfile.lt_kernelBase ht hx
  have hunused := (hspace.inUse.fresh.next hnext).1
  have hdst : addr t.vaddr + addr (4096 * 0) = addr t.vaddr := BitVec.add_zero _
  obtain ⟨memory, hmap⟩ := (hspace.withFrame hnext).mapPage_of_table (isUser_addr hlt) g
    (pageRw ||| pageUsermode ||| pageExecutable) hp
  have hputs := (hspace.withFrame hnext).mapPage (isUser_addr hlt) (List.mem_cons_self ..)
    (hspace.inUse.unused hnext) (fun y v hy _ hv heq => hunused (heq ▸ hspace.pages y v hy hv)) hmap
  have hputs := (hputs.resolve_left (by decide)).2
  have hplacing := (Placing.refl hspace hheaders).putsPage hfile ht hx hunused (by decide)
    (by decide) hputs
  have hsize : (file.wordAt (file.programHeader j + 20)).toNat = 1 := by
    rw [← hmemsize, ← hseg]
    rfl
  obtain ⟨num, hnum, hlen⟩ := copyLength_of_read (k := 0)
    ((hplacing.headers.readsHeaders hfile.toLoadable).memsize hj) (by rw [hsize]; decide)
    (by rw [hsize]; decide)
  rw [hsize] at hlen
  have hlen : num.toNat = 1 := hlen
  have hbyte : memory.loadByte (addrAt (loadBase + 0) 0) = some (file.byteAt 0) :=
    hplacing.headers 0 (.inl (by omega))
  obtain ⟨memory', hstore⟩ := hplacing.exists_storeByte hlt (List.mem_cons_self ..) (file.byteAt 0)
  have hcopy : memcpy memory (addr t.vaddr) (loadBase + 0) 1 = some memory' := by
    show Option.bind (memory.loadByte (addrAt (loadBase + 0) 0)) _ = _
    rw [hbyte, Option.bind_some]
    have hfirst : addrAt (addr t.vaddr) 0 = addr t.vaddr := BitVec.add_zero _
    rw [hfirst]
    exact hstore
  refine ⟨memory', ?_⟩
  rw [Machine.loadPage, PageMap.reservePage_of_some hnext]
  dsimp only
  rw [if_neg (frameAddress_ne_enomem g), hdst]
  show Option.bind ((withFrame m g).mapPage _ _ _) _ = _
  rw [hmap]
  show Option.bind (Machine.copyLength memory _ (addr (4096 * 0))) _ = _
  rw [hnum, Option.bind_some, hlen]
  show Option.bind (memcpy memory (addr t.vaddr) (loadBase + 0) 1) _ = _
  rw [hcopy]
  rfl

/-- **A program of one byte** is loaded when there is a table for it and a frame. -/
theorem exists_loadProgram (hfile : Steady file) (hspace : ProgramSpace m)
    (hheaders : HeadersAt m.memory file) (hcount : file.phcount = 1)
    (hisLoad : file.isLoad 0 = true) (hoffset : (file.segment 0).offset = 0)
    (hmemsize : (file.segment 0).memsize = 1)
    (hp : (m.memory.pde (addr (file.segment 0).vaddr)).present = true)
    (hnext : m.pageMap.next = some g) :
    ∃ memory, m.loadProgram loadBase =
      some (.enone, ⟨memory, ⟨m.pageMap.answers.tail, g :: m.pageMap.reserved⟩⟩) := by
  have hk : 0 < file.phcount := by omega
  have ht : file.segment 0 ∈ file.segments :=
    ElfFile.mem_segmentsFrom.mpr ⟨0, Nat.le_refl _, by omega, hisLoad, rfl⟩
  have hfits := hfile.memsize_le ht
  have hpages : 0 < pagesOf (file.segment 0).memsize := by
    rw [hmemsize]
    decide
  obtain ⟨memory, hpass⟩ := exists_loadPage hfile hspace hheaders hk rfl ht hmemsize hp hnext
  refine ⟨memory, ?_⟩
  -- the headers are there behind the pass
  obtain ⟨-, _, -, hplacing, -⟩ := ((Placing.refl hspace hheaders).loadPage hfile hk rfl ht hpages
    hpass).resolve_left (by decide)
  have hread := hheaders.readsHeaders hfile.toLoadable
  have hread' := hplacing.headers.readsHeaders hfile.toLoadable
  have hsource : addrAt loadBase (file.segment 0).offset = loadBase + 0 := by
    rw [hoffset]
    rfl
  have hend : 0 + 1 = pagesOf (file.segment 0).memsize := by
    rw [hmemsize]
    rfl
  rw [hread.loadProgram_eq, hcount, hread.loadSegments_load hk hisLoad, hsource,
    hread.loadPages_pass hk hfits hpages, hpass, Option.bind_some]
  dsimp only
  rw [if_pos rfl, hread'.loadPages_end hk hfits hend, Option.bind_some]
  dsimp only
  rw [if_pos rfl, hread'.loadSegments_next]
  rfl

end Program

/-! ### The first process -/

/-- The stack can be mapped when there are two frames. -/
theorem exists_spawnStack {m : Machine} {g n : Frame} (h : ProgramSpace m)
    (hnext : m.pageMap.next = some g) (hnext' : (withFrame m g).pageMap.next = some n) :
    ∃ bytes m', m.spawnStack = some (frameAddress g, some bytes, m') := by
  have huser : IsUser stackPage := by
    rw [isUser_iff]
    decide
  obtain ⟨m', hmap⟩ : ∃ m',
      (withFrame m g).mapPage stackPage (frameAddress g) stackFlags = some (.enone, m') := by
    cases hp : (m.memory.pde stackPage).present with
    | true =>
      obtain ⟨memory, hmap⟩ := (h.withFrame hnext).mapPage_of_table huser g stackFlags hp
      exact ⟨_, hmap⟩
    | false =>
      obtain ⟨memory, hmap⟩ := (h.withFrame hnext).mapPage_of_next huser g stackFlags hp hnext'
      exact ⟨_, hmap⟩
  obtain ⟨bytes, hstack⟩ := SpawnKernel.spawnStack_of_mapPage hnext hmap
  exact ⟨bytes, m', hstack⟩

/-- **A call returns `ENONE`** when its parts come through and there are frames for the
stack. -/
theorem SpawnKernel.exists_kernelLoadModule {s : SpawnKernel} {fuel : Nat} {module : Module}
    {m1 m2 m3 : Machine} {moduleEntry : Word} {g n : Frame} (hboot : s.kernel.Boot)
    (hmap : s.machine.mapModule fuel module = some m1)
    (hload : m1.loadProgram loadBase = some (.enone, m2))
    (hentry : readEntry m2.memory loadBase = some moduleEntry)
    (hunmap : Machine.forModulePages Machine.unmapModulePage module.stop fuel module.firstPage 0 m2 =
      some m3)
    (hspace : ProgramSpace m3) (hnext : m3.pageMap.next = some g)
    (hnext' : (withFrame m3 g).pageMap.next = some n) :
    ∃ s', s.kernelLoadModule fuel module ⟨some 10, some 11, some 12⟩ =
      some (Status.enone.code, s') := by
  have hnone : ¬ Status.Panics Status.enone.code := by decide
  have hmodule : m1.loadModule fuel module = some (moduleEntry, m3) := by
    rw [Machine.loadModule, hload, Option.bind_eq_bind, Option.bind_some]
    dsimp only
    rw [if_neg hnone, hentry, hunmap]
    rfl
  obtain ⟨bytes, m4, hstack⟩ := exists_spawnStack hspace hnext hnext'
  obtain ⟨kernel, hk⟩ : ∃ kernel, kernel = (s.kernel.kernel.loadAddressSpace
    (frameAddress m3.memory.cr3)).setMemory (frameAddress m3.memory.cr3) m3.memory.loadByte :=
      ⟨_, rfl⟩
  have hboot' : HeapKernel.Boot { s.kernel with kernel } := by
    obtain ⟨⟨heap, cr3, memory, hinit⟩, hrest⟩ := hboot
    refine ⟨⟨heap, frameAddress m3.memory.cr3,
      Function.update memory (frameAddress m3.memory.cr3) m3.memory.loadByte, ?_⟩, hrest⟩
    rw [hk, hinit]
    rfl
  obtain ⟨kernel', hspawn⟩ :=
    spawn_boot hboot' moduleEntry (frameAddress m3.memory.cr3) g bytes
  have hcall : SpawnKernel.kernelSpawnProcess ⟨{ s.kernel with kernel }, m3⟩ moduleEntry 1
      (frameAddress m3.memory.cr3) ⟨some 10, some 11, some 12⟩ = some (1, ⟨kernel', m4⟩) :=
    SpawnKernel.kernelSpawnProcess_of_parts hstack hspawn
  refine ⟨⟨kernel', m4⟩, ?_⟩
  rw [SpawnKernel.kernelLoadModule, hmap, Option.bind_eq_bind, Option.bind_some, hmodule]
  show Option.bind (pagingCurrentAddressSpace m3.memory) _ = _
  rw [hspace.inUse.tables.currentAddressSpace, Option.bind_some]
  dsimp only
  rw [← hk, hcall]
  rfl

end QuarkKernel
