import QuarkKernel.LoadedProgram
import QuarkKernel.ModuleReturns

/-! # When a loaded module is intact

What is at `load_base` in the end is unmapped, the module's pages or not.  So the program
is intact exactly if what the loader has read is the program, and no segment has a page
there (`kernelLoadModule_intact_iff`). -/
namespace QuarkKernel
open PagedMemory
open ByteMemory (addrAt)
open Multiboot (Module)

/-! ### The stages of a call -/

/-- What the parts of a call come to when it returns `ENONE`: the module is mapped, the
program loaded, the window unmapped, and the process spawned. -/
structure Stages (s : SpawnKernel) (fuel : Nat) (module : Module) (process : Option Ptr)
    (s' : SpawnKernel) (m1 m2 m3 : Machine) : Prop where
  maps : s.machine.mapModule fuel module = some m1
  loads : ∃ status, m1.loadProgram loadBase = some (status, m2) ∧ ¬ Status.Panics status.code
  unmaps : Machine.forModulePages Machine.unmapModulePage module.stop fuel module.firstPage 0 m2 =
    some m3
  spawns : TablesInUse m3 → MapsStack m3 s'.machine ∧ ∃ p P, process = some p ∧
    s'.kernel.kernel.processes p = some P ∧ P.pageTable = frameAddress m3.memory.cr3 ∧
    readEntry m2.memory loadBase = some P.ctx.eip

theorem SpawnKernel.kernelLoadModule_stages {s s' : SpawnKernel} {fuel : Nat} {module : Module}
    {blocks : ProcessBlocks}
    (hrun : s.kernelLoadModule fuel module blocks = some (Status.enone.code, s')) :
    ∃ m1 m2 m3, Stages s fuel module blocks.process s' m1 m2 m3 := by
  obtain ⟨m1, hmap, hrun⟩ := Option.bind_eq_some_iff.mp hrun
  obtain ⟨⟨moduleEntry, m3⟩, hload, hrun⟩ := Option.bind_eq_some_iff.mp hrun
  obtain ⟨⟨status, m2⟩, hprogram, hload⟩ := Option.bind_eq_some_iff.mp hload
  dsimp only at hload
  split at hload
  · cases hload
  rename_i hpanics
  obtain ⟨entry, hentry, hload⟩ := Option.bind_eq_some_iff.mp hload
  obtain ⟨m3', hunmap, hload⟩ := Option.bind_eq_some_iff.mp hload
  obtain ⟨rfl, rfl⟩ := Prod.mk.inj (Option.some.inj hload)
  obtain ⟨space, hspace, hrun⟩ := Option.bind_eq_some_iff.mp hrun
  obtain ⟨⟨pid, s''⟩, hspawn, hrun⟩ := Option.bind_eq_some_iff.mp hrun
  obtain ⟨hcode, rfl⟩ := Prod.mk.inj (Option.some.inj hrun)
  refine ⟨m1, m2, m3', hmap, ⟨status, hprogram, hpanics⟩, hunmap, fun hinUse => ?_⟩
  have hpid : pid ≠ 0 := by
    rintro rfl
    exact absurd hcode (by decide)
  obtain ⟨hstack, p, hprocess, hP⟩ := SpawnKernel.kernelSpawnProcess_mapsStack hinUse hpid hspawn
  rw [hinUse.tables.currentAddressSpace] at hspace
  exact ⟨hstack, p, _, hprocess, hP, (Option.some.inj hspace).symm, hentry⟩

/-! ### What is there in the end -/

section Leaves
variable {m m1 m2 m3 m4 : Machine} {module : Module} {image : ElfFile} {pages : List Nat}

/-- The pages below the stack: those of the program, but for the window. -/
structure Leaves (module : Module) (m1 m2 m4 : Machine) (pages : List Nat) : Prop where
  window : ∀ x, x < stackPage.toNat → module.InWindow x → m4.memory.view (addr x) = none
  program : ∀ x, x < stackPage.toNat → ¬ module.InWindow x → pageOf x ∈ pages →
    ∃ f, m4.memory.view (addr x) = some ⟨f, true, true⟩ ∧ f ∉ m1.pageMap.reserved ∧
      f ∈ m2.pageMap.reserved ∧ ∀ y, m4.memory.translate y = some f → SamePage (addr x) y
  blank : ∀ x, x < stackPage.toNat → ¬ module.InWindow x → pageOf x ∉ pages →
    m4.memory.view (addr x) = none
  gone : ∀ x f, m4.memory.translate x = some f → ¬ module.InFrame f

/-- What is behind the last entry of the directory is a table. -/
theorem PageTables.holdsTable_translate {m : PagedMemory} (h : PageTables m) {x : Word} {f : Frame}
    (hx : ¬ BelowWindow x) (hf : m.translate x = some f) : HoldsTable m f := by
  have hdir : dirIndex x = 1023 := not_not.mp hx
  have hpte : m.pte x = m.entry m.cr3 (tableIndex x) := by
    rw [PagedMemory.pte, PagedMemory.pde, hdir, h.frame]
  rw [PagedMemory.translate, hpte, Option.ite_none_right_eq_some, Bool.and_eq_true] at hf
  obtain ⟨⟨-, hpresent⟩, hframe⟩ := hf
  rw [← Option.some.inj hframe]
  by_cases hlast : tableIndex x = 1023
  · rw [hlast, h.frame]
    exact .inl rfl
  · exact .inr ⟨_, hlast, hpresent, rfl⟩

/-- A page that is there was there before the spawn, or has a frame of its own. -/
theorem MapsStack.view_cases (h : MapsStack m3 m4) {x : Word} {v : PageView} (hx : BelowWindow x)
    (hv : m4.memory.view x = some v) :
    m3.memory.view x = some v ∨ v.frame ∉ m3.pageMap.reserved := by
  by_cases hstack : SamePage stackPage x
  · exact h.stack x v hstack hv
  · rw [h.others x hx hstack] at hv
    exact .inl hv

theorem lt_kernelBase_of_lt_stackPage {x : Nat} (hx : x < stackPage.toNat) : x < kernelBase := by
  rw [show stackPage.toNat = 4282380288 from rfl] at hx
  unfold kernelBase
  omega

theorem MapsStack.view_below (h : MapsStack m3 m4) {x : Nat} (hx : x < stackPage.toNat) :
    m4.memory.view (addr x) = m3.memory.view (addr x) := by
  have hlt := lt_kernelBase_of_lt_stackPage hx
  rw [show stackPage.toNat = 4282380288 from rfl] at hx
  refine h.others _ (isUser_addr hlt).belowWindow fun hpage => ?_
  rw [SamePage, toNat_addr hlt, show stackPage.toNat = 4282380288 from rfl] at hpage
  omega

/-- Where the frame of a page of the program is seen. -/
theorem MapsStack.apart (h : MapsStack m3 m4) (hspace : ProgramSpace m3) {x y : Word} {v : PageView}
    (hx : IsUser x) (hv : m3.memory.view x = some v)
    (hy : m4.memory.translate y = some v.frame) : SamePage x y := by
  have hused := hspace.pages x v hx.belowWindow hv
  by_cases hbelow : BelowWindow y
  · rw [translate_eq_view] at hy
    obtain ⟨w, hw, heq⟩ := Option.map_eq_some_iff.mp hy
    rcases h.view_cases hbelow hw with hold | hnew
    · exact hspace.apart x y v w hx hbelow hv hold heq.symm
    · exact absurd (heq ▸ hused) hnew
  · have htable := h.tables.holdsTable_translate hbelow hy
    exact absurd ((h.holds _ hused).mp htable) (hspace.data x v hx hv)

/-- A page that shows a frame in use was there before the program. -/
theorem Placing.view_of_used (h : Placing image m1 m2 pages) {x : Word} {v : PageView}
    (hx : BelowWindow x) (hv : m2.memory.view x = some v) (hused : v.frame ∈ m1.pageMap.reserved) :
    m1.memory.view x = some v := by
  rw [← h.others x hx fun huser hpage => ?_]
  · exact hv
  · obtain ⟨f, hf, hfree⟩ := h.placed _ (isUser_iff.mp huser) hpage
    rw [addr_toNat, hv] at hf
    rw [Option.some.inj hf] at hused
    exact hfree hused

/-- A page that is left is none of the window's. -/
theorem WindowUnmapped.view_of_some (h : WindowUnmapped m2 module.pageCount m3) {x : Word}
    {v : PageView} (hx : BelowWindow x) (hv : m3.memory.view x = some v) :
    ¬ module.InWindow x.toNat ∧ m2.memory.view x = some v := by
  have hout : ¬ module.InWindow x.toNat := by
    rintro ⟨hlow, hhigh⟩
    have habsent := h.absent _ hlow hhigh
    rw [addr_toNat, hv] at habsent
    cases habsent
  rw [h.others x hx hout] at hv
  exact ⟨hout, hv⟩

/-- The module's frames are seen in the window only. -/
theorem WindowMapped.not_inFrame (h : WindowMapped m module module.pageCount m1)
    (hhost : HostsModule m module) {x : Word} {v : PageView} (hx : BelowWindow x)
    (hout : ¬ module.InWindow x.toNat) (hv : m1.memory.view x = some v) :
    ¬ module.InFrame v.frame := by
  by_cases huser : IsUser x
  · have hnone := (h.window _ (isUser_iff.mp huser)).trans (if_neg hout)
    rw [addr_toNat, hv] at hnone
    cases hnone
  · rw [h.kernel x hx huser] at hv
    exact (hhost.kernelPages x v hx huser hv).2

theorem leaves_of_stages (hhost : HostsModule m module)
    (hwindow : WindowMapped m module module.pageCount m1) (hplacing : Placing image m1 m2 pages)
    (hunmapped : WindowUnmapped m2 module.pageCount m3) (hstack : MapsStack m3 m4) :
    Leaves module m1 m2 m4 pages := by
  have hkept : ∀ x, x < kernelBase → ¬ module.InWindow x →
      m3.memory.view (addr x) = m2.memory.view (addr x) := by
    intro x hx hout
    refine hunmapped.others _ (isUser_addr hx).belowWindow ?_
    rw [toNat_addr hx]
    exact hout
  refine ⟨fun x hx hin => ?_, fun x hx hout hpage => ?_, fun x hx hout hblank => ?_,
    fun x f hf hmodule => ?_⟩
  · rw [hstack.view_below hx]
    exact hunmapped.absent x hin.1 hin.2
  · have hlt := lt_kernelBase_of_lt_stackPage hx
    obtain ⟨f, hview, hfree⟩ := hplacing.placed x hlt hpage
    have hview3 := (hkept x hlt hout).trans hview
    have hused := hplacing.space.pages _ _ (isUser_addr hlt).belowWindow hview
    refine ⟨f, (hstack.view_below hx).trans hview3, hfree, hused, fun y hy => ?_⟩
    exact hstack.apart hunmapped.space (isUser_addr hlt) hview3 hy
  · have hlt := lt_kernelBase_of_lt_stackPage hx
    rw [hstack.view_below hx, hkept x hlt hout, hplacing.others _ (isUser_addr hlt).belowWindow
      fun _ => by rwa [toNat_addr hlt], hwindow.window x hlt]
    exact if_neg hout
  · obtain ⟨hused1, hno1, -⟩ := hwindow.frames f hmodule
    have hused3 : f ∈ m3.pageMap.reserved := by
      rw [hunmapped.pageMap]
      exact hplacing.grows f hused1
    by_cases hbelow : BelowWindow x
    · rw [translate_eq_view] at hf
      obtain ⟨v, hv4, rfl⟩ := Option.map_eq_some_iff.mp hf
      have hv3 := (hstack.view_cases hbelow hv4).resolve_right (not_not.mpr hused3)
      obtain ⟨hout, hv2⟩ := hunmapped.view_of_some hbelow hv3
      exact hwindow.not_inFrame hhost hbelow hout (hplacing.view_of_used hbelow hv2 hused1) hmodule
    · have htable := hstack.tables.holdsTable_translate hbelow hf
      exact hno1 ((hplacing.tables f hused1).mp ((hunmapped.tables f).mp
        ((hstack.holds f hused3).mp htable)))

end Leaves

/-! ### What the caller finds -/

section Intact
variable {s s' : SpawnKernel} {fuel : Nat} {module : Module} {process : Option Ptr}
  {m1 m2 m3 : Machine} {image file : ElfFile} {pages : List Nat}

/-- A call with the file that has been read. -/
structure LoadsModule (s : SpawnKernel) (fuel : Nat) (module : Module) (process : Option Ptr)
    (s' : SpawnKernel) (image : ElfFile) (m1 m2 : Machine) (pages : List Nat) : Prop where
  maps : s.machine.mapModule fuel module = some m1
  loads : ∃ status, m1.loadProgram loadBase = some (status, m2)
  leaves : Leaves module m1 m2 s'.machine pages
  origin : ∀ p, p ∈ pages → ∃ u y, u ∈ image.segments ∧ u.Covers y ∧ pageOf y = p
  placed : ∀ u y, u ∈ image.segments → u.Covers y →
    pageOf y ∈ pages ∨ y < kernelBase ∧ module.InWindow y
  starts : ∃ p P, process = some p ∧ s'.kernel.kernel.processes p = some P ∧
    P.pageTable = frameAddress s'.machine.memory.cr3 ∧ P.ctx.eip = image.entry

theorem Stages.loadsModule (h : Stages s fuel module process s' m1 m2 m3)
    (hhost : HostsModule s.machine module)
    (hfits : loadBase.toNat + 4096 * module.pageCount ≤ kernelBase)
    (hload : (module.window s.machine.memory).Loadable)
    (hkept : (module.window s.machine.memory).HeadersKept) :
    ∃ pages, LoadsModule s fuel module process s' (module.window s.machine.memory) m1 m2 pages := by
  have hwindow := hhost.mapModule hfits h.maps
  have hsteady : Steady (module.window s.machine.memory) :=
    ⟨hload, by rwa [length_window], hkept⟩
  obtain ⟨status, hprogram, hpanics⟩ := h.loads
  obtain ⟨-, pages, -, hplacing, hthere⟩ := (loadProgram_places hsteady hwindow.space
    (hwindow.headersAt hfits hload) hprogram).resolve_left hpanics
  have hunmapped := hplacing.space.unmapModule hfits h.unmaps
  obtain ⟨hstack, p, P, hprocess, hP, htable, hentry⟩ := h.spawns hunmapped.space.inUse
  refine ⟨pages, h.maps, ⟨status, hprogram⟩, leaves_of_stages hhost hwindow hplacing hunmapped hstack,
    hplacing.origin, fun u y hu hy => ?_, p, P, hprocess, hP, ?_, ?_⟩
  · have hlt := hsteady.lt_kernelBase hu hy
    rcases hthere y ⟨u, hu, hy⟩ with hin | hview
    · exact .inl hin
    · rw [hwindow.window y hlt] at hview
      refine .inr ⟨hlt, by_contra fun hout => ?_⟩
      have hout : ¬ (loadBase.toNat ≤ y ∧ y < loadBase.toNat + 4096 * module.pageCount) := hout
      rw [if_neg hout] at hview
      cases hview
  · rw [htable, hstack.cr3]
  · have hread : readEntry m2.memory loadBase = some (module.window s.machine.memory).entry :=
      hplacing.headers.readEntry
    exact Option.some.inj (hentry.symm.trans hread)

theorem ElfFile.Loadable.lt_stackPage {t : Segment} {x : Nat} (h : file.Loadable)
    (ht : t ∈ file.segments) (hx : t.Covers x) : x < stackPage.toNat :=
  Nat.lt_of_lt_of_le hx.2 (h.user t ht)

/-- The window is whole pages. -/
theorem inWindow_of_pageOf {x y : Nat} (hpage : pageOf y = pageOf x) (hy : module.InWindow y) :
    module.InWindow x := by
  unfold pageOf at hpage
  unfold Multiboot.Module.InWindow at hy ⊢
  rw [show loadBase.toNat = 2147483648 from rfl] at hy ⊢
  omega

/-- The program is there when it has been read and is not in the window. -/
theorem LoadsModule.intact (h : LoadsModule s fuel module process s' image m1 m2 pages)
    (hfile : file.Loadable) (hread : ReadsProgram image file)
    (hapart : ApartFromWindow module file) : Intact s fuel module file process s' := by
  refine ⟨fun t x ht hx => ?_, ?_, h.leaves.gone⟩
  · have hlt := hfile.lt_stackPage ht hx
    have hout := hapart t x ht hx
    have hin : pageOf x ∈ pages := by
      obtain ⟨u, y, hu, hy, hpage⟩ := hread.pages t x ht hx
      rcases h.placed u y hu hy with hin | ⟨-, hwindow⟩
      · exact hpage ▸ hin
      · exact absurd (inWindow_of_pageOf hpage hwindow) hout
    obtain ⟨f, hview, hfree, hused, hunique⟩ := h.leaves.program x hlt hout hin
    obtain ⟨status, hload⟩ := h.loads
    refine ⟨userAccessible_iff_view.mpr ⟨_, hview, rfl, rfl⟩, f, ?_,
      ⟨m1, m2, status, h.maps, hload, hfree, hused⟩, hunique⟩
    rw [translate_eq_view, hview]
    rfl
  · obtain ⟨p, P, hprocess, hP, htable, hentry⟩ := h.starts
    exact ⟨p, P, hprocess, hP, htable, hentry.trans hread.entry⟩

/-- A program that is there has been read, and is not in the window. -/
theorem LoadsModule.of_intact (h : LoadsModule s fuel module process s' image m1 m2 pages)
    (hfile : file.Loadable) (hintact : Intact s fuel module file process s') :
    ReadsProgram image file ∧ ApartFromWindow module file := by
  have hthere : ∀ t x, t ∈ file.segments → t.Covers x →
      ∃ v, s'.machine.memory.view (addr x) = some v := by
    intro t x ht hx
    obtain ⟨v, hv, -⟩ := userAccessible_iff_view.mp (hintact.segments t x ht hx).1
    exact ⟨v, hv⟩
  have hapart : ApartFromWindow module file := by
    intro t x ht hx hin
    obtain ⟨v, hv⟩ := hthere t x ht hx
    rw [h.leaves.window x (hfile.lt_stackPage ht hx) hin] at hv
    cases hv
  refine ⟨⟨?_, fun t x ht hx => ?_⟩, hapart⟩
  · obtain ⟨p, P, hprocess, hP, -, hentry⟩ := h.starts
    obtain ⟨p', P', hprocess', hP', -, hentry'⟩ := hintact.starts
    obtain rfl := Option.some.inj (hprocess.symm.trans hprocess')
    obtain rfl := Option.some.inj (hP.symm.trans hP')
    exact hentry.symm.trans hentry'
  · by_cases hin : pageOf x ∈ pages
    · exact h.origin _ hin
    · obtain ⟨v, hv⟩ := hthere t x ht hx
      rw [h.leaves.blank x (hfile.lt_stackPage ht hx) (hapart t x ht hx) hin] at hv
      cases hv

end Intact

/-! ### A module that begins with a page -/

section Aligned
variable {read file : ElfFile}

/-- The two begin alike, as far as `file` goes. -/
structure BeginsWith (read file : ElfFile) : Prop where
  length : file.length ≤ read.length
  byteAt : ∀ i, i < file.length → read.byteAt i = file.byteAt i

theorem BeginsWith.halfAt (h : BeginsWith read file) {i : Nat} (hi : i + 2 ≤ file.length) :
    read.halfAt i = file.halfAt i := by
  rw [ElfFile.halfAt, h.byteAt _ (by omega), h.byteAt _ (by omega), ElfFile.halfAt]

theorem BeginsWith.wordAt (h : BeginsWith read file) {i : Nat} (hi : i + 4 ≤ file.length) :
    read.wordAt i = file.wordAt i := by
  rw [ElfFile.wordAt, h.halfAt (by omega), h.halfAt (by omega), ElfFile.wordAt]

section
variable (h : BeginsWith read file) (hfile : file.Loadable)
include h hfile

theorem BeginsWith.phoffset : read.phoffset = file.phoffset := by
  have hheader := hfile.header
  rw [ElfFile.phoffset, h.wordAt (by omega), ElfFile.phoffset]

theorem BeginsWith.phsize : read.phsize = file.phsize := by
  have hheader := hfile.header
  rw [ElfFile.phsize, h.halfAt (by omega), ElfFile.phsize]

theorem BeginsWith.phcount : read.phcount = file.phcount := by
  have hheader := hfile.header
  rw [ElfFile.phcount, h.halfAt (by omega), ElfFile.phcount]

theorem BeginsWith.entry : read.entry = file.entry := by
  have hheader := hfile.header
  rw [ElfFile.entry, h.wordAt (by omega), ElfFile.entry]

/-- A field of program header `k`. -/
theorem BeginsWith.field {k i : Nat} (hk : k < file.phcount) (hi : i + 4 ≤ 32) :
    read.wordAt (read.programHeader k + i) = file.wordAt (file.programHeader k + i) := by
  have hentry := hfile.entry
  have htable := hfile.table
  have hmul : (k + 1) * file.phsize ≤ file.phcount * file.phsize := Nat.mul_le_mul_right _ hk
  rw [Nat.add_one_mul] at hmul
  rw [ElfFile.programHeader, h.phoffset hfile, h.phsize hfile, ElfFile.programHeader]
  exact h.wordAt (by omega)

/-- The same segments, from header `k` on. -/
theorem BeginsWith.segmentsFrom {k count : Nat} (hcount : k + count ≤ file.phcount) :
    read.segmentsFrom k count = file.segmentsFrom k count := by
  induction count generalizing k with
  | zero => rfl
  | succ count ih =>
    have hk : k < file.phcount := by omega
    have htype : read.isLoad k = file.isLoad k := by
      have hfield := h.field hfile hk (i := 0) (by omega)
      rw [Nat.add_zero, Nat.add_zero] at hfield
      rw [ElfFile.isLoad, hfield, ElfFile.isLoad]
    have hsegment : read.segment k = file.segment k := by
      rw [ElfFile.segment, h.field hfile hk (by omega), h.field hfile hk (by omega),
        h.field hfile hk (by omega), h.field hfile hk (by omega), ElfFile.segment]
    rw [ElfFile.segmentsFrom, htype, hsegment, ih (by omega), ElfFile.segmentsFrom]

theorem BeginsWith.segments : read.segments = file.segments := by
  rw [ElfFile.segments, h.phcount hfile, h.segmentsFrom hfile (by omega), ElfFile.segments]

theorem BeginsWith.loadable : read.Loadable := by
  have hlength := h.length
  refine ⟨hfile.header.trans hlength, ?_, ?_, ?_⟩
  · rw [h.phsize hfile]
    exact hfile.entry
  · rw [h.phoffset hfile, h.phcount hfile, h.phsize hfile]
    exact hfile.table.trans hlength
  · rw [h.segments hfile]
    exact hfile.user

theorem BeginsWith.readsProgram : ReadsProgram read file where
  entry := h.entry hfile
  pages t x ht hx := ⟨t, x, (h.segments hfile).symm ▸ ht, hx, rfl⟩

end

theorem beginsWith_window {module : Module} (memory : PagedMemory)
    (hstart : module.start.toNat % 4096 = 0) :
    BeginsWith (module.window memory) (module.file memory) := by
  have hfirst : 4096 * (module.start.toNat / 4096) = module.start.toNat := by omega
  have hle : module.stop.toNat - module.start.toNat ≤ 4096 * module.pageCount := by
    unfold Multiboot.Module.pageCount
    omega
  have hlength : (module.file memory).length = module.stop.toNat - module.start.toNat := by
    rw [Multiboot.Module.file, Multiboot.Module.bytesAt, List.length_map, List.length_range]
  refine ⟨?_, fun i hi => ?_⟩
  · rw [length_window, hlength]
    exact hle
  · rw [hlength] at hi
    rw [Multiboot.Module.window, Multiboot.Module.file, byteAt_bytesAt _ _ (hi.trans_le hle),
      byteAt_bytesAt _ _ hi, hfirst]

/-- The headers are in the window. -/
theorem headersKept_of_apart {module : Module} {memory : PagedMemory}
    (hstart : module.start.toNat % 4096 = 0) (hfile : (module.file memory).Loadable)
    (hapart : ApartFromWindow module (module.file memory)) :
    (module.window memory).HeadersKept := by
  have hbegins := beginsWith_window memory hstart
  intro t x i ht hx hi hpage
  rw [hbegins.segments hfile] at ht
  have hlt := (hbegins.loadable hfile).lt_length hi
  rw [length_window] at hlt
  refine hapart t x ht hx (inWindow_of_pageOf hpage ⟨Nat.le_add_right _ _, ?_⟩)
  omega

end Aligned

/-- **`kernel_load_module`.**  When the loader does not get into the headers it reads, a
call that returns `ENONE` has left the program intact exactly if what it has read is the
program and no segment has a page of the window.  A module that begins with a page is
read as it is. -/
theorem kernelLoadModule_intact_iff {s s' : SpawnKernel} {fuel : Nat} {module : Module}
    {blocks : ProcessBlocks} (hhost : HostsModule s.machine module)
    (hfile : (module.file s.machine.memory).Loadable)
    (hfits : loadBase.toNat + 4096 * module.pageCount ≤ kernelBase)
    (hrun : s.kernelLoadModule fuel module blocks = some (Status.enone.code, s')) :
    ((module.window s.machine.memory).Loadable → (module.window s.machine.memory).HeadersKept →
      (Intact s fuel module (module.file s.machine.memory) blocks.process s' ↔
        ReadsProgram (module.window s.machine.memory) (module.file s.machine.memory) ∧
          ApartFromWindow module (module.file s.machine.memory))) ∧
    (module.start.toNat % 4096 = 0 → ApartFromWindow module (module.file s.machine.memory) →
      Intact s fuel module (module.file s.machine.memory) blocks.process s') := by
  obtain ⟨m1, m2, m3, hstages⟩ := SpawnKernel.kernelLoadModule_stages hrun
  constructor
  · intro hload hkept
    obtain ⟨pages, hloaded⟩ := hstages.loadsModule hhost hfits hload hkept
    constructor
    · exact hloaded.of_intact hfile
    · rintro ⟨hread, hapart⟩
      exact hloaded.intact hfile hread hapart
  · intro hstart hapart
    have hbegins := beginsWith_window s.machine.memory hstart
    obtain ⟨pages, hloaded⟩ := hstages.loadsModule hhost hfits (hbegins.loadable hfile)
      (headersKept_of_apart hstart hfile hapart)
    exact hloaded.intact hfile (hbegins.readsProgram hfile) hapart

/-! ### A module of two pages -/

/-- The caller's directory, with a table for the first 4 MiB and one for the kernel. -/
def hostDirectory : FrameData := fun i =>
  if i = 0 then 0x2003 else if i = 1021 then 0x3003 else if i = 1023 then 0x1003 else 0

/-- Frame 4 begins with the file; the module has this frame and the next. -/
def hostMemory (file : ElfFile) : PagedMemory where
  ram f :=
    if f = 1 then hostDirectory
    else if f = 4 then fun i => file.wordAt (4 * i.toNat)
    else fun _ => 0
  cr3 := 1

def hostPages : PageMap := ⟨[some 6, some 7, some 8, some 9, some 10], [1, 2, 3, 4, 5]⟩

/-- A kernel without processes. -/
def host (file : ElfFile) : SpawnKernel := ⟨.bare, hostMemory file, hostPages⟩

def twoPageModule : Module := ⟨0x4000, 0x6000, []⟩

/-- A program of one byte. -/
def oneByteFile (vaddr : Word) : ElfFile := oneSegmentFile 0 vaddr 1 1

section Host
variable {file : ElfFile} {d : BitVec 10} {f : Frame} {x : Word}

theorem entry_hostDirectory (d : BitVec 10) :
    (hostMemory file).entry 1 d = Entry.ofWord (hostDirectory d) := rfl

theorem present_hostDirectory (hp : ((hostMemory file).entry 1 d).present = true) :
    d = 0 ∨ d = 1021 ∨ d = 1023 := by
  by_contra hne
  rw [not_or, not_or] at hne
  rw [entry_hostDirectory, hostDirectory, if_neg hne.1, if_neg hne.2.1, if_neg hne.2.2] at hp
  exact absurd hp (by decide)

theorem table_hostDirectory (hd : d ≠ 1023) (hp : ((hostMemory file).entry 1 d).present = true) :
    d = 0 ∧ ((hostMemory file).entry 1 d).physicalAddress = 2 ∨
      d = 1021 ∧ ((hostMemory file).entry 1 d).physicalAddress = 3 := by
  rcases present_hostDirectory hp with rfl | rfl | rfl
  · exact .inl ⟨rfl, by rw [entry_hostDirectory]; decide⟩
  · exact .inr ⟨rfl, by rw [entry_hostDirectory]; decide⟩
  · exact absurd rfl hd

theorem holdsTable_host (hf : HoldsTable (hostMemory file) f) : f = 1 ∨ f = 2 ∨ f = 3 := by
  rcases hf with rfl | ⟨d, hd, hp, rfl⟩
  · exact .inl rfl
  · rcases table_hostDirectory hd hp with ⟨-, htable⟩ | ⟨-, htable⟩
    · exact .inr (.inl htable)
    · exact .inr (.inr htable)

theorem selfMapped_host (file : ElfFile) : (hostMemory file).SelfMapped := by
  constructor
  all_goals
    rw [show (hostMemory file).cr3 = 1 from rfl, entry_hostDirectory]
    decide

theorem pageTables_host (file : ElfFile) : PageTables (hostMemory file) where
  present := (permits_iff.mp (selfMapped_host file).permits).1
  frame := (selfMapped_host file).frame
  ne d hd hp heq := by
    rcases table_hostDirectory hd hp with ⟨-, htable⟩ | ⟨-, htable⟩
    · exact absurd (htable.symm.trans heq) (show (2 : Frame) ≠ 1 by decide)
    · exact absurd (htable.symm.trans heq) (show (3 : Frame) ≠ 1 by decide)
  distinct d d' hd hd' hp hp' heq := by
    rcases table_hostDirectory hd hp with ⟨rfl, htable⟩ | ⟨rfl, htable⟩
    · rcases table_hostDirectory hd' hp' with ⟨rfl, -⟩ | ⟨-, htable'⟩
      · rfl
      · exact absurd (htable.symm.trans (heq.trans htable')) (by decide)
    · rcases table_hostDirectory hd' hp' with ⟨-, htable'⟩ | ⟨rfl, -⟩
      · exact absurd (htable.symm.trans (heq.trans htable')) (by decide)
      · rfl

/-- The tables have no pages. -/
theorem view_host (hx : BelowWindow x) : (hostMemory file).view x = none := by
  refine view_of_absent fun ⟨hpde, hpte⟩ => ?_
  have hempty : ∀ g : Frame, g ≠ 1 → g ≠ 4 → ((hostMemory file).entry g (tableIndex x)).present =
      false := by
    intro g h1 h4
    rw [PagedMemory.entry, hostMemory]
    dsimp only
    rw [if_neg h1, if_neg h4]
    rfl
  rcases table_hostDirectory hx hpde with ⟨-, htable⟩ | ⟨-, htable⟩
  · have htable : ((hostMemory file).pde x).physicalAddress = 2 := htable
    rw [PagedMemory.pte, htable, hempty 2 (by decide) (by decide)] at hpte
    cases hpte
  · have htable : ((hostMemory file).pde x).physicalAddress = 3 := htable
    rw [PagedMemory.pte, htable, hempty 3 (by decide) (by decide)] at hpte
    cases hpte

theorem fresh_hostPages : hostPages.Fresh := by
  refine ⟨by decide, fun f hf => ?_⟩
  obtain rfl | rfl | rfl | rfl | rfl : f = 6 ∨ f = 7 ∨ f = 8 ∨ f = 9 ∨ f = 10 := by
    simpa [hostPages] using hf
  all_goals decide

theorem hostsModule_host (file : ElfFile) : HostsModule (host file).machine twoPageModule where
  inUse := by
    refine ⟨pageTables_host file, fresh_hostPages, fun f hf => ?_⟩
    show f ∈ hostPages.reserved
    rcases holdsTable_host hf with rfl | rfl | rfl
    all_goals decide
  self := selfMapped_host file
  kernelPages x v hx _ hv := by
    have hnone : (host file).machine.memory.view x = none := view_host hx
    rw [hnone] at hv
    cases hv
  frames f hf := by
    obtain ⟨hlow, hhigh⟩ := hf
    have hlow : 4 ≤ f.toNat := hlow
    have hhigh : 4096 * f.toNat < 24576 := hhigh
    have hcases : f = 4 ∨ f = 5 := by
      rcases (by omega : f.toNat = 4 ∨ f.toNat = 5) with h | h
      · exact .inl (BitVec.eq_of_toNat_eq h)
      · exact .inr (BitVec.eq_of_toNat_eq h)
    refine ⟨show f ∈ hostPages.reserved from ?_, fun ht => ?_⟩
    · rcases hcases with rfl | rfl
      all_goals decide
    · rcases hcases with rfl | rfl
      all_goals exact absurd (holdsTable_host ht) (by decide)

/-- The module begins with the file. -/
theorem beginsWith_host (hlength : file.length ≤ 4096) :
    BeginsWith (twoPageModule.file (hostMemory file)) file := by
  refine ⟨?_, fun i hi => ?_⟩
  · rw [Multiboot.Module.file, Multiboot.Module.bytesAt, List.length_map, List.length_range]
    exact hlength.trans (by decide)
  · have hlt : i < 4096 := by omega
    rw [Multiboot.Module.file, byteAt_bytesAt _ _ (hlt.trans (by decide))]
    have hframe : BitVec.ofNat 20 ((twoPageModule.start.toNat + i) / 4096) = 4 := by
      rw [show twoPageModule.start.toNat = 16384 from rfl, show (16384 + i) / 4096 = 4 by omega]
      rfl
    have hram : (hostMemory file).ram 4 = fun i => file.wordAt (4 * i.toNat) := by
      rw [hostMemory]
      dsimp only
      rw [if_neg (by decide), if_pos rfl]
    rw [hframe, hram, FrameData.byte, byteOf_wordAt file _ (BitVec.isLt _)]
    congr 1
    simp only [BitVec.extractLsb'_toNat, Nat.shiftRight_eq_div_pow, BitVec.toNat_ofNat]
    rw [show twoPageModule.start.toNat = 16384 from rfl]
    omega

end Host

/-! ### A program of one byte in it -/

section OneByte
variable {v : Word}

/-- The file is that of a program of one byte at `v`. -/
structure IsOneByte (file : ElfFile) (v : Word) : Prop where
  loadable : file.Loadable
  phoffset : file.phoffset = 52
  phsize : file.phsize = 32
  phcount : file.phcount = 1
  segments : file.segments = [⟨0, v.toNat, 1, 1⟩]

theorem isOneByte_oneByteFile (hv : v.toNat < stackPage.toNat) : IsOneByte (oneByteFile v) v where
  loadable := by
    refine ⟨by rw [oneByteFile, length_oneSegmentFile]; decide, ?_, ?_, fun t ht => ?_⟩
    · rw [oneByteFile, phsize_oneSegmentFile]
    · rw [oneByteFile, phoffset_oneSegmentFile, phcount_oneSegmentFile, phsize_oneSegmentFile,
        length_oneSegmentFile]
    · rw [oneByteFile, segments_oneSegmentFile, List.mem_singleton] at ht
      rw [ht]
      exact hv
  phoffset := phoffset_oneSegmentFile ..
  phsize := phsize_oneSegmentFile ..
  phcount := phcount_oneSegmentFile ..
  segments := segments_oneSegmentFile ..

theorem IsOneByte.of_beginsWith {read file : ElfFile} (hfile : IsOneByte file v)
    (h : BeginsWith read file) : IsOneByte read v where
  loadable := h.loadable hfile.loadable
  phoffset := (h.phoffset hfile.loadable).trans hfile.phoffset
  phsize := (h.phsize hfile.loadable).trans hfile.phsize
  phcount := (h.phcount hfile.loadable).trans hfile.phcount
  segments := (h.segments hfile.loadable).trans hfile.segments

theorem IsOneByte.segment {file : ElfFile} (h : IsOneByte file v) :
    file.isLoad 0 = true ∧ file.segment 0 = ⟨0, v.toNat, 1, 1⟩ := by
  have hsegments := h.segments
  rw [ElfFile.segments, h.phcount, ElfFile.segmentsFrom] at hsegments
  split at hsegments
  · rename_i hload
    exact ⟨hload, (List.cons.inj hsegments).1⟩
  · cases hsegments

/-- The headers take up the first page. -/
theorem IsOneByte.headersKept {file : ElfFile} (h : IsOneByte file v)
    (hpage : pageOf v.toNat ≠ 524288) : file.HeadersKept := by
  intro t x i ht hx hi heq
  rw [h.segments, List.mem_singleton] at ht
  obtain ⟨hlow, hhigh⟩ : v.toNat ≤ x ∧ x < v.toNat + 1 := by
    rw [ht] at hx
    exact hx
  have hlt : i < 84 := by
    rcases hi with hi | ⟨-, hi⟩
    · omega
    · rw [h.phoffset, h.phcount, h.phsize] at hi
      omega
  unfold pageOf at hpage heq
  rw [show loadBase.toNat = 2147483648 from rfl] at heq
  omega

theorem isOneByte_file (hv : v.toNat < stackPage.toNat) :
    IsOneByte (twoPageModule.file (hostMemory (oneByteFile v))) v := by
  refine (isOneByte_oneByteFile hv).of_beginsWith (beginsWith_host ?_)
  rw [oneByteFile, length_oneSegmentFile]
  decide

theorem isOneByte_window (hv : v.toNat < stackPage.toNat) :
    IsOneByte (twoPageModule.window (hostMemory (oneByteFile v))) v :=
  (isOneByte_file hv).of_beginsWith (beginsWith_window _ (by decide))

theorem fits_twoPageModule : loadBase.toNat + 4096 * twoPageModule.pageCount ≤ kernelBase := by
  decide

/-- The call returns `ENONE` when the byte is in the same 4 MiB as the window, but not in
its first page. -/
theorem exists_kernelLoadModule_oneByte (hdir : dirIndex v = 512) (hv : v.toNat < stackPage.toNat)
    (hpage : pageOf v.toNat ≠ 524288) :
    ∃ s', (host (oneByteFile v)).kernelLoadModule 2 twoPageModule ⟨some 10, some 11, some 12⟩ =
      some (Status.enone.code, s') := by
  have hhost := hostsModule_host (oneByteFile v)
  have himage := isOneByte_window hv
  have hopen : ((hostMemory (oneByteFile v)).entry 1 0).permits true = true := by
    rw [entry_hostDirectory]
    decide
  obtain ⟨m1, hmap, hwindow, hpageMap1⟩ := exists_mapModule (f := 6) (n := 7) hhost
    fits_twoPageModule (by decide) (by decide) (by decide) hopen rfl rfl
    (show twoPageModule.pageCount ≤ 2 by decide)
  have hsteady : Steady (twoPageModule.window (hostMemory (oneByteFile v))) :=
    ⟨himage.loadable, by rw [length_window]; exact fits_twoPageModule, himage.headersKept hpage⟩
  have hheaders := hwindow.headersAt fits_twoPageModule himage.loadable
  obtain ⟨hisLoad, hsegment⟩ := himage.segment
  have hpresent : (m1.memory.pde v).present = true := by
    have hwindow : WindowMapped (host (oneByteFile v)).machine twoPageModule (1 + 1) m1 := hwindow
    exact hwindow.present hdir
  obtain ⟨memory, hload⟩ := exists_loadProgram (g := 8) hsteady hwindow.space hheaders himage.phcount
    hisLoad (by rw [hsegment]) (by rw [hsegment]) (by rw [hsegment, addr_toNat]; exact hpresent)
    (by rw [hpageMap1]; rfl)
  obtain ⟨-, pages, -, hplacing, -⟩ := (loadProgram_places hsteady hwindow.space hheaders
    hload).resolve_left (by decide)
  have hentry := hplacing.headers.readEntry
  have hthere : ∀ i, i < twoPageModule.pageCount →
      ((⟨memory, ⟨m1.pageMap.answers.tail, 8 :: m1.pageMap.reserved⟩⟩ : Machine).memory.view
        (windowPage i)).isSome = true := by
    intro i hi
    have hfits := fits_twoPageModule
    refine hplacing.view_isSome (by omega) ?_
    rw [hwindow.window _ (by omega), if_pos ⟨by omega, by omega⟩]
    rfl
  obtain ⟨m3, hunmap, hunmapped⟩ := exists_unmapModule hplacing.space fits_twoPageModule (by decide)
    (show twoPageModule.pageCount ≤ 2 by decide) hthere
  refine SpawnKernel.exists_kernelLoadModule (g := 9) (n := 10) HeapKernel.boot_bare hmap hload hentry
    hunmap hunmapped.space ?_ ?_
  · rw [hunmapped.pageMap, hpageMap1]
    rfl
  · show PageMap.next ⟨m3.pageMap.answers.tail, 9 :: m3.pageMap.reserved⟩ = some 10
    rw [hunmapped.pageMap, hpageMap1]
    rfl

/-- The byte is behind the window. -/
theorem apart_behindWindow :
    ApartFromWindow twoPageModule (twoPageModule.file (hostMemory (oneByteFile 0x80002000))) := by
  intro t x ht hx hin
  rw [(isOneByte_file (v := 0x80002000) (by decide)).segments, List.mem_singleton] at ht
  rw [ht] at hx
  have hlow : 2147491840 ≤ x := hx.1
  have hhigh : x < 2147491840 := hin.2
  omega

end OneByte

/-- A program behind the window stays. -/
theorem kernelLoadModule_intact_iff_behindWindow :
    ∃ s', (host (oneByteFile 0x80002000)).kernelLoadModule 2 twoPageModule
        ⟨some 10, some 11, some 12⟩ = some (Status.enone.code, s') ∧
      (Intact (host (oneByteFile 0x80002000)) 2 twoPageModule
          (twoPageModule.file (hostMemory (oneByteFile 0x80002000))) (some 10) s' ↔
        ReadsProgram (twoPageModule.window (hostMemory (oneByteFile 0x80002000)))
          (twoPageModule.file (hostMemory (oneByteFile 0x80002000))) ∧
        ApartFromWindow twoPageModule
          (twoPageModule.file (hostMemory (oneByteFile 0x80002000)))) ∧
      Intact (host (oneByteFile 0x80002000)) 2 twoPageModule
        (twoPageModule.file (hostMemory (oneByteFile 0x80002000))) (some 10) s' := by
  obtain ⟨s', hrun⟩ := exists_kernelLoadModule_oneByte (v := 0x80002000) (by decide) (by decide)
    (by decide)
  have himage := isOneByte_window (v := 0x80002000) (by decide)
  obtain ⟨hiff, haligned⟩ := kernelLoadModule_intact_iff (hostsModule_host _)
    (isOneByte_file (by decide)).loadable fits_twoPageModule hrun
  exact ⟨s', hrun, hiff himage.loadable (himage.headersKept (by decide)),
    haligned (by decide) apart_behindWindow⟩

/-- A program in the second page of the window is unmapped with it. -/
theorem not_intact_inWindow :
    ¬ ∀ (s s' : SpawnKernel) (fuel : Nat) (module : Module) (blocks : ProcessBlocks),
      HostsModule s.machine module → module.start.toNat % 4096 = 0 →
      (module.file s.machine.memory).Loadable →
      s.kernelLoadModule fuel module blocks = some (Status.enone.code, s') →
      Intact s fuel module (module.file s.machine.memory) blocks.process s' := by
  intro hall
  obtain ⟨s', hrun⟩ := exists_kernelLoadModule_oneByte (v := 0x80001000) (by decide) (by decide)
    (by decide)
  have hhost := hostsModule_host (oneByteFile 0x80001000)
  have hfile := isOneByte_file (v := 0x80001000) (by decide)
  have himage := isOneByte_window (v := 0x80001000) (by decide)
  have hintact := hall _ _ _ _ _ hhost (by decide) hfile.loadable hrun
  obtain ⟨m1, m2, m3, hstages⟩ := SpawnKernel.kernelLoadModule_stages hrun
  obtain ⟨pages, hloaded⟩ := hstages.loadsModule hhost fits_twoPageModule himage.loadable
    (himage.headersKept (by decide))
  have hapart := (hloaded.of_intact hfile.loadable hintact).2
  have hsegment : (⟨0, 0x80001000, 1, 1⟩ : Segment) ∈
      (twoPageModule.file (hostMemory (oneByteFile 0x80001000))).segments := by
    rw [hfile.segments]
    exact List.mem_singleton_self _
  exact hapart _ 0x80001000 hsegment ⟨Nat.le_refl _, by decide⟩ ⟨by decide, by decide⟩

end QuarkKernel
