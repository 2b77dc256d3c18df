import QuarkKernel.ModuleLoading
import QuarkKernel.ProgramSpace

/-! # What `load_program` maps

The file is read at `load_base`, wherever its segments go, as long as none of them gets
into a page of the headers.  `Placing` is what holds after some passes, of whatever the
loader copies from where: each page it has mapped is in a frame it has reserved, and the
other pages are as they were.  If it comes through, every byte of every segment is in
one of its pages, or was in a page before. -/
namespace QuarkKernel
open PagedMemory
open ByteMemory (addrAt addrAt_addrAt)
open CountedLoop (loop)
open UserFrames (withFrame)

/-- The headers of the file can be read at `load_base`. -/
def HeadersAt (m : PagedMemory) (file : ElfFile) : Prop :=
  ∀ i, file.InHeaders i → m.loadByte (addr (loadBase.toNat + i)) = some (file.byteAt i)

/-- The file is at `load_base`, below the kernel, and the loader does not get into its
headers. -/
structure Steady (file : ElfFile) : Prop extends file.Loadable where
  below : loadBase.toNat + file.length ≤ kernelBase
  kept : file.HeadersKept

/-- After some passes, with the pages that have been mapped. -/
structure Placing (file : ElfFile) (m1 m : Machine) (pages : List Nat) : Prop where
  space : ProgramSpace m
  cr3 : m.memory.cr3 = m1.memory.cr3
  grows : ∀ f, f ∈ m1.pageMap.reserved → f ∈ m.pageMap.reserved
  placed : ∀ x, x < kernelBase → pageOf x ∈ pages →
    ∃ f, m.memory.view (addr x) = some ⟨f, true, true⟩ ∧ f ∉ m1.pageMap.reserved
  others : ∀ x, BelowWindow x → (IsUser x → pageOf x.toNat ∉ pages) →
    m.memory.view x = m1.memory.view x
  tables : ∀ f, f ∈ m1.pageMap.reserved → (HoldsTable m.memory f ↔ HoldsTable m1.memory f)
  origin : ∀ p, p ∈ pages → ∃ t x, t ∈ file.segments ∧ t.Covers x ∧ pageOf x = p
  headers : HeadersAt m.memory file

/-- The byte is in a page that has been mapped, or was there before. -/
def PlacedAt (m1 : Machine) (pages : List Nat) (x : Nat) : Prop :=
  pageOf x ∈ pages ∨ (m1.memory.view (addr x)).isSome = true

/-- A piece of the loader that comes through has placed the segments. -/
def Places (file : ElfFile) (m1 : Machine) (pages : List Nat) (covered : Nat → Prop)
    (status : Status) (m' : Machine) : Prop :=
  Status.Panics status.code ∨ status = .enone ∧ ∃ pages', (∀ p, p ∈ pages → p ∈ pages') ∧
    Placing file m1 m' pages' ∧ ∀ x, covered x → PlacedAt m1 pages' x

/-! ### Reading the headers -/

section Headers
variable {m : PagedMemory} {file : ElfFile} {i : Nat}

theorem HeadersAt.loadByte (h : HeadersAt m file) (hi : file.InHeaders i) :
    m.loadByte (addrAt loadBase i) = some (file.byteAt i) := by
  rw [addrAt_eq_addr]
  exact h i hi

theorem HeadersAt.readsHeaders (h : HeadersAt m file) (hfile : file.Loadable) :
    ReadsHeaders m loadBase file :=
  readsHeaders_of_bytes hfile.entry (fun _ hi => h.loadByte (.inl hi))
    fun _ hlow hhigh => h.loadByte (.inr ⟨hlow, hhigh⟩)

theorem HeadersAt.readEntry (h : HeadersAt m file) : readEntry m loadBase = some file.entry :=
  readWord_of_bytes fun _ hj => h.loadByte (.inl (by omega))

theorem ElfFile.Loadable.lt_length (hfile : file.Loadable) (hi : file.InHeaders i) :
    i < file.length := by
  have hheader := hfile.header
  have htable := hfile.table
  rcases hi with hi | ⟨-, hi⟩ <;> omega

end Headers

/-! ### One page -/

section Pass
variable {file : ElfFile} {m1 m m' : Machine} {pages : List Nat} {t : Segment} {x y : Nat}

theorem Steady.lt_kernelBase (h : Steady file) (ht : t ∈ file.segments) (hx : t.Covers x) :
    x < kernelBase := by
  have huser := h.user t ht
  unfold Segment.Covers at hx
  rw [show stackPage.toNat = 4282380288 from rfl] at huser
  unfold kernelBase
  omega

theorem Steady.memsize_le (h : Steady file) (ht : t ∈ file.segments) : t.memsize ≤ kernelBase := by
  have huser := h.user t ht
  rw [show stackPage.toNat = 4282380288 from rfl] at huser
  unfold kernelBase
  omega

/-- A header is in no page of a segment. -/
theorem Steady.header_apart (h : Steady file) (ht : t ∈ file.segments) (hx : t.Covers x) {i : Nat}
    (hi : file.InHeaders i) : IsUser (addr (loadBase.toNat + i)) ∧
      ¬ SamePage (addr x) (addr (loadBase.toNat + i)) := by
  have hbelow := h.below
  have hlt := h.toLoadable.lt_length hi
  have hbase : loadBase.toNat + i < kernelBase := by omega
  refine ⟨isUser_addr hbase, fun hsame => h.kept t x i ht hx hi ?_⟩
  exact ((samePage_addr (h.lt_kernelBase ht hx) hbase).mp hsame).symm

theorem Placing.refl (hspace : ProgramSpace m) (hheaders : HeadersAt m.memory file) :
    Placing file m m [] where
  space := hspace
  cr3 := rfl
  grows _ hf := hf
  placed _ _ hx := by cases hx
  others _ _ _ := rfl
  tables _ _ := Iff.rfl
  origin _ hp := by cases hp
  headers := hheaders

/-- A page of a segment is mapped to a frame that was free. -/
theorem Placing.putsPage {g : Frame} {flags : Word} (h : Placing file m1 m pages)
    (hfile : Steady file) (ht : t ∈ file.segments) (hx : t.Covers x)
    (hunused : g ∉ m.pageMap.reserved) (hrw : hasFlag flags pageRw = true)
    (huser : hasFlag flags pageUsermode = true)
    (hputs : PutsPage (withFrame m g) m' (addr x) g flags) :
    Placing file m1 m' (pageOf x :: pages) := by
  have hlt := hfile.lt_kernelBase ht hx
  have hgrows : ∀ f, f ∈ m.pageMap.reserved → f ∈ m'.pageMap.reserved :=
    fun f hf => hputs.grows f (List.mem_cons_of_mem _ hf)
  refine ⟨hputs.space, hputs.cr3.trans h.cr3, fun f hf => hgrows f (h.grows f hf), ?_, ?_, ?_, ?_,
    ?_⟩
  · intro z hz hin
    by_cases hpage : pageOf z = pageOf x
    · refine ⟨g, ?_, fun hg => hunused (h.grows g hg)⟩
      rw [hputs.maps _ ((samePage_addr hlt hz).mpr hpage.symm), hrw, huser]
    · obtain ⟨f, hview, hf⟩ := h.placed z hz ((List.mem_cons.mp hin).resolve_left hpage)
      refine ⟨f, ?_, hf⟩
      rw [hputs.others _ (isUser_addr hz).belowWindow fun hsame =>
        hpage ((samePage_addr hlt hz).mp hsame).symm]
      exact hview
  · intro z hz hout
    have hne : ¬ SamePage (addr x) z := by
      intro hsame
      have hpage : pageOf x = pageOf z.toNat := by
        rw [SamePage, toNat_addr hlt] at hsame
        exact hsame
      have hzuser : IsUser z := by
        rw [isUser_iff]
        rw [pageOf, pageOf] at hpage
        unfold kernelBase at hlt
        omega
      exact hout hzuser (hpage ▸ List.mem_cons_self ..)
    rw [hputs.others z hz hne]
    exact h.others z hz fun hzuser hin => hout hzuser (List.mem_cons_of_mem _ hin)
  · intro f hf
    exact (hputs.tables f (List.mem_cons_of_mem _ (h.grows f hf))).trans (h.tables f hf)
  · intro p hp
    rcases List.mem_cons.mp hp with rfl | hp
    · exact ⟨t, x, ht, hx, rfl⟩
    · exact h.origin p hp
  · intro i hi
    obtain ⟨hiuser, hne⟩ := hfile.header_apart ht hx hi
    rw [hputs.loadByte hiuser hne]
    exact h.headers i hi

/-- A byte of a segment is written. -/
theorem Placing.storeByte {b : BitVec 8} {memory : PagedMemory} (h : Placing file m1 m pages)
    (hfile : Steady file) (ht : t ∈ file.segments) (hx : t.Covers x)
    (hstore : m.memory.storeByte (addr x) b = some memory) :
    Placing file m1 { m with memory } pages ∧ PlacedAt m1 pages x := by
  have hlt := hfile.lt_kernelBase ht hx
  obtain ⟨hspace, hcr3, hthere, hview, hholds, hbytes⟩ :=
    h.space.storeByte (isUser_addr hlt) hstore
  refine ⟨⟨hspace, hcr3.trans h.cr3, h.grows, ?_, ?_, ?_, h.origin, ?_⟩, ?_⟩
  · intro z hz hin
    obtain ⟨f, hf, hnot⟩ := h.placed z hz hin
    exact ⟨f, (hview _ (isUser_addr hz).belowWindow).trans hf, hnot⟩
  · intro z hz hout
    exact (hview z hz).trans (h.others z hz hout)
  · intro f hf
    exact (hholds f).trans (h.tables f hf)
  · intro i hi
    obtain ⟨hiuser, hne⟩ := hfile.header_apart ht hx hi
    show memory.loadByte _ = _
    rw [hbytes _ hiuser hne]
    exact h.headers i hi
  · by_cases hin : pageOf x ∈ pages
    · exact .inl hin
    · right
      rw [← h.others (addr x) (isUser_addr hlt).belowWindow (by rw [toNat_addr hlt]; exact fun _ => hin)]
      exact hthere

/-- The chunk is copied. -/
theorem Placing.memcpy {source : Word} {num : Nat} {memory : PagedMemory}
    (h : Placing file m1 m pages) (hfile : Steady file) (ht : t ∈ file.segments)
    (hx : ∀ i, i < num → t.Covers (x + i))
    (hcopy : memcpy m.memory (addr x) source num = some memory) :
    Placing file m1 { m with memory } pages ∧ ∀ i, i < num → PlacedAt m1 pages (x + i) := by
  refine CountedLoop.loop_preserves (fun i memory => Placing file m1 { m with memory } pages ∧
    ∀ j, j < i → PlacedAt m1 pages (x + j)) ⟨h, fun j hj => absurd hj (Nat.not_lt_zero j)⟩ ?_ hcopy
  rintro i memory memory' hi ⟨hplacing, hbefore⟩ hbody
  obtain ⟨b, -, hstore⟩ := Option.bind_eq_some_iff.mp hbody
  rw [addrAt_addr] at hstore
  obtain ⟨hplacing', hthere⟩ := hplacing.storeByte hfile ht (hx i hi) hstore
  refine ⟨hplacing', fun j hj => ?_⟩
  rcases Nat.lt_succ_iff_lt_or_eq.mp hj with hlt | rfl
  · exact hbefore j hlt
  · exact hthere

/-- Where pass `k` of a segment begins. -/
theorem covers_pass {k i : Nat} (hi : i < min 4096 (t.memsize - 4096 * k)) :
    t.Covers (t.vaddr + 4096 * k + i) := by
  unfold Segment.Covers
  omega

/-- **A pass of the inner loop**, if it comes through. -/
theorem Placing.loadPage {s : Word} {j k : Nat} {status : Status} (h : Placing file m1 m pages)
    (hfile : Steady file) (hj : j < file.phcount) (hseg : file.segment j = t)
    (ht : t ∈ file.segments) (hk : k < pagesOf t.memsize)
    (hload : m.loadPage (addrAt loadBase (file.programHeader j)) (addr t.vaddr) s
      (addr (4096 * k)) = some (status, m')) :
    Places file m1 pages (fun x => t.Covers x ∧ t.vaddr + 4096 * k ≤ x ∧
      x < t.vaddr + 4096 * (k + 1)) status m' := by
  have hx : t.Covers (t.vaddr + 4096 * k) := by
    unfold pagesOf at hk
    exact covers_pass (i := 0) (by omega)
  have hlt := hfile.lt_kernelBase ht hx
  have hdst : addr t.vaddr + addr (4096 * k) = addr (t.vaddr + 4096 * k) := addrAt_addr ..
  rcases Option.eq_none_or_eq_some m.pageMap.next with hnext | ⟨g, hnext⟩
  · rw [Machine.loadPage, PageMap.reservePage_of_none hnext] at hload
    dsimp only at hload
    rw [if_pos rfl] at hload
    obtain ⟨rfl, -⟩ := Prod.mk.inj (Option.some.inj hload)
    exact .inl (.inl rfl)
  rw [Machine.loadPage, PageMap.reservePage_of_some hnext] at hload
  dsimp only at hload
  rw [if_neg (frameAddress_ne_enomem g), hdst] at hload
  obtain ⟨⟨status1, m2⟩, hmap, hload⟩ := Option.bind_eq_some_iff.mp hload
  have hunused := (h.space.inUse.fresh.next hnext).1
  have hmap : (withFrame m g).mapPage (addr (t.vaddr + 4096 * k)) (frameAddress g)
      (pageRw ||| pageUsermode ||| pageExecutable) = some (status1, m2) := hmap
  have hcases := (h.space.withFrame hnext).mapPage (isUser_addr hlt) (List.mem_cons_self ..)
    (h.space.inUse.unused hnext) (fun y v hy _ hv heq => hunused (heq ▸ h.space.pages y v hy hv)) hmap
  rcases hcases with rfl | ⟨rfl, hputs⟩
  · obtain ⟨rfl, -⟩ := Prod.mk.inj (Option.some.inj hload)
    exact .inl (.inl rfl)
  have hplacing := h.putsPage hfile ht hx hunused (by decide) (by decide) hputs
  have hread := (hplacing.headers.readsHeaders hfile.toLoadable).memsize hj
  have hmemsize : t.memsize = (file.wordAt (file.programHeader j + 20)).toNat := by
    rw [← hseg]
    rfl
  obtain ⟨num, hnum, hlen⟩ :=
    copyLength_of_read hread (hmemsize ▸ hfile.memsize_le ht) (hmemsize ▸ hk)
  have hload : (Machine.copyLength m2.memory (addrAt loadBase (file.programHeader j))
    (addr (4096 * k))).bind _ = some (status, m') := hload
  rw [hnum, Option.bind_some] at hload
  obtain ⟨memory, hcopy, hload⟩ := Option.bind_eq_some_iff.mp hload
  obtain ⟨rfl, rfl⟩ := Prod.mk.inj (Option.some.inj hload)
  have hcov : ∀ i, i < num.toNat → t.Covers (t.vaddr + 4096 * k + i) := by
    intro i hi
    rw [hlen, ← hmemsize] at hi
    exact covers_pass hi
  obtain ⟨hplacing', hthere⟩ := hplacing.memcpy hfile ht hcov hcopy
  refine .inr ⟨rfl, _, fun _ hp => List.mem_cons_of_mem _ hp, hplacing', ?_⟩
  rintro x ⟨hcx, hlow, hhigh⟩
  have hx' := hthere (x - (t.vaddr + 4096 * k)) (by
    unfold Segment.Covers at hcx
    omega)
  rwa [show t.vaddr + 4096 * k + (x - (t.vaddr + 4096 * k)) = x by omega] at hx'

end Pass

/-! ### The loops -/

section Loops
variable {file : ElfFile} {m1 m m' : Machine} {pages : List Nat} {status : Status}

theorem PlacedAt.mono {pages' : List Nat} {x : Nat} (h : PlacedAt m1 pages x)
    (hsub : ∀ p, p ∈ pages → p ∈ pages') : PlacedAt m1 pages' x := by
  rcases h with hin | hthere
  · exact .inl (hsub _ hin)
  · exact .inr hthere

theorem Places.mono {covered covered' : Nat → Prop} (h : Places file m1 pages covered status m')
    (hsub : ∀ x, covered' x → covered x) : Places file m1 pages covered' status m' := by
  rcases h with hpanic | ⟨hstatus, pages', hpages, hplacing, hthere⟩
  · exact .inl hpanic
  · exact .inr ⟨hstatus, pages', hpages, hplacing, fun x hx => hthere x (hsub x hx)⟩

/-- One piece after the other. -/
theorem Places.append {covered covered' : Nat → Prop} {first : Option (Status × Machine)}
    {rest : Status × Machine → Option (Status × Machine)}
    (hfirst : ∀ status1 m2, first = some (status1, m2) →
      Places file m1 pages covered status1 m2)
    (hrest : ∀ pages2 m2, Placing file m1 m2 pages2 → rest (.enone, m2) = some (status, m') →
      Places file m1 pages2 covered' status m')
    (h : (first.bind fun result => if result.1 = .enone then rest result else some result) =
      some (status, m')) :
    Places file m1 pages (fun x => covered x ∨ covered' x) status m' := by
  obtain ⟨⟨status1, m2⟩, hpiece, h⟩ := Option.bind_eq_some_iff.mp h
  dsimp only at h
  rcases hfirst status1 m2 hpiece with hpanic | ⟨rfl, pages2, hsub, hplacing, hthere⟩
  · have hne : status1 ≠ .enone := by
      rintro rfl
      exact absurd hpanic (by decide)
    rw [if_neg hne] at h
    obtain ⟨rfl, rfl⟩ := Prod.mk.inj (Option.some.inj h)
    exact .inl hpanic
  · rw [if_pos rfl] at h
    rcases hrest pages2 m2 hplacing h with hpanic | ⟨rfl, pages', hsub', hplacing', hthere'⟩
    · exact .inl hpanic
    · refine .inr ⟨rfl, pages', fun p hp => hsub' p (hsub p hp), hplacing', ?_⟩
      rintro x (hx | hx)
      · exact (hthere x hx).mono hsub'
      · exact hthere' x hx

/-- **The inner loop**, from pass `k` on. -/
theorem Placing.loadPages {s : Word} {h count k : Nat} (hfile : Steady file)
    (hh : h < file.phcount) (ht : file.segment h ∈ file.segments)
    (hcount : k + count = pagesOf (file.segment h).memsize) (hplacing : Placing file m1 m pages)
    (hload : m.loadPages (addrAt loadBase (file.programHeader h)) (addr (file.segment h).vaddr) s
      (addr (4096 * k)) = some (status, m')) :
    Places file m1 pages (fun x => (file.segment h).Covers x ∧
      (file.segment h).vaddr + 4096 * k ≤ x) status m' := by
  have hfits := hfile.memsize_le ht
  induction count generalizing k m pages with
  | zero =>
    have hcount : k = pagesOf (file.segment h).memsize := hcount
    rw [(hplacing.headers.readsHeaders hfile.toLoadable).loadPages_end hh hfits hcount] at hload
    obtain ⟨rfl, rfl⟩ := Prod.mk.inj (Option.some.inj hload)
    refine .inr ⟨rfl, pages, fun _ hp => hp, hplacing, ?_⟩
    rintro x ⟨hx, hlow⟩
    unfold Segment.Covers at hx
    unfold pagesOf at hcount
    omega
  | succ count ih =>
    have hk : k < pagesOf (file.segment h).memsize := by omega
    rw [(hplacing.headers.readsHeaders hfile.toLoadable).loadPages_pass hh hfits hk] at hload
    refine (Places.append (fun _ _ hpass => hplacing.loadPage hfile hh rfl ht hk hpass)
      (fun _ _ hplacing2 hrest => ih (by omega) hplacing2 hrest) hload).mono ?_
    rintro x ⟨hx, hlow⟩
    -- in the chunk of this pass, or behind it
    rcases Nat.lt_or_ge x ((file.segment h).vaddr + 4096 * (k + 1)) with hin | hout
    · exact .inl ⟨hx, hlow, hin⟩
    · exact .inr ⟨hx, hout⟩

/-- **The outer loop**, from header `h` on. -/
theorem Placing.loadSegments {h count : Nat} (hfile : Steady file)
    (hcount : h + count = file.phcount) (hplacing : Placing file m1 m pages)
    (hload : Machine.loadSegments loadBase count (addrAt loadBase (file.programHeader h)) m =
      some (status, m')) :
    Places file m1 pages (fun x => ∃ t, t ∈ file.segmentsFrom h count ∧ t.Covers x) status m' := by
  induction count generalizing h m pages with
  | zero =>
    obtain ⟨rfl, rfl⟩ := Prod.mk.inj (Option.some.inj hload)
    refine .inr ⟨rfl, pages, fun _ hp => hp, hplacing, ?_⟩
    rintro x ⟨t, ht, -⟩
    cases ht
  | succ count ih =>
    have hh : h < file.phcount := by omega
    have hread := hplacing.headers.readsHeaders hfile.toLoadable
    by_cases hisLoad : file.isLoad h = true
    · have ht : file.segment h ∈ file.segments :=
        ElfFile.mem_segmentsFrom.mpr ⟨h, by omega, by omega, hisLoad, rfl⟩
      rw [hread.loadSegments_load hh hisLoad] at hload
      -- the headers after this one
      have hlater : ∀ (pages2 : List Nat) (m2 : Machine), Placing file m1 m2 pages2 →
          ((readPhsize m2.memory loadBase).bind fun phsize => Machine.loadSegments loadBase count
            (addrAt loadBase (file.programHeader h) + phsize.setWidth 32) m2) = some (status, m') →
          Places file m1 pages2 (fun x => ∃ t, t ∈ file.segmentsFrom (h + 1) count ∧ t.Covers x)
            status m' := by
        intro pages2 m2 hplacing2 hrest
        rw [(hplacing2.headers.readsHeaders hfile.toLoadable).loadSegments_next] at hrest
        exact ih (by omega) hplacing2 hrest
      refine (Places.append (fun _ _ hbody => hplacing.loadPages hfile hh ht (Nat.zero_add _) hbody)
        hlater hload).mono ?_
      rintro x ⟨t, htin, hx⟩
      rw [ElfFile.segmentsFrom, if_pos hisLoad] at htin
      rcases List.mem_cons.mp htin with rfl | htin
      · exact .inl ⟨hx, hx.1⟩
      · exact .inr ⟨t, htin, hx⟩
    · have hsegments : file.segmentsFrom h (count + 1) = file.segmentsFrom (h + 1) count := by
        rw [ElfFile.segmentsFrom, if_neg hisLoad]
        rfl
      rw [hread.loadSegments_skip hh hisLoad] at hload
      rw [hsegments]
      exact ih (by omega) hplacing hload

/-- **`load_program`**, if it comes through. -/
theorem loadProgram_places (hfile : Steady file) (hspace : ProgramSpace m)
    (hheaders : HeadersAt m.memory file) (hload : m.loadProgram loadBase = some (status, m')) :
    Places file m [] (fun x => ∃ t, t ∈ file.segments ∧ t.Covers x) status m' := by
  rw [(hheaders.readsHeaders hfile.toLoadable).loadProgram_eq] at hload
  exact (Placing.refl hspace hheaders).loadSegments hfile (Nat.zero_add _) hload

end Loops

end QuarkKernel
