import QuarkKernel.ElfLoading

/-! # `load_program`

The loader is given a file that stands in memory, in an address space with nothing else
below the kernel.  It comes through exactly if every chunk reaches only pages that are
mapped by then.  Whether the program is there in the end is another question: a chunk may
map a page again that holds bytes of an earlier one, and what is copied behind the file
part of a segment is whatever comes next in the file. -/
namespace QuarkKernel
open PagedMemory
open ByteMemory (addrAt addrAt_addrAt)
open ChunkedLoad (Chunk contents mapped Reaches AllReach KeepsApart)
open UserFrames (withFrame Supplied)

/-- The programs' memory from the file on, as the loader reads it. -/
def source (m : Machine) (elf : Word) (j : Nat) : Option (BitVec 8) :=
  if elf.toNat + j < kernelBase then m.memory.loadByte (addrAt elf j) else none

/-- The file stands at `elf`, and below the kernel nothing else is mapped. -/
structure Placed (m : Machine) (elf : Word) (file : ElfFile) : Prop where
  below : elf.toNat + file.length ≤ kernelBase
  bytes : ∀ i, i < file.length → source m elf i = some (file.byteAt i)
  only : ∀ x, x < kernelBase → (m.memory.translate (addr x)).isSome →
    ∃ i, i < file.length ∧ pageOf (elf.toNat + i) = pageOf x

/-- No page of a segment holds a byte of the file, or one that is copied to a segment. -/
structure ApartFromFile (elf : Word) (file : ElfFile) : Prop where
  below : ∀ s i, s ∈ file.segments → i < s.memsize → elf.toNat + (s.offset + i) < kernelBase
  image : ∀ s x i, s ∈ file.segments → s.Covers x → i < file.length →
    pageOf (elf.toNat + i) ≠ pageOf x
  sources : ∀ s t x i, s ∈ file.segments → s.Covers x → t ∈ file.segments → i < t.memsize →
    pageOf (elf.toNat + (t.offset + i)) ≠ pageOf x

/-- What the caller sees to, and what is relied on: the address space is well formed and
holds the file, and there are two frames for each chunk (one may go to a table). -/
structure Ready (m : Machine) (elf : Word) (file : ElfFile) : Prop where
  space : UserSpace m.memory m.pageMap.reserved
  fresh : m.pageMap.Fresh
  placed : Placed m elf file
  supplied : Supplied m.pageMap.answers (2 * (chunks (source m elf) file.segments).length)

/-! ### Reading the headers -/

/-- The bytes of the file are there. -/
def ImageAt (m : PagedMemory) (elf : Word) (file : ElfFile) : Prop :=
  ∀ i, i < file.length → m.loadByte (addrAt elf i) = some (file.byteAt i)

/-- The loader reads the headers of the file at `elf`. -/
structure ReadsHeaders (m : PagedMemory) (elf : Word) (file : ElfFile) : Prop where
  phoffset : readPhoffset m elf = some (file.wordAt 28)
  phsize : readPhsize m elf = some (file.halfAt 42)
  phcount : readPhcount m elf = some (file.halfAt 44)
  field : ∀ k i, k < file.phcount → i + 4 ≤ 32 →
    readWord m (addrAt (addrAt elf (file.programHeader k)) i) =
      some (file.wordAt (file.programHeader k + i))

section Headers
variable {m : PagedMemory} {elf : Word} {file : ElfFile} {i : Nat}

theorem readHalf_of_bytes
    (h : ∀ j, j < 2 → m.loadByte (addrAt elf (i + j)) = some (file.byteAt (i + j))) :
    readHalf m (addrAt elf i) = some (file.halfAt i) := by
  have hlow : m.loadByte (addrAt elf i) = some (file.byteAt i) := h 0 (by omega)
  rw [readHalf, hlow, addrAt_addrAt, h 1 (by omega)]
  rfl

theorem readWord_of_bytes
    (h : ∀ j, j < 4 → m.loadByte (addrAt elf (i + j)) = some (file.byteAt (i + j))) :
    readWord m (addrAt elf i) = some (file.wordAt i) := by
  have hlow : readHalf m (addrAt elf i) = some (file.halfAt i) :=
    readHalf_of_bytes fun j hj => h j (by omega)
  have hhigh : readHalf m (addrAt elf (i + 2)) = some (file.halfAt (i + 2)) := by
    refine readHalf_of_bytes fun j hj => ?_
    rw [Nat.add_assoc]
    exact h (2 + j) (by omega)
  rw [readWord, hlow, addrAt_addrAt, hhigh]
  rfl

/-- They are read when the bytes of the headers are there. -/
theorem readsHeaders_of_bytes (hentry : 32 ≤ file.phsize)
    (hheader : ∀ i, i < 52 → m.loadByte (addrAt elf i) = some (file.byteAt i))
    (htable : ∀ i, file.phoffset ≤ i → i < file.phoffset + file.phcount * file.phsize →
      m.loadByte (addrAt elf i) = some (file.byteAt i)) : ReadsHeaders m elf file where
  phoffset := readWord_of_bytes fun j hj => hheader _ (by omega)
  phsize := readHalf_of_bytes fun j hj => hheader _ (by omega)
  phcount := readHalf_of_bytes fun j hj => hheader _ (by omega)
  field k i hk hi := by
    have hmul : (k + 1) * file.phsize ≤ file.phcount * file.phsize := Nat.mul_le_mul_right _ hk
    rw [Nat.add_one_mul] at hmul
    rw [addrAt_addrAt]
    refine readWord_of_bytes fun j hj => htable _ ?_ ?_
    all_goals
      unfold ElfFile.programHeader
      omega

theorem ImageAt.readsHeaders (h : ImageAt m elf file) (hwell : file.WellFormed) :
    ReadsHeaders m elf file := by
  have hheader := hwell.header
  have htable := hwell.table
  exact readsHeaders_of_bytes hwell.entry (fun i hi => h i (by omega)) fun i _ hi => h i (by omega)

end Headers

/-! ### One chunk -/

/-- After the chunks done: what `Loading` says, and no more than two frames for each. -/
structure Loaded (m0 m : Machine) (done : List (Chunk (BitVec 8))) : Prop extends
    Loading m0 m done where
  uses : ∃ used, used ≤ 2 * done.length ∧ m.pageMap.answers = m0.pageMap.answers.drop used

/-- A piece of the loader comes through exactly if its chunks reach. -/
structure LoadsChunks (m0 : Machine) (done cs : List (Chunk (BitVec 8)))
    (result : Option (Status × Machine)) : Prop where
  loads : AllReach pageOf done cs →
    ∃ m, result = some (.enone, m) ∧ Loaded m0 m (cs.reverse ++ done)
  faults : ¬ AllReach pageOf done cs → result = none

section Chunks
variable {m0 m : Machine} {done : List (Chunk (BitVec 8))} {c : Chunk (BitVec 8)}

theorem Loaded.supplied {total : Nat} (h : Loaded m0 m done)
    (hsupplied : Supplied m0.pageMap.answers (2 * total)) (hlt : done.length < total) :
    Supplied m.pageMap.answers 2 := by
  obtain ⟨used, hused, hanswers⟩ := h.uses
  rw [hanswers]
  have hmore : Supplied m0.pageMap.answers (used + 2) := fun k hk => hsupplied k (by omega)
  exact (UserFrames.supplied_add.mp hmore).2

/-- `map_page` of a pass. -/
theorem Loaded.mapPage (h : Loaded m0 m done) (hsupplied : Supplied m.pageMap.answers 2)
    (hdst : c.dst < kernelBase) :
    ∃ g m', m.pageMap.next = some g ∧
      (withFrame m g).mapPage (addr c.dst) (frameAddress g)
        (pageRw ||| pageUsermode ||| pageExecutable) = some (.enone, m') ∧
      Loaded m0 m' (c.upTo 0 :: done) := by
  obtain ⟨hfirst, hsecond⟩ := (UserFrames.supplied_add (i := 1) (j := 1)).mp hsupplied
  obtain ⟨g, hnext⟩ := Option.isSome_iff_exists.mp (UserFrames.next_iff_supplied.mpr hfirst)
  obtain ⟨hunused, hfresh⟩ := h.fresh.next hnext
  have hspace : UserSpace (withFrame m g).memory (withFrame m g).pageMap.reserved :=
    h.space.mono fun f hf => List.mem_cons_of_mem _ hf
  have hnot : ¬ IsTable m.memory g := fun ht => hunused (h.space.isTable_reserved ht)
  have hroom : (withFrame m g).pageMap.next.isSome := by
    rw [UserFrames.next_iff_supplied]
    show Supplied m.pageMap.answers.tail 1
    rw [← List.drop_one]
    exact hsecond
  obtain ⟨m', hmap, hmapped⟩ : ∃ m', (withFrame m g).mapPage (addr c.dst) (frameAddress g)
      (pageRw ||| pageUsermode ||| pageExecutable) = some (.enone, m') ∧
      Mapped (withFrame m g) m' (addr c.dst) g :=
    hspace.mapPage hfresh (isUser_addr hdst) (List.mem_cons_self ..) hnot (by decide) (by decide)
      hroom
  refine ⟨g, m', hnext, hmap, h.toLoading.mapPage hdst hunused hmapped, ?_⟩
  obtain ⟨used, hused, hanswers⟩ := h.uses
  refine ⟨used + UserFrames.pageCost m.memory (addr c.dst), ?_, ?_⟩
  · show _ ≤ 2 * (done.length + 1)
    rw [UserFrames.pageCost]
    split <;> omega
  · rw [UserFrames.answers_of_mapped hmapped, hanswers, List.drop_drop]

/-- **One pass of the inner loop.** -/
theorem loadPage_of_loaded {programHeader d s n : Word} (h : Loaded m0 m done)
    (hsupplied : Supplied m.pageMap.answers 2) (hpos : 0 < c.len) (hdst : d + n = addr c.dst)
    (hcopies : Copies m0 done c (s + n))
    (hlength : ∀ m', Loading m0 m' (c.upTo 0 :: done) →
      ∃ num, Machine.copyLength m'.memory programHeader n = some num ∧ num.toNat = c.len) :
    LoadsChunks m0 done [c] (m.loadPage programHeader d s n) := by
  have hbelow := hcopies.below
  obtain ⟨g, m', hnext, hmap, hloaded⟩ := h.mapPage (c := c) hsupplied (by omega)
  obtain ⟨num, hnum, hlen⟩ := hlength m' hloaded.toLoading
  obtain ⟨hcopy, hfail⟩ := memcpy_of_loading hcopies hloaded.toLoading
  have hpass : m.loadPage programHeader d s n =
      (memcpy m'.memory (addr c.dst) (s + n) c.len).map fun memory =>
        (.enone, { m' with memory }) := by
    rw [Machine.loadPage, PageMap.reservePage_of_some hnext]
    show (if frameAddress g = Status.enomem.code then _ else _) = _
    rw [if_neg (frameAddress_ne_enomem g), hdst]
    show ((withFrame m g).mapPage _ _ _).bind _ = _
    rw [hmap, Option.bind_some]
    show (Machine.copyLength m'.memory programHeader n).bind _ = _
    rw [hnum, Option.bind_some, hlen, Option.map_eq_bind]
    rfl
  have hreach : AllReach pageOf done [c] ↔ Reaches pageOf done c := and_iff_left trivial
  constructor
  · intro hall
    obtain ⟨memory, hmemory, hloading⟩ := hcopy (hreach.mp hall)
    refine ⟨{ m' with memory }, ?_, hloading, hloaded.uses⟩
    rw [hpass, hmemory]
    rfl
  · intro hall
    rw [hpass, hfail fun hr => hall (hreach.mpr hr)]
    rfl

end Chunks

/-! ### The file stays -/

/-- The chunks begin in segments of the file. -/
def FromFile (file : ElfFile) (done : List (Chunk (BitVec 8))) : Prop :=
  ∀ c, c ∈ done → ∃ s, s ∈ file.segments ∧ s.Covers c.dst

theorem addr_toNat (w : Word) : addr w.toNat = w := by
  rw [addr, BitVec.ofNat_toNat, BitVec.setWidth_eq]

theorem addrAt_eq_addr (elf : Word) (i : Nat) : addrAt elf i = addr (elf.toNat + i) := by
  rw [← addrAt_addr, addr_toNat]

section Stays
variable {m0 m : Machine} {elf : Word} {file : ElfFile} {done : List (Chunk (BitVec 8))}

theorem FromFile.nil (file : ElfFile) : FromFile file [] := by
  intro c hc
  cases hc

theorem FromFile.cons {c : Chunk (BitVec 8)} {s : Segment} (h : FromFile file done)
    (hs : s ∈ file.segments) (hc : s.Covers c.dst) : FromFile file (c :: done) := by
  intro c' hc'
  rcases List.mem_cons.mp hc' with rfl | hc'
  · exact ⟨s, hs, hc⟩
  · exact h c' hc'

theorem FromFile.not_mapped {x : Nat} (h : FromFile file done)
    (hx : ∀ s y, s ∈ file.segments → s.Covers y → pageOf x ≠ pageOf y) :
    pageOf x ∉ mapped pageOf done := by
  intro hin
  obtain ⟨c, hc, hpage⟩ := List.mem_map.mp hin
  obtain ⟨s, hs, hcov⟩ := h c hc
  exact hx s c.dst hs hcov hpage.symm

/-- What the loader has not mapped again is read as it was in the beginning. -/
theorem Loading.source_eq (h : Loading m0 m done) {j : Nat} (hj : elf.toNat + j < kernelBase)
    (hpage : pageOf (elf.toNat + j) ∉ mapped pageOf done) :
    m.memory.loadByte (addrAt elf j) = source m0 elf j := by
  rw [source, if_pos hj, addrAt_eq_addr]
  exact (h.other _ hj hpage).2

theorem lt_kernelBase (hwell : file.WellFormed) {s : Segment} (hs : s ∈ file.segments) {x : Nat}
    (hx : s.Covers x) : x < kernelBase :=
  Nat.lt_of_lt_of_le hx.2 (hwell.user s hs)

theorem Loading.imageAt (h : Loading m0 m done) (hfrom : FromFile file done)
    (hplaced : Placed m0 elf file) (hapart : ApartFromFile elf file) :
    ImageAt m.memory elf file := by
  intro i hi
  have hbelow := hplaced.below
  rw [h.source_eq (by omega), hplaced.bytes i hi]
  exact hfrom.not_mapped fun s y hs hy => hapart.image s y i hs hy hi

/-- A chunk of the file can be copied. -/
theorem copies_chunk (hwell : file.WellFormed) (hplaced : Placed m0 elf file)
    (hapart : ApartFromFile elf file) (hfrom : FromFile file done) {s : Segment}
    (hs : s ∈ file.segments) {k : Nat} (hk : k < pagesOf s.memsize) :
    Copies m0 done (chunk (source m0 elf) s k) (addrAt elf (s.offset + 4096 * k)) where
  below := by
    have huser := hwell.user s hs
    unfold pagesOf at hk
    unfold chunk kernelBase
    dsimp only
    omega
  source := by
    intro m i hloading hi
    have hmem : 4096 * k + i < s.memsize := by
      unfold chunk at hi
      dsimp only at hi
      omega
    have hbelow := hapart.below s _ hs hmem
    have hcov : s.Covers (chunk (source m0 elf) s k).dst :=
      (covers_chunk.mp (covers_dst hk)).1
    have hdone : FromFile file ((chunk (source m0 elf) s k).upTo i :: done) := hfrom.cons hs hcov
    rw [addrAt_addrAt, hloading.source_eq (by omega)]
    · rfl
    · refine hdone.not_mapped fun t y ht hy => ?_
      rw [Nat.add_assoc]
      exact hapart.sources t s y _ ht hy hs hmem
  vacant := by
    intro x hx hout
    have hcov := (covers_chunk.mp hx).1
    have hlt := lt_kernelBase hwell hs hcov
    -- all that is mapped otherwise is the file
    rcases Option.eq_none_or_eq_some (m0.memory.frameOf true (addr x)) with hnone | ⟨f, hf⟩
    · exact hnone
    · have htrans : (m0.memory.translate (addr x)).isSome := by
        rw [translate_of_frameOf hf]
        rfl
      obtain ⟨i, hi, hpage⟩ := hplaced.only x hlt htrans
      exact absurd hpage (hapart.image s x i hs hcov hi)

end Stays

/-! ### The loops -/

section Loops
variable {m0 m : Machine} {elf : Word} {file : ElfFile} {done : List (Chunk (BitVec 8))}

/-- One piece after the other. -/
theorem LoadsChunks.append {cs cs' : List (Chunk (BitVec 8))} {result : Option (Status × Machine)}
    {rest : Status × Machine → Option (Status × Machine)} (h : LoadsChunks m0 done cs result)
    (hrest : ∀ m, Loaded m0 m (cs.reverse ++ done) →
      LoadsChunks m0 (cs.reverse ++ done) cs' (rest (.enone, m))) :
    LoadsChunks m0 done (cs ++ cs') (result.bind rest) := by
  constructor
  · intro hall
    obtain ⟨hfirst, hsecond⟩ := ChunkedLoad.allReach_append.mp hall
    obtain ⟨m, hresult, hloaded⟩ := h.loads hfirst
    rw [hresult, List.reverse_append, List.append_assoc]
    exact (hrest m hloaded).loads hsecond
  · intro hall
    by_cases hfirst : AllReach pageOf done cs
    · obtain ⟨m, hresult, hloaded⟩ := h.loads hfirst
      rw [hresult]
      exact (hrest m hloaded).faults fun hsecond =>
        hall (ChunkedLoad.allReach_append.mpr ⟨hfirst, hsecond⟩)
    · rw [h.faults hfirst]
      rfl

/-- Nothing to load. -/
theorem LoadsChunks.nil (h : Loaded m0 m done) : LoadsChunks m0 done [] (some (.enone, m)) where
  loads _ := ⟨m, rfl, h⟩
  faults hall := absurd trivial hall

theorem toNat_addr_page {k memsize : Nat} (hk : k ≤ pagesOf memsize)
    (hmemsize : memsize ≤ kernelBase) : (addr (4096 * k)).toNat = 4096 * k := by
  unfold pagesOf at hk
  unfold kernelBase at hmemsize
  rw [addr, BitVec.toNat_ofNat, Nat.mod_eq_of_lt (by omega)]

/-- The length of a copy, as the header says. -/
theorem copyLength_of_read {memory : PagedMemory} {programHeader memsize : Word} {k : Nat}
    (hread : readMemsize memory programHeader = some memsize) (hfits : memsize.toNat ≤ kernelBase)
    (hk : k < pagesOf memsize.toNat) :
    ∃ num, Machine.copyLength memory programHeader (addr (4096 * k)) = some num ∧
      num.toNat = min 4096 (memsize.toNat - 4096 * k) := by
  have hn := toNat_addr_page (Nat.le_of_lt hk) hfits
  unfold kernelBase at hfits
  unfold pagesOf at hk
  have hpage : pageSize.toNat = 4096 := rfl
  rw [Machine.copyLength, hread]
  dsimp only [Option.bind_eq_bind, Option.bind_some]
  -- `n + page_size` does not wrap around, because the segment ends below the kernel
  split
  · rename_i hlt
    refine ⟨pageSize, rfl, ?_⟩
    rw [BitVec.lt_def, BitVec.toNat_add, hn] at hlt
    omega
  · rename_i hlt
    refine ⟨memsize - addr (4096 * k), rfl, ?_⟩
    rw [BitVec.lt_def, BitVec.toNat_add, hn] at hlt
    rw [BitVec.toNat_sub, hn]
    omega

/-- The inner loop as a pass and the rest of it. -/
theorem loadPages_of_lt {programHeader d s n memsize : Word}
    (hread : readMemsize m.memory programHeader = some memsize) (hlt : n < memsize) :
    m.loadPages programHeader d s n = (m.loadPage programHeader d s n).bind fun result =>
      if result.1 = .enone then result.2.loadPages programHeader d s (n + pageSize)
      else some result := by
  rw [Machine.loadPages, hread]
  dsimp only
  rw [if_pos hlt]
  rcases Option.eq_none_or_eq_some (m.loadPage programHeader d s n) with
    hnone | ⟨⟨status, m'⟩, hsome⟩
  · rw [hnone]
    rfl
  · rw [hsome, Option.bind_some]
    cases status <;> rfl

theorem loadPages_of_not_lt {programHeader d s n memsize : Word}
    (hread : readMemsize m.memory programHeader = some memsize) (hlt : ¬ n < memsize) :
    m.loadPages programHeader d s n = some (.enone, m) := by
  rw [Machine.loadPages, hread]
  dsimp only
  rw [if_neg hlt]

/-- Where the next header begins. -/
theorem programHeader_succ (h : Nat) :
    addrAt elf (file.programHeader h) + (file.halfAt 42).setWidth 32 =
      addrAt elf (file.programHeader (h + 1)) := by
  have hnext : file.programHeader (h + 1) = file.programHeader h + (file.halfAt 42).toNat := by
    show file.phoffset + (h + 1) * file.phsize = file.phoffset + h * file.phsize + file.phsize
    rw [Nat.add_one_mul, Nat.add_assoc]
  rw [hnext, ← addrAt_addrAt, ← BitVec.ofNat_toNat]
  rfl

/-! With the headers there, the loops go by the file. -/

section ReadsHeaders
variable (hread : ReadsHeaders m.memory elf file)
include hread

theorem ReadsHeaders.memsize {h : Nat} (hh : h < file.phcount) :
    readMemsize m.memory (addrAt elf (file.programHeader h)) =
      some (file.wordAt (file.programHeader h + 20)) :=
  hread.field h 20 hh (by omega)

/-- The inner loop goes on with chunk `k`. -/
theorem ReadsHeaders.loadPages_pass {h k : Nat} {d s : Word} (hh : h < file.phcount)
    (hfits : (file.segment h).memsize ≤ kernelBase) (hk : k < pagesOf (file.segment h).memsize) :
    m.loadPages (addrAt elf (file.programHeader h)) d s (addr (4096 * k)) =
      (m.loadPage (addrAt elf (file.programHeader h)) d s (addr (4096 * k))).bind fun result =>
        if result.1 = .enone then
          result.2.loadPages (addrAt elf (file.programHeader h)) d s (addr (4096 * (k + 1)))
        else some result := by
  have hlt : addr (4096 * k) < file.wordAt (file.programHeader h + 20) := by
    rw [BitVec.lt_def, toNat_addr_page (Nat.le_of_lt hk) hfits]
    show 4096 * k < (file.segment h).memsize
    unfold pagesOf at hk
    omega
  have hnext : addr (4096 * k) + pageSize = addr (4096 * (k + 1)) := addrAt_addr (4096 * k) 4096
  rw [loadPages_of_lt (hread.memsize hh) hlt, hnext]

/-- It ends behind the last one. -/
theorem ReadsHeaders.loadPages_end {h k : Nat} {d s : Word} (hh : h < file.phcount)
    (hfits : (file.segment h).memsize ≤ kernelBase) (hk : k = pagesOf (file.segment h).memsize) :
    m.loadPages (addrAt elf (file.programHeader h)) d s (addr (4096 * k)) = some (.enone, m) := by
  refine loadPages_of_not_lt (hread.memsize hh) ?_
  rw [BitVec.lt_def, toNat_addr_page (Nat.le_of_eq hk) hfits]
  show ¬ 4096 * k < (file.segment h).memsize
  unfold pagesOf at hk
  omega

/-- The next header is where the file says. -/
theorem ReadsHeaders.loadSegments_next (h count : Nat) :
    ((readPhsize m.memory elf).bind fun phsize => Machine.loadSegments elf count
      (addrAt elf (file.programHeader h) + phsize.setWidth 32) m) =
        Machine.loadSegments elf count (addrAt elf (file.programHeader (h + 1))) m := by
  rw [hread.phsize, Option.bind_some, programHeader_succ]

/-- The outer loop goes on with a segment. -/
theorem ReadsHeaders.loadSegments_load {h : Nat} (hh : h < file.phcount)
    (hload : file.isLoad h = true) (count : Nat) :
    Machine.loadSegments elf (count + 1) (addrAt elf (file.programHeader h)) m =
      (m.loadPages (addrAt elf (file.programHeader h)) (addr (file.segment h).vaddr)
        (addrAt elf (file.segment h).offset) (addr (4096 * 0))).bind fun result =>
          if result.1 = .enone then
            (readPhsize result.2.memory elf).bind fun phsize => Machine.loadSegments elf count
              (addrAt elf (file.programHeader h) + phsize.setWidth 32) result.2
          else some result := by
  have htype : readType m.memory (addrAt elf (file.programHeader h)) = some elfLoad := by
    have hfield := hread.field h 0 hh (by omega)
    rw [show addrAt (addrAt elf (file.programHeader h)) 0 = _ from BitVec.add_zero _] at hfield
    rw [readType, hfield]
    exact congrArg some (of_decide_eq_true hload)
  have hvaddr : readVaddr m.memory (addrAt elf (file.programHeader h)) =
      some (addr (file.segment h).vaddr) := by
    rw [readVaddr, hread.field h 8 hh (by omega)]
    exact congrArg some (addr_toNat _).symm
  have hoffset : readOffset m.memory (addrAt elf (file.programHeader h)) =
      some (addr (file.segment h).offset) := by
    rw [readOffset, hread.field h 4 hh (by omega)]
    exact congrArg some (addr_toNat _).symm
  rw [Machine.loadSegments, htype, Option.bind_eq_bind, Option.bind_some, if_pos rfl, hvaddr,
    hoffset]
  rfl

/-- It passes over the other headers. -/
theorem ReadsHeaders.loadSegments_skip {h : Nat} (hh : h < file.phcount)
    (hload : ¬ file.isLoad h = true) (count : Nat) :
    Machine.loadSegments elf (count + 1) (addrAt elf (file.programHeader h)) m =
      Machine.loadSegments elf count (addrAt elf (file.programHeader (h + 1))) m := by
  have htype : readType m.memory (addrAt elf (file.programHeader h)) =
      some (file.wordAt (file.programHeader h)) := by
    have hfield := hread.field h 0 hh (by omega)
    rwa [show addrAt (addrAt elf (file.programHeader h)) 0 = _ from BitVec.add_zero _] at hfield
  have hne : ¬ file.wordAt (file.programHeader h) = elfLoad := fun heq => hload (decide_eq_true heq)
  rw [Machine.loadSegments, htype, Option.bind_eq_bind, Option.bind_some, if_neg hne,
    ← hread.loadSegments_next]
  rfl

theorem ReadsHeaders.loadProgram_eq : m.loadProgram elf =
    Machine.loadSegments elf file.phcount (addrAt elf (file.programHeader 0)) m := by
  have hfirst : elf + file.wordAt 28 = addrAt elf (file.programHeader 0) := by
    rw [ElfFile.programHeader, Nat.zero_mul, Nat.add_zero]
    exact congrArg (elf + ·) (addr_toNat _).symm
  rw [Machine.loadProgram, hread.phoffset, hread.phcount, ← hfirst]
  rfl

end ReadsHeaders

/-- **The inner loop**, from chunk `k` on. -/
theorem loadPages_chunks {total : Nat} (hwell : file.WellFormed) (hplaced : Placed m0 elf file)
    (hapart : ApartFromFile elf file) (hsupplied : Supplied m0.pageMap.answers (2 * total)) {h : Nat}
    (hh : h < file.phcount) (hs : file.segment h ∈ file.segments) {count k : Nat}
    (hcount : k + count = pagesOf (file.segment h).memsize) (htotal : done.length + count ≤ total)
    (hfrom : FromFile file done) (hloaded : Loaded m0 m done) :
    LoadsChunks m0 done (chunksFrom (source m0 elf) (file.segment h) k count)
      (m.loadPages (addrAt elf (file.programHeader h)) (addr (file.segment h).vaddr)
        (addrAt elf (file.segment h).offset) (addr (4096 * k))) := by
  have hfits : (file.segment h).memsize ≤ kernelBase :=
    Nat.le_trans (Nat.le_add_left ..) (hwell.user _ hs)
  induction count generalizing k m done with
  | zero =>
    have hread := (hloaded.toLoading.imageAt hfrom hplaced hapart).readsHeaders hwell
    have hcount : k = pagesOf (file.segment h).memsize := hcount
    rw [hread.loadPages_end hh hfits hcount]
    exact .nil hloaded
  | succ count ih =>
    have hk : k < pagesOf (file.segment h).memsize := by omega
    have hcov : (file.segment h).Covers (chunk (source m0 elf) (file.segment h) k).dst :=
      (covers_chunk.mp (covers_dst hk)).1
    have hread := (hloaded.toLoading.imageAt hfrom hplaced hapart).readsHeaders hwell
    have hsource : addrAt elf (file.segment h).offset + addr (4096 * k) =
        addrAt elf ((file.segment h).offset + 4096 * k) := addrAt_addrAt ..
    have hpass : LoadsChunks m0 done [chunk (source m0 elf) (file.segment h) k]
        (m.loadPage (addrAt elf (file.programHeader h)) (addr (file.segment h).vaddr)
          (addrAt elf (file.segment h).offset) (addr (4096 * k))) := by
      refine loadPage_of_loaded hloaded (hloaded.supplied hsupplied (by omega)) ?_ ?_ ?_ ?_
      · unfold pagesOf at hk
        unfold chunk
        dsimp only
        omega
      · exact addrAt_addr ..
      · rw [hsource]
        exact copies_chunk hwell hplaced hapart hfrom hs hk
      · intro m' hloading
        have hread' := (hloading.imageAt (hfrom.cons hs hcov) hplaced hapart).readsHeaders hwell
        exact copyLength_of_read (hread'.memsize hh) hfits hk
    -- the pass, and the rest from the next page on
    rw [hread.loadPages_pass hh hfits hk, chunksFrom, ← List.singleton_append]
    refine hpass.append fun m' hloaded' => ?_
    rw [if_pos rfl]
    refine ih (by omega) ?_ (hfrom.cons hs hcov) hloaded'
    show done.length + 1 + count ≤ total
    omega

theorem FromFile.append_chunks {s : Segment} {source : Nat → Option (BitVec 8)}
    (hs : s ∈ file.segments) (hfrom : FromFile file done) :
    FromFile file ((chunksFrom source s 0 (pagesOf s.memsize)).reverse ++ done) := by
  intro c hc
  rcases List.mem_append.mp hc with hc | hc
  · obtain ⟨k, -, hk, rfl⟩ := mem_chunksFrom.mp (List.mem_reverse.mp hc)
    exact ⟨s, hs, (covers_chunk.mp (covers_dst (by omega))).1⟩
  · exact hfrom c hc

theorem length_chunksFrom (source : Nat → Option (BitVec 8)) (s : Segment) (k count : Nat) :
    (chunksFrom source s k count).length = count := by
  induction count generalizing k with
  | zero => rfl
  | succ count ih => rw [chunksFrom, List.length_cons, ih]

/-- **The outer loop**, from header `h` on. -/
theorem loadSegments_chunks {total : Nat} (hwell : file.WellFormed) (hplaced : Placed m0 elf file)
    (hapart : ApartFromFile elf file) (hsupplied : Supplied m0.pageMap.answers (2 * total))
    {count h : Nat} (hcount : h + count = file.phcount)
    (htotal : done.length + (chunks (source m0 elf) (file.segmentsFrom h count)).length ≤ total)
    (hfrom : FromFile file done) (hloaded : Loaded m0 m done) :
    LoadsChunks m0 done (chunks (source m0 elf) (file.segmentsFrom h count))
      (Machine.loadSegments elf count (addrAt elf (file.programHeader h)) m) := by
  induction count generalizing h m done with
  | zero => exact .nil hloaded
  | succ count ih =>
    have hh : h < file.phcount := by omega
    have hread := (hloaded.toLoading.imageAt hfrom hplaced hapart).readsHeaders hwell
    by_cases hload : file.isLoad h = true
    · have hs : file.segment h ∈ file.segments :=
        ElfFile.mem_segmentsFrom.mpr ⟨h, by omega, by omega, hload, rfl⟩
      have hsplit : chunks (source m0 elf) (file.segmentsFrom h (count + 1)) =
          chunksFrom (source m0 elf) (file.segment h) 0 (pagesOf (file.segment h).memsize) ++
            chunks (source m0 elf) (file.segmentsFrom (h + 1) count) := by
        rw [ElfFile.segmentsFrom, if_pos hload]
        rfl
      rw [hsplit] at htotal ⊢
      rw [List.length_append] at htotal
      have hcount' : (chunksFrom (source m0 elf) (file.segment h) 0
          (pagesOf (file.segment h).memsize)).length = pagesOf (file.segment h).memsize :=
        length_chunksFrom ..
      have hpages := loadPages_chunks hwell hplaced hapart hsupplied hh hs (Nat.zero_add _)
        (by omega) hfrom hloaded
      rw [hread.loadSegments_load hh hload]
      refine hpages.append fun m' hloaded' => ?_
      have hfrom' : FromFile file ((chunksFrom (source m0 elf) (file.segment h) 0
          (pagesOf (file.segment h).memsize)).reverse ++ done) := hfrom.append_chunks hs
      have hread' := (hloaded'.toLoading.imageAt hfrom' hplaced hapart).readsHeaders hwell
      rw [if_pos rfl, hread'.loadSegments_next]
      refine ih (by omega) ?_ hfrom' hloaded'
      rw [List.length_append, List.length_reverse]
      omega
    · have hsplit : chunks (source m0 elf) (file.segmentsFrom h (count + 1)) =
          chunks (source m0 elf) (file.segmentsFrom (h + 1) count) := by
        rw [ElfFile.segmentsFrom, if_neg hload]
        rfl
      rw [hsplit] at htotal ⊢
      rw [hread.loadSegments_skip hh hload]
      exact ih (by omega) htotal hfrom hloaded

/-- **`load_program`** comes through exactly if its chunks reach. -/
theorem loadProgram_chunks (hwell : file.WellFormed) (hready : Ready m elf file)
    (hapart : ApartFromFile elf file) :
    LoadsChunks m [] (chunks (source m elf) file.segments) (m.loadProgram elf) := by
  have himage : ImageAt m.memory elf file :=
    (Loading.refl hready.space hready.fresh).imageAt (.nil file) hready.placed hapart
  rw [(himage.readsHeaders hwell).loadProgram_eq]
  refine loadSegments_chunks hwell hready.placed hapart hready.supplied (Nat.zero_add _)
    (by rw [List.length_nil, Nat.zero_add]; exact Nat.le_refl _) (.nil file) ?_
  exact ⟨.refl hready.space hready.fresh, 0, Nat.zero_le _, List.drop_zero.symm⟩

end Loops
end QuarkKernel
