import QuarkKernel.Elf
import QuarkKernel.ElfFile
import QuarkKernel.Mmap

/-! # What the loader of `elf.c` does to memory

`load_program` maps one page for each chunk and copies the chunk, which may reach into
the next page.  `Loading` says what has become of the programs' part of the address
space after some chunks: where a page has been mapped it holds what
`ChunkedLoad.contents` says, or what was in the new frame before; all else is as it
was. -/
namespace QuarkKernel
open PagedMemory
open ByteMemory (addrAt addrAt_addrAt)
open ChunkedLoad (Chunk contents mapped Reaches AllReach)
open CountedLoop (loop)
open UserFrames (withFrame Supplied)

/-- The page of an address. -/
def pageOf (x : Nat) : Nat := x / 4096

/-- `_kernel_start` -/
def kernelBase : Nat := 0xFF400000

/-- An address below the kernel, as a word. -/
def addr (x : Nat) : Word := BitVec.ofNat 32 x

section Addr
variable {x y : Nat}

theorem toNat_addr (hx : x < kernelBase) : (addr x).toNat = x := by
  unfold kernelBase at hx
  rw [addr, BitVec.toNat_ofNat, Nat.mod_eq_of_lt (by omega)]

theorem isUser_addr (hx : x < kernelBase) : IsUser (addr x) := by
  rw [isUser_iff, toNat_addr hx]
  exact hx

theorem samePage_addr (hx : x < kernelBase) (hy : y < kernelBase) :
    SamePage (addr x) (addr y) ↔ pageOf x = pageOf y := by
  rw [SamePage, toNat_addr hx, toNat_addr hy]
  rfl

theorem addr_inj (hx : x < kernelBase) (hy : y < kernelBase) : addr x = addr y ↔ x = y := by
  constructor
  · intro h
    rw [← toNat_addr hx, ← toNat_addr hy, h]
  · rintro rfl
    rfl

theorem addrAt_addr (x i : Nat) : addrAt (addr x) i = addr (x + i) := by
  rw [addrAt, addr, addr, BitVec.ofNat_add]

end Addr

/-! ### The invariant -/

/-- A byte of a page that has been mapped: it can be used, no other page shows its
frame, and it is what has been copied there or what a free frame held. -/
structure LoadedAt (m0 : Machine) (m : PagedMemory) (x : Nat) (content : Option (BitVec 8)) :
    Prop where
  user : m.UserAccessible (addr x)
  alone : Alone m (addr x)
  byte : ∃ f, f ∉ m0.pageMap.reserved ∧
    m.loadByte (addr x) = some (content.getD ((m0.memory.ram f).byte (pageOffset (addr x))))

/-- The machine after some chunks, the latest first. -/
structure Loading (m0 m : Machine) (done : List (Chunk (BitVec 8))) : Prop where
  space : UserSpace m.memory m.pageMap.reserved
  fresh : m.pageMap.Fresh
  grows : ∀ f, f ∈ m0.pageMap.reserved → f ∈ m.pageMap.reserved
  loaded : ∀ x, x < kernelBase → pageOf x ∈ mapped pageOf done →
    LoadedAt m0 m.memory x (contents pageOf done x)
  other : ∀ x, x < kernelBase → pageOf x ∉ mapped pageOf done →
    SameView m0.memory m.memory (addr x) ∧
      m.memory.loadByte (addr x) = m0.memory.loadByte (addr x)
  stale : ∀ f, f ∉ m.pageMap.reserved → m.memory.ram f = m0.memory.ram f

theorem SameView.refl (m : PagedMemory) (x : Word) : SameView m m x := ⟨fun _ => rfl, rfl, .rfl⟩

theorem Loading.refl {m : Machine} (hspace : UserSpace m.memory m.pageMap.reserved)
    (hfresh : m.pageMap.Fresh) : Loading m m [] where
  space := hspace
  fresh := hfresh
  grows _ hf := hf
  loaded _ _ hx := by cases hx
  other _ _ _ := ⟨.refl _ _, rfl⟩
  stale _ _ := rfl

theorem frameOf_of_userAccessible {m : PagedMemory} {x : Word} (h : m.UserAccessible x)
    {g : Frame} (hg : m.translate x = some g) : m.frameOf true x = some g := by
  obtain ⟨f, hf⟩ := Option.isSome_iff_exists.mp h.1
  rw [hf, ← translate_of_frameOf hf, hg]

/-! ### Mapping a page -/

section Maps
variable {m m' : Machine} {page : Word} {g : Frame}

/-- The bytes of the other pages are where they were. -/
theorem Mapped.loadByte (hmapped : Mapped m m' page g)
    (h : UserSpace m.memory m.pageMap.reserved) {x : Word} (hx : IsUser x)
    (hne : ¬ SamePage page x) : m'.memory.loadByte x = m.memory.loadByte x := by
  have hview := hmapped.other x hx hne
  rw [PagedMemory.loadByte, PagedMemory.loadByte, hview.frameOf]
  rcases Option.eq_none_or_eq_some (m.memory.frameOf false x) with hnone | ⟨f, hf⟩
  · rw [hnone]
    rfl
  · obtain ⟨hin, hnot⟩ := h.data x f hx (translate_of_frameOf hf)
    rw [hf, Option.map_some, Option.map_some, hmapped.data f]
    rw [hmapped.tables f hin]
    exact hnot

/-- A page that shows a frame of its own still does. -/
theorem Mapped.alone (hmapped : Mapped m m' page g) {x : Word} (hx : IsUser x)
    (hne : ¬ SamePage page x) (halone : Alone m.memory x)
    (hg : m.memory.translate x ≠ some g) : Alone m'.memory x := by
  intro y f hy hxy hf
  rw [(hmapped.other x hx hne).translate] at hf
  by_cases hpage : SamePage page y
  · rw [(hmapped.maps y hpage).2]
    intro heq
    rw [Option.some.inj heq] at hg
    exact hg hf
  · rw [(hmapped.other y hy hpage).translate]
    exact halone y f hy hxy hf

end Maps

section Load
variable {m0 m m' : Machine} {done : List (Chunk (BitVec 8))} {c : Chunk (BitVec 8)} {g : Frame}

theorem mapped_upTo (c : Chunk (BitVec 8)) (len : Nat) (done : List (Chunk (BitVec 8))) :
    mapped pageOf (c.upTo len :: done) = mapped pageOf (c :: done) := rfl

theorem mem_mapped_cons {x : Nat} :
    pageOf x ∈ mapped pageOf (c :: done) ↔
      pageOf x = pageOf c.dst ∨ pageOf x ∈ mapped pageOf done := by
  rw [mapped, List.map_cons, List.mem_cons]
  rfl

/-- The page of a chunk is mapped to a free frame. -/
theorem Loading.mapPage (h : Loading m0 m done) (hdst : c.dst < kernelBase)
    (hunused : g ∉ m.pageMap.reserved)
    (hmapped : Mapped (withFrame m g) m' (addr c.dst) g) : Loading m0 m' (c.upTo 0 :: done) := by
  have hspace1 : UserSpace (withFrame m g).memory (withFrame m g).pageMap.reserved :=
    h.space.mono fun f hf => List.mem_cons_of_mem _ hf
  have hgrows : ∀ f, f ∈ m.pageMap.reserved → f ∈ m'.pageMap.reserved :=
    fun f hf => hmapped.grows f (List.mem_cons_of_mem _ hf)
  refine ⟨hmapped.space, hmapped.fresh, fun f hf => hgrows f (h.grows f hf), ?_, ?_, ?_⟩
  · intro x hx hin
    rw [mapped_upTo, mem_mapped_cons] at hin
    rw [ChunkedLoad.contents_upTo_zero]
    by_cases hpage : pageOf x = pageOf c.dst
    · -- the new page
      rw [if_pos hpage]
      have hsame : SamePage (addr c.dst) (addr x) := (samePage_addr hdst hx).mpr hpage.symm
      obtain ⟨huser, htrans⟩ := hmapped.maps _ hsame
      have hframe := frameOf_false (frameOf_of_userAccessible huser htrans)
      have hnot : ¬ IsTable m'.memory g := (hmapped.space.data _ _ (isUser_addr hx) htrans).2
      refine ⟨huser, ?_, g, fun hg => hunused (h.grows g hg), ?_⟩
      · intro y f hy hxy hf hyf
        rw [htrans] at hf
        obtain rfl := Option.some.inj hf
        have hne : ¬ SamePage (addr c.dst) y := fun hcy => hxy (hsame.symm.trans hcy)
        rw [(hmapped.other y hy hne).translate] at hyf
        exact hunused (h.space.data y g hy hyf).1
      · rw [PagedMemory.loadByte, hframe, Option.map_some, hmapped.data g hnot]
        show some ((m.memory.ram g).byte _) = _
        rw [h.stale g hunused]
        rfl
    · rw [if_neg hpage]
      have hne : ¬ SamePage (addr c.dst) (addr x) :=
        fun hsame => hpage ((samePage_addr hdst hx).mp hsame).symm
      obtain ⟨huser, halone, f, hf, hbyte⟩ := h.loaded x hx (hin.resolve_left hpage)
      have huser1 : (withFrame m g).memory.UserAccessible (addr x) := huser
      have halone1 : Alone (withFrame m g).memory (addr x) := halone
      refine ⟨(hmapped.other _ (isUser_addr hx) hne).user.mpr huser1, ?_, f, hf, ?_⟩
      · refine hmapped.alone (isUser_addr hx) hne halone1 fun htrans => ?_
        exact hunused (h.space.data _ g (isUser_addr hx) htrans).1
      · rw [hmapped.loadByte hspace1 (isUser_addr hx) hne]
        exact hbyte
  · intro x hx hin
    rw [mapped_upTo, mem_mapped_cons, not_or] at hin
    have hne : ¬ SamePage (addr c.dst) (addr x) :=
      fun hsame => hin.1 ((samePage_addr hdst hx).mp hsame).symm
    obtain ⟨hview, hbyte⟩ := h.other x hx hin.2
    exact ⟨hview.trans (hmapped.other _ (isUser_addr hx) hne),
      (hmapped.loadByte hspace1 (isUser_addr hx) hne).trans hbyte⟩
  · intro f hf
    have hnot : ¬ IsTable m'.memory f := fun ht => hf (hmapped.space.isTable_reserved ht)
    rw [hmapped.data f hnot]
    exact h.stale f fun hin => hf (hgrows f hin)

/-! ### Copying a chunk -/

/-- One byte of the chunk is copied to a page that has been mapped. -/
theorem Loading.storeByte {i : Nat} {b : BitVec 8} (h : Loading m0 m (c.upTo i :: done))
    (hx : c.dst + i < kernelBase) (hin : pageOf (c.dst + i) ∈ mapped pageOf (c :: done))
    (hb : c.value i = some b) :
    ∃ memory, m.memory.storeByte (addr (c.dst + i)) b = some memory ∧
      Loading m0 { m with memory } (c.upTo (i + 1) :: done) := by
  obtain ⟨huser, halone, -⟩ := h.loaded _ hx hin
  obtain ⟨memory, hstore, hspace, hview, hbyte, htables, hram⟩ :=
    h.space.storeByte (isUser_addr hx) huser.1 halone b
  refine ⟨memory, hstore, hspace, h.fresh, h.grows, ?_, ?_, ?_⟩
  -- the store is to a frame that one page shows, so one address sees it
  · intro x hx' hin'
    obtain ⟨huser', halone', f, hf, hold⟩ := h.loaded x hx' hin'
    rw [ChunkedLoad.contents_upTo_succ]
    refine ⟨(hview _ (isUser_addr hx')).user.mpr huser', ?_, f, hf, ?_⟩
    · intro y f hy hxy hf
      rw [(hview _ (isUser_addr hx')).translate] at hf
      rw [(hview y hy).translate]
      exact halone' y f hy hxy hf
    · rw [hbyte _ (isUser_addr hx')]
      by_cases heq : x = c.dst + i
      · rw [if_pos heq, if_pos (by rw [heq]), hb]
        rfl
      · rw [if_neg heq, if_neg fun haddr => heq ((addr_inj hx' hx).mp haddr)]
        exact hold
  · intro x hx' hin'
    obtain ⟨hsame, hold⟩ := h.other x hx' hin'
    have hne : x ≠ c.dst + i := by
      rintro rfl
      exact hin' hin
    refine ⟨hsame.trans (hview _ (isUser_addr hx')), ?_⟩
    rw [hbyte _ (isUser_addr hx'), if_neg fun haddr => hne ((addr_inj hx' hx).mp haddr)]
    exact hold
  · intro f hf
    refine (hram f fun htrans => hf ?_).trans (h.stale f hf)
    exact (h.space.data _ f (isUser_addr hx) htrans).1

/-- What a chunk is copied from is where it was, and pages that are yet to be mapped are
absent. -/
structure Copies (m0 : Machine) (done : List (Chunk (BitVec 8))) (c : Chunk (BitVec 8))
    (source : Word) : Prop where
  below : c.dst + c.len ≤ kernelBase
  source : ∀ m i, Loading m0 m (c.upTo i :: done) → i < c.len →
    m.memory.loadByte (addrAt source i) = c.value i
  vacant : ∀ x, c.Covers x → pageOf x ∉ mapped pageOf (c :: done) →
    m0.memory.frameOf true (addr x) = none

/-- Byte `i` of the chunk can be copied. -/
def CopiesByte (done : List (Chunk (BitVec 8))) (c : Chunk (BitVec 8)) (i : Nat) : Prop :=
  (c.value i).isSome ∧ pageOf (c.dst + i) ∈ mapped pageOf (c :: done)

theorem reaches_iff : Reaches pageOf done c ↔ ∀ i, i < c.len → CopiesByte done c i := by
  constructor
  · intro h i hi
    have hx := h (c.dst + i) ⟨by omega, by omega⟩
    rwa [Nat.add_sub_cancel_left] at hx
  · rintro h x ⟨hle, hlt⟩
    have hi := h (x - c.dst) (by omega)
    rwa [CopiesByte, show c.dst + (x - c.dst) = x by omega] at hi

/-- One pass of `memcpy`. -/
theorem copyByte_of_loading {i : Nat} {source : Word} (hcopies : Copies m0 done c source)
    (h : Loading m0 m (c.upTo i :: done)) (hi : i < c.len) :
    (CopiesByte done c i → ∃ memory,
      ((m.memory.loadByte (addrAt source i)).bind fun b =>
        m.memory.storeByte (addrAt (addr c.dst) i) b) = some memory ∧
      Loading m0 { m with memory } (c.upTo (i + 1) :: done)) ∧
    (¬ CopiesByte done c i →
      ((m.memory.loadByte (addrAt source i)).bind fun b =>
        m.memory.storeByte (addrAt (addr c.dst) i) b) = none) := by
  have hx : c.dst + i < kernelBase := by
    have := hcopies.below
    omega
  rw [hcopies.source m i h hi, addrAt_addr]
  constructor
  · rintro ⟨hvalue, hin⟩
    obtain ⟨b, hb⟩ := Option.isSome_iff_exists.mp hvalue
    rw [hb, Option.bind_some]
    exact h.storeByte hx hin hb
  · intro hnot
    rcases Option.eq_none_or_eq_some (c.value i) with hnone | ⟨b, hb⟩
    · rw [hnone]
      rfl
    · -- the page is absent
      have hout : pageOf (c.dst + i) ∉ mapped pageOf (c :: done) := by
        intro hin
        exact hnot ⟨by rw [hb]; rfl, hin⟩
      have hcov : c.Covers (c.dst + i) := ⟨by omega, by omega⟩
      rw [hb, Option.bind_some, PagedMemory.storeByte, (h.other _ hx hout).1.frameOf,
        hcopies.vacant _ hcov hout]
      rfl

/-- `memcpy` of a chunk. -/
theorem memcpy_of_loading {source : Word} (hcopies : Copies m0 done c source)
    (h : Loading m0 m (c.upTo 0 :: done)) :
    (Reaches pageOf done c → ∃ memory,
      memcpy m.memory (addr c.dst) source c.len = some memory ∧
        Loading m0 { m with memory } (c :: done)) ∧
    (¬ Reaches pageOf done c → memcpy m.memory (addr c.dst) source c.len = none) := by
  rw [reaches_iff]
  constructor
  · intro hreach
    refine CountedLoop.loop_of_invariant _ c.len m.memory
      (fun i memory => Loading m0 { m with memory } (c.upTo i :: done)) h ?_
    intro i memory hi hinv
    exact (copyByte_of_loading hcopies hinv hi).1 (hreach i hi)
  · intro hnot
    by_contra hsome
    obtain ⟨memory, hloop⟩ := Option.ne_none_iff_exists'.mp hsome
    refine hnot (CountedLoop.loop_preserves (fun i memory =>
      Loading m0 { m with memory } (c.upTo i :: done) ∧ ∀ j, j < i → CopiesByte done c j)
      ⟨h, fun j hj => absurd hj (Nat.not_lt_zero j)⟩ ?_ hloop).2
    rintro i memory memory' hi ⟨hinv, hbefore⟩ hbody
    have hbody : ((memory.loadByte (addrAt source i)).bind fun b =>
      memory.storeByte (addrAt (addr c.dst) i) b) = some memory' := hbody
    obtain ⟨hcopy, hfail⟩ := copyByte_of_loading hcopies hinv hi
    by_cases hc : CopiesByte done c i
    · obtain ⟨memory1, hstep, hnext⟩ := hcopy hc
      obtain rfl : memory1 = memory' := Option.some.inj (hstep.symm.trans hbody)
      refine ⟨hnext, fun j hj => ?_⟩
      rcases Nat.lt_succ_iff_lt_or_eq.mp hj with hlt | rfl
      · exact hbefore j hlt
      · exact hc
    · have hnone := hfail hc
      rw [hbody] at hnone
      cases hnone

end Load
end QuarkKernel
