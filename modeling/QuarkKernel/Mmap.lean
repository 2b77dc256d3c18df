import QuarkKernel.PageTree

/-! # `mmap` and `munmap` of `syscalls.c`

`mmap` looks whether all pages of the range are absent, and then gets a frame for
each and maps it.  When it runs out of frames it calls `munmap`, so a call of it
ends in one of two ways (`MmapResult`).  The loop of `munmap` never moves on from
its first page and is given by its single passes.

What is proved of `mmap` is for ranges below the kernel, of which it makes sure in
no way: there each page gets a frame of its own, and nothing else changes but the
pages of the window that show the new tables (`mmap_effect`). -/
namespace QuarkKernel
open PagedMemory

/-- `PAGE_ANON` -/
def pageAnon : Word := 1 <<< 17

/-- `page_type` -/
def pageType (m : PagedMemory) (page : Word) : Option Word := do
  let flags ← getPteType m page 0
  if !hasFlag flags pagePresent then some flags else getPteType m page (pageTableLevels - 1)

/-- The memory and, as a ghost, the data frames that `mmap` got from `reserve_page` and
that have not been passed to `free_page` since.  The functions write the ghost and do
not read it. -/
structure UserFrames where
  machine : Machine
  frames : List Frame

/-- What a call of `mmap` comes to: it returns, or it calls `munmap` on the range, to
return the status afterwards. -/
inductive MmapResult where
  | returns (status : Word)
  | callsMunmap (status : Word)
deriving DecidableEq, Repr

/-- The `i`-th page from `location` on; `location + i * page_size` wraps around. -/
def pageAt (location : Word) (i : Nat) : Word := location + BitVec.ofNat 32 (4096 * i)

/-- The number of pages of a range. -/
def pageCount (length : Word) : Nat := length.toNat / 4096

/-- The loop of `mmap` that looks for a page that is there, over the first `n`
pages. -/
def anyPresent (m : PagedMemory) (location : Word) : Nat → Option Bool
  | 0 => some false
  | n + 1 => do
      if ← anyPresent m location n then some true
      else (pageType m (pageAt location n)).map fun type => hasFlag type pagePresent

namespace UserFrames

/-- `free_page`; it returns `ENONE`. -/
def freePage (s : UserFrames) (location : Word) : UserFrames where
  machine := { s.machine with
    pageMap := { s.machine.pageMap with
      reserved := s.machine.pageMap.reserved.erase (frameNumber location) } }
  frames := s.frames.erase (frameNumber location)

/-- One pass of the loop of `mmap` that maps the pages, with the status it leaves. -/
def mmapPass (s : UserFrames) (page : Word) : Option (Word × UserFrames) := do
  let (frame, pageMap) := s.machine.pageMap.reservePage
  let s := { s with machine := { s.machine with pageMap } }
  let status := frame % pageSize
  if status = Status.enone.code then
    let s := { s with frames := frameNumber frame :: s.frames }
    let (status, machine) ← s.machine.mapPage page frame (pageUsermode ||| pageRw)
    let s := { s with machine }
    some (status.code, if status ≠ .enone then s.freePage frame else s)
  else some (status, s)

/-- The loop over the first `n` pages, as long as the status is `ENONE`. -/
def mmapLoop (s : UserFrames) (location : Word) : Nat → Option (Word × UserFrames)
  | 0 => some (Status.enone.code, s)
  | n + 1 => do
      let (status, s) ← mmapLoop s location n
      if status = Status.enone.code then s.mmapPass (pageAt location n) else some (status, s)

/-- `mmap` up to its return or its call of `munmap`.  It does not look at its flags. -/
def mmap (s : UserFrames) (location length _flags : Word) : Option (MmapResult × UserFrames) :=
  if location % pageSize ≠ 0 ∨ length % pageSize ≠ 0 then
    some (.returns Status.einvalidarg.code, s)
  else if location = 0 then some (.returns Status.enullptr.code, s)
  else do
    if ← anyPresent s.machine.memory location (pageCount length) then
      some (.returns Status.eexists.code, s)
    else
      let (status, s) ← s.mmapLoop location (pageCount length)
      some (if status ≠ Status.enone.code then .callsMunmap status else .returns status, s)

/-- One pass of the loop of `munmap`, with the status it leaves. -/
def munmapPass (s : UserFrames) (page status : Word) : Option (Word × UserFrames) := do
  let type ← pageType s.machine.memory page
  if hasFlag type pagePresent then
    let (frame, machine) ← s.machine.unmapPage page
    let s := { s with machine }
    if hasFlag type pageAnon then some (Status.enone.code, s.freePage frame) else some (status, s)
  else some (status, s)

/-- What `munmap` returns before its loop, if it does. -/
def munmapRefuses (location length : Word) : Option Word :=
  if location % pageSize ≠ 0 ∨ length % pageSize ≠ 0 then some Status.einvalidarg.code
  else if location = 0 then some Status.enullptr.code
  else none

end UserFrames

/-! ### Ranges below the kernel -/

/-- The address is in the range. -/
def InRange (location length x : Word) : Prop :=
  location.toNat ≤ x.toNat ∧ x.toNat < location.toNat + length.toNat

instance (location length x : Word) : Decidable (InRange location length x) :=
  inferInstanceAs (Decidable (_ ∧ _))

/-- The range lies below `_kernel_start`; in particular it does not wrap around. -/
def BelowKernel (location length : Word) : Prop :=
  location.toNat + length.toNat ≤ kernelStart.toNat

instance (location length : Word) : Decidable (BelowKernel location length) :=
  inferInstanceAs (Decidable (_ ≤ _))

section Range
variable {location length : Word} {i j n : Nat}

theorem toNat_kernelStart : kernelStart.toNat = 4282384384 := rfl

theorem aligned_iff {x : Word} : x % pageSize = 0 ↔ x.toNat % 4096 = 0 := by
  rw [← BitVec.toNat_inj, BitVec.toNat_umod]
  rfl

theorem toNat_pageAt (hbelow : BelowKernel location length) (hi : i < pageCount length) :
    (pageAt location i).toNat = location.toNat + 4096 * i := by
  rw [BelowKernel, toNat_kernelStart] at hbelow
  rw [pageCount] at hi
  rw [pageAt, BitVec.toNat_add, BitVec.toNat_ofNat]
  omega

theorem isUser_pageAt (hbelow : BelowKernel location length) (hi : i < pageCount length) :
    IsUser (pageAt location i) := by
  rw [isUser_iff, toNat_pageAt hbelow hi]
  rw [BelowKernel, toNat_kernelStart] at hbelow
  rw [pageCount] at hi
  omega

/-- The pages of a range are different pages. -/
theorem eq_of_samePage_pageAt (hbelow : BelowKernel location length) (hi : i < pageCount length)
    (hj : j < pageCount length) (h : SamePage (pageAt location i) (pageAt location j)) : i = j := by
  rw [SamePage, toNat_pageAt hbelow hi, toNat_pageAt hbelow hj] at h
  omega

/-- The pages of a range are all that is in it. -/
theorem inRange_iff (hbelow : BelowKernel location length) (hloc : location % pageSize = 0)
    (hlen : length % pageSize = 0) {x : Word} :
    InRange location length x ↔ ∃ i, i < pageCount length ∧ SamePage (pageAt location i) x := by
  rw [aligned_iff] at hloc hlen
  constructor
  · rintro ⟨hle, hlt⟩
    have hi : (x.toNat - location.toNat) / 4096 < pageCount length := by
      rw [pageCount]
      omega
    refine ⟨(x.toNat - location.toNat) / 4096, hi, ?_⟩
    rw [SamePage, toNat_pageAt hbelow hi]
    omega
  · rintro ⟨i, hi, hsame⟩
    rw [SamePage, toNat_pageAt hbelow hi] at hsame
    rw [pageCount] at hi
    rw [InRange]
    omega

end Range

/-! ### The type of a page -/

theorem hasFlag_entryFlags_anon (e : Entry) : hasFlag (entryFlags e) pageAnon = false := by
  have hbits : ∀ present rw usermode : Bool, hasFlag ((if present then pagePresent ||| pageExecutable
      else 0) ||| (if rw then pageRw else 0) ||| (if usermode then pageUsermode else 0))
      pageAnon = false := by decide
  exact hbits e.present e.rw e.usermode

/-- The type says whether the page is there, and never `PAGE_ANON`. -/
theorem pageType_eq {m : PagedMemory} {page : Word} (h : m.SelfMapped) (hd : dirIndex page ≠ 1023) :
    ∃ type, pageType m page = some type ∧ hasFlag type pagePresent = (m.translate page).isSome ∧
      hasFlag type pageAnon = false := by
  rw [pageType, getPteType_directory h hd]
  simp only [Option.bind_eq_bind, Option.bind_some]
  rw [hasFlag_entryFlags_present]
  cases hpde : (m.pde page).present with
  | false =>
    have htrans : m.translate page = none := by rw [PagedMemory.translate, hpde]; rfl
    refine ⟨entryFlags (m.pde page), rfl, ?_, hasFlag_entryFlags_anon _⟩
    rw [hasFlag_entryFlags_present, hpde, htrans]
    rfl
  | true =>
    refine ⟨entryFlags (m.pte page), ?_, ?_, hasFlag_entryFlags_anon _⟩
    · show getPteType m page 1 = _
      rw [getPteType_table h hd, if_pos hpde]
    · rw [hasFlag_entryFlags_present, PagedMemory.translate, hpde, Bool.true_and]
      cases (m.pte page).present <;> rfl

theorem translate_of_anyPresent {m : PagedMemory} {location length : Word} (h : m.SelfMapped)
    (hbelow : BelowKernel location length) {n : Nat} (hn : n ≤ pageCount length)
    (hany : anyPresent m location n = some false) :
    ∀ i, i < n → m.translate (pageAt location i) = none := by
  induction n with
  | zero =>
    intro i hi
    omega
  | succ n ih =>
    obtain ⟨b, hb, hrest⟩ := Option.bind_eq_some_iff.mp hany
    cases b with
    | true => cases hrest
    | false =>
      obtain ⟨type, htype, hpresent, -⟩ := pageType_eq h (isUser_pageAt hbelow hn).ne
      rw [htype] at hrest
      have hnone : hasFlag type pagePresent = false := Option.some.inj hrest
      intro i hi
      rcases Nat.lt_succ_iff_lt_or_eq.mp hi with hlt | rfl
      · exact ih (by omega) hb i hlt
      · rw [hpresent] at hnone
        exact Option.isNone_iff_eq_none.mp (Option.isSome_eq_false_iff.mp hnone)

/-! ### One pass -/

namespace PageMap

theorem Fresh.mono {pageMap : PageMap} {reserved : List Frame} (h : pageMap.Fresh)
    (hsub : ∀ f, f ∈ reserved → f ∈ pageMap.reserved) : Fresh ⟨pageMap.answers, reserved⟩ :=
  ⟨h.nodup, fun f hf hin => h.unused f hf (hsub f hin)⟩

end PageMap

namespace UserFrames

/-- The memory is well formed, and `reserve_page` does not answer with a frame in use. -/
structure Sound (s : UserFrames) : Prop where
  tree : PageTree s.machine.memory s.machine.pageMap.reserved
  fresh : s.machine.pageMap.Fresh

/-- The machine after `reserve_page` has answered with `g`. -/
def withFrame (m : Machine) (g : Frame) : Machine :=
  { m with pageMap := ⟨m.pageMap.answers.tail, g :: m.pageMap.reserved⟩ }

/-- What a pass of the loop of `mmap` does: it maps the page to a new frame, or it
runs out of frames and leaves all as it was. -/
inductive MmapPass (s : UserFrames) (page : Word) : Word → UserFrames → Prop
  | maps {s' : UserFrames} (g : Frame) (hunused : g ∉ s.machine.pageMap.reserved)
      (hmaps : MapsPage (withFrame s.machine g) s'.machine page g)
      (hframes : s'.frames = g :: s.frames) : MmapPass s page Status.enone.code s'
  | runsOut {s' : UserFrames} (hmemory : s'.machine.memory = s.machine.memory)
      (hreserved : s'.machine.pageMap.reserved = s.machine.pageMap.reserved)
      (hfresh : s'.machine.pageMap.Fresh) (hframes : s'.frames = s.frames) :
      MmapPass s page Status.enomem.code s'

variable {s s' : UserFrames} {page : Word}

theorem mmapPass_of_none (hfresh : s.machine.pageMap.Fresh) (hnext : s.machine.pageMap.next = none) :
    ∃ s', s.mmapPass page = some (Status.enomem.code, s') ∧
      MmapPass s page Status.enomem.code s' := by
  refine ⟨⟨⟨s.machine.memory, ⟨s.machine.pageMap.answers.tail, s.machine.pageMap.reserved⟩⟩,
    s.frames⟩, ?_, .runsOut rfl rfl hfresh.tail rfl⟩
  rw [mmapPass, PageMap.reservePage_of_none hnext]
  rfl

/-- The frame is got; the rest is `map_page`. -/
theorem mmapPass_of_some {g : Frame} (hnext : s.machine.pageMap.next = some g) :
    s.mmapPass page = ((withFrame s.machine g).mapPage page (frameAddress g)
      (pageUsermode ||| pageRw)).map fun result =>
        (result.1.code, if result.1 ≠ .enone then
          UserFrames.freePage ⟨result.2, g :: s.frames⟩ (frameAddress g)
        else ⟨result.2, g :: s.frames⟩) := by
  rw [mmapPass, PageMap.reservePage_of_some hnext]
  simp only
  rw [frameAddress_aligned, if_pos (show (0 : Word) = Status.enone.code from rfl),
    frameNumber_frameAddress]
  show Option.bind _ _ = Option.map _ _
  rw [Option.map_eq_bind]
  rfl

/-- The next `n` calls of `reserve_page` get a frame. -/
def Supplied (answers : List (Option Frame)) (n : Nat) : Prop :=
  ∀ k, k < n → ∃ f, answers[k]? = some (some f)

/-- The frames it takes to map a page: one, and one for its table if that is missing. -/
def pageCost (m : PagedMemory) (page : Word) : Nat := if (m.pde page).present then 1 else 2

/-- A page that has been mapped has cost that. -/
theorem answers_of_mapped {m m' : Machine} {page : Word} {g : Frame}
    (hmapped : Mapped (withFrame m g) m' page g) :
    m'.pageMap.answers = m.pageMap.answers.drop (pageCost m.memory page) := by
  rw [hmapped.answers, pageCost]
  show List.drop _ m.pageMap.answers.tail = _
  rw [← List.drop_one, List.drop_drop]
  show List.drop (1 + if (m.memory.pde page).present = true then 0 else 1) _ = _
  split <;> rfl

theorem next_iff_supplied {pageMap : PageMap} :
    pageMap.next.isSome ↔ Supplied pageMap.answers 1 := by
  constructor
  · intro hnext k hk
    obtain ⟨f, hf⟩ := Option.isSome_iff_exists.mp hnext
    obtain rfl : k = 0 := by omega
    refine ⟨f, ?_⟩
    rw [PageMap.next, List.head?_eq_getElem?] at hf
    exact Option.join_eq_some_iff.mp hf
  · intro hs
    obtain ⟨f, hf⟩ := hs 0 (by omega)
    rw [PageMap.next, List.head?_eq_getElem?, hf]
    rfl

theorem supplied_add {answers : List (Option Frame)} {i j : Nat} :
    Supplied answers (i + j) ↔ Supplied answers i ∧ Supplied (answers.drop i) j := by
  constructor
  · intro h
    refine ⟨fun k hk => h k (by omega), fun k hk => ?_⟩
    rw [List.getElem?_drop]
    exact h (i + k) (by omega)
  · rintro ⟨hi, hj⟩ k hk
    by_cases hlt : k < i
    · exact hi k hlt
    · have hrest := hj (k - i) (by omega)
      rw [List.getElem?_drop, show i + (k - i) = k by omega] at hrest
      exact hrest

/-- There is a frame for the page, and one for the table if it takes one. -/
theorem room_iff_supplied {g : Frame} (hnext : s.machine.pageMap.next = some g) :
    ((s.machine.memory.pde page).present = false →
        (withFrame s.machine g).pageMap.next.isSome) ↔
      Supplied s.machine.pageMap.answers (pageCost s.machine.memory page) := by
  have hone : Supplied s.machine.pageMap.answers 1 := by
    rw [← next_iff_supplied, hnext]
    rfl
  rw [pageCost]
  split
  · rename_i hp
    rw [hp]
    exact iff_of_true (fun hfalse => by cases hfalse) hone
  · rename_i hp
    have hp := Bool.eq_false_of_not_eq_true hp
    rw [show (2 : Nat) = 1 + 1 from rfl, supplied_add, List.drop_one, next_iff_supplied]
    exact ⟨fun h => ⟨hone, h hp⟩, fun h _ => h.2⟩

/-- A pass that gets its frames. -/
theorem mmapPass_of_supplied (h : s.Sound) (hpage : IsUser page)
    (hs : Supplied s.machine.pageMap.answers (pageCost s.machine.memory page)) :
    ∃ s', s.mmapPass page = some (Status.enone.code, s') ∧
      MmapPass s page Status.enone.code s' := by
  have hfirst : Supplied s.machine.pageMap.answers 1 := by
    intro k hk
    refine hs k ?_
    rw [pageCost]
    split <;> omega
  obtain ⟨g, hnext⟩ := Option.isSome_iff_exists.mp (next_iff_supplied.mpr hfirst)
  obtain ⟨hunused, hfresh⟩ := h.fresh.next hnext
  have htree : PageTree (withFrame s.machine g).memory (withFrame s.machine g).pageMap.reserved :=
    h.tree.mono fun f hf => List.mem_cons_of_mem _ hf
  have hnot : ¬ IsTable s.machine.memory g := fun ht => hunused (h.tree.isTable_reserved ht)
  have hrw : hasFlag (pageUsermode ||| pageRw) pageRw = true := by decide
  obtain ⟨m', hmap, hmaps⟩ := htree.mapsPage_mapPage hfresh hpage (List.mem_cons_self ..) hnot hrw
    (by decide) ((room_iff_supplied hnext).mpr hs)
  refine ⟨⟨m', g :: s.frames⟩, ?_, .maps g hunused hmaps rfl⟩
  rw [mmapPass_of_some hnext, hmap]
  rfl

/-- A pass that does not: what it got it gives back. -/
theorem mmapPass_of_not_supplied (h : s.Sound) (hpage : IsUser page)
    (hs : ¬ Supplied s.machine.pageMap.answers (pageCost s.machine.memory page)) :
    ∃ s', s.mmapPass page = some (Status.enomem.code, s') ∧
      MmapPass s page Status.enomem.code s' := by
  rcases Option.eq_none_or_eq_some s.machine.pageMap.next with hnext | ⟨g, hnext⟩
  · exact mmapPass_of_none h.fresh hnext
  · obtain ⟨-, hfresh⟩ := h.fresh.next hnext
    have htree : PageTree (withFrame s.machine g).memory (withFrame s.machine g).pageMap.reserved :=
      h.tree.mono fun f hf => List.mem_cons_of_mem _ hf
    rw [← room_iff_supplied hnext] at hs
    obtain ⟨hp, hnone⟩ := Classical.not_imp.mp hs
    have hnone := Option.not_isSome_iff_eq_none.mp hnone
    have herase : (g :: s.machine.pageMap.reserved).erase (frameNumber (frameAddress g)) =
        s.machine.pageMap.reserved := by
      rw [frameNumber_frameAddress, List.erase_cons_head]
    rw [mmapPass_of_some hnext,
      Machine.mapPage_of_none htree.self hpage.ne (frameAddress_aligned g) hp hnone]
    refine ⟨_, rfl, .runsOut rfl herase (hfresh.tail.mono fun f hf => List.mem_of_mem_erase hf) ?_⟩
    show List.erase _ (frameNumber (frameAddress g)) = _
    rw [frameNumber_frameAddress, List.erase_cons_head]

/-- **One pass over a page of a program.** -/
theorem mmapPass_spec (h : s.Sound) (hpage : IsUser page) :
    ∃ status s', s.mmapPass page = some (status, s') ∧ MmapPass s page status s' := by
  by_cases hs : Supplied s.machine.pageMap.answers (pageCost s.machine.memory page)
  · exact ⟨_, mmapPass_of_supplied h hpage hs⟩
  · exact ⟨_, mmapPass_of_not_supplied h hpage hs⟩

/-! ### The whole range -/

/-- The page shows a table that was not there, for a page of the range. -/
def ShowsNewTable (m : PagedMemory) (location : Word) (n : Nat) (x : Word) : Prop :=
  dirIndex x = 1023 ∧ (m.entry m.cr3 (tableIndex x)).present = false ∧
    ∃ i, i < n ∧ tableIndex x = dirIndex (pageAt location i)

/-- The first `n` pages of the range have been mapped, each to a new frame that no other
page shows. -/
structure MapsRange (s s' : UserFrames) (location : Word) (n : Nat) : Prop extends s'.Sound where
  grows : ∀ f, f ∈ s.machine.pageMap.reserved → f ∈ s'.machine.pageMap.reserved
  cr3 : s'.machine.memory.cr3 = s.machine.memory.cr3
  directory : ∀ d, (s.machine.memory.entry s.machine.memory.cr3 d).present = true →
    (s'.machine.memory.entry s.machine.memory.cr3 d).present = true
  pages : ∀ i, i < n → ∃ g, g ∉ s.machine.pageMap.reserved ∧ g ∈ s'.machine.pageMap.reserved ∧
    (∀ x, SamePage (pageAt location i) x →
      s'.machine.memory.UserAccessible x ∧ s'.machine.memory.translate x = some g) ∧
    ∀ x, s'.machine.memory.translate x = some g → SamePage (pageAt location i) x
  other : ∀ x, (∀ i, i < n → ¬ SamePage (pageAt location i) x) →
    s'.machine.memory.translate x = s.machine.memory.translate x ∨
      ShowsNewTable s.machine.memory location n x

theorem MapsRange.zero (h : s.Sound) (location : Word) : MapsRange s s location 0 where
  toSound := h
  grows _ hf := hf
  cr3 := rfl
  directory _ hp := hp
  pages i hi := absurd hi (Nat.not_lt_zero i)
  other _ _ := .inl rfl

/-- What a page other than the mapped one shows: what it did, or the new table. -/
theorem translate_of_maps {g : Frame} (hmaps : MapsPage (withFrame s.machine g) s'.machine page g)
    {x : Word} (hne : ¬ SamePage page x) :
    s'.machine.memory.translate x = s.machine.memory.translate x ∨
      dirIndex x = 1023 ∧ tableIndex x = dirIndex page ∧
        (s.machine.memory.pde page).present = false ∧
        ∃ f, s'.machine.memory.translate x = some f ∧ f ≠ g ∧ f ∉ s.machine.pageMap.reserved ∧
          f ∈ s'.machine.pageMap.reserved := by
  by_cases hx : IsUser x
  · exact .inl (hmaps.other x hx hne).translate
  · by_cases hd : dirIndex x = 1023
    · rcases hmaps.window x hd with hsame | ⟨htable, hp, f, hf, hnew, hin⟩
      · exact .inl hsame
      · have hnew : f ∉ g :: s.machine.pageMap.reserved := hnew
        rw [List.mem_cons, not_or] at hnew
        exact .inr ⟨hd, htable, hp, f, hf, hnew.1, hnew.2, hin⟩
    · exact .inl (hmaps.kernel x hx hd)

/-- No other page shows a frame that was in use before the pass. -/
theorem translate_of_translate_maps {g f : Frame} (hunused : g ∉ s.machine.pageMap.reserved)
    (hmaps : MapsPage (withFrame s.machine g) s'.machine page g)
    (hf : f ∈ s.machine.pageMap.reserved) {x : Word} (hx : s'.machine.memory.translate x = some f) :
    s.machine.memory.translate x = some f := by
  have hne : ¬ SamePage page x := by
    intro hsame
    rw [(hmaps.maps x hsame).2] at hx
    obtain rfl := Option.some.inj hx
    exact hunused hf
  rcases translate_of_maps hmaps hne with hsame | ⟨-, -, -, f', hf', -, hnew, -⟩
  · rw [← hsame, hx]
  · rw [hx] at hf'
    obtain rfl := Option.some.inj hf'
    exact absurd hf hnew

/-- Only the mapped page shows the new frame. -/
theorem samePage_of_translate_maps {g : Frame} (htree : PageTree s.machine.memory s.machine.pageMap.reserved)
    (hunused : g ∉ s.machine.pageMap.reserved)
    (hmaps : MapsPage (withFrame s.machine g) s'.machine page g) {x : Word}
    (hx : s'.machine.memory.translate x = some g) : SamePage page x := by
  by_contra hne
  rcases translate_of_maps hmaps hne with hsame | ⟨-, -, -, f', hf', hfg, -⟩
  · rw [hsame] at hx
    exact hunused (htree.reserved_of_translate hx)
  · rw [hx] at hf'
    exact hfg (Option.some.inj hf').symm

theorem MapsRange.succ {s0 : UserFrames} {location length : Word} {n : Nat} {g : Frame}
    (h : MapsRange s0 s location n) (hbelow : BelowKernel location length)
    (hn : n < pageCount length) (hunused : g ∉ s.machine.pageMap.reserved)
    (hmaps : MapsPage (withFrame s.machine g) s'.machine (pageAt location n) g) :
    MapsRange s0 s' location (n + 1) := by
  have hgrows : ∀ f, f ∈ s.machine.pageMap.reserved → f ∈ s'.machine.pageMap.reserved :=
    fun f hf => hmaps.grows f (List.mem_cons_of_mem _ hf)
  refine ⟨⟨hmaps.tree, hmaps.fresh⟩, fun f hf => hgrows f (h.grows f hf), hmaps.cr3.trans h.cr3,
    ?_, ?_, ?_⟩
  · -- tables stay, and the one for the page is there
    intro d hp
    have hp := h.directory d hp
    rw [← h.cr3] at hp ⊢
    by_cases hd : d = dirIndex (pageAt location n)
    · have hpresent := hmaps.present
      rw [PagedMemory.pde, hmaps.cr3, ← hd] at hpresent
      exact hpresent
    · exact (congrArg Entry.present (hmaps.directory d hd)).trans hp
  · intro i hi
    rcases Nat.lt_succ_iff_lt_or_eq.mp hi with hlt | rfl
    · -- a page mapped before
      obtain ⟨f, hnew, hin, hshows, honly⟩ := h.pages i hlt
      refine ⟨f, hnew, hgrows f hin, ?_, ?_⟩
      · intro x hx
        have hne : ¬ SamePage (pageAt location n) x := by
          intro hsame
          have := eq_of_samePage_pageAt hbelow (Nat.lt_trans hlt hn) hn (hx.trans hsame.symm)
          omega
        have huser : IsUser x := by
          rw [isUser_iff]
          have hpage := isUser_pageAt hbelow (Nat.lt_trans hlt hn)
          rw [isUser_iff] at hpage
          rw [SamePage] at hx
          omega
        have hview := hmaps.other x huser hne
        exact ⟨hview.user.mpr (hshows x hx).1, hview.translate.trans (hshows x hx).2⟩
      · intro x hx
        exact honly x (translate_of_translate_maps hunused hmaps hin hx)
    · refine ⟨g, fun hg => hunused (h.grows g hg), hmaps.grows g (List.mem_cons_self ..), hmaps.maps,
        ?_⟩
      intro x hx
      exact samePage_of_translate_maps h.tree hunused hmaps hx
  · -- elsewhere only pages of the window can come in, with the table that is new
    intro x hx
    rcases translate_of_maps hmaps (hx n (by omega)) with hsame | ⟨hd, htable, hp, -⟩
    · rcases h.other x fun i hi => hx i (by omega) with hold | ⟨hd, hp, i, hi, htable⟩
      · exact .inl (hsame.trans hold)
      · exact .inr ⟨hd, hp, i, by omega, htable⟩
    · refine .inr ⟨hd, ?_, n, by omega, htable⟩
      rw [htable]
      by_contra hpresent
      have hp' := h.directory _ (Bool.eq_true_of_not_eq_false hpresent)
      rw [PagedMemory.pde, h.cr3, hp'] at hp
      cases hp

/-- **The loop of `mmap`.** -/
theorem mapsRange_mmapLoop {location length : Word} (h : s.Sound)
    (hbelow : BelowKernel location length) {n : Nat} (hn : n ≤ pageCount length)
    (hloop : s.mmapLoop location n = some (Status.enone.code, s')) :
    MapsRange s s' location n := by
  induction n generalizing s' with
  | zero =>
    cases hloop
    exact .zero h location
  | succ n ih =>
    obtain ⟨⟨status, s1⟩, hs1, hpass⟩ := Option.bind_eq_some_iff.mp hloop
    simp only at hpass
    split at hpass
    · rename_i hstatus
      subst hstatus
      have hrange := ih (by omega) hs1
      obtain ⟨status, s2, hs2, hspec⟩ :=
        mmapPass_spec hrange.toSound (isUser_pageAt hbelow (i := n) (by omega))
      rw [hpass] at hs2
      obtain ⟨rfl, rfl⟩ := Prod.mk.inj (Option.some.inj hs2)
      cases hspec with
      | maps g hunused hmaps _ => exact hrange.succ hbelow (by omega) hunused hmaps
    · rename_i hstatus
      cases hpass
      exact absurd rfl hstatus

/-- **What `mmap` does** when it returns `ENONE`, on a range below the kernel.  Every page
of the range was absent, and has now a frame of its own, which a program may read and
write; no other page shows another frame than before, but for pages of the window that
show a table that was not there. -/
theorem mmap_effect {location length flags : Word} (h : s.Sound)
    (hbelow : BelowKernel location length)
    (hmmap : s.mmap location length flags = some (.returns Status.enone.code, s')) :
    (∀ x, InRange location length x → s.machine.memory.translate x = none ∧
      ∃ g, g ∉ s.machine.pageMap.reserved ∧ g ∈ s'.machine.pageMap.reserved ∧
        s'.machine.memory.UserAccessible x ∧ s'.machine.memory.translate x = some g ∧
        ∀ y, s'.machine.memory.translate y = some g → SamePage x y) ∧
      ∀ x, ¬ InRange location length x →
        s'.machine.memory.translate x = s.machine.memory.translate x ∨
          ShowsNewTable s.machine.memory location (pageCount length) x := by
  rw [mmap] at hmmap
  split at hmmap
  · cases hmmap
  · rename_i haligned
    rw [not_or, not_not, not_not] at haligned
    split at hmmap
    · cases hmmap
    · obtain ⟨present, hany, hmmap⟩ := Option.bind_eq_some_iff.mp hmmap
      cases present with
      | true => cases hmmap
      | false =>
        obtain ⟨⟨status, s1⟩, hloop, hmmap⟩ := Option.bind_eq_some_iff.mp hmmap
        obtain ⟨hresult, rfl⟩ := Prod.mk.inj (Option.some.inj hmmap)
        obtain rfl : status = Status.enone.code := by
          by_contra hne
          rw [if_pos hne] at hresult
          cases hresult
        -- no page was there, and the loop came to its end
        have habsent := translate_of_anyPresent h.tree.self hbelow le_rfl hany
        have hrange := mapsRange_mmapLoop h hbelow le_rfl hloop
        constructor
        · intro x hx
          obtain ⟨i, hi, hsame⟩ := (inRange_iff hbelow haligned.1 haligned.2).mp hx
          obtain ⟨g, hnew, hin, hshows, honly⟩ := hrange.pages i hi
          obtain ⟨huser, htrans⟩ := hshows x hsame
          refine ⟨(translate_of_samePage hsame).symm.trans (habsent i hi), g, hnew, hin, huser,
            htrans, fun y hy => ?_⟩
          exact hsame.symm.trans (honly y hy)
        · intro x hx
          refine hrange.other x fun i hi hsame => hx ?_
          exact (inRange_iff hbelow haligned.1 haligned.2).mpr ⟨i, hi, hsame⟩

/-- One page, when it is mapped. -/
theorem mmap_one {location flags : Word} {g : Frame} {m' : Machine}
    (hself : s.machine.memory.SelfMapped) (hd : dirIndex location ≠ 1023)
    (haligned : location % pageSize = 0) (hne : location ≠ 0)
    (habsent : s.machine.memory.translate location = none)
    (hnext : s.machine.pageMap.next = some g)
    (hmap : (withFrame s.machine g).mapPage location (frameAddress g) (pageUsermode ||| pageRw) =
      some (.enone, m')) :
    s.mmap location pageSize flags = some (.returns Status.enone.code, ⟨m', g :: s.frames⟩) := by
  have hpage : pageAt location 0 = location := BitVec.add_zero location
  obtain ⟨type, htype, hpresent, -⟩ := pageType_eq hself hd
  rw [habsent] at hpresent
  have hany : anyPresent s.machine.memory location 1 = some false := by
    show (pageType s.machine.memory (pageAt location 0)).map _ = _
    rw [hpage, htype, Option.map_some, hpresent]
    rfl
  have hloop : s.mmapLoop location 1 = some (Status.enone.code, ⟨m', g :: s.frames⟩) := by
    show s.mmapPass (pageAt location 0) = _
    rw [hpage, mmapPass_of_some hnext, hmap]
    rfl
  have hcount : pageCount pageSize = 1 := rfl
  rw [mmap, hcount, hany, hloop, if_neg, if_neg hne]
  · rfl
  · rw [not_or, not_not, not_not]
    exact ⟨haligned, rfl⟩

end UserFrames

/-- The address space of a process without pages: the directory is in frame 1, the
kernel's table in frame 3. -/
def emptyMemory : PagedMemory where
  ram f i :=
    if f = 1 ∧ i = 1021 then 0x3403
    else if f = 1 ∧ i = 1023 then 0x1003
    else 0
  cr3 := 1

/-- The process, with two frames to be had. -/
def emptyProcess : UserFrames := ⟨⟨emptyMemory, ⟨[some 4, some 5], [1, 3]⟩⟩, []⟩

theorem absent_emptyMemory {d : BitVec 10} (h : d ≠ 1021) (h' : d ≠ 1023) :
    (emptyMemory.entry 1 d).present = false := by
  rw [PagedMemory.entry, emptyMemory]
  simp only [h, h', and_false, if_false]
  rfl

theorem not_present_emptyMemory {d : BitVec 10} (hd : d.toNat < 1021) :
    ¬ (emptyMemory.entry 1 d).present = true := by
  rw [absent_emptyMemory]
  · decide
  · rintro rfl
    exact absurd hd (by decide)
  · rintro rfl
    exact absurd hd (by decide)

theorem pageTree_emptyMemory : PageTree emptyMemory [1, 3] where
  self := ⟨rfl, rfl⟩
  directory := by decide
  table d hd hp := absurd hp (not_present_emptyMemory hd)
  distinct d d' hd _ hp _ _ := absurd hp (not_present_emptyMemory hd)
  data x f hx hf := by
    rw [PagedMemory.translate, Option.ite_none_right_eq_some, Bool.and_eq_true] at hf
    exact absurd hf.1.1 (not_present_emptyMemory hx)
  kernelTable d hd hne hp := by
    by_cases h1021 : d = 1021
    · subst h1021
      refine ⟨by decide, ?_⟩
      rintro (heq | ⟨d', hd', hp', -⟩)
      · exact absurd heq (by decide)
      · exact not_present_emptyMemory hd' hp'
    · rw [show emptyMemory.cr3 = 1 from rfl, absent_emptyMemory h1021 hne] at hp
      cases hp
  kernelData x f hx hd hf := by
    rw [PagedMemory.translate, Option.ite_none_right_eq_some, Bool.and_eq_true] at hf
    obtain ⟨⟨hpde, hpte⟩, -⟩ := hf
    by_cases h1021 : dirIndex x = 1021
    · -- the kernel's table is empty
      have hframe : (emptyMemory.pde x).physicalAddress = 3 := by
        rw [PagedMemory.pde, h1021]
        rfl
      rw [PagedMemory.pte, hframe, PagedMemory.entry, emptyMemory] at hpte
      simp at hpte
      cases hpte
    · rw [PagedMemory.pde, show emptyMemory.cr3 = 1 from rfl, absent_emptyMemory h1021 hd] at hpde
      cases hpde

theorem sound_emptyProcess : emptyProcess.Sound := by
  refine ⟨pageTree_emptyMemory, by decide, ?_⟩
  intro f hf
  obtain rfl | rfl : f = 4 ∨ f = 5 := by simpa [emptyProcess] using hf
  · decide
  · decide

namespace UserFrames

/-- A page whose table is missing, with frame 4 for the page and frame 5 for the table. -/
theorem mmap_emptyProcess (location : Word) (hd : dirIndex location ≠ 1023)
    (haligned : location % pageSize = 0) (hne : location ≠ 0)
    (hpde : (emptyMemory.pde location).present = false) (flags : Word) :
    emptyProcess.mmap location pageSize flags = some (.returns Status.enone.code,
      ⟨⟨(Machine.withTable emptyMemory location 5).setEntry 5 (tableIndex location)
        (pteWith ((Machine.withTable emptyMemory location 5).entry 5 (tableIndex location))
          (pagePresent ||| (pageUsermode ||| pageRw)) (frameAddress 4)), ⟨[], [5, 4, 1, 3]⟩⟩, [4]⟩) := by
  have habsent : emptyMemory.translate location = none := by
    rw [PagedMemory.translate, hpde]
    rfl
  have hself : (withFrame emptyProcess.machine 4).memory.SelfMapped := pageTree_emptyMemory.self
  have hnext : (withFrame emptyProcess.machine 4).pageMap.next = some 5 := rfl
  exact mmap_one pageTree_emptyMemory.self hd haligned hne habsent rfl
    (Machine.mapPage_of_some hself hd (frameAddress_aligned 4) hpde hnext (by decide))

/-- The page at 0x400000 is mapped. -/
theorem mmap_effect_emptyProcess :
    ∃ s', emptyProcess.mmap 0x400000 pageSize 0 = some (.returns Status.enone.code, s') ∧
      (∀ x, InRange 0x400000 pageSize x → emptyProcess.machine.memory.translate x = none ∧
        ∃ g, g ∉ emptyProcess.machine.pageMap.reserved ∧ g ∈ s'.machine.pageMap.reserved ∧
          s'.machine.memory.UserAccessible x ∧ s'.machine.memory.translate x = some g ∧
          ∀ y, s'.machine.memory.translate y = some g → SamePage x y) ∧
      ∀ x, ¬ InRange 0x400000 pageSize x →
        s'.machine.memory.translate x = emptyProcess.machine.memory.translate x ∨
          ShowsNewTable emptyProcess.machine.memory 0x400000 (pageCount pageSize) x := by
  have hmmap := mmap_emptyProcess 0x400000 (by decide) (by decide) (by decide)
    (by decide) 0
  exact ⟨_, hmmap, mmap_effect sound_emptyProcess (by decide) hmmap⟩

/-- A page of the kernel's range is mapped too; and a page of the window, which was
absent, shows the new table. -/
theorem not_mmap_effect_emptyProcess :
    (¬ ∀ s s' : UserFrames, ∀ location length flags, s.Sound →
      s.mmap location length flags = some (.returns Status.enone.code, s') →
      BelowKernel location length) ∧
    ¬ ∀ s s' : UserFrames, ∀ location length flags, s.Sound → BelowKernel location length →
      s.mmap location length flags = some (.returns Status.enone.code, s') →
      ∀ x, ¬ InRange location length x →
        s'.machine.memory.translate x = s.machine.memory.translate x := by
  constructor
  · intro hall
    have hmmap := mmap_emptyProcess 0xFF800000 (by decide) (by decide) (by decide)
      (by decide) 0
    exact absurd (hall _ _ _ _ _ sound_emptyProcess hmmap) (by decide)
  · intro hall
    have hmmap := mmap_emptyProcess 0x400000 (by decide) (by decide) (by decide)
      (by decide) 0
    have hsame := hall _ _ _ _ _ sound_emptyProcess (by decide) hmmap 0xFFC01000 (by decide)
    exact absurd hsame (by decide)

end UserFrames
end QuarkKernel
