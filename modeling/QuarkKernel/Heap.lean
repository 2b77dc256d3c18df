import QuarkKernel.MappedPages

/-! # `heap.c`

`kmalloc` gets a region of the heap from libmalloc's `reserve_region` and maps what is
absent of its pages with `map_block`; `mmap_callback` maps pages for libmalloc's own
tables.  Both loops go from the start of the region in steps of a page, without rounding
it down to one, so they are one loop with different passes (`forPages`).  The frame of a
page is passed on from `reserve_page` to `map_page` unseen: when there is none, it is the
error code that `map_page` refuses. -/
namespace QuarkKernel
open PagedMemory

/-- `for(n = 0; n < size; n += page_size)` over the pages at `location + n`, which stops
with the first status that is not `ENONE`; `none` if `fuel` passes are not enough, or on a
fault. -/
def forPages (pass : Machine → Word → Option (Status × Machine)) (location size : Word) :
    Nat → Word → Machine → Option (Status × Machine)
  | fuel, n, m =>
      if n < size then
        match fuel with
        | 0 => none
        | fuel + 1 => do
            let (status, m) ← pass m (location + n)
            if status = .enone then forPages pass location size fuel (n + pageSize) m
            else some (status, m)
      else some (.enone, m)

/-- The passes after which `n` has wrapped around: a loop that has not ended by then does
not end. -/
def wrapAround : Nat := 2 ^ 20

namespace Machine

/-- `map_page(page, reserve_page(), PAGE_RW)` -/
def mapNewPage (m : Machine) (page : Word) : Option (Status × Machine) :=
  let (frame, pageMap) := m.pageMap.reservePage
  mapPage { m with pageMap } page frame pageRw

/-- One pass of the loop of `map_block`. -/
def mapBlockPass (m : Machine) (page : Word) : Option (Status × Machine) := do
  let type ← pageType m.memory page
  if !hasFlag type pagePresent then m.mapNewPage page else some (.enone, m)

/-- `map_block` -/
def mapBlock (m : Machine) (location size : Word) : Option (Status × Machine) :=
  forPages mapBlockPass location size wrapAround 0 m

/-- One pass of the loop of `mmap_callback`: the frame it has got is not the one it maps. -/
def mmapCallbackPass (m : Machine) (page : Word) : Option (Status × Machine) :=
  let (frame, pageMap) := m.pageMap.reservePage
  if frame = Status.enomem.code then some (.enomem, { m with pageMap })
  else mapNewPage { m with pageMap } page

/-- `mmap_callback` -/
def mmapCallback (m : Machine) (location size : Word) : Option (Status × Machine) :=
  forPages mmapCallbackPass location size wrapAround 0 m

end Machine

/-- The machine, and the regions that are reserved in `system_heap`, each with its
location and size. -/
structure SystemHeap where
  machine : Machine
  regions : List (Word × Word)

namespace SystemHeap

/-- `reserve_region(&system_heap, size)`, when libmalloc finds the given region; `none` is
`NOMEM`. -/
def reserveRegion (s : SystemHeap) (size : Word) : Option Word → Option Word × SystemHeap
  | none => (none, s)
  | some loc => (some loc, { s with regions := (loc, size) :: s.regions })

/-- `kmalloc`; it returns the location or NULL. -/
def kmalloc (s : SystemHeap) (size : Word) (region : Option Word) : Option (Word × SystemHeap) :=
  match s.reserveRegion size region with
  | (none, s) => some (0, s)
  | (some loc, s) => do
      let (status, machine) ← s.machine.mapBlock loc size
      let s := { s with machine }
      if status ≠ .enone then some (0, s) else some (loc, s)

end SystemHeap

/-! ### The loop -/

/-- The number of passes. -/
def passCount (size : Word) : Nat := (size.toNat + 4095) / 4096

/-- The region ends below the window. -/
def EndsBelowWindow (location size : Word) : Prop :=
  location.toNat + size.toNat ≤ pageTables.toNat

instance (location size : Word) : Decidable (EndsBelowWindow location size) :=
  inferInstanceAs (Decidable (_ ≤ _))

section ForPages
variable {location size : Word} {i j : Nat}

theorem toNat_pageAt_of_lt (hends : EndsBelowWindow location size) (hi : i < passCount size) :
    (pageAt location i).toNat = location.toNat + 4096 * i := by
  rw [EndsBelowWindow, show pageTables.toNat = 4290772992 from rfl] at hends
  rw [passCount] at hi
  rw [pageAt, BitVec.toNat_add, BitVec.toNat_ofNat]
  omega

theorem belowWindow_pageAt (hends : EndsBelowWindow location size) (hi : i < passCount size) :
    BelowWindow (pageAt location i) := by
  rw [belowWindow_iff, toNat_pageAt_of_lt hends hi]
  rw [EndsBelowWindow] at hends
  rw [passCount] at hi
  omega

/-- The passes are for different pages. -/
theorem eq_of_samePage_of_lt (hends : EndsBelowWindow location size) (hi : i < passCount size)
    (hj : j < passCount size) (h : SamePage (pageAt location i) (pageAt location j)) : i = j := by
  rw [SamePage, toNat_pageAt_of_lt hends hi, toNat_pageAt_of_lt hends hj] at h
  omega

/-- Each pass is for an address of the region. -/
theorem inRange_pageAt (hends : EndsBelowWindow location size) (hi : i < passCount size) :
    InRange location size (pageAt location i) := by
  rw [InRange, toNat_pageAt_of_lt hends hi]
  rw [passCount] at hi
  omega

variable {pass : Machine → Word → Option (Status × Machine)} {m m' : Machine} {status : Status}
  {fuel : Nat}

/-- The loop from pass `i` on, under an invariant of the passes: it gets to the end, or to
a pass that stops it. -/
theorem forPages_cases (hends : EndsBelowWindow location size) (Inv : Nat → Machine → Prop)
    (hstep : ∀ i t t', i < passCount size → Inv i t →
      pass t (pageAt location i) = some (.enone, t') → Inv (i + 1) t')
    (hi : i ≤ passCount size) (hinv : Inv i m)
    (h : forPages pass location size fuel (BitVec.ofNat 32 (4096 * i)) m = some (status, m')) :
    (status = .enone ∧ Inv (passCount size) m') ∨
      (status ≠ .enone ∧ ∃ j t, j < passCount size ∧ Inv j t ∧
        pass t (pageAt location j) = some (status, m')) := by
  have hsize : size.toNat ≤ 4290772992 := by
    rw [EndsBelowWindow, show pageTables.toNat = 4290772992 from rfl] at hends
    omega
  have hlt : BitVec.ofNat 32 (4096 * i) < size ↔ i < passCount size := by
    rw [passCount] at hi ⊢
    rw [BitVec.lt_def, BitVec.toNat_ofNat]
    omega
  induction fuel generalizing i m with
  | zero =>
    rw [forPages] at h
    by_cases hmore : i < passCount size
    · rw [if_pos (hlt.mpr hmore)] at h
      cases h
    · rw [if_neg fun hn => hmore (hlt.mp hn)] at h
      obtain ⟨rfl, rfl⟩ := Prod.mk.inj (Option.some.inj h)
      obtain rfl : i = passCount size := by omega
      exact .inl ⟨rfl, hinv⟩
  | succ fuel ih =>
    rw [forPages] at h
    by_cases hmore : i < passCount size
    · rw [if_pos (hlt.mpr hmore)] at h
      obtain ⟨⟨status1, m1⟩, hpass, h⟩ := Option.bind_eq_some_iff.mp h
      dsimp only at h
      by_cases hok : status1 = .enone
      · subst hok
        rw [if_pos rfl, show BitVec.ofNat 32 (4096 * i) + pageSize = BitVec.ofNat 32 (4096 * (i + 1))
          from by rw [Nat.mul_add, BitVec.ofNat_add]; rfl] at h
        have hlt' : BitVec.ofNat 32 (4096 * (i + 1)) < size ↔ i + 1 < passCount size := by
          rw [passCount] at hmore ⊢
          rw [BitVec.lt_def, BitVec.toNat_ofNat]
          omega
        exact ih hmore (hstep i m m1 hmore hinv hpass) h hlt'
      · rw [if_neg hok] at h
        obtain ⟨rfl, rfl⟩ := Prod.mk.inj (Option.some.inj h)
        exact .inr ⟨hok, i, m, hmore, hinv, hpass⟩
    · rw [if_neg fun hn => hmore (hlt.mp hn)] at h
      obtain ⟨rfl, rfl⟩ := Prod.mk.inj (Option.some.inj h)
      obtain rfl : i = passCount size := by omega
      exact .inl ⟨rfl, hinv⟩

/-! One pass more, as far as it goes. -/

theorem forPages_of_enone {n : Word} {m1 : Machine} (hn : n < size)
    (hpass : pass m (location + n) = some (.enone, m1)) :
    forPages pass location size (fuel + 1) n m =
      forPages pass location size fuel (n + pageSize) m1 := by
  rw [forPages, if_pos hn]
  show (pass m (location + n)).bind _ = _
  rw [hpass]
  rfl

theorem forPages_of_ne {n : Word} (hn : n < size) (hne : status ≠ .enone)
    (hpass : pass m (location + n) = some (status, m')) :
    forPages pass location size (fuel + 1) n m = some (status, m') := by
  rw [forPages, if_pos hn]
  show (pass m (location + n)).bind _ = _
  rw [hpass]
  exact if_neg hne

theorem forPages_of_le {n : Word} (hn : ¬ n < size) :
    forPages pass location size fuel n m = some (.enone, m) := by
  cases fuel <;> exact if_neg hn

end ForPages

/-! ### One pass -/

/-- The tables are different frames and in use, and `reserve_page` does not provide frames
in use. -/
structure TablesInUse (m : Machine) : Prop where
  tables : PageTables m.memory
  fresh : m.pageMap.Fresh
  reserved : ∀ f, HoldsTable m.memory f → f ∈ m.pageMap.reserved

open UserFrames (withFrame)

/-- How `map_page(page, reserve_page(), PAGE_RW)` returns: without a frame for the page,
without one for its table, or with the page mapped to a new frame. -/
inductive MapNewPage (m : Machine) (page : Word) : Status → Machine → Prop
  | noFrame (hnext : m.pageMap.next = none) :
      MapNewPage m page .einvalidarg ⟨m.memory, ⟨m.pageMap.answers.tail, m.pageMap.reserved⟩⟩
  | noTable (g : Frame) (hnext : m.pageMap.next = some g)
      (hp : (m.memory.pde page).present = false)
      (htable : (withFrame m g).pageMap.next = none) :
      MapNewPage m page .enomem
        ⟨m.memory, ⟨m.pageMap.answers.tail.tail, g :: m.pageMap.reserved⟩⟩
  | maps {m' : Machine} (g : Frame) (hnext : m.pageMap.next = some g)
      (hmaps : MapsTo (withFrame m g) m' page (frameAddress g) pageRw) :
      MapNewPage m page .enone m'

/-- What a pass of `map_block` does: nothing for a page that is there. -/
inductive MapBlockPass (m : Machine) (page : Word) : Status → Machine → Prop
  | there (hview : (m.memory.view page).isSome) : MapBlockPass m page .enone m
  | absent {status : Status} {m' : Machine} (hview : m.memory.view page = none)
      (hnew : MapNewPage m page status m') : MapBlockPass m page status m'

/-- What a pass of `mmap_callback` does: the first frame is reserved and forgotten. -/
inductive MmapCallbackPass (m : Machine) (page : Word) : Status → Machine → Prop
  | noFrame (hnext : m.pageMap.next = none) :
      MmapCallbackPass m page .enomem ⟨m.memory, ⟨m.pageMap.answers.tail, m.pageMap.reserved⟩⟩
  | forgets {status : Status} {m' : Machine} (g : Frame) (hnext : m.pageMap.next = some g)
      (hnew : MapNewPage (withFrame m g) page status m') : MmapCallbackPass m page status m'

section Passes
variable {m : Machine} {page : Word} {g : Frame}

/-- `map_page` refuses the error code. -/
theorem mapNewPage_of_none (hnext : m.pageMap.next = none) : m.mapNewPage page =
    some (.einvalidarg, ⟨m.memory, ⟨m.pageMap.answers.tail, m.pageMap.reserved⟩⟩) := by
  rw [Machine.mapNewPage, PageMap.reservePage_of_none hnext]
  exact Machine.mapPage_of_unaligned (by decide)

theorem mapNewPage_of_some (hnext : m.pageMap.next = some g) :
    m.mapNewPage page = (withFrame m g).mapPage page (frameAddress g) pageRw := by
  rw [Machine.mapNewPage, PageMap.reservePage_of_some hnext]
  rfl

/-- A pass of `map_block` looks whether the page is there. -/
theorem mapBlockPass_eq (h : PageTables m.memory) (page : Word) :
    m.mapBlockPass page =
      if (m.memory.view page).isSome then some (.enone, m) else m.mapNewPage page := by
  have hview : (if (m.memory.pde page).present = true then m.memory.pte page
      else m.memory.pde page).present = (m.memory.view page).isSome := by
    rw [PagedMemory.view]
    cases hpde : (m.memory.pde page).present with
    | false =>
      rw [if_neg (by decide), hpde]
      rfl
    | true =>
      rw [if_pos rfl, Bool.true_and]
      cases (m.memory.pte page).present <;> rfl
  rw [Machine.mapBlockPass, h.pageType_eq]
  show (if (!hasFlag (entryFlags _) pagePresent) = true then _ else _) = _
  rw [hasFlag_entryFlags_present, hview]
  cases (m.memory.view page).isSome <;> rfl

theorem mmapCallbackPass_of_none (hnext : m.pageMap.next = none) : m.mmapCallbackPass page =
    some (.enomem, ⟨m.memory, ⟨m.pageMap.answers.tail, m.pageMap.reserved⟩⟩) := by
  rw [Machine.mmapCallbackPass, PageMap.reservePage_of_none hnext]
  exact if_pos rfl

theorem mmapCallbackPass_of_some (hnext : m.pageMap.next = some g) :
    m.mmapCallbackPass page = (withFrame m g).mapNewPage page := by
  rw [Machine.mmapCallbackPass, PageMap.reservePage_of_some hnext]
  exact if_neg (frameAddress_ne_enomem g)

end Passes

namespace TablesInUse
variable {m m' : Machine} {page frame flags : Word} {status : Status} {g : Frame}

theorem unused (h : TablesInUse m) (hnext : m.pageMap.next = some g) :
    ¬ HoldsTable m.memory g :=
  fun htable => (h.fresh.next hnext).1 (h.reserved g htable)

theorem withFrame (h : TablesInUse m) (hnext : m.pageMap.next = some g) :
    TablesInUse (withFrame m g) where
  tables := h.tables
  fresh := (h.fresh.next hnext).2
  reserved f hf := List.mem_cons_of_mem _ (h.reserved f hf)

theorem mapsTo (h : TablesInUse m) (hmaps : MapsTo m m' page frame flags) : TablesInUse m' := by
  refine ⟨hmaps.tables, ?_, fun f hf => ?_⟩
  · cases hmaps.frames with
    | old hp hpageMap hholds =>
      rw [hpageMap]
      exact h.fresh
    | new f hp hnext hpageMap hholds =>
      rw [hpageMap]
      exact (h.fresh.next hnext).2
  · cases hmaps.frames with
    | old hp hpageMap hholds =>
      rw [hpageMap]
      exact h.reserved f ((hholds f).mp hf)
    | new t hp hnext hpageMap hholds =>
      rw [hpageMap]
      rcases (hholds f).mp hf with rfl | hf
      · exact List.mem_cons_self ..
      · exact List.mem_cons_of_mem _ (h.reserved f hf)

theorem mapNewPage_cases (h : TablesInUse m) (hpage : BelowWindow page)
    (hmap : m.mapNewPage page = some (status, m')) : MapNewPage m page status m' := by
  rcases Option.eq_none_or_eq_some m.pageMap.next with hnext | ⟨g, hnext⟩
  · rw [mapNewPage_of_none hnext] at hmap
    obtain ⟨rfl, rfl⟩ := Prod.mk.inj (Option.some.inj hmap)
    exact .noFrame hnext
  · rw [mapNewPage_of_some hnext] at hmap
    have h' := h.withFrame hnext
    cases h'.tables.mapPage_cases hpage (fun f hf => h'.unused hf) hmap with
    | refuses ha => exact absurd (frameAddress_aligned g) ha
    | runsOut ha hp htable => exact .noTable g hnext hp htable
    | maps ha htable hself husable =>
      exact .maps g hnext (htable.mapsTo h'.tables hpage (fun f hf => h'.unused hf) husable)

theorem mapBlockPass_cases (h : TablesInUse m) (hpage : BelowWindow page)
    (hpass : m.mapBlockPass page = some (status, m')) : MapBlockPass m page status m' := by
  rw [mapBlockPass_eq h.tables] at hpass
  cases hv : m.memory.view page with
  | none =>
    rw [hv] at hpass
    exact .absent hv (h.mapNewPage_cases hpage hpass)
  | some v =>
    rw [hv] at hpass
    obtain ⟨rfl, rfl⟩ := Prod.mk.inj (Option.some.inj hpass)
    exact .there (by rw [hv]; rfl)

theorem mmapCallbackPass_cases (h : TablesInUse m) (hpage : BelowWindow page)
    (hpass : m.mmapCallbackPass page = some (status, m')) :
    MmapCallbackPass m page status m' := by
  rcases Option.eq_none_or_eq_some m.pageMap.next with hnext | ⟨g, hnext⟩
  · rw [mmapCallbackPass_of_none hnext] at hpass
    obtain ⟨rfl, rfl⟩ := Prod.mk.inj (Option.some.inj hpass)
    exact .noFrame hnext
  · rw [mmapCallbackPass_of_some hnext] at hpass
    exact .forgets g hnext ((h.withFrame hnext).mapNewPage_cases hpage hpass)

end TablesInUse

end QuarkKernel
