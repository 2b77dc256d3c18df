import QuarkKernel.FrameOwnership
import QuarkKernel.Heap
import QuarkKernel.PageRoundTrip

/-! # What `kmalloc` maps and what it loses

The loop of `map_block` looks at the pages of `location`, `location + page_size`, …, and
`location` need not be the start of a page.  So it misses the last page of a region that
reaches into one page more than it has pages' worth of bytes (`kmalloc_fullyMapped_iff`).

`map_page` is handed a frame that is already reserved.  When there is none left for the
page's table, nobody gives the frame back; `mmap_callback` reserves a second frame even
before that (`accounts_iff`).  Nor does `kmalloc` give its region back when a page
cannot be mapped (`kmalloc_regions_iff`). -/
namespace QuarkKernel
open PagedMemory
open UserFrames (withFrame Supplied pageCost)

/-! ### The loop of `map_block` -/

/-- The frames that pass `i` takes: none for a page that is there; one for another page,
and one more for its table, unless that is there or came with an earlier page. -/
def blockCost (m : PagedMemory) (location : Word) (i : Nat) : Nat :=
  if (m.view (pageAt location i)).isSome then 0
  else if (m.pde (pageAt location i)).present = true ∨ ∃ j, j < i ∧
      m.view (pageAt location j) = none ∧ dirIndex (pageAt location j) = dirIndex (pageAt location i)
    then 1
  else 2

/-- The frames that the first `n` passes take. -/
def blockFrames (m : PagedMemory) (location : Word) : Nat → Nat
  | 0 => 0
  | n + 1 => blockFrames m location n + blockCost m location n

theorem blockFrames_mono (m : PagedMemory) (location : Word) {i j : Nat} (h : i ≤ j) :
    blockFrames m location i ≤ blockFrames m location j := by
  induction h with
  | refl => exact le_rfl
  | step _ ih => exact Nat.le_trans ih (Nat.le_add_right ..)

/-- The first `i` passes have mapped those of their pages that were absent, each to a
frame of its own. -/
structure BlockMapped (m : Machine) (location : Word) (i : Nat) (t : Machine) : Prop where
  inUse : TablesInUse t
  kept : ∀ x, BelowWindow x → (m.memory.view x).isSome → t.memory.view x = m.memory.view x
  others : ∀ x, BelowWindow x → (∀ j, j < i → ¬ SamePage (pageAt location j) x) →
    t.memory.view x = m.memory.view x
  mapped : ∀ j, j < i → m.memory.view (pageAt location j) = none →
    ∃ g user, t.memory.view (pageAt location j) = some ⟨g, true, user⟩ ∧
      g ∉ m.pageMap.reserved ∧ g ∈ t.pageMap.reserved
  grows : ∀ f, f ∈ m.pageMap.reserved → f ∈ t.pageMap.reserved
  tables : ∀ f, HoldsTable t.memory f → HoldsTable m.memory f ∨ f ∉ m.pageMap.reserved
  spent : ∀ f, f ∈ t.pageMap.reserved → f ∈ m.pageMap.reserved ∨
    (∃ j, j < i ∧ m.memory.view (pageAt location j) = none ∧
      (t.memory.view (pageAt location j)).map PageView.frame = some f) ∨
    HoldsTable t.memory f

/-- The frames that the first `i` passes have taken were to be had, and where there are
tables now. -/
structure BlockSupplied (m : Machine) (location : Word) (i : Nat) (t : Machine) : Prop where
  supplied : Supplied m.pageMap.answers (blockFrames m.memory location i)
  answers : t.pageMap.answers = m.pageMap.answers.drop (blockFrames m.memory location i)
  directory : ∀ d, (t.memory.entry t.memory.cr3 d).present = true ↔
    (m.memory.entry m.memory.cr3 d).present = true ∨
      ∃ j, j < i ∧ m.memory.view (pageAt location j) = none ∧ dirIndex (pageAt location j) = d

section Loop
variable {m t t' : Machine} {location size : Word} {i : Nat}

theorem BlockMapped.zero (h : TablesInUse m) (location : Word) : BlockMapped m location 0 m where
  inUse := h
  kept _ _ _ := rfl
  others _ _ _ := rfl
  mapped j hj := absurd hj (Nat.not_lt_zero j)
  grows _ hf := hf
  tables _ hf := .inl hf
  spent _ hf := .inl hf

theorem BlockSupplied.zero (m : Machine) (location : Word) : BlockSupplied m location 0 m where
  supplied k hk := absurd hk (Nat.not_lt_zero k)
  answers := rfl
  directory d := by
    refine ⟨.inl, ?_⟩
    rintro (hp | ⟨j, hj, -⟩)
    · exact hp
    · exact absurd hj (Nat.not_lt_zero j)

/-- The page of pass `i` is as it was before the loop. -/
theorem BlockMapped.view_page (h : BlockMapped m location i t)
    (hends : EndsBelowWindow location size) (hi : i < passCount size) :
    t.memory.view (pageAt location i) = m.memory.view (pageAt location i) := by
  refine h.others _ (belowWindow_pageAt hends hi) fun j hj hsame => ?_
  have := eq_of_samePage_of_lt hends (by omega) hi hsame
  omega

/-- A pass whose page is there. -/
theorem BlockMapped.skip (h : BlockMapped m location i t)
    (hview : (m.memory.view (pageAt location i)).isSome) : BlockMapped m location (i + 1) t where
  inUse := h.inUse
  kept := h.kept
  others x hx hne := h.others x hx fun j hj => hne j (by omega)
  mapped j hj hnone := by
    have hji : j ≠ i := by
      rintro rfl
      rw [hnone] at hview
      cases hview
    exact h.mapped j (by omega) hnone
  grows := h.grows
  tables := h.tables
  spent f hf := by
    rcases h.spent f hf with hf | ⟨j, hj, hnone, hframe⟩ | hf
    · exact .inl hf
    · exact .inr (.inl ⟨j, by omega, hnone, hframe⟩)
    · exact .inr (.inr hf)

section MapsTo
variable {page : Word} {f g : Frame} (h : TablesInUse t) (hnext : t.pageMap.next = some g)
  (hmaps : MapsTo (withFrame t g) t' page (frameAddress g) pageRw)
include h hnext hmaps

/-- What is reserved after the pass: a frame more for the page, and perhaps one for its
table. -/
theorem reserved_iff_of_mapsTo : f ∈ t'.pageMap.reserved ↔ f = g ∨ f ∈ t.pageMap.reserved ∨
    HoldsTable t'.memory f ∧ f ∉ g :: t.pageMap.reserved := by
  have hold : HoldsTable t.memory f → f ∈ g :: t.pageMap.reserved := fun hf =>
    List.mem_cons_of_mem _ (h.reserved f hf)
  cases hmaps.frames with
  | old hp hpageMap hholds =>
    rw [hpageMap]
    show f ∈ g :: t.pageMap.reserved ↔ _
    constructor
    · intro hf
      rcases List.mem_cons.mp hf with hf | hf
      · exact .inl hf
      · exact .inr (.inl hf)
    · rintro (rfl | hf | ⟨hf, hnot⟩)
      · exact List.mem_cons_self ..
      · exact List.mem_cons_of_mem _ hf
      · exact absurd (hold ((hholds f).mp hf)) hnot
  | new n hp hnew hpageMap hholds =>
    rw [hpageMap]
    show f ∈ n :: g :: t.pageMap.reserved ↔ _
    constructor
    · intro hf
      rcases List.mem_cons.mp hf with rfl | hf
      · exact .inr (.inr ⟨(hholds f).mpr (.inl rfl), ((h.withFrame hnext).fresh.next hnew).1⟩)
      · rcases List.mem_cons.mp hf with hf | hf
        · exact .inl hf
        · exact .inr (.inl hf)
    · rintro (rfl | hf | ⟨hf, hnot⟩)
      · exact List.mem_cons_of_mem _ (List.mem_cons_self ..)
      · exact List.mem_cons_of_mem _ (List.mem_cons_of_mem _ hf)
      · rcases (hholds f).mp hf with rfl | hf
        · exact List.mem_cons_self ..
        · exact absurd (hold hf) hnot

omit h hnext in
/-- A table stays one. -/
theorem HoldsTable.mapsTo (hf : HoldsTable t.memory f) : HoldsTable t'.memory f := by
  cases hmaps.frames with
  | old hp hpageMap hholds => exact (hholds f).mpr hf
  | new n hp hnew hpageMap hholds => exact (hholds f).mpr (.inr hf)

/-- A table that is new is not in an old frame. -/
theorem holdsTable_of_mapsTo (hf : HoldsTable t'.memory f)
    (hin : f ∈ t.pageMap.reserved) : HoldsTable t.memory f := by
  exact (hmaps.frames.holdsTable_iff (h.withFrame hnext).fresh (List.mem_cons_of_mem _ hin)).mp hf

end MapsTo

/-- A pass that maps its page to `g`. -/
theorem BlockMapped.maps {g : Frame} (h : BlockMapped m location i t)
    (hends : EndsBelowWindow location size) (hi : i < passCount size)
    (habsent : m.memory.view (pageAt location i) = none) (hnext : t.pageMap.next = some g)
    (hmaps : MapsTo (withFrame t g) t' (pageAt location i) (frameAddress g) pageRw) :
    BlockMapped m location (i + 1) t' := by
  have hother : ∀ j, j < i → ¬ SamePage (pageAt location i) (pageAt location j) := by
    intro j hj hsame
    have := eq_of_samePage_of_lt hends hi (by omega) hsame
    omega
  have hunused := (h.inUse.fresh.next hnext).1
  have hself := hmaps.maps _ rfl
  rw [frameNumber_frameAddress] at hself
  have hreserved := fun f => reserved_iff_of_mapsTo (f := f) h.inUse hnext hmaps
  have hgrows : ∀ f, f ∈ t.pageMap.reserved → f ∈ t'.pageMap.reserved :=
    fun f hf => (hreserved f).mpr (.inr (.inl hf))
  have hsame : ∀ j, j < i →
      t'.memory.view (pageAt location j) = t.memory.view (pageAt location j) :=
    fun j hj => hmaps.others _ (belowWindow_pageAt hends (by omega)) (hother j hj)
  refine ⟨(h.inUse.withFrame hnext).mapsTo hmaps, ?_, ?_, ?_, fun f hf => hgrows f (h.grows f hf),
    ?_, ?_⟩
  · intro x hx hsome
    have hne : ¬ SamePage (pageAt location i) x := by
      intro hpage
      rw [← view_of_samePage hpage, habsent] at hsome
      cases hsome
    exact (hmaps.others x hx hne).trans (h.kept x hx hsome)
  · intro x hx hne
    exact (hmaps.others x hx (hne i (by omega))).trans (h.others x hx fun j hj => hne j (by omega))
  · intro j hj hnone
    rcases Nat.lt_succ_iff_lt_or_eq.mp hj with hlt | rfl
    · obtain ⟨f, user, hview, hnot, hin⟩ := h.mapped j hlt hnone
      exact ⟨f, user, (hsame j hlt).trans hview, hnot, hgrows f hin⟩
    · exact ⟨g, _, hself, fun hg => hunused (h.grows g hg), (hreserved g).mpr (.inl rfl)⟩
  · intro f hf
    by_cases hold : f ∈ m.pageMap.reserved
    · have ht := holdsTable_of_mapsTo h.inUse hnext hmaps hf (h.grows f hold)
      exact .inl ((h.tables f ht).resolve_right (not_not.mpr hold))
    · exact .inr hold
  · intro f hf
    rcases (hreserved f).mp hf with rfl | hf | ⟨hf, -⟩
    · refine .inr (.inl ⟨i, by omega, habsent, ?_⟩)
      rw [hself]
      rfl
    · rcases h.spent f hf with hf | ⟨j, hj, hnone, hframe⟩ | hf
      · exact .inl hf
      · exact .inr (.inl ⟨j, by omega, hnone, by rw [hsame j hj]; exact hframe⟩)
      · exact .inr (.inr (hf.mapsTo hmaps))
    · exact .inr (.inr hf)

/-! ### The frames it takes -/

/-- Where there are tables decides what the pass costs. -/
theorem BlockSupplied.pageCost_eq (h : BlockSupplied m location i t)
    (habsent : m.memory.view (pageAt location i) = none) :
    pageCost t.memory (pageAt location i) = blockCost m.memory location i := by
  have hiff : (t.memory.pde (pageAt location i)).present = true ↔
      (m.memory.pde (pageAt location i)).present = true ∨ ∃ j, j < i ∧
        m.memory.view (pageAt location j) = none ∧
          dirIndex (pageAt location j) = dirIndex (pageAt location i) :=
    h.directory (dirIndex (pageAt location i))
  rw [blockCost, habsent, if_neg (by decide), pageCost]
  by_cases hp : (t.memory.pde (pageAt location i)).present = true
  · rw [if_pos hp, if_pos (hiff.mp hp)]
  · rw [if_neg hp, if_neg fun hor => hp (hiff.mpr hor)]

theorem BlockSupplied.skip (h : BlockSupplied m location i t)
    (hview : (m.memory.view (pageAt location i)).isSome) :
    BlockSupplied m location (i + 1) t := by
  have hcost : blockFrames m.memory location (i + 1) = blockFrames m.memory location i := by
    rw [blockFrames, blockCost, if_pos hview, Nat.add_zero]
  refine ⟨by rw [hcost]; exact h.supplied, by rw [hcost]; exact h.answers, fun d => ?_⟩
  rw [h.directory d]
  refine or_congr_right ⟨?_, ?_⟩
  · rintro ⟨j, hj, hnone, hd⟩
    exact ⟨j, by omega, hnone, hd⟩
  · rintro ⟨j, hj, hnone, hd⟩
    have hji : j ≠ i := by
      rintro rfl
      rw [hnone] at hview
      cases hview
    exact ⟨j, by omega, hnone, hd⟩

/-- The pass has the frames that it takes, or it has not. -/
theorem BlockSupplied.next_iff (h : BlockSupplied m location i t) {k : Nat} :
    Supplied t.pageMap.answers k ↔
      Supplied m.pageMap.answers (blockFrames m.memory location i + k) := by
  rw [h.answers, UserFrames.supplied_add, and_iff_right h.supplied]

theorem BlockSupplied.maps {g : Frame} (h : BlockSupplied m location i t)
    (habsent : m.memory.view (pageAt location i) = none) (hnext : t.pageMap.next = some g)
    (hmaps : MapsTo (withFrame t g) t' (pageAt location i) (frameAddress g) pageRw) :
    BlockSupplied m location (i + 1) t' := by
  have hcost := h.pageCost_eq habsent
  rw [pageCost] at hcost
  have hone : Supplied t.pageMap.answers 1 := UserFrames.next_iff_supplied.mp (by rw [hnext]; rfl)
  have hspent : Supplied t.pageMap.answers (blockCost m.memory location i) ∧
      t'.pageMap.answers = t.pageMap.answers.drop (blockCost m.memory location i) := by
    rw [← hcost]
    cases hmaps.frames with
    | old hp hpageMap hholds =>
      have hp : (t.memory.pde (pageAt location i)).present = true := hp
      rw [if_pos hp, hpageMap]
      exact ⟨hone, (List.drop_one ..).symm⟩
    | new n hp hnew hpageMap hholds =>
      have hp : (t.memory.pde (pageAt location i)).present = false := hp
      rw [if_neg (by rw [hp]; decide), hpageMap]
      constructor
      · rw [show 2 = 1 + 1 from rfl, UserFrames.supplied_add, List.drop_one]
        refine ⟨hone, ?_⟩
        exact UserFrames.next_iff_supplied.mp (by rw [hnew]; rfl)
      · show t.pageMap.answers.tail.tail = _
        rw [← List.drop_one, ← List.drop_one, List.drop_drop]
  refine ⟨h.next_iff.mp hspent.1, ?_, fun d => ?_⟩
  · rw [hspent.2, h.answers, List.drop_drop]
    rfl
  · have hiff := hmaps.directory d
    rw [show (withFrame t g).memory = t.memory from rfl, h.directory d, or_assoc] at hiff
    rw [hiff, Nat.exists_lt_succ_right, and_iff_right habsent, @eq_comm _ d]

end Loop

/-! ### The whole loop -/

/-- How `map_block` returns: with all pages mapped, or at a page for which there is no
frame, or no frame for its table. -/
inductive MapBlock (m : Machine) (location size : Word) : Status → Machine → Prop
  | maps {m' : Machine} (hmapped : BlockMapped m location (passCount size) m')
      (hsupplied : BlockSupplied m location (passCount size) m') :
      MapBlock m location size .enone m'
  | noFrame (i : Nat) (t : Machine) (hi : i < passCount size) (hmapped : BlockMapped m location i t)
      (hsupplied : BlockSupplied m location i t)
      (habsent : m.memory.view (pageAt location i) = none) (hnext : t.pageMap.next = none) :
      MapBlock m location size .einvalidarg
        ⟨t.memory, ⟨t.pageMap.answers.tail, t.pageMap.reserved⟩⟩
  | noTable (i : Nat) (t : Machine) (g : Frame) (hi : i < passCount size)
      (hmapped : BlockMapped m location i t) (hsupplied : BlockSupplied m location i t)
      (habsent : m.memory.view (pageAt location i) = none) (hnext : t.pageMap.next = some g)
      (hp : (t.memory.pde (pageAt location i)).present = false)
      (htable : (withFrame t g).pageMap.next = none) :
      MapBlock m location size .enomem
        ⟨t.memory, ⟨t.pageMap.answers.tail.tail, g :: t.pageMap.reserved⟩⟩

section MapBlock
variable {m m' : Machine} {location size : Word} {status : Status}

/-- **The returns of `map_block`.** -/
theorem mapBlock_cases (h : TablesInUse m) (hends : EndsBelowWindow location size)
    (hcall : m.mapBlock location size = some (status, m')) :
    MapBlock m location size status m' := by
  have hzero : BitVec.ofNat 32 (4096 * 0) = (0 : Word) := rfl
  rw [Machine.mapBlock, ← hzero] at hcall
  rcases forPages_cases hends
    (fun i t => BlockMapped m location i t ∧ BlockSupplied m location i t) (by
      rintro i t t' hi ⟨hmapped, hsupplied⟩ hpass
      have hview := hmapped.view_page hends hi
      cases hmapped.inUse.mapBlockPass_cases (belowWindow_pageAt hends hi) hpass with
      | there hsome =>
        rw [hview] at hsome
        exact ⟨hmapped.skip hsome, hsupplied.skip hsome⟩
      | absent hnone hnew =>
        rw [hview] at hnone
        cases hnew with
        | maps g hnext hmaps =>
          exact ⟨hmapped.maps hends hi hnone hnext hmaps, hsupplied.maps hnone hnext hmaps⟩)
    (Nat.zero_le _) ⟨.zero h location, .zero m location⟩ hcall
    with ⟨rfl, hmapped, hsupplied⟩ | ⟨hne, i, t, hi, ⟨hmapped, hsupplied⟩, hpass⟩
  · exact .maps hmapped hsupplied
  · have hview := hmapped.view_page hends hi
    cases hmapped.inUse.mapBlockPass_cases (belowWindow_pageAt hends hi) hpass with
    | there hsome => exact absurd rfl hne
    | absent hnone hnew =>
      rw [hview] at hnone
      cases hnew with
      | noFrame hnext => exact .noFrame i t hi hmapped hsupplied hnone hnext
      | noTable g hnext hp htable =>
        exact .noTable i t g hi hmapped hsupplied hnone hnext hp htable
      | maps g hnext hmaps => exact absurd rfl hne

end MapBlock

/-! ### An empty table -/

/-- The kernel's table without pages, and the frames to be had. -/
def emptyTable (answers : List (Option Frame)) : Machine := ⟨emptyMemory, ⟨answers, [1, 3]⟩⟩

theorem tablesInUse_emptyTable (answers : List (Option Frame))
    (hnodup : (answers.filterMap id).Nodup)
    (hunused : answers.all fun a => a ≠ some 1 ∧ a ≠ some 3) : TablesInUse (emptyTable answers) where
  tables := pageTables_emptyMemory
  fresh := by
    refine ⟨hnodup, fun f hf hin => ?_⟩
    obtain ⟨h1, h3⟩ := of_decide_eq_true (List.all_eq_true.mp hunused _ hf)
    rcases List.mem_pair.mp hin with rfl | rfl
    · exact h1 rfl
    · exact h3 rfl
  reserved f hf := List.mem_pair.mpr (holdsTable_emptyMemory hf)

theorem view_emptyMemory {x : Word} (hx : BelowWindow x) : emptyMemory.view x = none := by
  refine view_of_absent fun ⟨hpde, hpte⟩ => ?_
  have hd : dirIndex x = 1021 := (present_emptyMemory hpde).resolve_right hx
  have hframe : (emptyMemory.pde x).physicalAddress = 3 := by
    rw [PagedMemory.pde, hd]
    rfl
  rw [PagedMemory.pte, hframe, PagedMemory.entry, emptyMemory] at hpte
  simp at hpte
  cases hpte

section EmptyTable
variable {m : Machine} {location size : Word} {g : Frame}

/-- A page in the table. -/
theorem mapNewPage_emptyTable (location : Word) (hd : dirIndex location = 1021) (hmemory : m.memory = emptyMemory)
    (hnext : m.pageMap.next = some g) : ∃ m', m.mapNewPage location = some (.enone, m') := by
  have husable : UsableTable (withFrame m g).memory (dirIndex location) 3 := by
    rw [hd, show (withFrame m g).memory = emptyMemory from hmemory]
    exact ⟨by decide, rfl, by decide⟩
  have hself : (withFrame m g).memory.SelfMapped := by
    rw [show (withFrame m g).memory = emptyMemory from hmemory]
    exact pageTree_emptyMemory.self
  rw [mapNewPage_of_some hnext]
  exact ⟨_, Machine.mapPage_of_present hself (by rw [hd]; decide) (frameAddress_aligned g) husable⟩

/-- A pass of a loop that ends with it. -/
theorem forPages_one {pass : Machine → Word → Option (Status × Machine)} {m' : Machine}
    (hpos : 0 < size) (hle : ¬ pageSize < size) (hpass : pass m location = some (.enone, m')) :
    forPages pass location size wrapAround 0 m = some (.enone, m') := by
  have hstart : location + 0 = location := BitVec.add_zero location
  rw [show wrapAround = (2 ^ 20 - 1) + 1 from rfl, forPages_of_enone hpos (by rw [hstart]; exact hpass)]
  exact forPages_of_le hle

theorem forPages_fails {pass : Machine → Word → Option (Status × Machine)} {m' : Machine}
    {status : Status} (hpos : 0 < size) (hne : status ≠ .enone)
    (hpass : pass m location = some (status, m')) :
    forPages pass location size wrapAround 0 m = some (status, m') := by
  have hstart : location + 0 = location := BitVec.add_zero location
  rw [show wrapAround = (2 ^ 20 - 1) + 1 from rfl]
  exact forPages_of_ne hpos hne (by rw [hstart]; exact hpass)

theorem mapBlockPass_emptyTable (answers : List (Option Frame)) (hx : BelowWindow location) :
    (emptyTable answers).mapBlockPass location = (emptyTable answers).mapNewPage location := by
  rw [mapBlockPass_eq pageTables_emptyMemory,
    show (emptyTable answers).memory.view location = none from view_emptyMemory hx]
  rfl

/-- A region that takes one pass. -/
theorem mapBlock_emptyTable {answers : List (Option Frame)} (location size : Word)
    (hd : dirIndex location = 1021) (hpos : 0 < size) (hle : ¬ pageSize < size)
    (hnext : (emptyTable answers).pageMap.next = some g) :
    ∃ m', (emptyTable answers).mapBlock location size = some (.enone, m') := by
  obtain ⟨m', hmap⟩ := mapNewPage_emptyTable location hd rfl hnext
  have hx : BelowWindow location := by
    rw [BelowWindow, hd]
    decide
  exact ⟨m', forPages_one hpos hle ((mapBlockPass_emptyTable answers hx).trans hmap)⟩

end EmptyTable

/-! ### What `kmalloc` maps -/

/-- The region is in the heap. -/
def InHeap (location size : Word) : Prop :=
  kernelStart.toNat ≤ location.toNat ∧ EndsBelowWindow location size

instance (location size : Word) : Decidable (InHeap location size) :=
  inferInstanceAs (Decidable (_ ∧ _))

/-- Every byte of the region is on a page that is present and can be written, and the pages
that were present have kept their frames. -/
def FullyMapped (m m' : PagedMemory) (location size : Word) : Prop :=
  (∀ x, InRange location size x → ∃ v, m'.view x = some v ∧ v.rw = true) ∧
    ∀ x v, BelowWindow x → m.view x = some v → ∃ v', m'.view x = some v' ∧ v'.frame = v.frame

/-- The pages that `map_block` looks at are all there are in the region. -/
def EndsInLastPage (location size : Word) : Prop :=
  location.toNat % 4096 + (size.toNat - 1) % 4096 < 4096

instance (location size : Word) : Decidable (EndsInLastPage location size) :=
  inferInstanceAs (Decidable (_ < _))

/-- What is present of the region can be written, and the page that `map_block` does not
look at, if there is one, is present. -/
def Coverable (m : PagedMemory) (location size : Word) : Prop :=
  (∀ x v, InRange location size x → m.view x = some v → v.rw = true) ∧
    (EndsInLastPage location size ∨ (m.view (location + size - 1)).isSome)

section Coverage
variable {m t : Machine} {location size x : Word}

theorem toNat_last (hends : EndsBelowWindow location size) (hsize : size ≠ 0) :
    (location + size - 1).toNat = location.toNat + (size.toNat - 1) ∧ 0 < size.toNat := by
  have hpos : 0 < size.toNat := by
    rw [Nat.pos_iff_ne_zero]
    exact fun h => hsize (BitVec.eq_of_toNat_eq h)
  rw [EndsBelowWindow, show pageTables.toNat = 4290772992 from rfl] at hends
  refine ⟨?_, hpos⟩
  rw [BitVec.toNat_sub, BitVec.toNat_add, show (1 : Word).toNat = 1 from rfl]
  omega

/-- An address of the region is in a page of the loop, or in the last page of a region that
has one page more. -/
theorem visited_or_last (hends : EndsBelowWindow location size) (hsize : size ≠ 0)
    (hx : InRange location size x) :
    (∃ i, i < passCount size ∧ SamePage (pageAt location i) x) ∨
      ¬ EndsInLastPage location size ∧ SamePage (location + size - 1) x := by
  obtain ⟨hlast, hpos⟩ := toNat_last hends hsize
  obtain ⟨hle, hlt⟩ := hx
  by_cases hi : x.toNat / 4096 - location.toNat / 4096 < passCount size
  · refine .inl ⟨_, hi, ?_⟩
    rw [SamePage, toNat_pageAt_of_lt hends hi]
    omega
  · rw [passCount] at hi
    refine .inr ⟨?_, ?_⟩
    · rw [EndsInLastPage]
      omega
    · rw [SamePage, hlast]
      omega

/-- The last page of such a region is not a page of the loop. -/
theorem not_visited_last (hends : EndsBelowWindow location size) (hsize : size ≠ 0)
    (hnot : ¬ EndsInLastPage location size) {i : Nat} (hi : i < passCount size) :
    ¬ SamePage (pageAt location i) (location + size - 1) := by
  obtain ⟨hlast, hpos⟩ := toNat_last hends hsize
  rw [SamePage, toNat_pageAt_of_lt hends hi, hlast]
  rw [EndsInLastPage] at hnot
  rw [passCount] at hi
  omega

theorem belowWindow_of_inRange (hends : EndsBelowWindow location size)
    (hx : InRange location size x) : BelowWindow x := by
  rw [belowWindow_iff]
  rw [EndsBelowWindow] at hends
  rw [InRange] at hx
  omega

theorem inRange_last (hends : EndsBelowWindow location size) (hsize : size ≠ 0) :
    InRange location size (location + size - 1) := by
  obtain ⟨hlast, hpos⟩ := toNat_last hends hsize
  rw [InRange, hlast]
  omega

/-- What the loop has done to the region, when it has come to its end. -/
theorem BlockMapped.fullyMapped_iff (h : BlockMapped m location (passCount size) t)
    (hends : EndsBelowWindow location size) (hsize : size ≠ 0) :
    FullyMapped m.memory t.memory location size ↔ Coverable m.memory location size := by
  have hkept : ∀ x v, BelowWindow x → m.memory.view x = some v → t.memory.view x = some v :=
    fun x v hx hv => (h.kept x hx (by rw [hv]; rfl)).trans hv
  constructor
  · rintro ⟨hpresent, -⟩
    refine ⟨fun x v hx hv => ?_, ?_⟩
    · obtain ⟨v', hv', hrw⟩ := hpresent x hx
      rw [hkept x v (belowWindow_of_inRange hends hx) hv] at hv'
      rwa [← Option.some.inj hv'] at hrw
    · by_cases hin : EndsInLastPage location size
      · exact .inl hin
      · obtain ⟨v, hv, -⟩ := hpresent _ (inRange_last hends hsize)
        have hsame := h.others _ (belowWindow_of_inRange hends (inRange_last hends hsize))
          fun i hi => not_visited_last hends hsize hin hi
        rw [← hsame, hv]
        exact .inr rfl
  · rintro ⟨hrw, hlast⟩
    refine ⟨fun x hx => ?_, fun x v hx hv => ⟨v, hkept x v hx hv, rfl⟩⟩
    have hbelow := belowWindow_of_inRange hends hx
    -- a page that was there is as it was
    have hthere : ∀ v, m.memory.view x = some v → ∃ v, t.memory.view x = some v ∧ v.rw = true :=
      fun v hv => ⟨v, hkept x v hbelow hv, hrw x v hx hv⟩
    rcases visited_or_last hends hsize hx with ⟨i, hi, hsame⟩ | ⟨hnot, hsame⟩
    · rcases Option.eq_none_or_eq_some (m.memory.view x) with hnone | ⟨v, hv⟩
      · rw [← view_of_samePage hsame] at hnone
        obtain ⟨g, user, hview, -, -⟩ := h.mapped i hi hnone
        rw [view_of_samePage hsame] at hview
        exact ⟨_, hview, rfl⟩
      · exact hthere v hv
    · have hsome := hlast.resolve_left hnot
      rw [view_of_samePage hsame] at hsome
      obtain ⟨v, hv⟩ := Option.isSome_iff_exists.mp hsome
      exact hthere v hv

end Coverage

namespace SystemHeap
variable {s s' : SystemHeap} {p size loc : Word}

/-- `kmalloc` with a region. -/
theorem kmalloc_some (s : SystemHeap) (size loc : Word) : s.kmalloc size (some loc) =
    (s.machine.mapBlock loc size).map fun result =>
      (if result.1 ≠ .enone then 0 else loc, ⟨result.2, (loc, size) :: s.regions⟩) := by
  show Option.bind _ _ = Option.map _ _
  rw [Option.map_eq_bind]
  congr 1
  funext ⟨status, machine⟩
  show (if status ≠ .enone then some (0, _) else some (loc, _)) =
    some (if status ≠ .enone then 0 else loc, _)
  split <;> rfl

/-- **Coverage.**  A `kmalloc` that returns a region has all of it mapped, exactly when what
was present of it can be written, and it ends in the last page that the loop looks at (or
the page after that was there). -/
theorem kmalloc_fullyMapped_iff (h : TablesInUse s.machine) (hsize : size ≠ 0)
    (hheap : InHeap loc size) (hcall : s.kmalloc size (some loc) = some (p, s')) (hp : p ≠ 0) :
    FullyMapped s.machine.memory s'.machine.memory p size ↔
      Coverable s.machine.memory loc size := by
  rw [kmalloc_some] at hcall
  obtain ⟨⟨status, m'⟩, hblock, heq⟩ := Option.map_eq_some_iff.mp hcall
  obtain ⟨rfl, rfl⟩ := Prod.mk.inj heq
  have hok : status = .enone := by
    by_contra hne
    exact hp (if_pos hne)
  subst hok
  cases mapBlock_cases h hheap.2 hblock with
  | maps hmapped hsupplied => exact hmapped.fullyMapped_iff hheap.2 hsize

/-- A region that takes one pass. -/
theorem kmalloc_emptyTable {answers : List (Option Frame)} {g : Frame} (loc size : Word)
    (hd : dirIndex loc = 1021) (hpos : 0 < size) (hle : ¬ pageSize < size)
    (hnext : (emptyTable answers).pageMap.next = some g) :
    ∃ m', (emptyTable answers).mapBlock loc size = some (.enone, m') ∧
      SystemHeap.kmalloc ⟨emptyTable answers, []⟩ size (some loc) =
        some (loc, ⟨m', [(loc, size)]⟩) := by
  obtain ⟨m', hblock⟩ := mapBlock_emptyTable loc size hd hpos hle hnext
  refine ⟨m', hblock, ?_⟩
  rw [kmalloc_some, hblock]
  rfl

/-- 64 bytes at the start of a page. -/
theorem kmalloc_fullyMapped_iff_emptyTable :
    ∃ s', SystemHeap.kmalloc ⟨emptyTable [some 4], []⟩ 64 (some 0xFF400000) =
        some (0xFF400000, s') ∧
      (FullyMapped emptyMemory s'.machine.memory 0xFF400000 64 ↔
        Coverable emptyMemory 0xFF400000 64) := by
  have h := tablesInUse_emptyTable [some 4] (by decide) (by decide)
  obtain ⟨m', -, hcall⟩ := kmalloc_emptyTable 0xFF400000 64 (by decide)
    (by decide) (by decide) (show (emptyTable [some 4]).pageMap.next = some 4 from rfl)
  have hiff := kmalloc_fullyMapped_iff (s := ⟨emptyTable [some 4], []⟩) h (by decide) (by decide)
    hcall (by decide)
  exact ⟨_, hcall, hiff⟩

/-- The last 64 bytes of 128 that begin 64 bytes before the end of a page are not mapped. -/
theorem not_fullyMapped_emptyTable :
    ¬ ∀ (s s' : SystemHeap) (size loc p : Word), TablesInUse s.machine → size ≠ 0 →
      loc.toNat % 64 = 0 → InHeap loc size → s.kmalloc size (some loc) = some (p, s') → p ≠ 0 →
      FullyMapped s.machine.memory s'.machine.memory p size := by
  intro hall
  have h := tablesInUse_emptyTable [some 4] (by decide) (by decide)
  obtain ⟨m', hblock, hcall⟩ := kmalloc_emptyTable 0xFF400FC0 128 (by decide)
    (by decide) (by decide) (show (emptyTable [some 4]).pageMap.next = some 4 from rfl)
  have hmapped := hall _ _ _ _ _ h (by decide) (by decide) (by decide) hcall (by decide)
  cases mapBlock_cases h (by decide) hblock with
  | maps hloop hsupplied =>
    have hcoverable := (hloop.fullyMapped_iff (by decide) (by decide)).mp hmapped
    rcases hcoverable.2 with hin | hsome
    · exact absurd hin (by decide)
    · rw [show (emptyTable [some 4]).memory = emptyMemory from rfl,
        view_emptyMemory (by decide)] at hsome
      cases hsome

end SystemHeap

/-! ### Where the frames run out -/

section RunsOut
variable {m t : Machine} {location : Word} {i : Nat} {g : Frame}

theorem blockCost_pos (habsent : m.memory.view (pageAt location i) = none) :
    1 ≤ blockCost m.memory location i := by
  rw [blockCost, habsent, if_neg (by decide)]
  split <;> decide

/-- No frame for the page. -/
theorem BlockSupplied.not_supplied_of_none (h : BlockSupplied m location i t)
    (hnext : t.pageMap.next = none) :
    ¬ Supplied m.pageMap.answers (blockFrames m.memory location i + 1) := by
  intro hsupplied
  have hone := UserFrames.next_iff_supplied.mpr (h.next_iff.mpr hsupplied)
  rw [hnext] at hone
  cases hone

/-- A frame for the page, and none for its table. -/
theorem BlockSupplied.supplied_of_noTable (h : BlockSupplied m location i t)
    (habsent : m.memory.view (pageAt location i) = none) (hnext : t.pageMap.next = some g)
    (hp : (t.memory.pde (pageAt location i)).present = false)
    (htable : (withFrame t g).pageMap.next = none) :
    blockCost m.memory location i = 2 ∧
      Supplied m.pageMap.answers (blockFrames m.memory location i + 1) ∧
        ¬ Supplied m.pageMap.answers (blockFrames m.memory location i + 2) := by
  refine ⟨?_, ?_, fun hsupplied => ?_⟩
  · rw [← h.pageCost_eq habsent, pageCost, if_neg (by rw [hp]; decide)]
  · exact h.next_iff.mp (UserFrames.next_iff_supplied.mp (by rw [hnext]; rfl))
  · have htwo := h.next_iff.mpr hsupplied
    rw [show 2 = 1 + 1 from rfl, UserFrames.supplied_add, List.drop_one] at htwo
    have hone := UserFrames.next_iff_supplied.mpr
      (show Supplied (withFrame t g).pageMap.answers 1 from htwo.2)
    rw [htable] at hone
    cases hone

/-- The loop that stops in pass `i` has not the frames for that pass. -/
theorem not_supplied_of_lt {n : Nat} (hi : i < n) {k : Nat}
    (hk : k ≤ blockCost m.memory location i)
    (hnot : ¬ Supplied m.pageMap.answers (blockFrames m.memory location i + k)) :
    ¬ Supplied m.pageMap.answers (blockFrames m.memory location n) := by
  intro hsupplied
  have hmono : blockFrames m.memory location (i + 1) ≤ blockFrames m.memory location n :=
    blockFrames_mono _ _ hi
  rw [blockFrames] at hmono
  exact hnot (UserFrames.Supplied.mono hsupplied (by omega))

end RunsOut

namespace SystemHeap
variable {s s' : SystemHeap} {p size : Word} {region : Option Word}

/-- **Regions.**  A `kmalloc` that fails leaves the reserved regions as they were, exactly
when it has got no region, or when there are frames for all of it (so that it does not
fail). -/
theorem kmalloc_regions_iff (h : TablesInUse s.machine)
    (hheap : ∀ loc, region = some loc → InHeap loc size)
    (hcall : s.kmalloc size region = some (p, s')) :
    (p = 0 → s'.regions = s.regions) ↔ ∀ loc, region = some loc →
      Supplied s.machine.pageMap.answers
        (blockFrames s.machine.memory loc (passCount size)) := by
  cases region with
  | none =>
    obtain ⟨rfl, rfl⟩ := Prod.mk.inj (Option.some.inj hcall)
    exact iff_of_true (fun _ => rfl) fun loc heq => (by cases heq)
  | some loc =>
    have hin := hheap loc rfl
    have hne : loc ≠ 0 := by
      rintro rfl
      exact absurd hin.1 (by decide)
    rw [kmalloc_some] at hcall
    obtain ⟨⟨status, m'⟩, hblock, heq⟩ := Option.map_eq_some_iff.mp hcall
    obtain ⟨rfl, rfl⟩ := Prod.mk.inj heq
    have hforall : (∀ loc', some loc = some loc' → Supplied s.machine.pageMap.answers
        (blockFrames s.machine.memory loc' (passCount size))) ↔
          Supplied s.machine.pageMap.answers
            (blockFrames s.machine.memory loc (passCount size)) := by
      constructor
      · exact fun hall => hall loc rfl
      · rintro hsupplied loc' heq
        rwa [← Option.some.inj heq]
    rw [hforall]
    -- the region stays reserved when the call fails
    have hlost : ¬ ((loc, size) :: s.regions = s.regions) := List.cons_ne_self _ _
    cases mapBlock_cases h hin.2 hblock with
    | maps hmapped hsupplied => exact iff_of_true (fun hzero => absurd hzero hne) hsupplied.supplied
    | noFrame i t hi hmapped hsupplied habsent hnext =>
      refine iff_of_false (fun hkept => hlost (hkept rfl)) ?_
      exact not_supplied_of_lt hi (blockCost_pos habsent) (hsupplied.not_supplied_of_none hnext)
    | noTable i t g hi hmapped hsupplied habsent hnext hp htable =>
      obtain ⟨hcost, -, hnot⟩ := hsupplied.supplied_of_noTable habsent hnext hp htable
      refine iff_of_false (fun hkept => hlost (hkept rfl)) ?_
      exact not_supplied_of_lt hi hcost.ge hnot

/-- There is a frame for the page. -/
theorem kmalloc_regions_iff_emptyTable :
    ∃ s', SystemHeap.kmalloc ⟨emptyTable [some 4], []⟩ 64 (some 0xFF400000) =
        some (0xFF400000, s') ∧
      (((0xFF400000 : Word) = 0 → s'.regions = []) ↔
        ∀ loc, some 0xFF400000 = some loc → Supplied [some 4]
          (blockFrames emptyMemory loc (passCount 64))) := by
  have h := tablesInUse_emptyTable [some 4] (by decide) (by decide)
  obtain ⟨m', -, hcall⟩ := kmalloc_emptyTable 0xFF400000 64 (by decide)
    (by decide) (by decide) (show (emptyTable [some 4]).pageMap.next = some 4 from rfl)
  refine ⟨_, hcall, kmalloc_regions_iff h ?_ hcall⟩
  rintro loc heq
  obtain rfl := Option.some.inj heq
  decide

/-- There is none, and the region stays reserved. -/
theorem not_regions_emptyTable :
    ¬ ∀ (s s' : SystemHeap) (size p : Word) (region : Option Word), TablesInUse s.machine →
      (∀ loc, region = some loc → InHeap loc size) → s.kmalloc size region = some (p, s') →
      p = 0 → s'.regions = s.regions := by
  intro hall
  have hpass := (mapBlockPass_emptyTable []
    (show BelowWindow 0xFF400000 by decide)).trans (mapNewPage_of_none rfl)
  have hblock : (emptyTable []).mapBlock 0xFF400000 64 = _ :=
    forPages_fails (by decide) (by decide) hpass
  have hcall := kmalloc_some ⟨emptyTable [], []⟩ 64 0xFF400000
  rw [hblock] at hcall
  have hin : ∀ loc, some (0xFF400000 : Word) = some loc → InHeap loc 64 := by
    rintro loc heq
    obtain rfl := Option.some.inj heq
    decide
  have hkept := hall _ _ _ _ _ (tablesInUse_emptyTable [] (by decide) (by decide)) hin hcall (by decide)
  exact List.cons_ne_self _ _ hkept

end SystemHeap

/-! ### The accounts of the frames -/

/-- The frames that were reserved in between are those now mapped at pages of the region
and those installed as tables. -/
def Accounts (m m' : Machine) (location size : Word) : Prop :=
  ∀ f, (f ∈ m'.pageMap.reserved ∧ f ∉ m.pageMap.reserved) ↔
    (∃ x, InRange location size x ∧ m'.memory.translate x = some f ∧
      m.memory.translate x ≠ some f) ∨
    (HoldsTable m'.memory f ∧ ¬ HoldsTable m.memory f)

/-- Where a page takes a frame and another for its table, there are both or none. -/
def PairsSupplied (m : Machine) (location size : Word) : Prop :=
  ∀ i, i < passCount size → blockCost m.memory location i = 2 →
    Supplied m.pageMap.answers (blockFrames m.memory location i + 1) →
      Supplied m.pageMap.answers (blockFrames m.memory location i + 2)

section Accounts
variable {m m' t : Machine} {location size : Word} {status : Status} {i : Nat} {f g : Frame}

/-- The pages mapped so far, and their tables, are all that has been reserved. -/
theorem BlockMapped.accounts (h : BlockMapped m location i t)
    (hends : EndsBelowWindow location size) (hi : i ≤ passCount size) (hm : TablesInUse m) :
    Accounts m t location size := by
  intro f
  constructor
  · rintro ⟨hin, hout⟩
    rcases h.spent f hin with hf | ⟨j, hj, hnone, hframe⟩ | hf
    · exact absurd hf hout
    · refine .inl ⟨_, inRange_pageAt (i := j) hends (by omega), ?_, ?_⟩
      · rw [translate_eq_view, hframe]
      · rw [translate_eq_view, hnone]
        exact fun heq => by cases heq
    · exact .inr ⟨hf, fun hold => hout (hm.reserved f hold)⟩
  · rintro (⟨x, hx, hshows, hnot⟩ | ⟨hf, hnot⟩)
    · have hbelow := belowWindow_of_inRange hends hx
      rw [translate_eq_view] at hshows hnot
      -- the page has changed, so it is one that the loop has mapped
      have hvisited : ∃ j, j < i ∧ SamePage (pageAt location j) x := by
        by_contra hno
        rw [h.others x hbelow fun j hj hsame => hno ⟨j, hj, hsame⟩] at hshows
        exact hnot hshows
      obtain ⟨j, hj, hsame⟩ := hvisited
      have hnone : m.memory.view (pageAt location j) = none := by
        rw [view_of_samePage hsame]
        by_contra hsome
        rw [h.kept x hbelow (Option.isSome_iff_ne_none.mpr hsome)] at hshows
        exact hnot hshows
      obtain ⟨g, user, hview, hout, hin⟩ := h.mapped j hj hnone
      rw [← view_of_samePage hsame, hview] at hshows
      obtain rfl := Option.some.inj hshows
      exact ⟨hin, hout⟩
    · exact ⟨h.inUse.reserved f hf, (h.tables f hf).resolve_left hnot⟩

/-- A frame that is reserved and has been forgotten. -/
structure Forgotten (m t : Machine) (location size : Word) (f : Frame) : Prop where
  reserved : f ∈ t.pageMap.reserved
  new : f ∉ m.pageMap.reserved
  notTable : ¬ HoldsTable t.memory f
  notShown : ∀ x, InRange location size x → t.memory.translate x = some f →
    m.memory.translate x = some f

theorem Forgotten.not_accounts (h : Forgotten m t location size f) :
    ¬ Accounts m t location size := by
  intro haccounts
  rcases (haccounts f).mp ⟨h.reserved, h.new⟩ with ⟨x, hx, hshows, hnot⟩ | ⟨hf, -⟩
  · exact hnot (h.notShown x hx hshows)
  · exact h.notTable hf

/-- `map_page` gets other frames, so what is forgotten stays so. -/
theorem Forgotten.mapNewPage {page : Word} (h : Forgotten m t location size f)
    (ht : TablesInUse t) (hends : EndsBelowWindow location size)
    (hnew : MapNewPage t page status m') : Forgotten m m' location size f := by
  cases hnew with
  | noFrame hnext => exact ⟨h.reserved, h.new, h.notTable, h.notShown⟩
  | noTable g hnext hp htable =>
    exact ⟨List.mem_cons_of_mem _ h.reserved, h.new, h.notTable, h.notShown⟩
  | maps g hnext hmaps =>
    obtain ⟨hunused, hfresh⟩ := ht.fresh.next hnext
    refine ⟨?_, h.new, ?_, fun x hx hshows => ?_⟩
    · exact hmaps.frames.grows (List.mem_cons_of_mem _ h.reserved)
    · intro hf
      exact h.notTable
        ((hmaps.frames.holdsTable_iff hfresh (List.mem_cons_of_mem _ h.reserved)).mp hf)
    · by_cases hsame : SamePage page x
      · rw [translate_eq_view, hmaps.maps x hsame, frameNumber_frameAddress] at hshows
        obtain rfl : g = f := Option.some.inj hshows
        exact absurd h.reserved hunused
      · refine h.notShown x hx ?_
        rw [translate_eq_view, hmaps.others x (belowWindow_of_inRange hends hx) hsame] at hshows
        rw [translate_eq_view]
        exact hshows

/-- The first frame of a pass of `mmap_callback` is forgotten. -/
theorem forgotten_of_pass {page : Word} (hm : TablesInUse m)
    (hends : EndsBelowWindow location size) (hnext : m.pageMap.next = some g)
    (hpass : MmapCallbackPass m page status m') : Forgotten m m' location size g := by
  cases hpass with
  | noFrame hnone =>
    rw [hnext] at hnone
    cases hnone
  | forgets g' hnext' hnew =>
    obtain rfl : g' = g := by
      rw [hnext] at hnext'
      exact (Option.some.inj hnext').symm
    have hforgot : Forgotten m (withFrame m g') location size g' :=
      ⟨List.mem_cons_self .., (hm.fresh.next hnext).1, hm.unused hnext, fun _ _ hshows => hshows⟩
    exact hforgot.mapNewPage (hm.withFrame hnext) hends hnew

theorem Forgotten.pass {page : Word} (h : Forgotten m t location size f) (ht : TablesInUse t)
    (hends : EndsBelowWindow location size) (hpass : MmapCallbackPass t page status m') :
    Forgotten m m' location size f := by
  cases hpass with
  | noFrame hnone => exact ⟨h.reserved, h.new, h.notTable, h.notShown⟩
  | forgets g hnext hnew =>
    have hforgot : Forgotten m (withFrame t g) location size f :=
      ⟨List.mem_cons_of_mem _ h.reserved, h.new, h.notTable, h.notShown⟩
    exact hforgot.mapNewPage (ht.withFrame hnext) hends hnew

theorem TablesInUse.pass {page : Word} (ht : TablesInUse t)
    (hpass : MmapCallbackPass t page .enone m') : TablesInUse m' := by
  cases hpass with
  | forgets g hnext hnew =>
    cases hnew with
    | maps g' hnext' hmaps => exact ((ht.withFrame hnext).withFrame hnext').mapsTo hmaps

/-- A frame, and a page to be mapped, is enough for `mmap_callback` to lose it. -/
theorem forgotten_of_mmapCallback (hm : TablesInUse m) (hends : EndsBelowWindow location size)
    (hsize : 0 < passCount size) (hnext : m.pageMap.next = some g)
    (hcall : m.mmapCallback location size = some (status, m')) :
    Forgotten m m' location size g := by
  have hzero : BitVec.ofNat 32 (4096 * 0) = (0 : Word) := rfl
  rw [Machine.mmapCallback, ← hzero] at hcall
  rcases forPages_cases hends
    (fun i t => TablesInUse t ∧ (i = 0 ∧ t = m ∨ Forgotten m t location size g)) (by
      rintro i t t' hi ⟨ht, hinv⟩ hpass
      have hcases := ht.mmapCallbackPass_cases (belowWindow_pageAt hends hi) hpass
      refine ⟨ht.pass hcases, .inr ?_⟩
      rcases hinv with ⟨-, rfl⟩ | hforgot
      · exact forgotten_of_pass ht hends hnext hcases
      · exact hforgot.pass ht hends hcases)
    (Nat.zero_le _) ⟨hm, .inl ⟨rfl, rfl⟩⟩ hcall
    with ⟨-, -, hinv⟩ | ⟨-, i, t, hi, ⟨ht, hinv⟩, hpass⟩
  · rcases hinv with ⟨hnone, -⟩ | hforgot
    · omega
    · exact hforgot
  · have hcases := ht.mmapCallbackPass_cases (belowWindow_pageAt hends hi) hpass
    rcases hinv with ⟨-, rfl⟩ | hforgot
    · exact forgotten_of_pass ht hends hnext hcases
    · exact hforgot.pass ht hends hcases

theorem mmapCallback_accounts (h : TablesInUse m) (hends : EndsBelowWindow location size)
    (hcall : m.mmapCallback location size = some (status, m')) :
    Accounts m m' location size ↔ size = 0 ∨ m.pageMap.next = none := by
  have hself : Accounts m m location size :=
    (BlockMapped.zero h location).accounts hends (Nat.zero_le _) h
  by_cases hsize : size = 0
  · refine iff_of_true ?_ (.inl hsize)
    subst hsize
    rw [Machine.mmapCallback, forPages_of_le (by decide)] at hcall
    obtain ⟨rfl, rfl⟩ := Prod.mk.inj (Option.some.inj hcall)
    exact hself
  · have hpos := (toNat_last hends hsize).2
    rcases Option.eq_none_or_eq_some m.pageMap.next with hnext | ⟨g, hnext⟩
    · refine iff_of_true ?_ (.inr hnext)
      have hlt : (0 : Word) < size := by
        rw [BitVec.lt_def]
        exact hpos
      rw [Machine.mmapCallback, show wrapAround = (2 ^ 20 - 1) + 1 from rfl,
        forPages_of_ne hlt (by decide) (mmapCallbackPass_of_none hnext)] at hcall
      obtain ⟨rfl, rfl⟩ := Prod.mk.inj (Option.some.inj hcall)
      exact hself
    · have hcount : 0 < passCount size := by
        rw [passCount]
        omega
      refine iff_of_false (forgotten_of_mmapCallback h hends hcount hnext hcall).not_accounts ?_
      rintro (hzero | hnone)
      · exact hsize hzero
      · rw [hnext] at hnone
        cases hnone

theorem mapBlock_accounts (h : TablesInUse m) (hends : EndsBelowWindow location size)
    (hcall : m.mapBlock location size = some (status, m')) :
    Accounts m m' location size ↔ PairsSupplied m location size := by
  cases mapBlock_cases h hends hcall with
  | maps hmapped hsupplied =>
    refine iff_of_true (hmapped.accounts hends le_rfl h) fun i hi hcost _ => ?_
    have hmono : blockFrames m.memory location (i + 1) ≤ _ := blockFrames_mono _ location hi
    rw [blockFrames, hcost] at hmono
    exact UserFrames.Supplied.mono hsupplied.supplied hmono
  | noFrame i t hi hmapped hsupplied habsent hnext =>
    refine iff_of_true (hmapped.accounts hends hi.le h) fun j hj hcost hone => ?_
    have hnot := hsupplied.not_supplied_of_none hnext
    rcases Nat.lt_or_ge j i with hlt | hge
    · have hmono : blockFrames m.memory location (j + 1) ≤ _ := blockFrames_mono _ location hlt
      rw [blockFrames, hcost] at hmono
      exact UserFrames.Supplied.mono hsupplied.supplied hmono
    · have hmono := blockFrames_mono m.memory location hge
      exact absurd (UserFrames.Supplied.mono hone (by omega)) hnot
  | noTable i t g hi hmapped hsupplied habsent hnext hp htable =>
    obtain ⟨hcost, hone, hnot⟩ := hsupplied.supplied_of_noTable habsent hnext hp htable
    refine iff_of_false (fun haccounts => ?_) fun hpairs => hnot (hpairs i hi hcost hone)
    have hunused := (hmapped.inUse.fresh.next hnext).1
    have hout : g ∉ m.pageMap.reserved := fun hg => hunused (hmapped.grows g hg)
    -- the frame is not among those the tables account for
    have hused := (haccounts g).mp ⟨List.mem_cons_self .., hout⟩
    exact hunused ((hmapped.accounts hends hi.le h g).mpr hused).1

/-- **Accounts.**  After `mmap_callback` they balance exactly when it had nothing to map or
no frame to begin with; after `map_block` exactly when a page that takes a table as well
never gets its frame without one for the table. -/
theorem accounts_iff (h : TablesInUse m) (hends : EndsBelowWindow location size) :
    (m.mmapCallback location size = some (status, m') →
      (Accounts m m' location size ↔ size = 0 ∨ m.pageMap.next = none)) ∧
    (m.mapBlock location size = some (status, m') →
      (Accounts m m' location size ↔ PairsSupplied m location size)) :=
  ⟨mmapCallback_accounts h hends, mapBlock_accounts h hends⟩

end Accounts

/-- One page: `map_block` takes the one frame, `mmap_callback` takes two and loses the
first. -/
theorem accounts_iff_emptyTable :
    (∃ m', (emptyTable [some 4, some 5]).mmapCallback 0xFF400000 4096 = some (.enone, m') ∧
      (Accounts (emptyTable [some 4, some 5]) m' 0xFF400000 4096 ↔
        (4096 : Word) = 0 ∨ (emptyTable [some 4, some 5]).pageMap.next = none)) ∧
    ∃ m', (emptyTable [some 4, some 5]).mapBlock 0xFF400000 4096 = some (.enone, m') ∧
      (Accounts (emptyTable [some 4, some 5]) m' 0xFF400000 4096 ↔
        PairsSupplied (emptyTable [some 4, some 5]) 0xFF400000 4096) := by
  have h := tablesInUse_emptyTable [some 4, some 5] (by decide) (by decide)
  have hends : EndsBelowWindow 0xFF400000 4096 := by decide
  constructor
  · obtain ⟨m', hmap⟩ := mapNewPage_emptyTable (m := withFrame (emptyTable [some 4, some 5]) 4)
      (g := 5) 0xFF400000 (by decide) rfl rfl
    have hcall : (emptyTable [some 4, some 5]).mmapCallback 0xFF400000 4096 = some (.enone, m') :=
      forPages_one (by decide) (by decide) ((mmapCallbackPass_of_some (g := 4) rfl).trans hmap)
    exact ⟨m', hcall, (accounts_iff h hends).1 hcall⟩
  · obtain ⟨m', hblock⟩ := mapBlock_emptyTable 0xFF400000 4096 (by decide) (by decide) (by decide)
      (show (emptyTable [some 4, some 5]).pageMap.next = some 4 from rfl)
    exact ⟨m', hblock, (accounts_iff h hends).2 hblock⟩

/-- Neither function accounts for all frames: `mmap_callback` forgets one for each page, and
`map_block` the frame of the page that has no table. -/
theorem not_accounts_emptyTable :
    (¬ ∀ (m m' : Machine) (location size : Word) (status : Status), TablesInUse m →
      EndsBelowWindow location size → m.mmapCallback location size = some (status, m') →
      Accounts m m' location size) ∧
    ¬ ∀ (m m' : Machine) (location size : Word) (status : Status), TablesInUse m →
      EndsBelowWindow location size → m.mapBlock location size = some (status, m') →
      Accounts m m' location size := by
  constructor
  · intro hall
    have h := tablesInUse_emptyTable [some 4, some 5] (by decide) (by decide)
    obtain ⟨m', hmap⟩ := mapNewPage_emptyTable (m := withFrame (emptyTable [some 4, some 5]) 4)
      (g := 5) 0xFF400000 (by decide) rfl rfl
    have hcall : (emptyTable [some 4, some 5]).mmapCallback 0xFF400000 4096 = some (.enone, m') :=
      forPages_one (by decide) (by decide) ((mmapCallbackPass_of_some (g := 4) rfl).trans hmap)
    have hforgot := forgotten_of_mmapCallback h (by decide) (by decide) (g := 4) rfl hcall
    exact hforgot.not_accounts (hall _ _ _ _ _ h (by decide) hcall)
  · intro hall
    have h := tablesInUse_emptyTable [some 4] (by decide) (by decide)
    have hd : dirIndex 0xFF800000 ≠ 1023 := by decide
    have hmap : (emptyTable [some 4]).mapNewPage 0xFF800000 = _ :=
      (mapNewPage_of_some (g := 4) rfl).trans (Machine.mapPage_of_none
        pageTree_emptyMemory.self hd (by decide) (by decide) rfl)
    have hcall : (emptyTable [some 4]).mapBlock 0xFF800000 4096 = _ :=
      forPages_fails (by decide) (by decide) ((mapBlockPass_emptyTable [some 4] hd).trans hmap)
    have hused := (hall _ _ _ _ _ h (by decide) hcall 4).mp (by decide)
    rcases hused with ⟨x, hx, hshows, -⟩ | ⟨htable, -⟩
    · have hbelow : BelowWindow x :=
        belowWindow_of_inRange (by decide) hx
      have hshows : emptyMemory.translate x = some 4 := hshows
      rw [translate_eq_view, view_emptyMemory hbelow] at hshows
      cases hshows
    · exact absurd (holdsTable_emptyMemory htable) (by decide)

end QuarkKernel
