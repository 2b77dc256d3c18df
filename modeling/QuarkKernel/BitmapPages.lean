import QuarkKernel.HeapMapping
import QuarkKernel.MemoryMap

/-! # The pages of the bitmap

The pages of the bitmap behind `page_map` are mapped before there is a `page_map` to take
frames from.  The frames come straight from the boot map: each pass of the loops takes the
next one, as the table of the page or as the page itself, whichever is missing.

Each frame has its place: the pass for a table comes before the one for the first page in
it (`tablePlace`, `pagePlace`).  `BitmapMapped` is what holds between the passes.  A frame
that is taken as a table has to be new (`mapBitmapPages_mapped`); what is known about it,
before or after the loops, is left to those who use this. -/
namespace QuarkKernel
open PagedMemory

/-- The loop over the levels of one page, with what it adds to `pages_mapped`, or none if
it returns `ENOMEM`.  `page_table_levels` is 2. -/
def mapBitmapPage (m : PagedMemory) (page location : Word) : Option (Option Nat × PagedMemory) := do
  let type ← getPteType m page 0
  if !hasFlag type pagePresent then
    let (status, m) ← setPte m page 0 (pagePresent ||| pageRw) location
    -- level 0 is not the last, so the page does not count yet
    if status ≠ 0 then some (none, m) else some (some 0, m)
  else
    let type ← getPteType m page 1
    if !hasFlag type pagePresent then
      let (status, m) ← setPte m page (pageTableLevels - 1) (pagePresent ||| pageRw) location
      if status ≠ 0 then some (none, m) else some (some 1, m)
    else some (some 1, m)

/-- The loops over the map, with the position they end at and the number of pages mapped.
`fuel` bounds the tests they make. -/
def mapBitmapPages (insert : InsertRegion) (base : Word) (pagesNeeded : Nat) :
    Nat → Scan → Nat → PagedMemory → Option (Status × Scan × Nat × PagedMemory)
  | 0, _, _, _ => none
  | fuel + 1, scan, pagesMapped, m =>
      if pagesMapped < pagesNeeded then
        match scan.step insert with
        | none => some (.enone, scan, pagesMapped, m)
        | some (none, next) => mapBitmapPages insert base pagesNeeded fuel next pagesMapped m
        | some (some location, next) => do
            let (mapped, m) ← mapBitmapPage m (pageAt base pagesMapped) location
            match mapped with
            | none => some (.enomem, scan, pagesMapped, m)
            | some count =>
                mapBitmapPages insert base pagesNeeded fuel next (pagesMapped + count) m
      else some (.enone, scan, pagesMapped, m)

/-! ### Entries that are present -/

/-- What is present stays as it is. -/
structure Keeps (t t' : PagedMemory) : Prop where
  cr3 : t'.cr3 = t.cr3
  entry : ∀ g i, (t.entry g i).present = true → t'.entry g i = t.entry g i

namespace Keeps
variable {t t1 t' : PagedMemory} {g : Frame} {i : BitVec 10} {x ptr page : Word} {e : Entry}
  {level : Nat}

theorem refl (t : PagedMemory) : Keeps t t := ⟨rfl, fun _ _ _ => rfl⟩

theorem trans (h : Keeps t t1) (h' : Keeps t1 t') : Keeps t t' where
  cr3 := h'.cr3.trans h.cr3
  entry g i hp := by
    have heq := h.entry g i hp
    rw [h'.entry g i (by rw [heq]; exact hp), heq]

/-- An entry that was absent at first may change. -/
theorem setEntry (h : Keeps t t1) (hp : (t.entry g i).present = false) (e : Entry) :
    Keeps t (t1.setEntry g i e) where
  cr3 := h.cr3
  entry g' i' hp' := by
    have hne : ¬ (g' = g ∧ i' = i) := by
      rintro ⟨rfl, rfl⟩
      rw [hp] at hp'
      cases hp'
    rw [entry_setEntry_of_ne _ _ hne]
    exact h.entry g' i' hp'

theorem pde (h : Keeps t t1) (hp : (t.pde x).present = true) : t1.pde x = t.pde x := by
  rw [PagedMemory.pde, h.cr3]
  exact h.entry _ _ hp

theorem pte (h : Keeps t t1) (hp : (t.pde x).present = true) (hpte : (t.pte x).present = true) :
    t1.pte x = t.pte x := by
  rw [PagedMemory.pte, h.pde hp]
  exact h.entry _ _ hpte

/-- An address that can be read has the same frame. -/
theorem frameOf (h : Keeps t t1) (hframe : t.frameOf false x = some g) (write : Bool) :
    t1.frameOf write x = t.frameOf write x := by
  rw [PagedMemory.frameOf, Option.ite_none_right_eq_some, Bool.and_eq_true, Entry.permits,
    Bool.and_eq_true, Entry.permits, Bool.and_eq_true] at hframe
  obtain ⟨⟨⟨hp, -⟩, hpte, -⟩, -⟩ := hframe
  rw [PagedMemory.frameOf, h.pde hp, h.pte hp hpte, PagedMemory.frameOf]

theorem loadEntry (h : Keeps t t1) (hload : t.loadEntry x = some e) (hp : e.present = true) :
    t1.loadEntry x = some e := by
  obtain ⟨g, hframe, rfl⟩ := Option.map_eq_some_iff.mp hload
  rw [PagedMemory.loadEntry, h.frameOf hframe, hframe, Option.map_some, h.entry _ _ hp]

theorem modifyEntry {change : Entry → Entry} (h : Keeps t t1) (hload : t.loadEntry x = some e)
    (hp : e.present = false) (hmodify : t1.modifyEntry x change = some t') : Keeps t t' := by
  obtain ⟨g, hframe, rfl⟩ := Option.map_eq_some_iff.mp hload
  obtain ⟨e', -, hstore⟩ := Option.bind_eq_some_iff.mp hmodify
  obtain ⟨g', hframe', rfl⟩ := Option.map_eq_some_iff.mp hstore
  -- what can be written is in the frame that is read
  rw [h.frameOf hframe] at hframe'
  rw [PagedMemory.frameOf, Option.ite_none_right_eq_some] at hframe hframe'
  obtain rfl : g = g' := Option.some.inj (hframe.2.symm.trans hframe'.2)
  exact h.setEntry hp _

theorem getPtePointer (h : Keeps t t1) (hptr : getPtePointer t page level = some (some ptr)) :
    QuarkKernel.getPtePointer t1 page level = some (some ptr) := by
  rw [QuarkKernel.getPtePointer] at hptr ⊢
  split at hptr
  · rwa [if_pos ‹_›]
  · rw [if_neg ‹_›]
    split at hptr
    · rw [if_pos ‹_›]
      obtain ⟨e, hload, he⟩ := Option.bind_eq_some_iff.mp hptr
      split at he
      · rw [h.loadEntry hload ‹_›]
        exact (if_pos ‹_›).trans he
      · cases he
    · cases hptr

/-- An absent entry is set. -/
theorem setPte {type flags addr : Word} {status : Int}
    (htype : getPteType t page level = some type) (hp : hasFlag type pagePresent = false)
    (hset : setPte t page level flags addr = some (status, t')) : Keeps t t' := by
  obtain ⟨ptr, hptr, hread⟩ := Option.bind_eq_some_iff.mp htype
  obtain ⟨⟨status1, t1⟩, haddr, hrest⟩ := Option.bind_eq_some_iff.mp hset
  rw [setPteAddress, hptr] at haddr
  cases ptr with
  | none =>
    obtain ⟨rfl, rfl⟩ := Prod.mk.inj (Option.some.inj haddr)
    obtain ⟨-, rfl⟩ := Prod.mk.inj (Option.some.inj hrest)
    exact refl t
  | some ptr =>
    obtain ⟨e, hload, rfl⟩ := Option.map_eq_some_iff.mp hread
    rw [hasFlag_entryFlags_present] at hp
    have haddr : (t.modifyEntry ptr _).bind _ = some (status1, t1) := haddr
    obtain ⟨t1', hmodify, heq⟩ := Option.bind_eq_some_iff.mp haddr
    obtain ⟨rfl, rfl⟩ := Prod.mk.inj (Option.some.inj heq)
    have h1 := (refl t).modifyEntry hload hp hmodify
    have hrest : setPteType t1' page level flags = some (status, t') := hrest
    rw [setPteType, h1.getPtePointer hptr] at hrest
    have hrest : (t1'.modifyEntry ptr _).bind _ = some (status, t') := hrest
    obtain ⟨t2, hmodify2, hrest⟩ := Option.bind_eq_some_iff.mp hrest
    obtain ⟨t3, hmodify3, hrest⟩ := Option.bind_eq_some_iff.mp hrest
    obtain ⟨t4, hmodify4, hrest⟩ := Option.bind_eq_some_iff.mp hrest
    obtain ⟨-, rfl⟩ := Prod.mk.inj (Option.some.inj hrest)
    have h2 := h1.modifyEntry hload hp hmodify2
    have h3 := h2.modifyEntry hload hp hmodify3
    exact h3.modifyEntry hload hp hmodify4

end Keeps

/-- The entry that a pass sets. -/
def bitmapEntry (e : Entry) (f : Frame) : Entry where
  present := true
  rw := true
  usermode := false
  other := e.other
  physicalAddress := f

/-- The memory with frame `f` as the table of the page. -/
def bitmapTable (t : PagedMemory) (page : Word) (f : Frame) : PagedMemory :=
  t.setEntry t.cr3 (dirIndex page) (bitmapEntry (t.pde page) f)

/-- What a pass does to the memory with frame `f`, and what it adds to `pages_mapped`. -/
inductive BitmapPass (t : PagedMemory) (page : Word) (f : Frame) : Nat → PagedMemory → Prop
  | table (hp : (t.pde page).present = false) :
      BitmapPass t page f 0 (bitmapTable t page f)
  | entry (hp : (t.pde page).present = true) (hpte : (t.pte page).present = false)
      (hrw : (t.pde page).rw = true) :
      BitmapPass t page f 1 (t.setEntry (t.pde page).physicalAddress (tableIndex page)
        (bitmapEntry (t.pte page) f))
  | found (hp : (t.pde page).present = true) (hpte : (t.pte page).present = true) :
      BitmapPass t page f 1 t

section Pass
variable {t t' : PagedMemory} {page location : Word} {mapped : Option Nat}

theorem BitmapPass.of_absent {f : Frame} {count : Nat} (hpass : BitmapPass t page f count t')
    (hp : (t.pde page).present = false) : t' = bitmapTable t page f := by
  cases hpass with
  | table => rfl
  | entry hp' =>
    rw [hp] at hp'
    cases hp'
  | found hp' =>
    rw [hp] at hp'
    cases hp'

/-- **The passes.**  None returns `ENOMEM`. -/
theorem mapBitmapPage_cases (h : PageTables t) (hpage : BelowWindow page)
    (hcall : mapBitmapPage t page location = some (mapped, t')) :
    ∃ count, mapped = some count ∧ BitmapPass t page (frameNumber location) count t' := by
  rw [mapBitmapPage, h.getPteType_directory] at hcall
  have hcall : (if (!hasFlag (entryFlags (t.pde page)) pagePresent) = true then
      (setPte t page 0 _ _).bind _ else (getPteType t page 1).bind _) = some (mapped, t') := hcall
  rw [hasFlag_entryFlags_present] at hcall
  cases hp : (t.pde page).present with
  | false =>
    rw [hp, if_pos Bool.not_false] at hcall
    obtain ⟨r, hset, hrest⟩ := Option.bind_eq_some_iff.mp hcall
    obtain ⟨m1, hmodify⟩ := modifyEntry_of_setPte (getPtePointer_directory _ page) hset
    obtain ⟨hdir, -, -⟩ := index_directoryEntry (toNat_directoryIndex page)
    rw [setPte_directory (h.selfMapped_of_modifyEntry hdir hmodify).1 hpage] at hset
    obtain rfl := Option.some.inj hset
    obtain ⟨rfl, rfl⟩ := Prod.mk.inj (Option.some.inj hrest)
    exact ⟨0, rfl, .table hp⟩
  | true =>
    rw [hp, if_neg (by decide), h.getPteType_table, if_pos hp] at hcall
    have hcall : (if (!hasFlag (entryFlags (t.pte page)) pagePresent) = true then
        (setPte t page 1 _ _).bind _ else _) = some (mapped, t') := hcall
    rw [hasFlag_entryFlags_present] at hcall
    cases hpte : (t.pte page).present with
    | true =>
      rw [hpte, if_neg (by decide)] at hcall
      obtain ⟨rfl, rfl⟩ := Prod.mk.inj (Option.some.inj hcall)
      exact ⟨1, rfl, .found hp hpte⟩
    | false =>
      rw [hpte, if_pos Bool.not_false] at hcall
      obtain ⟨r, hset, hrest⟩ := Option.bind_eq_some_iff.mp hcall
      obtain ⟨hself, husable⟩ := h.usable_of_setPte hpage hp hset
      have hrw := husable.permits
      rw [Entry.permits, Bool.and_eq_true] at hrw
      rw [setPte_table hself hpage husable] at hset
      obtain rfl := Option.some.inj hset
      simp only [ne_eq, not_true_eq_false, if_false] at hrest
      obtain ⟨rfl, rfl⟩ := Prod.mk.inj (Option.some.inj hrest)
      exact ⟨1, rfl, .entry hp hpte hrw.2⟩

end Pass

/-! ### The frame for each page -/

section Places
variable (m : PagedMemory) (base : Word)

/-- The page is the first of the area that needs a table which is not there. -/
def opensTable (i : Nat) : Bool :=
  !(m.pde (pageAt base i)).present && (i = 0 || tableIndex (pageAt base i) = 0)

/-- The number of passes before page `i`. -/
def framesBefore : Nat → Nat
  | 0 => 0
  | i + 1 => framesBefore i + if opensTable m base i then 2 else 1

/-- The first page of the area in the same table. -/
def firstPage (i : Nat) : Nat := i - (tableIndex (pageAt base i)).toNat

/-- The pass that takes a frame for the table of page `i`. -/
def tablePlace (i : Nat) : Nat := framesBefore m base (firstPage base i)

/-- The pass after which page `i` counts as mapped. -/
def pagePlace (i : Nat) : Nat := framesBefore m base i + if opensTable m base i then 1 else 0

variable {m base} {i j k : Nat}

theorem framesBefore_succ : framesBefore m base (i + 1) = pagePlace m base i + 1 := by
  rw [framesBefore, pagePlace]
  split <;> omega

theorem framesBefore_le_pagePlace : framesBefore m base i ≤ pagePlace m base i :=
  Nat.le_add_right ..

theorem framesBefore_mono (h : i ≤ j) : framesBefore m base i ≤ framesBefore m base j := by
  induction h with
  | refl => exact le_rfl
  | step _ ih =>
    rw [framesBefore_succ]
    exact ih.trans (framesBefore_le_pagePlace.trans (Nat.le_succ _))

theorem pagePlace_lt (h : i < j) : pagePlace m base i < framesBefore m base j := by
  have hmono : framesBefore m base (i + 1) ≤ _ := framesBefore_mono h
  rw [framesBefore_succ] at hmono
  omega

theorem framesBefore_lt (h : i < j) : framesBefore m base i < framesBefore m base j :=
  framesBefore_le_pagePlace.trans_lt (pagePlace_lt h)

theorem framesBefore_inj (h : framesBefore m base i = framesBefore m base j) : i = j := by
  rcases Nat.lt_trichotomy i j with hlt | heq | hlt
  · exact absurd h (framesBefore_lt hlt).ne
  · exact heq
  · exact absurd h.symm (framesBefore_lt hlt).ne

/-- A frame is taken for a table or it is not. -/
theorem framesBefore_ne_pagePlace (hopens : opensTable m base i = true) :
    framesBefore m base i ≠ pagePlace m base j := by
  rcases Nat.lt_trichotomy i j with hlt | rfl | hlt
  · exact ((framesBefore_lt hlt).trans_le framesBefore_le_pagePlace).ne
  · rw [pagePlace, if_pos hopens]
    exact Nat.ne_of_lt (Nat.lt_succ_self _)
  · exact (pagePlace_lt hlt).ne'

variable {size : Word}

theorem firstPage_le : firstPage base i ≤ i := Nat.sub_le ..

section Area
variable (haligned : base % pageSize = 0) (hends : EndsBelowWindow base size)
include haligned hends

/-- The table of a page begins with the page, or with one before it. -/
theorem firstPage_spec (hi : i < passCount size) :
    dirIndex (pageAt base (firstPage base i)) = dirIndex (pageAt base i) ∧
      (firstPage base i = 0 ∨ tableIndex (pageAt base (firstPage base i)) = 0) := by
  have haddr := toNat_pageAt_of_lt hends hi
  have hle : firstPage base i ≤ i := firstPage_le
  have hfirst := toNat_pageAt_of_lt hends (hle.trans_lt hi)
  have hindex := tableIndex_toNat (pageAt base i)
  rw [aligned_iff] at haligned
  have hdef : firstPage base i = i - (tableIndex (pageAt base i)).toNat := rfl
  constructor
  · apply BitVec.eq_of_toNat_eq
    rw [dirIndex_toNat, dirIndex_toNat, haddr, hfirst]
    omega
  · rcases Nat.eq_zero_or_pos (firstPage base i) with hzero | hpos
    · exact .inl hzero
    · right
      apply BitVec.eq_of_toNat_eq
      rw [tableIndex_toNat, hfirst, show (0 : BitVec 10).toNat = 0 from rfl]
      omega

/-- Pages of one table begin with the same page. -/
theorem firstPage_congr (hi : i < passCount size) (hj : j < passCount size)
    (h : dirIndex (pageAt base i) = dirIndex (pageAt base j)) :
    firstPage base i = firstPage base j := by
  have hi' := toNat_pageAt_of_lt hends hi
  have hj' := toNat_pageAt_of_lt hends hj
  have hdir := congrArg BitVec.toNat h
  rw [aligned_iff] at haligned
  rw [dirIndex_toNat, dirIndex_toNat, hi', hj'] at hdir
  rw [firstPage, firstPage, tableIndex_toNat, tableIndex_toNat, hi', hj']
  omega

theorem pde_firstPage (hi : i < passCount size) :
    m.pde (pageAt base (firstPage base i)) = m.pde (pageAt base i) := by
  rw [PagedMemory.pde, (firstPage_spec haligned hends hi).1, PagedMemory.pde]

theorem opensTable_firstPage (hi : i < passCount size)
    (hp : (m.pde (pageAt base i)).present = false) :
    opensTable m base (firstPage base i) = true := by
  rw [opensTable, pde_firstPage haligned hends hi, hp]
  rcases (firstPage_spec haligned hends hi).2 with hzero | hindex
  · rw [hzero]
    rfl
  · rw [hindex]
    simp

omit haligned hends in
theorem firstPage_of_opensTable (h : opensTable m base i = true) : firstPage base i = i := by
  rw [opensTable, Bool.and_eq_true, Bool.or_eq_true, decide_eq_true_eq, decide_eq_true_eq] at h
  rcases h.2 with rfl | hindex
  · exact Nat.zero_sub _
  · rw [firstPage, hindex]
    rfl

omit haligned hends in
theorem pde_of_opensTable (h : opensTable m base i = true) :
    (m.pde (pageAt base i)).present = false := by
  rw [opensTable, Bool.and_eq_true, Bool.not_eq_true'] at h
  exact h.1

/-- The frame for a table is not that of a page. -/
theorem tablePlace_ne_pagePlace (hi : i < passCount size)
    (hp : (m.pde (pageAt base i)).present = false) :
    tablePlace m base i ≠ pagePlace m base j :=
  framesBefore_ne_pagePlace (opensTable_firstPage haligned hends hi hp)

end Area
end Places

/-! ### The loop -/

/-- What was in the entry of page `i` before the loop, in the table it has now. -/
def oldEntry (m t : PagedMemory) (base : Word) (i : Nat) : Entry :=
  m.entry (t.pde (pageAt base i)).physicalAddress (tableIndex (pageAt base i))

/-- The loops have come to the listed frames, and `j` pages count as mapped. -/
structure BitmapMapped (m : PagedMemory) (base size : Word) (frames : List Frame) (j : Nat)
    (t : PagedMemory) : Prop where
  le : j ≤ passCount size
  tables : PageTables t
  length : frames.length = framesBefore m base j ∨
    j < passCount size ∧ opensTable m base j = true ∧ frames.length = pagePlace m base j
  outside : ∀ g, ¬ HoldsTable t g → ∀ i, t.entry g i = m.entry g i
  holds : ∀ g, HoldsTable t g → HoldsTable m g ∨ g ∈ frames
  rest : ∀ d, (∀ i, i < passCount size → dirIndex (pageAt base i) ≠ d) →
    t.entry t.cr3 d = m.entry m.cr3 d
  there : ∀ i, i < passCount size → (m.pde (pageAt base i)).present = true →
    t.pde (pageAt base i) = m.pde (pageAt base i)
  opened : ∀ i, i < passCount size → (m.pde (pageAt base i)).present = false →
    t.pde (pageAt base i) = (frames[tablePlace m base i]?).elim (m.pde (pageAt base i))
      (bitmapEntry (m.pde (pageAt base i)))
  found : ∀ i, i < passCount size → (t.pde (pageAt base i)).present = true →
    (j ≤ i ∨ (oldEntry m t base i).present = true) → t.pte (pageAt base i) = oldEntry m t base i
  entered : ∀ i, i < j → (t.pde (pageAt base i)).present = true ∧
    ((oldEntry m t base i).present = false → (t.pde (pageAt base i)).rw = true ∧
      ∃ f, frames[pagePlace m base i]? = some f ∧
        t.pte (pageAt base i) = bitmapEntry (oldEntry m t base i) f)

section Loop
variable {m t t' : PagedMemory} {base size : Word} {frames : List Frame} {i j k : Nat} {f g : Frame}

theorem BitmapMapped.start (h : PageTables m) : BitmapMapped m base size [] 0 m where
  le := Nat.zero_le _
  tables := h
  length := .inl rfl
  outside _ _ _ := rfl
  holds _ hg := .inl hg
  rest _ _ := rfl
  there _ _ _ := rfl
  opened _ _ _ := rfl
  found _ _ _ _ := rfl
  entered i hi := absurd hi (Nat.not_lt_zero i)

/-- One frame more does not move the others. -/
theorem getElem?_append_frame (hk : k ≠ frames.length) : (frames ++ [f])[k]? = frames[k]? := by
  rcases Nat.lt_or_gt_of_ne hk with hlt | hgt
  · exact List.getElem?_append_left hlt
  · rw [List.getElem?_eq_none (by rw [List.length_append, List.length_singleton]; omega),
      List.getElem?_eq_none (by omega)]

theorem getElem?_frame_append (hg : frames[k]? = some g) : (frames ++ [f])[k]? = some g := by
  rw [List.getElem?_append_left (List.getElem?_eq_some_iff.mp hg).1]
  exact hg

theorem BitmapMapped.pde_absent (h : BitmapMapped m base size frames j t) (hi : i < passCount size)
    (hp : (t.pde (pageAt base i)).present = false) :
    (m.pde (pageAt base i)).present = false ∧ frames[tablePlace m base i]? = none ∧
      t.pde (pageAt base i) = m.pde (pageAt base i) := by
  cases hm : (m.pde (pageAt base i)).present with
  | true =>
    rw [h.there i hi hm, hm] at hp
    cases hp
  | false =>
    have hpde := h.opened i hi hm
    cases hframe : frames[tablePlace m base i]? with
    | none =>
      rw [hframe] at hpde
      exact ⟨rfl, rfl, hpde⟩
    | some g =>
      rw [hpde, hframe] at hp
      cases hp

/-- The pass that opens a table. -/
theorem BitmapMapped.length_of_absent (h : BitmapMapped m base size frames j t)
    (haligned : base % pageSize = 0) (hends : EndsBelowWindow base size) (hj : j < passCount size)
    (hp : (t.pde (pageAt base j)).present = false) :
    opensTable m base j = true ∧ frames.length = framesBefore m base j := by
  obtain ⟨hm, hnone, -⟩ := h.pde_absent hj hp
  have hlen : frames.length ≤ framesBefore m base (firstPage base j) :=
    List.getElem?_eq_none_iff.mp hnone
  have hmono : framesBefore m base (firstPage base j) ≤ framesBefore m base j :=
    framesBefore_mono firstPage_le
  have hle : framesBefore m base j ≤ frames.length := by
    rcases h.length with heq | ⟨-, -, heq⟩
    · exact heq.ge
    · exact framesBefore_le_pagePlace.trans heq.ge
  have hfirst : firstPage base j = j := framesBefore_inj (by omega : framesBefore m base _ = _)
  have hopens := opensTable_firstPage haligned hends hj hm
  rw [hfirst] at hopens
  exact ⟨hopens, by omega⟩

/-- The pass that comes to the page itself. -/
theorem BitmapMapped.length_of_present (h : BitmapMapped m base size frames j t)
    (hj : j < passCount size) (hp : (t.pde (pageAt base j)).present = true) :
    frames.length = pagePlace m base j := by
  rcases h.length with heq | ⟨-, -, heq⟩
  · cases hopens : opensTable m base j with
    | false =>
      rw [pagePlace, hopens, if_neg Bool.false_ne_true, heq, Nat.add_zero]
    | true =>
      -- the table would have been opened by a pass that has not been made
      have hm := pde_of_opensTable hopens
      have hplace : tablePlace m base j = frames.length := by
        rw [tablePlace, firstPage_of_opensTable hopens, heq]
      rw [h.opened j hj hm, hplace, List.getElem?_eq_none le_rfl] at hp
      rw [show (m.pde (pageAt base j)).present = true from hp] at hm
      cases hm
  · exact heq

/-! ### A table for a page -/

section Table
variable {x page : Word}

theorem pde_bitmapTable (hd : dirIndex x = dirIndex page) :
    (bitmapTable t page f).pde x = bitmapEntry (t.pde page) f := by
  rw [PagedMemory.pde, hd]
  exact entry_setEntry_self ..

theorem pde_bitmapTable_of_ne (hd : dirIndex x ≠ dirIndex page) :
    (bitmapTable t page f).pde x = t.pde x :=
  entry_setEntry_of_ne t _ fun heq => hd heq.2

/-- Only the directory changes. -/
theorem entry_bitmapTable_of_ne (hg : g ≠ t.cr3) (i : BitVec 10) :
    (bitmapTable t page f).entry g i = t.entry g i :=
  entry_setEntry_of_ne t _ fun heq => hg heq.1

theorem pte_bitmapTable_of_ne (h : PageTables t) (hx : BelowWindow x)
    (hd : dirIndex x ≠ dirIndex page) (hp : (t.pde x).present = true) :
    (bitmapTable t page f).pte x = t.pte x := by
  rw [PagedMemory.pte, pde_bitmapTable_of_ne hd]
  exact entry_bitmapTable_of_ne (h.ne _ hx hp) _

theorem oldEntry_bitmapTable_of_ne (hd : dirIndex (pageAt base i) ≠ dirIndex page) :
    oldEntry m (bitmapTable t page f) base i = oldEntry m t base i := by
  rw [oldEntry, pde_bitmapTable_of_ne hd, oldEntry]

theorem newTable_bitmapTable (t : PagedMemory) (page : Word) (f : Frame) :
    NewTable t (bitmapTable t page f) page f where
  cr3 := rfl
  present := congrArg Entry.present (pde_bitmapTable rfl)
  frame := congrArg Entry.physicalAddress (pde_bitmapTable rfl)
  others _ hd := entry_setEntry_of_ne t _ fun heq => hd heq.2

end Table

/-- The place of the frame is the one for the tables of the pages that share the directory
entry. -/
theorem BitmapMapped.opened_table (h : BitmapMapped m base size frames j t)
    (haligned : base % pageSize = 0) (hends : EndsBelowWindow base size) (hj : j < passCount size)
    (hp : (t.pde (pageAt base j)).present = false) (hi : i < passCount size)
    (hpi : (m.pde (pageAt base i)).present = false) :
    (bitmapTable t (pageAt base j) f).pde (pageAt base i) =
      ((frames ++ [f])[tablePlace m base i]?).elim (m.pde (pageAt base i))
        (bitmapEntry (m.pde (pageAt base i))) := by
  obtain ⟨hopens, hlen⟩ := h.length_of_absent haligned hends hj hp
  obtain ⟨-, -, hold⟩ := h.pde_absent hj hp
  by_cases hd : dirIndex (pageAt base i) = dirIndex (pageAt base j)
  · have hplace : tablePlace m base i = frames.length := by
      rw [tablePlace, firstPage_congr haligned hends hi hj hd, firstPage_of_opensTable hopens,
        hlen]
    have hmi : m.pde (pageAt base i) = m.pde (pageAt base j) := by
      rw [PagedMemory.pde, hd, PagedMemory.pde]
    rw [pde_bitmapTable hd, hplace, List.getElem?_concat_length, Option.elim_some, hold, hmi]
  · have hplace : tablePlace m base i ≠ frames.length := by
      intro heq
      rw [hlen] at heq
      apply hd
      rw [← framesBefore_inj heq, (firstPage_spec haligned hends hi).1]
    rw [pde_bitmapTable_of_ne hd, getElem?_append_frame hplace]
    exact h.opened i hi hpi

/-- A pass that takes the frame as a table. -/
theorem BitmapMapped.table (h : BitmapMapped m base size frames j t)
    (haligned : base % pageSize = 0) (hends : EndsBelowWindow base size) (hj : j < passCount size)
    (hf : ¬ HoldsTable t f) (hp : (t.pde (pageAt base j)).present = false) :
    BitmapMapped m base size (frames ++ [f]) j (bitmapTable t (pageAt base j) f) := by
  have hbelow := belowWindow_pageAt hends hj
  have hnew := newTable_bitmapTable t (pageAt base j) f
  obtain ⟨hopens, hlen⟩ := h.length_of_absent haligned hends hj hp
  -- a page with a table has another directory entry
  have hdir : ∀ i, (t.pde (pageAt base i)).present = true →
      dirIndex (pageAt base i) ≠ dirIndex (pageAt base j) := by
    intro i hi heq
    rw [PagedMemory.pde, heq, ← PagedMemory.pde, hp] at hi
    cases hi
  constructor
  · exact h.le
  · exact hnew.pageTables h.tables hbelow hf
  · refine .inr ⟨hj, hopens, ?_⟩
    rw [List.length_append, List.length_singleton, hlen, pagePlace, if_pos hopens]
  · intro g hg i
    have hg' : ¬ HoldsTable t g := fun hold => hg ((hnew.holdsTable hbelow hp g).mpr (.inr hold))
    rw [entry_bitmapTable_of_ne (PageTables.new_ne hg')]
    exact h.outside g hg' i
  · intro g hg
    rcases (hnew.holdsTable hbelow hp g).mp hg with rfl | hg
    · exact .inr (List.mem_append_right _ (List.mem_singleton_self _))
    · exact (h.holds g hg).imp_right (List.mem_append_left _)
  · intro d hd
    exact (hnew.others d fun heq => hd j hj heq.symm).trans (h.rest d hd)
  · intro i hi hpi
    have hthere := h.there i hi hpi
    rw [pde_bitmapTable_of_ne (hdir i (by rw [hthere]; exact hpi)), hthere]
  · intro i hi hpi
    exact h.opened_table haligned hends hj hp hi hpi
  · intro i hi hpi hor
    by_cases hd : dirIndex (pageAt base i) = dirIndex (pageAt base j)
    · -- what the frame held is what is found in the table
      rw [PagedMemory.pte, oldEntry, pde_bitmapTable hd]
      exact (entry_bitmapTable_of_ne (PageTables.new_ne hf) _).trans (h.outside f hf _)
    · rw [pde_bitmapTable_of_ne hd] at hpi
      rw [oldEntry_bitmapTable_of_ne hd] at hor ⊢
      rw [pte_bitmapTable_of_ne h.tables (belowWindow_pageAt hends hi) hd hpi]
      exact h.found i hi hpi hor
  · intro i hi
    obtain ⟨hpi, hset⟩ := h.entered i hi
    have hd := hdir i hpi
    rw [pde_bitmapTable_of_ne hd, oldEntry_bitmapTable_of_ne hd,
      pte_bitmapTable_of_ne h.tables (belowWindow_pageAt hends (hi.trans hj)) hd hpi]
    refine ⟨hpi, fun habsent => ?_⟩
    obtain ⟨hrw, g, hg, hgset⟩ := hset habsent
    exact ⟨hrw, g, getElem?_frame_append hg, hgset⟩

/-- A pass that takes the frame as the page, or finds the page there. -/
theorem BitmapMapped.page (h : BitmapMapped m base size frames j t)
    (haligned : base % pageSize = 0) (hends : EndsBelowWindow base size) (hj : j < passCount size)
    (hp : (t.pde (pageAt base j)).present = true) (htables : PageTables t')
    (hholds : ∀ g, HoldsTable t' g ↔ HoldsTable t g)
    (houtside : ∀ g, ¬ HoldsTable t g → ∀ i, t'.entry g i = t.entry g i)
    (hdir : ∀ d, t'.entry t'.cr3 d = t.entry t.cr3 d)
    (hothers : ∀ i, i < passCount size → i ≠ j → (t.pde (pageAt base i)).present = true →
      t'.pte (pageAt base i) = t.pte (pageAt base i))
    (hself : (oldEntry m t base j).present = true ∧
        t'.pte (pageAt base j) = oldEntry m t base j ∨
      (oldEntry m t base j).present = false ∧ (t.pde (pageAt base j)).rw = true ∧
        t'.pte (pageAt base j) = bitmapEntry (oldEntry m t base j) f) :
    BitmapMapped m base size (frames ++ [f]) (j + 1) t' := by
  have hlen := h.length_of_present hj hp
  have hpde : ∀ x, t'.pde x = t.pde x := fun x => hdir _
  have hold : ∀ i, oldEntry m t' base i = oldEntry m t base i := by
    intro i
    rw [oldEntry, hpde, oldEntry]
  constructor
  · exact hj
  · exact htables
  · left
    rw [List.length_append, List.length_singleton, hlen, framesBefore_succ]
  · intro g hg i
    have hg' : ¬ HoldsTable t g := fun hold => hg ((hholds g).mpr hold)
    rw [houtside g hg' i]
    exact h.outside g hg' i
  · intro g hg
    exact (h.holds g ((hholds g).mp hg)).imp_right (List.mem_append_left _)
  · intro d hd
    exact (hdir d).trans (h.rest d hd)
  · intro i hi hpi
    rw [hpde]
    exact h.there i hi hpi
  · intro i hi hpi
    have hplace : tablePlace m base i ≠ frames.length := by
      rw [hlen]
      exact tablePlace_ne_pagePlace haligned hends hi hpi
    rw [hpde, getElem?_append_frame hplace]
    exact h.opened i hi hpi
  · intro i hi hpi hor
    rw [hpde] at hpi
    rw [hold] at hor ⊢
    by_cases hij : i = j
    · subst hij
      rcases hself with ⟨-, heq⟩ | ⟨habsent, -, -⟩
      · exact heq
      · rcases hor with hle | hpres
        · omega
        · rw [habsent] at hpres
          cases hpres
    · rw [hothers i hi hij hpi]
      exact h.found i hi hpi (hor.imp_left fun hle => by omega)
  · intro i hi
    rw [hpde, hold]
    by_cases hij : i = j
    · subst hij
      refine ⟨hp, fun habsent => ?_⟩
      rcases hself with ⟨hpres, -⟩ | ⟨-, hrw, heq⟩
      · rw [habsent] at hpres
        cases hpres
      · exact ⟨hrw, f, by rw [← hlen, List.getElem?_concat_length], heq⟩
    · obtain ⟨hpi, hset⟩ := h.entered i (by omega)
      rw [hothers i (by omega) hij hpi]
      refine ⟨hpi, fun habsent => ?_⟩
      obtain ⟨hrw, g, hg, hgset⟩ := hset habsent
      exact ⟨hrw, g, getElem?_frame_append hg, hgset⟩

/-- **One pass.** -/
theorem BitmapMapped.pass {count : Nat} (h : BitmapMapped m base size frames j t)
    (haligned : base % pageSize = 0) (hends : EndsBelowWindow base size) (hj : j < passCount size)
    (hf : (t.pde (pageAt base j)).present = false → ¬ HoldsTable t f)
    (hpass : BitmapPass t (pageAt base j) f count t') :
    BitmapMapped m base size (frames ++ [f]) (j + count) t' := by
  have hbelow := belowWindow_pageAt hends hj
  cases hpass with
  | table hp => exact h.table haligned hends hj (hf hp) hp
  | entry hp hpte hrw =>
    have hpteold := h.found j hj hp (.inl le_rfl)
    refine h.page haligned hends hj hp (h.tables.setEntry hbelow hp _)
      (h.tables.holdsTable_setPte hbelow hp _) ?_ (h.tables.entry_setPte hbelow hp _) ?_ (.inr ?_)
    · intro g hg i
      refine entry_setEntry_of_ne t _ ?_
      rintro ⟨rfl, -⟩
      exact hg (PageTables.holdsTable_pde hbelow hp)
    · intro i hi hij hpi
      have hne : ¬ SamePage (pageAt base j) (pageAt base i) := fun hsame =>
        hij (eq_of_samePage_of_lt hends hj hi hsame).symm
      exact (h.tables.walk_setPte_of_ne hbelow hp _ (belowWindow_pageAt hends hi) hne).2 hpi
    · rw [← hpteold]
      exact ⟨hpte, hrw, (h.tables.walk_setPte hbelow hp _ (rfl : SamePage _ _)).2⟩
  | found hp hpte =>
    have hpteold := h.found j hj hp (.inl le_rfl)
    refine h.page haligned hends hj hp h.tables (fun _ => Iff.rfl) (fun _ _ _ => rfl)
      (fun _ => rfl) (fun _ _ _ _ => rfl) (.inl ?_)
    rw [← hpteold]
    exact ⟨hpte, rfl⟩

end Loop

end QuarkKernel
