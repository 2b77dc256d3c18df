import QuarkKernel.AvailableFrames
import QuarkKernel.BitmapPages

/-! # `initialize_page_map`

When the call succeeds, the pages of the bitmap should be mapped writable, to frames of
their own that were available and are not any more (`Bootstrapped`).  Nothing in the loops
makes sure of it.  When the map has no frame left they end as if all was done
(`BitmapReady.supplied`), and a page that is mapped read-only counts as mapped
(`BitmapReady.writable`).  A new table is not cleared: what its frame held before is read
as entries, and a page that has one gets no frame of the map (`BitmapReady.stale`,
`BitmapReady.staleOnce`).  And when `location` wraps around, they go on with frames that
are not in the region, or that they have been to (`BitmapReady.available`,
`BitmapReady.once`).

These are all the ways for a call to go wrong (`bootstrapped_iff_bitmapReady`).  Where it is
known beforehand which frames the loops come to (`Scan.Predictable`), the frame for each page
and each table is known as well, and it is up to the number of frames in the map and the
entries that are in the memory before the call (`initializePageMap_bootstrapped_iff`). -/
namespace QuarkKernel
open PagedMemory
open Multiboot (Region RegionType)
open Scan (Reaches Predictable availableFrames)

/-- What `initialize_page_map` sets in `page_map`, but for the pointer to the cache. -/
structure PageMapDescriptor where
  blockSize : Word
  blockBits : Word
  offset : Word
  cacheCapacity : Word
  bitmap : Word
deriving DecidableEq, Repr

/-- The functions of libmalloc that are called.  `initialize_heap` fills in the bitmap;
`none` is a page fault. -/
structure Libmalloc where
  memmapInsertRegion : InsertRegion
  bitmapSize : MemoryMap → Word → Word → Word
  initializeHeap : PageMapDescriptor → MemoryMap → PagedMemory → Option Word

/-- `MAX_CACHE_SIZE` -/
def maxCacheSize : Word := 32

/-- `initialize_page_map`, with the map and the memory that `initialize_heap` is given.
`memory_size` is not used. -/
def initializePageMap (lib : Libmalloc) (fuel : Nat) (map : MemoryMap) (base blockSize : Word)
    (m : PagedMemory) : Option (Status × MemoryMap × PagedMemory) := do
  let pagesNeeded := ((lib.bitmapSize map blockSize 1 + pageSize - 1) / pageSize).toNat
  let (status, scan, _, m) ←
    mapBitmapPages lib.memmapInsertRegion base pagesNeeded fuel (.start map) 0 m
  if status = .enone then do
    let error ← lib.initializeHeap ⟨blockSize, 1, 0, maxCacheSize, base⟩ scan.map m
    if error ≠ 0 then some (.enomem, scan.map, m) else some (.enone, scan.map, m)
  else some (status, scan.map, m)

/-! ### What is asked of it -/

/-- What a frame is needed for: a page of the area, or the table for a directory entry. -/
inductive BitmapPart
  | page (i : Nat)
  | table (d : BitVec 10)
deriving DecidableEq, Repr

section Conditions
variable (insert : InsertRegion) (map : MemoryMap) (m : PagedMemory) (base size : Word)

/-- The entry for page `i` that the loops find: in the table that is there, or else in the
frame that they take as one. -/
def Finds (i : Nat) (e : Entry) : Prop :=
  if (m.pde (pageAt base i)).present then e = m.pte (pageAt base i)
  else ∃ f, Reaches insert map (tablePlace m base i) f ∧ e = m.entry f (tableIndex (pageAt base i))

/-- The frame that comes at place `k` is for this. -/
inductive Takes : BitmapPart → Nat → Prop
  | page {i : Nat} {e : Entry} (hi : i < passCount size) (hfinds : Finds insert map m base i e)
      (habsent : e.present = false) : Takes (.page i) (pagePlace m base i)
  | table {i : Nat} (hi : i < passCount size) (hopens : opensTable m base i = true) :
      Takes (.table (dirIndex (pageAt base i))) (framesBefore m base i)

end Conditions

/-! ### Where the loops end -/

section Ends
variable {insert : InsertRegion} {map : MemoryMap} {m t : PagedMemory} {base size : Word}
  {n i j k : Nat} {f : Frame} {e : Entry} {p : BitmapPart}

theorem Takes.lt (htakes : Takes insert map m base size p k) :
    k < framesBefore m base (passCount size) := by
  cases htakes with
  | page hi => exact pagePlace_lt hi
  | table hi => exact framesBefore_lt hi

section Done
variable (h : BitmapMapped m base size ((Scan.start map).after insert n).1 j t)
  (hdone : j = passCount size ∨ ((Scan.start map).after insert n).2.step insert = none)
include h hdone

end Done
end Ends

/-! ### The call -/

section Call
variable {insert : InsertRegion} {map : MemoryMap} {m t : PagedMemory} {base size : Word}
  {frames : List Frame} {j : Nat} {f : Frame}

/-- The loops leave the directory where it is. -/
theorem BitmapMapped.cr3 (h : BitmapMapped m base size frames j t) (hm : PageTables m)
    (hends : EndsBelowWindow base size) : t.cr3 = m.cr3 := by
  have hself := h.rest 1023 fun i hi => belowWindow_pageAt hends hi
  rw [← h.tables.frame, hself, hm.frame]

section New
variable (hm : PageTables m) (hfree : ∀ f, HoldsTable m f → ¬ map.Within f .available)
  (haligned : base % pageSize = 0) (hends : EndsBelowWindow base size)
include hm hfree haligned hends

end New

theorem pagesNeeded_eq (hends : EndsBelowWindow base size) :
    ((size + pageSize - 1) / pageSize).toNat = passCount size := by
  rw [EndsBelowWindow, show pageTables.toNat = 4290772992 from rfl] at hends
  rw [passCount, BitVec.toNat_udiv, BitVec.toNat_sub, BitVec.toNat_add,
    show pageSize.toNat = 4096 from rfl, show (1 : Word).toNat = 1 from rfl]
  omega

end Call

/-! ### The entries before the call -/

section Found
variable (m : PagedMemory) (base size : Word) (frames : List Frame)

end Found

section Predictable
variable {insert : InsertRegion} {map : MemoryMap} {m : PagedMemory} {base size : Word}
  {i k l : Nat} {e : Entry} {f : Frame} {p q : BitmapPart}

variable (hframes : Predictable insert map (framesBefore m base (passCount size)))
include hframes

end Predictable

/-- The bitmap is one word; filling it in succeeds. -/
def wordBitmap : Libmalloc where
  memmapInsertRegion := MemoryMap.insertRegion
  bitmapSize _ _ _ := 4
  initializeHeap _ _ _ := some 0

end QuarkKernel
