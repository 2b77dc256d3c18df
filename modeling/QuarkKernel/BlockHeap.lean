import Mathlib.Data.Multiset.AddSub
import Mathlib.Data.Multiset.UnionInter

/-! # Blocks and those who own them

A heap as its allocator sees it: which blocks are live.  What has been freed without
being live is kept in `stray`, and what has been freed while there still was a reference
to it in `early`.

`Accounted heap owned early` says that the live blocks are the owned ones, each owned
once, that no free was stray, and which were early.  An allocation brings in a block that
its caller owns, a free takes one away, and in between ownership only changes hands. -/

/-- The live blocks, those that were not live when they were freed, and those that were
still referred to. -/
structure BlockHeap (Block : Type) where
  live : Multiset Block
  stray : Multiset Block
  early : Multiset Block

namespace BlockHeap
variable {Block : Type}

/-- No block has been handed out. -/
def empty : BlockHeap Block := ⟨0, 0, 0⟩

/-- The allocator hands out `b`. -/
def alloc (heap : BlockHeap Block) (b : Block) : BlockHeap Block :=
  { heap with live := b ::ₘ heap.live }

/-- `b` is given back, while there are references to the given blocks. -/
def free [DecidableEq Block] (heap : BlockHeap Block) (referenced : Multiset Block) (b : Block) :
    BlockHeap Block where
  live := heap.live.erase b
  stray := if b ∈ heap.live then heap.stray else b ::ₘ heap.stray
  early := if b ∈ referenced then b ::ₘ heap.early else heap.early

/-- The live blocks are the owned ones, each once; no free was stray, and these were
early. -/
structure Accounted (heap : BlockHeap Block) (owned early : Multiset Block) : Prop where
  live : heap.live = owned
  nodup : owned.Nodup
  stray : heap.stray = 0
  early : heap.early = early

variable {heap : BlockHeap Block} {owned owned' referenced referenced' early : Multiset Block}
  {b : Block}

theorem accounted_empty : (empty : BlockHeap Block).Accounted 0 0 :=
  ⟨rfl, Multiset.nodup_zero, rfl, rfl⟩

/-- Ownership changes hands. -/
theorem Accounted.congr (h : heap.Accounted owned early) (hsame : owned' = owned) :
    heap.Accounted owned' early := by
  rw [hsame]
  exact h

theorem Accounted.alloc (h : heap.Accounted owned early) (hb : b ∉ heap.live) :
    (heap.alloc b).Accounted (b ::ₘ owned) early := by
  refine ⟨?_, ?_, h.stray, h.early⟩
  · show b ::ₘ heap.live = _
    rw [h.live]
  · rw [h.live] at hb
    exact Multiset.nodup_cons.mpr ⟨hb, h.nodup⟩

variable [DecidableEq Block]

/-- It only matters whether the block itself is referred to. -/
theorem free_congr (hsame : b ∈ referenced ↔ b ∈ referenced') :
    heap.free referenced b = heap.free referenced' b := by
  rw [free, free]
  simp only [hsame]

/-- A block is freed by its owner. -/
theorem Accounted.free_of_iff {leaf : Option Block} (h : heap.Accounted (b ::ₘ owned) early)
    (hleaf : leaf = none ∨ leaf = some b) (href : b ∈ referenced ↔ leaf = some b) :
    (heap.free referenced b).Accounted owned (leaf.toList + early) := by
  obtain ⟨-, hnodup⟩ := Multiset.nodup_cons.mp h.nodup
  refine ⟨?_, hnodup, ?_, ?_⟩
  · show heap.live.erase b = _
    rw [h.live, Multiset.erase_cons_head]
  · have hlive : b ∈ heap.live := by
      rw [h.live]
      exact Multiset.mem_cons_self b owned
    exact (if_pos hlive).trans h.stray
  · show (if b ∈ referenced then b ::ₘ heap.early else heap.early) = _
    rw [h.early]
    rcases hleaf with rfl | rfl
    · exact (if_neg fun hin => nomatch href.mp hin).trans (Multiset.zero_add early).symm
    · exact if_pos (href.mpr rfl)

/-- Only the other blocks are referred to any more. -/
theorem Accounted.free (h : heap.Accounted (b ::ₘ owned) early) (hsub : referenced ⊆ owned) :
    (heap.free referenced b).Accounted owned early := by
  have hnot : b ∉ referenced := fun hin => (Multiset.nodup_cons.mp h.nodup).1 (hsub hin)
  have hfreed := h.free_of_iff (.inl rfl) (iff_of_false hnot fun heq => nomatch heq)
  rwa [Option.toList_none, Multiset.coe_nil, Multiset.zero_add] at hfreed

end BlockHeap
