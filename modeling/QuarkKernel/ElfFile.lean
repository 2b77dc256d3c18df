import Mathlib.Data.BitVec
import Mathlib.Data.List.Flatten
import QuarkKernel.ChunkedLoad

/-! # ELF files

What a file says about the program in it: its `PT_LOAD` segments, read off the
headers.  A loader that goes through a segment page by page copies it in chunks of
4096 bytes, counted from `vaddr` on, wherever that is in its page. -/
namespace QuarkKernel

open ChunkedLoad (Chunk Disjoint)

/-- The bytes of a file. -/
abbrev ElfFile := List (BitVec 8)

/-- What a `PT_LOAD` header says. -/
structure Segment where
  offset : Nat
  vaddr : Nat
  filesize : Nat
  memsize : Nat
deriving DecidableEq, Repr

/-- The segment occupies address `x`. -/
def Segment.Covers (s : Segment) (x : Nat) : Prop := s.vaddr ≤ x ∧ x < s.vaddr + s.memsize

namespace ElfFile
variable (file : ElfFile)

def byteAt (i : Nat) : BitVec 8 := file.getD i 0
def halfAt (i : Nat) : BitVec 16 := file.byteAt (i + 1) ++ file.byteAt i
def wordAt (i : Nat) : BitVec 32 := file.halfAt (i + 2) ++ file.halfAt i

def phoffset : Nat := (file.wordAt 28).toNat
def phsize : Nat := (file.halfAt 42).toNat
def phcount : Nat := (file.halfAt 44).toNat

/-- Where program header `k` begins. -/
def programHeader (k : Nat) : Nat := file.phoffset + k * file.phsize

/-- Program header `k` has type `PT_LOAD`. -/
def isLoad (k : Nat) : Bool := file.wordAt (file.programHeader k) = 1

/-- The segment of program header `k`. -/
def segment (k : Nat) : Segment where
  offset := (file.wordAt (file.programHeader k + 4)).toNat
  vaddr := (file.wordAt (file.programHeader k + 8)).toNat
  filesize := (file.wordAt (file.programHeader k + 16)).toNat
  memsize := (file.wordAt (file.programHeader k + 20)).toNat

/-- The segments of `count` program headers from `k` on. -/
def segmentsFrom (k : Nat) : Nat → List Segment
  | 0 => []
  | count + 1 =>
      (if file.isLoad k then [file.segment k] else []) ++ segmentsFrom (k + 1) count

/-- The `PT_LOAD` segments, in the order of their headers. -/
def segments : List Segment := file.segmentsFrom 0 file.phcount

/-- The file is well formed: the headers are in it, and so are the file parts of the
segments, which do not overlap and end below the kernel. -/
structure WellFormed : Prop where
  header : 52 ≤ file.length
  entry : 32 ≤ file.phsize
  table : file.phoffset + file.phcount * file.phsize ≤ file.length
  filesize : ∀ s, s ∈ file.segments → s.filesize ≤ s.memsize
  inside : ∀ s, s ∈ file.segments → s.offset + s.filesize ≤ file.length
  user : ∀ s, s ∈ file.segments → s.vaddr + s.memsize ≤ 0xFF400000
  disjoint : file.segments.Pairwise fun s t => ∀ x, s.Covers x → ¬ t.Covers x

variable {file}

theorem mem_segmentsFrom {k count : Nat} {s : Segment} :
    s ∈ file.segmentsFrom k count ↔
      ∃ i, k ≤ i ∧ i < k + count ∧ file.isLoad i = true ∧ file.segment i = s := by
  induction count generalizing k with
  | zero =>
    constructor
    · intro h
      cases h
    · rintro ⟨i, hk, hi, -⟩
      omega
  | succ count ih =>
    rw [segmentsFrom, List.mem_append, ih]
    constructor
    · rintro (h | ⟨i, hk, hi, hload, hseg⟩)
      · split at h
        · rename_i hload
          exact ⟨k, le_refl k, by omega, hload, (List.mem_singleton.mp h).symm⟩
        · cases h
      · exact ⟨i, by omega, by omega, hload, hseg⟩
    · rintro ⟨i, hk, hi, hload, hseg⟩
      by_cases hik : i = k
      · subst hik
        rw [if_pos hload, hseg]
        exact .inl (List.mem_singleton_self s)
      · exact .inr ⟨i, by omega, by omega, hload, hseg⟩

end ElfFile

/-! ### Chunks -/

/-- The number of chunks of a segment. -/
def pagesOf (memsize : Nat) : Nat := (memsize + 4095) / 4096

section Chunks
variable (source : Nat → Option (BitVec 8)) (s : Segment)

/-- Chunk `k` of a segment; `source` is the memory the file begins in. -/
def chunk (k : Nat) : Chunk (BitVec 8) where
  dst := s.vaddr + 4096 * k
  len := min 4096 (s.memsize - 4096 * k)
  value j := source (s.offset + 4096 * k + j)

/-- `count` chunks from chunk `k` on. -/
def chunksFrom (k : Nat) : Nat → List (Chunk (BitVec 8))
  | 0 => []
  | count + 1 => chunk source s k :: chunksFrom (k + 1) count

/-- All chunks, in the order in which they are loaded. -/
def chunks (segments : List Segment) : List (Chunk (BitVec 8)) :=
  segments.flatMap fun s => chunksFrom source s 0 (pagesOf s.memsize)

variable {source s}

theorem mem_chunksFrom {c : Chunk (BitVec 8)} {k count : Nat} :
    c ∈ chunksFrom source s k count ↔ ∃ i, k ≤ i ∧ i < k + count ∧ c = chunk source s i := by
  induction count generalizing k with
  | zero =>
    constructor
    · intro h
      cases h
    · rintro ⟨i, hk, hi, -⟩
      omega
  | succ count ih =>
    rw [chunksFrom, List.mem_cons, ih]
    constructor
    · rintro (rfl | ⟨i, hk, hi, rfl⟩)
      · exact ⟨k, le_refl k, by omega, rfl⟩
      · exact ⟨i, by omega, by omega, rfl⟩
    · rintro ⟨i, hk, hi, rfl⟩
      by_cases hik : i = k
      · exact .inl (by rw [hik])
      · exact .inr ⟨i, by omega, by omega, rfl⟩

theorem mem_chunks {segments : List Segment} {c : Chunk (BitVec 8)} :
    c ∈ chunks source segments ↔
      ∃ s, s ∈ segments ∧ ∃ k, k < pagesOf s.memsize ∧ c = chunk source s k := by
  rw [chunks, List.mem_flatMap]
  constructor
  · rintro ⟨s, hs, hc⟩
    obtain ⟨k, -, hk, rfl⟩ := mem_chunksFrom.mp hc
    exact ⟨s, hs, k, by omega, rfl⟩
  · rintro ⟨s, hs, k, hk, rfl⟩
    exact ⟨s, hs, mem_chunksFrom.mpr ⟨k, by omega, by omega, rfl⟩⟩

theorem covers_chunk {k x : Nat} :
    (chunk source s k).Covers x ↔ s.Covers x ∧ s.vaddr + 4096 * k ≤ x ∧
      x < s.vaddr + 4096 * k + 4096 := by
  unfold Chunk.Covers Segment.Covers chunk
  dsimp only
  omega

/-- Each byte of a chunk has its place in the segment. -/
theorem value_chunk {k x : Nat} (h : (chunk source s k).Covers x) :
    (chunk source s k).value (x - (chunk source s k).dst) =
      source (s.offset + (x - s.vaddr)) := by
  obtain ⟨-, hlow, -⟩ := covers_chunk.mp h
  show source (s.offset + 4096 * k + (x - (s.vaddr + 4096 * k))) = _
  congr 1
  omega

/-- A chunk begins within its segment. -/
theorem covers_dst {k : Nat} (hk : k < pagesOf s.memsize) :
    (chunk source s k).Covers (chunk source s k).dst := by
  unfold pagesOf at hk
  unfold Chunk.Covers chunk
  dsimp only
  omega

/-- The chunks make up the segment. -/
theorem exists_chunk {x : Nat} (h : s.Covers x) :
    ∃ k, k < pagesOf s.memsize ∧ (chunk source s k).Covers x := by
  refine ⟨(x - s.vaddr) / 4096, ?_, covers_chunk.mpr ⟨h, ?_⟩⟩
  · unfold Segment.Covers at h
    unfold pagesOf
    omega
  · unfold Segment.Covers at h
    omega

theorem disjoint_chunks {segments : List Segment}
    (h : segments.Pairwise fun s t => ∀ x, s.Covers x → ¬ t.Covers x) :
    Disjoint (chunks source segments) := by
  have hchunks : ∀ s k count, (chunksFrom source s k count).Pairwise
      fun c c' => ∀ x, c.Covers x → ¬ c'.Covers x := by
    intro s k count
    induction count generalizing k with
    | zero => exact .nil
    | succ count ih =>
      refine List.pairwise_cons.mpr ⟨?_, ih (k + 1)⟩
      intro c' hc' x hx hx'
      obtain ⟨i, hi, -, rfl⟩ := mem_chunksFrom.mp hc'
      have hlow := (covers_chunk.mp hx).2
      have hhigh := (covers_chunk.mp hx').2
      omega
  refine List.pairwise_flatMap.mpr ⟨fun s _ => hchunks s 0 _, h.imp ?_⟩
  intro s t hst c hc c' hc' x hx hx'
  obtain ⟨i, -, -, rfl⟩ := mem_chunksFrom.mp hc
  obtain ⟨j, -, -, rfl⟩ := mem_chunksFrom.mp hc'
  exact hst x (covers_chunk.mp hx).1 (covers_chunk.mp hx').1

end Chunks
end QuarkKernel
