import QuarkKernel.Multiboot
import QuarkKernel.PageRoundTrip

/-! # The frames of a memory map

`initialize_page_map` has two loops: over the regions of a `memory_map_t`, and over the
frames of a region that is available.  The inner one types the frame it is at as
`M_UNAVAILABLE`, in the array that the outer one goes over.  A `Scan` is a position in
these loops, and `Scan.after` lists the frames they come to as long as nothing ends them
early.  Those are the frames that have been typed (`Scanned.after`).  As long as the 32-bit
addresses do not wrap around, each was available and none is listed twice
(`listed_of_staysInside`). -/
namespace QuarkKernel
open Multiboot (Region RegionType)

/-- `memory_map_t` -/
abbrev MemoryMap := List Region

/-- `memmap_insert_region` of libmalloc. -/
abbrev InsertRegion := MemoryMap → Word → Word → RegionType → MemoryMap

namespace MemoryMap

/-- The address is in a region of this type. -/
def Typed (map : MemoryMap) (x : Word) (type : RegionType) : Prop :=
  ∃ region ∈ map, region.type = type ∧ InRange region.location region.size x

/-- The frame is in regions of this type. -/
def Within (map : MemoryMap) (f : Frame) (type : RegionType) : Prop :=
  ∀ x, frameNumber x = f → map.Typed x type

/-- The frame has this type and no other. -/
def HasType (map : MemoryMap) (f : Frame) (type : RegionType) : Prop :=
  ∀ x, frameNumber x = f → ∀ t, map.Typed x t ↔ t = type

end MemoryMap

/-- What is relied on: `memmap_insert_region` gives the addresses from `location` on the new
type, and leaves all others alone. -/
def RetypesExactly (insert : InsertRegion) : Prop :=
  ∀ map location size type x t, (insert map location size type).Typed x t ↔
    if InRange location size x then t = type else map.Typed x t

/-- A position in the loops of `initialize_page_map`: `i` is `index`; inside the loop over
the frames, `region` has `location` and `region_end`. -/
structure Scan where
  map : MemoryMap
  index : Nat
  region : Option (Word × Word)

namespace Scan

/-- Before the first pass. -/
def start (map : MemoryMap) : Scan := ⟨map, 0, none⟩

section Loops
variable (insert : InsertRegion)

/-- One test of one of the loops, with `location` if it leads to a pass over a frame, and
the position after that pass.  There is none after the last region. -/
def step (s : Scan) : Option (Option Word × Scan) :=
  match s.region with
  | none =>
      match s.map[s.index]? with
      | none => none
      | some region =>
          if region.type ≠ .available then some (none, { s with index := s.index + 1 })
          else
            let location := (region.location + pageSize - 1) &&& ~~~(pageSize - 1)
            let regionEnd := region.location + region.size
            some (none, { s with region := some (location, regionEnd) })
  | some (location, regionEnd) =>
      if location + pageSize ≤ regionEnd then
        some (some location, { s with
          map := insert s.map location pageSize .unavailable
          region := some (location + pageSize, regionEnd) })
      else some (none, { s with index := s.index + 1, region := none })

/-- The frames of the first `n` steps, and the position after them. -/
def after (s : Scan) : Nat → List Frame × Scan
  | 0 => ([], s)
  | n + 1 =>
      match (s.after n).2.step insert with
      | none => s.after n
      | some (location, s') => ((s.after n).1 ++ (location.map frameNumber).toList, s')

/-- The loops come to `f` after `k` other frames. -/
def Reaches (map : MemoryMap) (k : Nat) (f : Frame) : Prop :=
  ∃ n, ((start map).after insert n).1[k]? = some f

/-- The loops only come to frames that are available: no address wraps around. -/
def StaysInside (map : MemoryMap) : Prop :=
  ∀ n location s', ((start map).after insert n).2.step insert = some (some location, s') →
    ((start map).after insert n).2.map.Within (frameNumber location) .available

end Loops

variable {insert : InsertRegion} {s s' : Scan} {map : MemoryMap} {n n' k : Nat} {f : Frame}

/-! ### The steps -/

/-- What a step of the loops does. -/
inductive ScanStep (insert : InsertRegion) : Scan → Option Word → Scan → Prop
  | skips {map : MemoryMap} {index : Nat} (region : Region) (hregion : map[index]? = some region)
      (htype : region.type ≠ .available) :
      ScanStep insert ⟨map, index, none⟩ none ⟨map, index + 1, none⟩
  | enters {map : MemoryMap} {index : Nat} (region : Region) (hregion : map[index]? = some region)
      (htype : region.type = .available) :
      ScanStep insert ⟨map, index, none⟩ none ⟨map, index,
        some ((region.location + pageSize - 1) &&& ~~~(pageSize - 1), region.location + region.size)⟩
  | passes {map : MemoryMap} {index : Nat} (location regionEnd : Word)
      (hle : location + pageSize ≤ regionEnd) :
      ScanStep insert ⟨map, index, some (location, regionEnd)⟩ (some location)
        ⟨insert map location pageSize .unavailable, index, some (location + pageSize, regionEnd)⟩
  | leaves {map : MemoryMap} {index : Nat} (location regionEnd : Word) :
      ScanStep insert ⟨map, index, some (location, regionEnd)⟩ none ⟨map, index + 1, none⟩

theorem step_cases {location : Option Word} (h : s.step insert = some (location, s')) :
    ScanStep insert s location s' := by
  obtain ⟨smap, index, region⟩ := s
  rw [step] at h
  cases region with
  | none =>
    dsimp only at h
    split at h
    · cases h
    · rename_i region hregion
      split at h
      · cases h
        exact .skips region hregion ‹_›
      · cases h
        exact .enters region hregion (not_not.mp ‹_›)
  | some region =>
    obtain ⟨location', regionEnd⟩ := region
    dsimp only at h
    split at h
    · cases h
      exact .passes location' regionEnd ‹_›
    · cases h
      exact .leaves location' regionEnd

section Forward
variable {index : Nat} {region : Region} {location regionEnd : Word}

theorem step_skips (hregion : map[index]? = some region) (htype : region.type ≠ .available) :
    step insert ⟨map, index, none⟩ = some (none, ⟨map, index + 1, none⟩) := by
  rw [step, hregion]
  exact if_pos htype

theorem step_enters (hregion : map[index]? = some region) (htype : region.type = .available) :
    step insert ⟨map, index, none⟩ = some (none, ⟨map, index,
      some ((region.location + pageSize - 1) &&& ~~~(pageSize - 1),
        region.location + region.size)⟩) := by
  rw [step, hregion]
  exact if_neg (not_not.mpr htype)

theorem step_passes (hle : location + pageSize ≤ regionEnd) :
    step insert ⟨map, index, some (location, regionEnd)⟩ = some (some location,
      ⟨insert map location pageSize .unavailable, index,
        some (location + pageSize, regionEnd)⟩) := by
  rw [step]
  dsimp only
  rw [if_pos hle]

theorem step_leaves (hlt : ¬ location + pageSize ≤ regionEnd) :
    step insert ⟨map, index, some (location, regionEnd)⟩ =
      some (none, ⟨map, index + 1, none⟩) := by
  rw [step]
  dsimp only
  rw [if_neg hlt]

end Forward

/-! ### The list of frames -/

theorem after_of_none (h : (s.after insert n).2.step insert = none) :
    s.after insert (n + 1) = s.after insert n := by
  rw [after, h]

theorem after_of_some {location : Option Word}
    (h : (s.after insert n).2.step insert = some (location, s')) :
    s.after insert (n + 1) = ((s.after insert n).1 ++ (location.map frameNumber).toList, s') := by
  rw [after, h]

theorem after_mono (h : n ≤ n') : (s.after insert n).1 <+: (s.after insert n').1 := by
  induction h with
  | refl => exact List.prefix_rfl
  | @step m _ ih =>
    refine ih.trans ?_
    cases hstep : (s.after insert m).2.step insert with
    | none => rw [after_of_none hstep]
    | some result =>
      rw [after_of_some hstep]
      exact List.prefix_append ..

/-- After the last region nothing more happens. -/
theorem after_of_exhausted (h : (s.after insert n).2.step insert = none) (hle : n ≤ n') :
    s.after insert n' = s.after insert n := by
  induction hle with
  | refl => rfl
  | @step m _ ih => rw [after_of_none (by rw [ih]; exact h), ih]

theorem getElem?_of_initial {l l' : List Frame} (h : l <+: l') (hk : l[k]? = some f) :
    l'[k]? = some f := by
  obtain ⟨r, rfl⟩ := h
  rw [List.getElem?_append_left (List.getElem?_eq_some_iff.mp hk).1]
  exact hk

theorem Reaches.of_after (h : ((start map).after insert n).1[k]? = some f) :
    Reaches insert map k f := ⟨n, h⟩

/-- A frame that is reached is among those listed, once enough are. -/
theorem Reaches.getElem? (h : Reaches insert map k f)
    (hk : k < ((start map).after insert n).1.length) :
    ((start map).after insert n).1[k]? = some f := by
  obtain ⟨n', hn'⟩ := h
  rcases Nat.le_total n' n with hle | hle
  · exact getElem?_of_initial (after_mono hle) hn'
  · obtain ⟨g, hg⟩ := Option.isSome_iff_exists.mp
      (show (((start map).after insert n).1[k]?).isSome by rwa [isSome_getElem?])
    rw [getElem?_of_initial (after_mono hle) hg] at hn'
    rw [hg, hn']

/-- So it is once the loops have ended. -/
theorem Reaches.of_exhausted (h : Reaches insert map k f)
    (hend : ((start map).after insert n).2.step insert = none) :
    ((start map).after insert n).1[k]? = some f := by
  obtain ⟨n', hn'⟩ := h
  rcases Nat.le_total n' n with hle | hle
  · exact getElem?_of_initial (after_mono hle) hn'
  · rwa [after_of_exhausted hend hle] at hn'

theorem Reaches.unique {g : Frame} (h : Reaches insert map k f) (h' : Reaches insert map k g) :
    f = g := by
  obtain ⟨n, hn⟩ := h
  have hg := h'.getElem? (n := n) (List.getElem?_eq_some_iff.mp hn).1
  rw [hn] at hg
  exact Option.some.inj hg

/-! ### What has been typed -/

/-- The frames listed have been typed. -/
structure Scanned (map : MemoryMap) (frames : List Frame) (s : Scan) : Prop where
  aligned : ∀ location regionEnd, s.region = some (location, regionEnd) → location % pageSize = 0
  typed : ∀ x t, s.map.Typed x t ↔
    if frameNumber x ∈ frames then t = .unavailable else map.Typed x t

theorem frameNumber_eq_iff {x : Word} : frameNumber x = f ↔ x.toNat / 4096 = f.toNat := by
  have := x.isLt
  rw [← BitVec.toNat_inj, frameNumber, pageBits, BitVec.toNat_setWidth, BitVec.toNat_ushiftRight,
    Nat.shiftRight_eq_div_pow]
  omega

/-- `~(page_size - 1)` clears the offset. -/
theorem toNat_and_not (x : Word) :
    (x &&& ~~~(pageSize - 1)).toNat = x.toNat / 4096 * 4096 := by
  have hx := x.isLt
  have hshift : x &&& ~~~(pageSize - 1) = x >>> 12 <<< 12 := by
    ext i hi
    have hbit : (pageSize - 1)[i] = decide (i < 12) := by
      rw [← BitVec.getLsbD_eq_getElem hi]
      exact Nat.testBit_two_pow_sub_one 12 i
    simp only [BitVec.getElem_and, BitVec.getElem_not, hbit, BitVec.getElem_shiftLeft,
      BitVec.getElem_ushiftRight]
    grind
  rw [hshift, BitVec.toNat_shiftLeft, BitVec.toNat_ushiftRight, Nat.shiftLeft_eq,
    Nat.shiftRight_eq_div_pow]
  omega

/-- `location`, rounded up. -/
theorem toNat_roundUp {x : Word} (h : (x.toNat + 4095) / 4096 * 4096 < 2 ^ 32) :
    ((x + pageSize - 1) &&& ~~~(pageSize - 1)).toNat = (x.toNat + 4095) / 4096 * 4096 := by
  have hx := x.isLt
  rw [toNat_and_not, BitVec.toNat_sub, BitVec.toNat_add, show pageSize.toNat = 4096 from rfl,
    show (1 : Word).toNat = 1 from rfl]
  omega

theorem and_not_aligned (x : Word) : (x &&& ~~~(pageSize - 1)) % pageSize = 0 := by
  rw [aligned_iff, toNat_and_not]
  omega

theorem add_pageSize_aligned {x : Word} (h : x % pageSize = 0) : (x + pageSize) % pageSize = 0 := by
  rw [aligned_iff] at h ⊢
  rw [BitVec.toNat_add, show pageSize.toNat = 4096 from rfl]
  omega

theorem inRange_frame {location x : Word} (h : location % pageSize = 0) :
    InRange location pageSize x ↔ frameNumber x = frameNumber location := by
  rw [aligned_iff] at h
  have hloc : location.toNat / 4096 = (frameNumber location).toNat := frameNumber_eq_iff.mp rfl
  rw [frameNumber_eq_iff, ← hloc, InRange, show pageSize.toNat = 4096 from rfl]
  omega

theorem Scanned.start (map : MemoryMap) : Scanned map [] (start map) where
  aligned _ _ h := by cases h
  typed x t := by rw [if_neg List.not_mem_nil]; rfl

/-- One step. -/
theorem Scanned.step (hinsert : RetypesExactly insert) {frames : List Frame}
    {location : Option Word} (h : Scanned map frames s) (hstep : ScanStep insert s location s') :
    Scanned map (frames ++ (location.map frameNumber).toList) s' := by
  cases hstep with
  | skips | leaves =>
    rw [Option.map_none, Option.toList_none, List.append_nil]
    exact ⟨fun _ _ heq => (by cases heq), h.typed⟩
  | enters =>
    rw [Option.map_none, Option.toList_none, List.append_nil]
    refine ⟨fun location regionEnd heq => ?_, h.typed⟩
    obtain ⟨rfl, -⟩ := Prod.mk.inj (Option.some.inj heq)
    exact and_not_aligned _
  | passes location =>
    have haligned : location % pageSize = 0 := h.aligned _ _ rfl
    constructor
    · intro location' regionEnd' heq
      obtain ⟨rfl, -⟩ := Prod.mk.inj (Option.some.inj heq)
      exact add_pageSize_aligned haligned
    · intro x t
      refine (hinsert _ _ _ _ x t).trans ?_
      rw [Option.map_some, Option.toList_some]
      by_cases hx : frameNumber x = frameNumber location
      · rw [if_pos ((inRange_frame haligned).mpr hx),
          if_pos (List.mem_append_right _ (List.mem_singleton.mpr hx))]
      · rw [if_neg fun hin => hx ((inRange_frame haligned).mp hin), h.typed]
        simp only [List.mem_append, List.mem_singleton, hx, or_false]

/-- **The frames of a map.**  When the loops have come to them, they have been typed. -/
theorem Scanned.after (hinsert : RetypesExactly insert) (n : Nat) :
    Scanned map ((Scan.start map).after insert n).1 ((Scan.start map).after insert n).2 := by
  induction n with
  | zero => exact .start map
  | succ n ih =>
    cases hstep : ((Scan.start map).after insert n).2.step insert with
    | none =>
      rw [after_of_none hstep]
      exact ih
    | some result =>
      rw [after_of_some hstep]
      exact ih.step hinsert (step_cases hstep)

/-- A frame that is available is none of those typed before. -/
theorem Scanned.within {frames : List Frame} (h : Scanned map frames s)
    (hf : s.map.Within f .available) : map.Within f .available ∧ f ∉ frames := by
  have htyped : ∀ x, frameNumber x = f → f ∉ frames ∧ map.Typed x .available := by
    intro x hx
    have hx' := (h.typed x .available).mp (hf x hx)
    rw [hx] at hx'
    split at hx'
    · cases hx'
    · exact ⟨‹_›, hx'⟩
  exact ⟨fun x hx => (htyped x hx).2, (htyped (frameAddress f) (frameNumber_frameAddress f)).1⟩

section StaysInside
variable (hinsert : RetypesExactly insert) (hinside : StaysInside insert map)
include hinsert hinside

/-- As long as no address wraps around, the frames listed were available, and none is listed
twice. -/
theorem listed_of_staysInside (n : Nat) :
    (∀ f ∈ ((start map).after insert n).1, map.Within f .available) ∧
      ((start map).after insert n).1.Nodup := by
  induction n with
  | zero => exact ⟨fun f hf => absurd hf List.not_mem_nil, List.nodup_nil⟩
  | succ n ih =>
    obtain ⟨hwithin, hnodup⟩ := ih
    cases hstep : ((start map).after insert n).2.step insert with
    | none =>
      rw [after_of_none hstep]
      exact ⟨hwithin, hnodup⟩
    | some result =>
      obtain ⟨location, s'⟩ := result
      rw [after_of_some hstep]
      cases location with
      | none =>
        rw [Option.map_none, Option.toList_none, List.append_nil]
        exact ⟨hwithin, hnodup⟩
      | some location =>
        obtain ⟨hf, hnew⟩ := (Scanned.after hinsert n).within (hinside n location s' hstep)
        constructor
        · intro g hg
          rcases List.mem_append.mp hg with hg | hg
          · exact hwithin g hg
          · obtain rfl := List.mem_singleton.mp hg
            exact hf
        · refine List.nodup_append.mpr ⟨hnodup, List.nodup_singleton _, ?_⟩
          rintro g hg g' hg' rfl
          obtain rfl := List.mem_singleton.mp hg'
          exact hnew hg

end StaysInside

/-! ### When no address wraps around -/

/-- The region ends before the last two frames. -/
def EndsLow (location size : Word) : Prop := location.toNat + size.toNat ≤ 4294959104

instance (location size : Word) : Decidable (EndsLow location size) :=
  inferInstanceAs (Decidable (_ ≤ _))

/-- No region that `memmap_insert_region` makes ends after the others did. -/
def KeepsLow (insert : InsertRegion) : Prop :=
  ∀ map location size type, (∀ r ∈ map, EndsLow r.location r.size) → EndsLow location size →
    ∀ r ∈ insert map location size type, EndsLow r.location r.size

/-- What is left of the region that the loops are at is available. -/
structure Steady (s : Scan) : Prop where
  low : ∀ r ∈ s.map, EndsLow r.location r.size
  inner : ∀ location regionEnd, s.region = some (location, regionEnd) →
    location % pageSize = 0 ∧ location.toNat ≤ 4294959104 ∧ regionEnd.toNat ≤ 4294959104 ∧
      ∀ x : Word, location.toNat ≤ x.toNat → x.toNat < regionEnd.toNat → s.map.Typed x .available

theorem Steady.start (hmap : ∀ r ∈ map, EndsLow r.location r.size) : Steady (start map) where
  low := hmap
  inner _ _ h := by cases h

/-- A region that is entered is available up to its end. -/
theorem Steady.enter {index : Nat} {region : Region} (h : Steady ⟨map, index, none⟩)
    (hregion : map[index]? = some region) (htype : region.type = .available) :
    Steady ⟨map, index, some ((region.location + pageSize - 1) &&& ~~~(pageSize - 1),
      region.location + region.size)⟩ := by
  refine ⟨h.low, fun location regionEnd heq => ?_⟩
  obtain ⟨rfl, rfl⟩ := Prod.mk.inj (Option.some.inj heq)
  have hmem := List.mem_of_getElem? hregion
  have hlow := h.low region hmem
  rw [EndsLow] at hlow
  have hround := toNat_roundUp (x := region.location) (by omega)
  have hend : (region.location + region.size).toNat =
      region.location.toNat + region.size.toNat := by
    rw [BitVec.toNat_add]
    omega
  refine ⟨and_not_aligned _, by omega, by omega, fun x hge hlt => ?_⟩
  exact ⟨region, hmem, htype, by omega, by omega⟩

/-- One step, and the frame that it comes to. -/
theorem Steady.step (hinsert : RetypesExactly insert) (hkeeps : KeepsLow insert) (h : Steady s)
    {location : Option Word} (hstep : ScanStep insert s location s') :
    Steady s' ∧ ∀ l, location = some l → s.map.Within (frameNumber l) .available := by
  cases hstep with
  | skips | leaves => exact ⟨⟨h.low, fun _ _ heq => by cases heq⟩, fun _ heq => by cases heq⟩
  | enters region hregion htype => exact ⟨h.enter hregion htype, fun _ heq => by cases heq⟩
  | @passes map index location regionEnd hle =>
    obtain ⟨haligned, hlow, hendlow, havailable⟩ := h.inner location regionEnd rfl
    have hnext : (location + pageSize).toNat = location.toNat + 4096 := by
      rw [BitVec.toNat_add, show pageSize.toNat = 4096 from rfl]
      omega
    rw [BitVec.le_def, hnext] at hle
    refine ⟨⟨?_, ?_⟩, ?_⟩
    · refine hkeeps map location pageSize .unavailable h.low ?_
      rw [EndsLow, show pageSize.toNat = 4096 from rfl]
      omega
    · intro location' regionEnd' heq
      obtain ⟨rfl, rfl⟩ := Prod.mk.inj (Option.some.inj heq)
      refine ⟨add_pageSize_aligned haligned, by omega, hendlow, fun x hge hlt => ?_⟩
      -- above the frame that is typed now
      refine (hinsert _ _ _ _ x _).mpr ?_
      rw [if_neg]
      · exact havailable x (by omega) hlt
      · rw [InRange, show pageSize.toNat = 4096 from rfl]
        omega
    · intro l heq x hx
      obtain rfl := Option.some.inj heq
      have hin := (inRange_frame haligned).mpr hx
      rw [InRange, show pageSize.toNat = 4096 from rfl] at hin
      exact havailable x hin.1 (by omega)

/-- **No address wraps around** if no region ends in the last two frames. -/
theorem staysInside_of_low (hinsert : RetypesExactly insert) (hkeeps : KeepsLow insert)
    (hmap : ∀ r ∈ map, EndsLow r.location r.size) : StaysInside insert map := by
  have hsteady : ∀ n, Steady ((Scan.start map).after insert n).2 := by
    intro n
    induction n with
    | zero => exact .start hmap
    | succ n ih =>
      cases hstep : ((Scan.start map).after insert n).2.step insert with
      | none =>
        rw [after_of_none hstep]
        exact ih
      | some result =>
        rw [after_of_some hstep]
        exact (ih.step hinsert hkeeps (step_cases hstep)).1
  intro n location s' hstep
  exact ((hsteady n).step hinsert hkeeps (step_cases hstep)).2 location rfl

end Scan

/-! ### An array of regions that is cut -/

namespace MemoryMap
variable {region : Region} {location size x : Word} {type t : RegionType}

/-- The part of a region below an address. -/
def below (stop : Nat) (region : Region) : Option Region :=
  if region.location.toNat < stop then
    some ⟨region.location,
      BitVec.ofNat 32 (min region.size.toNat (stop - region.location.toNat)), region.type⟩
  else none

/-- The part of a region from an address on. -/
def above (start : Nat) (region : Region) : Option Region :=
  if start ≤ region.location.toNat then some region
  else if start < 2 ^ 32 ∧ start < region.location.toNat + region.size.toNat then
    some ⟨BitVec.ofNat 32 start,
      BitVec.ofNat 32 (region.location.toNat + region.size.toNat - start), region.type⟩
  else none

/-- The regions are cut at the ends of the new one, which is put between the parts. -/
def insertRegion : InsertRegion := fun map location size type =>
  map.filterMap (below location.toNat) ++
    ⟨location, size, type⟩ :: map.filterMap (above (location.toNat + size.toNat))

/-- What is left of a region. -/
def Leaves (part : Region → Option Region) (x : Word) (P : Prop) : Prop :=
  ∀ region t, (∃ r, part region = some r ∧ r.type = t ∧ InRange r.location r.size x) ↔
    (region.type = t ∧ InRange region.location region.size x) ∧ P

theorem leaves_below (stop : Nat) (x : Word) : Leaves (below stop) x (x.toNat < stop) := by
  intro region t
  have hsize := region.size.isLt
  rw [below]
  split
  · simp only [Option.some.injEq, exists_eq_left', InRange, BitVec.toNat_ofNat, and_assoc]
    rw [Nat.mod_eq_of_lt (by omega)]
    exact and_congr_right fun _ => by omega
  · simp only [reduceCtorEq, false_and, exists_false, InRange, false_iff]
    omega

theorem leaves_above (start : Nat) (x : Word) : Leaves (above start) x (start ≤ x.toNat) := by
  intro region t
  have hx := x.isLt
  have hlocation := region.location.isLt
  have hsize := region.size.isLt
  rw [above]
  split
  · simp only [Option.some.injEq, exists_eq_left', InRange, and_assoc]
    exact and_congr_right fun _ => by omega
  · split
    · simp only [Option.some.injEq, exists_eq_left', InRange, BitVec.toNat_ofNat, and_assoc]
      rw [Nat.mod_eq_of_lt (by omega), Nat.mod_eq_of_lt (by omega)]
      exact and_congr_right fun _ => by omega
    · simp only [reduceCtorEq, false_and, exists_false, InRange, false_iff]
      omega

theorem Leaves.typed_iff {part : Region → Option Region} {P : Prop} (h : Leaves part x P)
    (map : MemoryMap) : MemoryMap.Typed (map.filterMap part) x t ↔ map.Typed x t ∧ P := by
  constructor
  · rintro ⟨r, hr, htype, hx⟩
    obtain ⟨region, hregion, hpart⟩ := List.mem_filterMap.mp hr
    obtain ⟨hold, hP⟩ := (h region t).mp ⟨r, hpart, htype, hx⟩
    exact ⟨⟨region, hregion, hold⟩, hP⟩
  · rintro ⟨⟨region, hregion, hold⟩, hP⟩
    obtain ⟨r, hpart, htype, hx⟩ := (h region t).mpr ⟨hold, hP⟩
    exact ⟨r, List.mem_filterMap.mpr ⟨region, hregion, hpart⟩, htype, hx⟩

/-- **It is as relied on.** -/
theorem retypesExactly_insertRegion : RetypesExactly insertRegion := by
  intro map location size type x t
  have hsplit : (insertRegion map location size type).Typed x t ↔
      (map.Typed x t ∧ x.toNat < location.toNat) ∨ (type = t ∧ InRange location size x) ∨
        (map.Typed x t ∧ location.toNat + size.toNat ≤ x.toNat) := by
    rw [← (leaves_below _ x).typed_iff, ← (leaves_above _ x).typed_iff]
    simp only [insertRegion, MemoryMap.Typed, List.mem_append, List.mem_cons, or_and_right,
      exists_or, exists_eq_left]
  rw [hsplit]
  split
  · rename_i hx
    simp only [hx, and_true]
    rw [InRange] at hx
    constructor
    · rintro (⟨-, hlt⟩ | rfl | ⟨-, hge⟩)
      · omega
      · rfl
      · omega
    · exact fun heq => .inr (.inl heq.symm)
  · rename_i hx
    simp only [hx, and_false, false_or, ← and_or_left]
    refine and_iff_left ?_
    rw [InRange] at hx
    omega

theorem keepsLow_insertRegion : Scan.KeepsLow insertRegion := by
  intro map location size type hmap hnew r hr
  rcases List.mem_append.mp hr with hr | hr
  · obtain ⟨region, hregion, hpart⟩ := List.mem_filterMap.mp hr
    have hlow := hmap region hregion
    have hsize := region.size.isLt
    rw [below, Option.ite_none_right_eq_some, Option.some.injEq] at hpart
    obtain ⟨-, rfl⟩ := hpart
    show region.location.toNat + (BitVec.ofNat 32 _).toNat ≤ _
    rw [Scan.EndsLow] at hlow
    rw [BitVec.toNat_ofNat, Nat.mod_eq_of_lt (by omega)]
    omega
  · rcases List.mem_cons.mp hr with rfl | hr
    · exact hnew
    · obtain ⟨region, hregion, hpart⟩ := List.mem_filterMap.mp hr
      have hlow := hmap region hregion
      have hsize := region.size.isLt
      rw [above] at hpart
      split at hpart
      · rwa [← Option.some.inj hpart]
      · rw [Option.ite_none_right_eq_some, Option.some.injEq] at hpart
        obtain ⟨⟨hstart, hlt⟩, rfl⟩ := hpart
        show (BitVec.ofNat 32 _).toNat + (BitVec.ofNat 32 _).toNat ≤ _
        rw [Scan.EndsLow] at hlow
        rw [BitVec.toNat_ofNat, BitVec.toNat_ofNat, Nat.mod_eq_of_lt hstart,
          Nat.mod_eq_of_lt (by omega)]
        omega

end MemoryMap
end QuarkKernel
