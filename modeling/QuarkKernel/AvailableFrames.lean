import QuarkKernel.MemoryMap

/-! # Which frames the loops come to

The loops of `initialize_page_map` go over an array that `memmap_insert_region` changes
under them.  Two things make it known beforehand which frames they come to.  Either the
first available region that has whole frames has all that are needed: then nothing that is
done to the array matters.  Or `memmap_insert_region` puts the new region in the place of
what it covers, and leaves the others where they are (`CutsInPlace`): then the loops go
through all available regions, over what they have cut themselves.

In both cases the frames are those of the available regions in the order of the array
(`Predictable.reaches_iff`), as long as no address wraps around. -/
namespace QuarkKernel
open Multiboot (Region RegionType)

namespace Scan

/-- Where a region ends. -/
def regionStop (region : Region) : Nat := region.location.toNat + region.size.toNat

/-- The number of the first whole frame of a region. -/
def firstFrame (region : Region) : Nat := (region.location.toNat + 4095) / 4096

/-- The frame at a place, from frame `first` on. -/
def frameAt (first k : Nat) : Frame := BitVec.ofNat 20 (first + k)

/-- The whole frames of a region. -/
def wholeFrames (region : Region) : List Frame :=
  (List.range (regionStop region / 4096 - firstFrame region)).map (frameAt (firstFrame region))

/-- The whole frames of the available regions, in the order of the array. -/
def availableFrames (map : MemoryMap) : List Frame :=
  map.flatMap fun region => if region.type = .available then wholeFrames region else []

/-- No address wraps around in the loop over the frames of the region. -/
def EndsInside (region : Region) : Prop :=
  regionStop region < 2 ^ 32 ∧
    4096 * (max (firstFrame region) (regionStop region / 4096) + 1) < 2 ^ 32

instance (region : Region) : Decidable (EndsInside region) :=
  inferInstanceAs (Decidable (_ ∧ _))

/-- There is nothing in the region for the loops. -/
def HasNothing (region : Region) : Prop :=
  region.type = .available → EndsInside region ∧ wholeFrames region = []

instance (region : Region) : Decidable (HasNothing region) :=
  inferInstanceAs (Decidable (_ → _))

/-- The regions are in order, and none of them is empty. -/
structure InOrder (map : MemoryMap) : Prop where
  sorted : map.Pairwise fun r r' => regionStop r ≤ r'.location.toNat
  pos : ∀ r ∈ map, 0 < r.size.toNat

/-- The parts that a region is cut into by a new one. -/
def parts (region : Region) (location size : Word) (type : RegionType) : List Region :=
  (MemoryMap.below location.toNat region).toList ++
    ⟨location, size, type⟩ :: (MemoryMap.above (location.toNat + size.toNat) region).toList

/-- In an array that is in order, a new region takes the place of what it covers of an old
one. -/
def CutsInPlace (insert : InsertRegion) : Prop :=
  ∀ front region back location size type, InOrder (front ++ region :: back) →
    region.location.toNat ≤ location.toNat → 0 < size.toNat →
    location.toNat + size.toNat ≤ regionStop region →
    insert (front ++ region :: back) location size type =
      front ++ (parts region location size type ++ back)

/-- The first available region that has whole frames has `count` of them. -/
def FirstSupplies (map : MemoryMap) (count : Nat) : Prop :=
  ∃ skipped region rest, map = skipped ++ region :: rest ∧ (∀ r ∈ skipped, HasNothing r) ∧
    region.type = .available ∧ regionStop region < 2 ^ 32 ∧ count ≤ (wholeFrames region).length

/-- It is known which frames the first `count` are. -/
def Predictable (insert : InsertRegion) (map : MemoryMap) (count : Nat) : Prop :=
  count = 0 ∨ FirstSupplies map count ∨
    (CutsInPlace insert ∧ InOrder map ∧ ∀ r ∈ map, r.type = .available → EndsInside r)

variable {insert : InsertRegion} {map map' front back : MemoryMap} {region cur : Region}
  {frames : List Frame} {s s' : Scan} {f : Frame} {index first count k l : Nat}
  {location regionEnd : Word}

/-! ### The frames of a region -/

theorem frameAt_toNat (h : first + k < 2 ^ 20) : (frameAt first k).toNat = first + k := by
  rw [frameAt, BitVec.toNat_ofNat, Nat.mod_eq_of_lt h]

@[simp] theorem length_wholeFrames (region : Region) :
    (wholeFrames region).length = regionStop region / 4096 - firstFrame region := by
  rw [wholeFrames, List.length_map, List.length_range]

theorem getElem?_wholeFrames (h : k < (wholeFrames region).length) :
    (wholeFrames region)[k]? = some (frameAt (firstFrame region) k) := by
  rw [length_wholeFrames] at h
  simp [wholeFrames, h]

/-- The numbers of the frames of a region. -/
theorem toNat_of_mem_wholeFrames (hstop : regionStop region < 2 ^ 32)
    (hf : f ∈ wholeFrames region) :
    firstFrame region ≤ f.toNat ∧ f.toNat < regionStop region / 4096 := by
  obtain ⟨k, hk, rfl⟩ := List.mem_map.mp hf
  rw [List.mem_range] at hk
  rw [frameAt_toNat (by omega)]
  omega

theorem within_of_mem_wholeFrames (hregion : region ∈ map) (htype : region.type = .available)
    (hstop : regionStop region < 2 ^ 32) (hf : f ∈ wholeFrames region) :
    map.Within f .available := by
  intro x hx
  obtain ⟨hge, hlt⟩ := toNat_of_mem_wholeFrames hstop hf
  rw [frameNumber_eq_iff] at hx
  rw [firstFrame] at hge
  refine ⟨region, hregion, htype, by omega, ?_⟩
  rw [regionStop] at hlt
  omega

theorem mem_availableFrames : f ∈ availableFrames map ↔
    ∃ region ∈ map, region.type = .available ∧ f ∈ wholeFrames region := by
  simp only [availableFrames, List.mem_flatMap, List.mem_ite_nil_right]

section Cut
variable {size : Word} {type : RegionType} {r : Region}

theorem below_eq_none (h : location.toNat ≤ region.location.toNat) :
    MemoryMap.below location.toNat region = none := if_neg (Nat.not_lt.mpr h)

theorem exists_below (hlt : region.location.toNat < location.toNat)
    (hle : location.toNat ≤ regionStop region) : ∃ r,
    MemoryMap.below location.toNat region = some r ∧ r.location = region.location ∧
      regionStop r = location.toNat := by
  have hloc := location.isLt
  rw [regionStop] at hle
  refine ⟨_, if_pos hlt, rfl, ?_⟩
  rw [regionStop, BitVec.toNat_ofNat]
  dsimp only
  omega

theorem above_eq_none (hlt : region.location.toNat < k) (hle : regionStop region ≤ k) :
    MemoryMap.above k region = none := by
  rw [regionStop] at hle
  rw [MemoryMap.above, if_neg (by omega), if_neg (by omega)]

theorem exists_above (hlt : region.location.toNat < k) (hk : k < regionStop region)
    (hstop : regionStop region < 2 ^ 32) : ∃ r, MemoryMap.above k region = some r ∧
      r.location.toNat = k ∧ regionStop r = regionStop region ∧ r.type = region.type := by
  rw [regionStop] at hk hstop
  refine ⟨⟨BitVec.ofNat 32 k, BitVec.ofNat 32 (region.location.toNat + region.size.toNat - k),
    region.type⟩, ?_, ?_, ?_, rfl⟩
  · rw [MemoryMap.above, if_neg (by omega), if_pos (by omega)]
  · rw [BitVec.toNat_ofNat]
    omega
  · rw [regionStop, regionStop, BitVec.toNat_ofNat, BitVec.toNat_ofNat]
    omega

variable (hle : region.location.toNat ≤ location.toNat) (hpos : 0 < size.toNat)
  (hend : location.toNat + size.toNat ≤ regionStop region) (hstop : regionStop region < 2 ^ 32)
include hle hpos hend hstop

/-- The parts are in the region. -/
theorem mem_parts (hr : r ∈ parts region location size type) :
    region.location.toNat ≤ r.location.toNat ∧ regionStop r ≤ regionStop region ∧
      0 < r.size.toNat := by
  rcases List.mem_append.mp hr with hr | hr
  · rw [Option.mem_toList] at hr
    rcases Nat.lt_or_ge region.location.toNat location.toNat with hlt | hge
    · obtain ⟨b, hb, hloc, hstopb⟩ := exists_below hlt (by omega)
      obtain rfl := Option.some.inj (hb.symm.trans hr)
      rw [hloc, hstopb]
      rw [regionStop, hloc] at hstopb
      omega
    · rw [below_eq_none hge] at hr
      cases hr
  · rcases List.mem_cons.mp hr with rfl | hr
    · exact ⟨hle, hend, hpos⟩
    · rw [Option.mem_toList] at hr
      rcases Nat.lt_or_ge (location.toNat + size.toNat) (regionStop region) with hlt | hge
      · obtain ⟨a, ha, hloc, hstopa, -⟩ := exists_above (by omega) hlt hstop
        obtain rfl := Option.some.inj (ha.symm.trans hr)
        rw [hloc, hstopa]
        rw [regionStop, hloc] at hstopa
        omega
      · rw [above_eq_none (by omega) hge] at hr
        cases hr

theorem pairwise_parts : (parts region location size type).Pairwise
    fun r r' => regionStop r ≤ r'.location.toNat := by
  have hbelow : ∀ b, MemoryMap.below location.toNat region = some b →
      regionStop b = location.toNat := by
    intro b hb
    rcases Nat.lt_or_ge region.location.toNat location.toNat with hlt | hge
    · obtain ⟨b', hb', -, hstopb⟩ := exists_below hlt (by omega)
      rwa [Option.some.inj (hb.symm.trans hb')]
    · rw [below_eq_none hge] at hb
      cases hb
  have habove : ∀ a, MemoryMap.above (location.toNat + size.toNat) region = some a →
      a.location.toNat = location.toNat + size.toNat := by
    intro a ha
    rcases Nat.lt_or_ge (location.toNat + size.toNat) (regionStop region) with hlt | hge
    · obtain ⟨a', ha', hloc, -⟩ := exists_above (by omega) hlt hstop
      rwa [Option.some.inj (ha.symm.trans ha')]
    · rw [above_eq_none (by omega) hge] at ha
      cases ha
  refine List.pairwise_append.mpr ⟨?_, List.pairwise_cons.mpr ⟨?_, ?_⟩, ?_⟩
  · cases MemoryMap.below location.toNat region <;> simp
  · intro a ha
    rw [Option.mem_toList] at ha
    rw [habove a ha]
    exact le_rfl
  · cases MemoryMap.above (location.toNat + size.toNat) region <;> simp
  · intro b hb r hr
    rw [Option.mem_toList] at hb
    rw [hbelow b hb]
    rcases List.mem_cons.mp hr with rfl | hr
    · exact le_rfl
    · rw [Option.mem_toList] at hr
      rw [habove r hr]
      omega

/-- A cut leaves the array in order. -/
theorem InOrder.cut (h : InOrder (front ++ region :: back)) :
    InOrder (front ++ (parts region location size type ++ back)) := by
  have hmem : ∀ r, r ∈ parts region location size type → _ := fun r =>
    mem_parts hle hpos hend hstop
  obtain ⟨hsorted, hall⟩ := h
  obtain ⟨hfront, hrest, hbefore⟩ := List.pairwise_append.mp hsorted
  obtain ⟨hbehind, hback⟩ := List.pairwise_cons.mp hrest
  constructor
  · refine List.pairwise_append.mpr ⟨hfront, List.pairwise_append.mpr
      ⟨pairwise_parts hle hpos hend hstop, hback, ?_⟩, ?_⟩
    · exact fun r hr r' hr' => (hmem r hr).2.1.trans (hbehind r' hr')
    · intro r hr r' hr'
      rcases List.mem_append.mp hr' with hr' | hr'
      · exact (hbefore r hr region (List.mem_cons_self ..)).trans (hmem r' hr').1
      · exact hbefore r hr r' (List.mem_cons_of_mem _ hr')
  · intro r hr
    rcases List.mem_append.mp hr with hr | hr
    · exact hall r (List.mem_append_left _ hr)
    · rcases List.mem_append.mp hr with hr | hr
      · exact (hmem r hr).2.2
      · exact hall r (List.mem_append_right _ (List.mem_cons_of_mem _ hr))

end Cut

/-! ### Positions -/

/-- The loops come to this position, and before it to these frames. -/
def ComesTo (insert : InsertRegion) (map : MemoryMap) (frames : List Frame) (s : Scan) : Prop :=
  ∃ n, (start map).after insert n = (frames, s)

theorem ComesTo.start (insert : InsertRegion) (map : MemoryMap) :
    ComesTo insert map [] (start map) := ⟨0, rfl⟩

theorem ComesTo.step {loc : Option Word} (h : ComesTo insert map frames s)
    (hstep : s.step insert = some (loc, s')) :
    ComesTo insert map (frames ++ (loc.map frameNumber).toList) s' := by
  obtain ⟨n, hn⟩ := h
  refine ⟨n + 1, ?_⟩
  rw [after_of_some (by rw [hn]; exact hstep), hn]

/-- A step without a frame. -/
theorem ComesTo.move (h : ComesTo insert map frames s) (hstep : s.step insert = some (none, s')) :
    ComesTo insert map frames s' := by
  have hmove := h.step hstep
  rwa [Option.map_none, Option.toList_none, List.append_nil] at hmove

theorem ComesTo.reaches (h : ComesTo insert map frames s) (hf : frames[k]? = some f) :
    Reaches insert map k f := by
  obtain ⟨n, hn⟩ := h
  exact .of_after (by rw [hn]; exact hf)

/-- Where the loops end, the frames are all that they come to. -/
theorem ComesTo.reaches_iff (h : ComesTo insert map frames s) (hend : s.step insert = none) :
    Reaches insert map k f ↔ frames[k]? = some f := by
  refine ⟨fun hreaches => ?_, h.reaches⟩
  obtain ⟨n, hn⟩ := h
  have hf := hreaches.of_exhausted (by rw [hn]; exact hend)
  rwa [hn] at hf

/-! ### One region -/

theorem toNat_location (h : 4096 * firstFrame region < 2 ^ 32) :
    ((region.location + pageSize - 1) &&& ~~~(pageSize - 1)).toNat = 4096 * firstFrame region := by
  rw [firstFrame] at h ⊢
  rw [toNat_roundUp (by omega)]
  omega

theorem toNat_regionEnd (h : regionStop region < 2 ^ 32) :
    (region.location + region.size).toNat = regionStop region := by
  rw [regionStop] at h ⊢
  rw [BitVec.toNat_add, Nat.mod_eq_of_lt h]

/-- The next frame is in the region. -/
theorem le_regionEnd (haligned : location.toNat % 4096 = 0)
    (hlt : location.toNat / 4096 < regionEnd.toNat / 4096) : location + pageSize ≤ regionEnd := by
  have hend := regionEnd.isLt
  rw [BitVec.le_def, BitVec.toNat_add, show pageSize.toNat = 4096 from rfl]
  omega

/-- It is not. -/
theorem not_le_regionEnd (haligned : location.toNat % 4096 = 0)
    (hge : regionEnd.toNat / 4096 ≤ location.toNat / 4096)
    (hlow : 4096 * (location.toNat / 4096 + 1) < 2 ^ 32) : ¬ location + pageSize ≤ regionEnd := by
  rw [BitVec.le_def, BitVec.toNat_add, show pageSize.toNat = 4096 from rfl]
  omega

/-- The loops go past regions that have nothing for them. -/
theorem ComesTo.skipped (hskipped : ∀ r ∈ front.drop index, HasNothing r)
    (hle : index ≤ front.length) (h : ComesTo insert map frames ⟨front ++ back, index, none⟩) :
    ComesTo insert map frames ⟨front ++ back, front.length, none⟩ := by
  obtain ⟨d, hd⟩ := Nat.exists_eq_add_of_le hle
  induction d generalizing index with
  | zero =>
    rw [hd]
    exact h
  | succ d ih =>
    have hlt : index < front.length := by omega
    have hdrop : front.drop index = front[index] :: front.drop (index + 1) :=
      List.drop_eq_getElem_cons hlt
    rw [hdrop, List.forall_mem_cons] at hskipped
    have hregion : (front ++ back)[index]? = some front[index] := by
      rw [List.getElem?_append_left hlt, List.getElem?_eq_getElem hlt]
    refine ih hskipped.2 hlt ?_ (by omega)
    by_cases htype : front[index].type = .available
    · obtain ⟨hends, hnone⟩ := hskipped.1 htype
      have hlen := congrArg List.length hnone
      rw [length_wholeFrames, List.length_nil] at hlen
      have hlow := hends.2
      refine (h.move (step_enters hregion htype)).move (step_leaves ?_)
      refine not_le_regionEnd ?_ ?_ ?_
      all_goals rw [toNat_location (by omega)]
      · omega
      · rw [toNat_regionEnd hends.1]
        omega
      · omega
    · exact h.move (step_skips hregion htype)

/-- One frame further, and one fewer to come. -/
theorem range_succ_frameAt (first k : Nat) : (List.range (k + 1)).map (frameAt first) =
    frameAt first 0 :: (List.range k).map (frameAt (first + 1)) := by
  rw [List.range_succ_eq_map, List.map_cons, List.map_map]
  congr 1
  refine List.map_congr_left fun i _ => ?_
  show frameAt first (i + 1) = frameAt (first + 1) i
  rw [frameAt, frameAt, show first + (i + 1) = first + 1 + i by omega]

theorem frameNumber_eq_frameAt (location : Word) :
    frameNumber location = frameAt (location.toNat / 4096) 0 := by
  have hlt := location.isLt
  rw [frameNumber_eq_iff, frameAt_toNat (by omega)]
  rfl

/-- Frames of a region, whatever is done to the array. -/
theorem ComesTo.passesSome (haligned : location.toNat % 4096 = 0)
    (hend : location.toNat / 4096 + count ≤ regionEnd.toNat / 4096)
    (h : ComesTo insert map frames ⟨map', index, some (location, regionEnd)⟩) :
    ∃ s, ComesTo insert map
      (frames ++ (List.range count).map (frameAt (location.toNat / 4096))) s := by
  have hregionEnd := regionEnd.isLt
  induction count generalizing map' location frames with
  | zero =>
    rw [List.range_zero, List.map_nil, List.append_nil]
    exact ⟨_, h⟩
  | succ count ih =>
    have hpass := h.step (step_passes (le_regionEnd haligned (by omega)))
    have hnext : (location + pageSize).toNat = location.toNat + 4096 := by
      rw [BitVec.toNat_add, show pageSize.toNat = 4096 from rfl]
      omega
    have hfirst : (location + pageSize).toNat / 4096 = location.toNat / 4096 + 1 := by omega
    have hgoes := ih (by omega) (by omega) hpass
    rw [Option.map_some, Option.toList_some, frameNumber_eq_frameAt, hfirst] at hgoes
    rwa [range_succ_frameAt, List.append_cons]

/-- Less than a page is left. -/
theorem hasNothing_of_aligned (haligned : region.location.toNat % 4096 = 0)
    (hstop : regionStop region < 2 ^ 32) (hlow : 4096 * (max (region.location.toNat / 4096)
      (regionStop region / 4096) + 1) < 2 ^ 32)
    (hle : regionStop region / 4096 ≤ region.location.toNat / 4096) : HasNothing region := by
  have hfirst : firstFrame region = region.location.toNat / 4096 := by
    rw [firstFrame]
    omega
  refine fun _ => ⟨⟨hstop, by rwa [hfirst]⟩, List.eq_nil_of_length_eq_zero ?_⟩
  rw [length_wholeFrames, hfirst]
  omega

/-- What the loops have cut has nothing for them. -/
theorem hasNothing_of_cut {b : Option Region} (hdone : ∀ r ∈ front.drop (index + 1), HasNothing r)
    (hb : index = front.length ∨ b = none) {r : Region}
    (htype : cur.type = .unavailable)
    (hr : r ∈ (front ++ (b.toList ++ [cur])).drop (index + 1)) : HasNothing r := by
  have hnew : HasNothing cur := fun havailable => by rw [htype] at havailable; cases havailable
  rw [List.drop_append] at hr
  rcases List.mem_append.mp hr with hr | hr
  · exact hdone r hr
  · rcases hb with rfl | rfl
    · rw [Nat.add_sub_cancel_left, List.drop_append] at hr
      rcases List.mem_append.mp hr with hr | hr
      · cases b <;> cases hr
      · rwa [List.mem_singleton.mp (List.mem_of_mem_drop hr)]
    · rwa [List.mem_singleton.mp (List.mem_of_mem_drop hr)]

/-- **The frames of a region.**  `cur` is what is left of it, from `location` on unless this
is the first pass; in front of it is what the loops have made of the array. -/
theorem ComesTo.passesRegion (hcut : CutsInPlace insert)
    (hdone : ∀ r ∈ front.drop (index + 1), HasNothing r) (hle : index ≤ front.length)
    (hcur : index = front.length ∨ cur.location = location)
    (hlocation : cur.location.toNat ≤ location.toNat) (haligned : location.toNat % 4096 = 0)
    (hend : regionEnd.toNat = regionStop cur)
    (hlow : 4096 * (max (location.toNat / 4096) (regionEnd.toNat / 4096) + 1) < 2 ^ 32)
    (horder : InOrder (front ++ cur :: back))
    (h : ComesTo insert map frames ⟨front ++ cur :: back, index, some (location, regionEnd)⟩) :
    ∃ front', InOrder (front' ++ back) ∧ ComesTo insert map
      (frames ++ (List.range (regionEnd.toNat / 4096 - location.toNat / 4096)).map
        (frameAt (location.toNat / 4096))) ⟨front' ++ back, front'.length, none⟩ := by
  obtain ⟨c, hc⟩ : ∃ c, regionEnd.toNat / 4096 - location.toNat / 4096 = c := ⟨_, rfl⟩
  have hregionEnd := regionEnd.isLt
  rw [hc]
  induction c generalizing front cur location frames with
  | zero =>
    have hleft := h.move (step_leaves (not_le_regionEnd haligned (by omega) (by omega)))
    rw [List.append_cons] at hleft horder
    refine ⟨front ++ [cur], horder, ?_⟩
    rw [List.range_zero, List.map_nil, List.append_nil]
    refine hleft.skipped (fun r hr => ?_) (by rw [List.length_append, List.length_singleton]; omega)
    rw [List.drop_append] at hr
    rcases List.mem_append.mp hr with hr | hr
    · exact hdone r hr
    · rcases hcur with rfl | hcur
      · rw [Nat.add_sub_cancel_left] at hr
        cases hr
      · obtain rfl := List.mem_singleton.mp (List.mem_of_mem_drop hr)
        subst hcur
        exact hasNothing_of_aligned haligned (by omega) (by omega) (by omega)
  | succ c ih =>
    have hpass := h.step (step_passes (le_regionEnd haligned (by omega)))
    have hsize : pageSize.toNat = 4096 := rfl
    have hnext : (location + pageSize).toNat = location.toNat + 4096 := by
      rw [BitVec.toNat_add, hsize]
      omega
    have hinside : location.toNat + pageSize.toNat ≤ regionStop cur := by omega
    have horder' : InOrder (front ++ (parts cur location pageSize .unavailable ++ back)) :=
      horder.cut hlocation (by decide) hinside (by omega)
    rw [hcut _ _ _ _ _ _ horder hlocation (by decide) hinside, Option.map_some,
      Option.toList_some, frameNumber_eq_frameAt] at hpass
    have hbelow : index = front.length ∨ MemoryMap.below location.toNat cur = none := by
      rcases hcur with hcur | hcur
      · exact .inl hcur
      · exact .inr (below_eq_none (by rw [hcur]))
    obtain ⟨cutOff, hcutOff⟩ : ∃ cutOff : List Region, cutOff =
      (MemoryMap.below location.toNat cur).toList ++ [⟨location, pageSize, .unavailable⟩] :=
      ⟨_, rfl⟩
    have hdone' : ∀ r ∈ (front ++ cutOff).drop (index + 1), HasNothing r := fun r hr =>
      hasNothing_of_cut hdone hbelow rfl (by rwa [hcutOff] at hr)
    have hle' : index + 1 ≤ (front ++ cutOff).length := by
      rw [List.length_append, hcutOff, List.length_append, List.length_singleton]
      omega
    rw [range_succ_frameAt, List.append_cons]
    rcases Nat.lt_or_ge (location.toNat + pageSize.toNat) (regionStop cur) with hlt | hge
    · -- the loop goes on in what is left
      obtain ⟨rest, hrest, hloc, hstop, -⟩ := exists_above (by omega) hlt (by omega)
      have hparts : front ++ (parts cur location pageSize .unavailable ++ back) =
          front ++ cutOff ++ rest :: back := by
        simp [parts, hrest, hcutOff]
      rw [hparts] at hpass horder'
      have hstart : rest.location = location + pageSize :=
        BitVec.eq_of_toNat_eq (by rw [hloc, hnext, hsize])
      have hgoes := ih hdone' (by omega) (.inr hstart) (by rw [hstart]) (by omega) (by omega)
        (by omega) horder' hpass (by omega)
      have hfirst : (location + pageSize).toNat / 4096 = location.toNat / 4096 + 1 := by omega
      rwa [hfirst] at hgoes
    · -- it ends with the region
      have hparts : front ++ (parts cur location pageSize .unavailable ++ back) =
          front ++ cutOff ++ back := by
        simp [parts, above_eq_none (by omega) hge, hcutOff]
      rw [hparts] at hpass horder'
      obtain rfl : c = 0 := by omega
      refine ⟨_, horder', ?_⟩
      rw [List.range_zero, List.map_nil, List.append_nil]
      refine (hpass.move (step_leaves ?_)).skipped hdone' hle'
      exact not_le_regionEnd (by omega) (by omega) (by omega)

/-- **All regions**, one after the other. -/
theorem ComesTo.passesAll (hcut : CutsInPlace insert) (horder : InOrder (front ++ back))
    (hends : ∀ r ∈ back, r.type = .available → EndsInside r)
    (h : ComesTo insert map frames ⟨front ++ back, front.length, none⟩) :
    ∃ map', ComesTo insert map (frames ++ availableFrames back) ⟨map', map'.length, none⟩ := by
  induction back generalizing front frames with
  | nil =>
    rw [List.append_nil] at h
    refine ⟨front, ?_⟩
    rw [availableFrames, List.flatMap_nil, List.append_nil]
    exact h
  | cons region back ih =>
    rw [List.forall_mem_cons] at hends
    have hregion : (front ++ region :: back)[front.length]? = some region := by
      rw [List.getElem?_append_right le_rfl, Nat.sub_self, List.getElem?_cons_zero]
    rw [availableFrames, List.flatMap_cons]
    by_cases htype : region.type = .available
    · have hinside := hends.1 htype
      have hlow := hinside.2
      have hloc := toNat_location (show 4096 * firstFrame region < 2 ^ 32 by omega)
      have hend := toNat_regionEnd hinside.1
      have hdone : ∀ r ∈ front.drop (front.length + 1), HasNothing r := by
        rw [List.drop_eq_nil_of_le (Nat.le_succ _)]
        exact fun _ hr => absurd hr List.not_mem_nil
      obtain ⟨front', horder', hpassed⟩ := ComesTo.passesRegion hcut hdone le_rfl (.inl rfl)
        (by rw [hloc, firstFrame]; omega) (by rw [hloc]; omega) hend
        (by rw [hloc, hend]; omega) horder (h.move (step_enters hregion htype))
      rw [hloc, hend, Nat.mul_div_cancel_left _ (by decide)] at hpassed
      rw [if_pos htype, ← List.append_assoc]
      exact ih horder' hends.2 hpassed
    · rw [List.append_cons] at horder
      have hskipped := h.move (step_skips hregion htype)
      rw [List.append_cons] at hskipped
      rw [if_neg htype, List.nil_append]
      exact ih horder hends.2 (by rwa [List.length_append])

/-! ### The frames that are known beforehand -/

/-- The loops get as far as the first region with whole frames. -/
theorem reaches_of_skipped {skipped rest : MemoryMap}
    (hskipped : ∀ r ∈ skipped, HasNothing r) (htype : region.type = .available)
    (hstop : regionStop region < 2 ^ 32) (hk : k < (wholeFrames region).length) :
    Reaches insert (skipped ++ region :: rest) k (frameAt (firstFrame region) k) := by
  have hlen := hk
  rw [length_wholeFrames] at hlen
  have hregion : (skipped ++ region :: rest)[skipped.length]? = some region := by
    rw [List.getElem?_append_right le_rfl, Nat.sub_self, List.getElem?_cons_zero]
  have hloc := toNat_location (show 4096 * firstFrame region < 2 ^ 32 by omega)
  have hskip : ComesTo insert (skipped ++ region :: rest) []
      ⟨skipped ++ region :: rest, skipped.length, none⟩ :=
    (ComesTo.start ..).skipped (by rwa [List.drop_zero]) (Nat.zero_le _)
  have hbehind : 4096 * firstFrame region / 4096 +
      (regionStop region / 4096 - firstFrame region) ≤ regionStop region / 4096 := by omega
  obtain ⟨s, hs⟩ := (hskip.move (step_enters hregion htype)).passesSome (by rw [hloc]; omega)
    (by rw [hloc, toNat_regionEnd hstop]; exact hbehind)
  rw [hloc, Nat.mul_div_cancel_left _ (by decide), List.nil_append] at hs
  exact hs.reaches (getElem?_wholeFrames hk)

theorem availableFrames_skipped {skipped rest : MemoryMap}
    (hskipped : ∀ r ∈ skipped, HasNothing r) (htype : region.type = .available)
    (hk : k < (wholeFrames region).length) :
    (availableFrames (skipped ++ region :: rest))[k]? = some (frameAt (firstFrame region) k) := by
  have hnone : availableFrames skipped = [] := by
    refine List.flatMap_eq_nil_iff.mpr fun r hr => ?_
    split
    · exact (hskipped r hr ‹_›).2
    · rfl
  rw [availableFrames, List.flatMap_append, List.flatMap_cons, if_pos htype]
  rw [availableFrames] at hnone
  rw [hnone, List.nil_append, List.getElem?_append_left hk, getElem?_wholeFrames hk]

/-- **The frames of the map** are the ones the loops come to. -/
theorem Predictable.reaches_iff (h : Predictable insert map count) (hk : k < count) :
    Reaches insert map k f ↔ (availableFrames map)[k]? = some f := by
  rcases h with rfl | ⟨skipped, region, rest, rfl, hskipped, htype, hstop, hcount⟩ |
    ⟨hcut, horder, hends⟩
  · exact absurd hk (Nat.not_lt_zero k)
  · have hreaches : Reaches insert (skipped ++ region :: rest) k _ :=
      reaches_of_skipped hskipped htype hstop (hk.trans_le hcount)
    rw [availableFrames_skipped hskipped htype (hk.trans_le hcount), Option.some.injEq]
    exact ⟨fun h' => hreaches.unique h', fun heq => heq ▸ hreaches⟩
  · have hstart : ComesTo insert map [] ⟨[] ++ map, 0, none⟩ := .start insert map
    obtain ⟨map', hcomes⟩ := hstart.passesAll hcut (by rwa [List.nil_append]) hends
    refine hcomes.reaches_iff ?_
    simp [Scan.step]

theorem Predictable.within (h : Predictable insert map count) (hk : k < count)
    (hf : (availableFrames map)[k]? = some f) : map.Within f .available := by
  rcases h with rfl | ⟨skipped, region, rest, rfl, hskipped, htype, hstop, hcount⟩ |
    ⟨-, -, hends⟩
  · exact absurd hk (Nat.not_lt_zero k)
  · have hk' := hk.trans_le hcount
    rw [availableFrames_skipped hskipped htype hk', ← getElem?_wholeFrames hk'] at hf
    exact within_of_mem_wholeFrames (List.mem_append_right _ (List.mem_cons_self ..)) htype hstop
      (List.mem_of_getElem? hf)
  · obtain ⟨region, hregion, htype, hmem⟩ := mem_availableFrames.mp (List.mem_of_getElem? hf)
    exact within_of_mem_wholeFrames hregion htype (hends region hregion htype).1 hmem

end Scan
end QuarkKernel
