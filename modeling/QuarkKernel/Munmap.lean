import QuarkKernel.CountedLoop
import QuarkKernel.FrameOwnership

/-! # `munmap` never comes back

The loop of `munmap` looks at `location + n` in every pass and leaves `n` at 0.  The
status stays `ENONE`, so the loop ends before its first pass or not at all
(`munmapLoop_eq_none`).  It does unmap its first page, once, and then spins
(`munmap_spins`).

`mmap` calls `munmap` to take back what it has mapped when it runs out of frames; so it
does not come back either (`mmapCall_eq_none`). -/
namespace QuarkKernel
open PagedMemory
open CountedLoop (loop)

namespace UserFrames

/-- The loop of `munmap`; `none` if `fuel` passes are not enough, or on a fault. -/
def munmapLoop (location length : Word) : Nat → Word → Word → UserFrames →
    Option (Word × UserFrames)
  | fuel, n, status, s =>
      if n < length ∧ status = Status.enone.code then
        match fuel with
        | 0 => none
        | fuel + 1 => do
            let (status, s) ← s.munmapPass (location + n) status
            munmapLoop location length fuel n status s
      else some (status, s)

/-- `munmap` -/
def munmap (fuel : Nat) (s : UserFrames) (location length : Word) : Option (Word × UserFrames) :=
  match munmapRefuses location length with
  | some status => some (status, s)
  | none => munmapLoop location length fuel 0 Status.enone.code s

/-- `mmap`, with the call of `munmap`; `none` if it panics, too. -/
def mmapCall (fuel : Nat) (s : UserFrames) (location length flags : Word) :
    Option (Word × UserFrames) := do
  let (result, s) ← s.mmap location length flags
  match result with
  | .returns status => some (status, s)
  | .callsMunmap status => do
      let (munmapStatus, s) ← s.munmap fuel location length
      if munmapStatus ≠ Status.enone.code then none else some (status, s)

/-- `munmap` returns `ENONE`, the pages of the range are gone, and no other page has
changed. -/
def Unmaps (s : UserFrames) (location length : Word) : Prop :=
  ∃ s' : UserFrames,
    (∃ N, ∀ fuel, N ≤ fuel → s.munmap fuel location length = some (Status.enone.code, s')) ∧
    (∀ x, InRange location length x → s'.machine.memory.translate x = none) ∧
    ∀ x, ¬ InRange location length x →
      s'.machine.memory.translate x = s.machine.memory.translate x

/-- `mmap` returns an error, the pages of the range are absent, no other page has
changed, and the data frames it has got are given back. -/
def RollsBack (s : UserFrames) (location length flags : Word) : Prop :=
  ∃ (status : Word) (s' : UserFrames),
    (∃ N, ∀ fuel, N ≤ fuel → s.mmapCall fuel location length flags = some (status, s')) ∧
    status ≠ Status.enone.code ∧
    (∀ x, InRange location length x → s'.machine.memory.translate x = none) ∧
    (∀ x, ¬ InRange location length x →
      s'.machine.memory.translate x = s.machine.memory.translate x) ∧
    ∀ f, f ∈ s'.frames → f ∈ s.frames

variable {s s' : UserFrames} {page location length flags status n : Word}

/-! ### The loop -/

theorem munmapRefuses_eq_none (hloc : location % pageSize = 0) (hlen : length % pageSize = 0)
    (hne : location ≠ 0) : munmapRefuses location length = none := by
  rw [munmapRefuses, if_neg, if_neg hne]
  rw [not_or, not_not, not_not]
  exact ⟨hloc, hlen⟩

/-- No pass leaves an error, whatever it finds. -/
theorem status_of_munmapPass (h : s.munmapPass page Status.enone.code = some (status, s')) :
    status = Status.enone.code := by
  obtain ⟨type, -, h⟩ := Option.bind_eq_some_iff.mp h
  split at h
  · obtain ⟨⟨frame, machine⟩, -, h⟩ := Option.bind_eq_some_iff.mp h
    dsimp only at h
    split at h
    · cases h
      rfl
    · cases h
      rfl
  · cases h
    rfl

/-- Once in the loop, always in the loop. -/
theorem munmapLoop_eq_none (hlt : n < length) (fuel : Nat) (s : UserFrames) :
    munmapLoop location length fuel n Status.enone.code s = none := by
  induction fuel generalizing s with
  | zero =>
    rw [munmapLoop]
    exact if_pos ⟨hlt, rfl⟩
  | succ fuel ih =>
    rw [munmapLoop, if_pos ⟨hlt, rfl⟩]
    cases hpass : s.munmapPass (location + n) Status.enone.code with
    | none => rfl
    | some result =>
      obtain ⟨status, s'⟩ := result
      obtain rfl := status_of_munmapPass hpass
      exact ih s'

theorem munmap_eq_none (hloc : location % pageSize = 0) (hlen : length % pageSize = 0)
    (hne : location ≠ 0) (hpos : length ≠ 0) (fuel : Nat) (s : UserFrames) :
    s.munmap fuel location length = none := by
  have hlt : 0 < length := by
    rw [BitVec.lt_def]
    exact Nat.pos_of_ne_zero fun hzero => hpos (BitVec.eq_of_toNat_eq hzero)
  rw [munmap, munmapRefuses_eq_none hloc hlen hne]
  exact munmapLoop_eq_none hlt fuel s

/-- The loop does not get stuck on the way: after any number of passes the first page is
gone, and that is all. -/
theorem munmap_spins (h : PageTree s.machine.memory s.machine.pageMap.reserved)
    (hpage : IsUser page) (k : Nat) :
    ∃ s', loop (fun _ s => (s.munmapPass page Status.enone.code).map Prod.snd) (k + 1) s = some s' ∧
      s'.frames = s.frames ∧ UnmapsPage s.machine s'.machine page := by
  induction k with
  | zero =>
    obtain ⟨m', hpass, hunmaps⟩ := munmapPass_eq h hpage Status.enone.code
    refine ⟨{ s with machine := m' }, ?_, rfl, hunmaps⟩
    rw [CountedLoop.loop_succ, CountedLoop.loop_zero, Option.bind_some, hpass]
    rfl
  | succ k ih =>
    obtain ⟨s1, hloop, hframes, hunmaps⟩ := ih
    obtain ⟨m', hpass, hagain⟩ := munmapPass_eq hunmaps.tree hpage Status.enone.code
    refine ⟨{ s1 with machine := m' }, ?_, hframes, hagain.tree,
      hagain.pageMap.trans hunmaps.pageMap, hagain.absent, ?_⟩
    · rw [CountedLoop.loop_succ, hloop, Option.bind_some, hpass]
      rfl
    · intro x hx
      exact (hagain.other x hx).trans (hunmaps.other x hx)

theorem not_unmaps (hloc : location % pageSize = 0) (hlen : length % pageSize = 0)
    (hne : location ≠ 0) (hpos : length ≠ 0) : ¬ s.Unmaps location length := by
  rintro ⟨s', ⟨N, hreturns⟩, -⟩
  have hreturn := hreturns N le_rfl
  rw [munmap_eq_none hloc hlen hne hpos] at hreturn
  cases hreturn

/-- **Main result.** `munmap` does what it is for on the empty range only. -/
theorem unmaps_iff (hloc : location % pageSize = 0) (hlen : length % pageSize = 0)
    (hne : location ≠ 0) : s.Unmaps location length ↔ length = 0 := by
  constructor
  · intro hunmaps
    by_contra hpos
    exact not_unmaps hloc hlen hne hpos hunmaps
  · rintro rfl
    refine ⟨s, ⟨0, fun fuel _ => ?_⟩, ?_, fun _ _ => rfl⟩
    · rw [munmap, munmapRefuses_eq_none hloc hlen hne]
      dsimp only
      rw [munmapLoop.eq_def]
      rfl
    · rintro x ⟨hle, hlt⟩
      exact absurd hlt (Nat.not_lt.mpr hle)

/-- Two pages, and none. -/
theorem unmaps_iff_emptyProcess :
    ¬ emptyProcess.Unmaps 0x400000 0x2000 ∧ emptyProcess.Unmaps 0x400000 0 := by
  constructor
  · intro hunmaps
    exact absurd ((unmaps_iff (by decide) (by decide) (by decide)).mp hunmaps) (by decide)
  · exact (unmaps_iff (by decide) (by decide) (by decide)).mpr rfl

/-- One page is enough. -/
theorem not_unmaps_emptyProcess :
    ¬ ∀ (s : UserFrames) (location length : Word), s.Sound → location % pageSize = 0 →
      location ≠ 0 → length % pageSize = 0 → BelowKernel location length →
      s.Unmaps location length := by
  intro hall
  exact not_unmaps (by decide) (by decide) (by decide) (by decide)
    (hall emptyProcess 0x400000 pageSize sound_emptyProcess (by decide) (by decide) (by decide)
      (by decide))

/-! ### `mmap` without enough frames -/

theorem anyPresent_of_translate {m : PagedMemory} (h : m.SelfMapped)
    (hbelow : BelowKernel location length) {n : Nat} (hn : n ≤ pageCount length)
    (habsent : ∀ i, i < pageCount length → m.translate (pageAt location i) = none) :
    anyPresent m location n = some false := by
  induction n with
  | zero => rfl
  | succ n ih =>
    obtain ⟨type, htype, hpresent, -⟩ := pageType_eq h (isUser_pageAt hbelow hn).ne
    rw [habsent n hn] at hpresent
    rw [anyPresent, ih (by omega)]
    show (pageType m (pageAt location n)).map _ = _
    rw [htype, Option.map_some, hpresent]
    rfl

/-- The frames for the pages of the range cannot all be had. -/
def RunsOut (s : UserFrames) (location length : Word) : Prop :=
  ¬ Supplied s.machine.pageMap.answers
    (framesFor s.machine.memory location (pageCount length))

/-- `mmap` on absent pages calls `munmap` if it runs out of frames. -/
theorem mmap_of_runsOut (h : s.Sound) (hbelow : BelowKernel location length)
    (hloc : location % pageSize = 0) (hlen : length % pageSize = 0) (hne : location ≠ 0)
    (habsent : ∀ x, InRange location length x → s.machine.memory.translate x = none)
    (hruns : s.RunsOut location length) (flags : Word) :
    ∃ s', s.mmap location length flags = some (.callsMunmap Status.enomem.code, s') := by
  have hpages : ∀ i, i < pageCount length →
      s.machine.memory.translate (pageAt location i) = none := by
    intro i hi
    exact habsent _ ((inRange_iff hbelow hloc hlen).mpr ⟨i, hi, rfl⟩)
  obtain ⟨status, s', hloop, -, hspec⟩ := mmapLoop_spec h hbelow hpages le_rfl
  obtain rfl : status = Status.enomem.code := by
    cases hspec with
    | maps hrange hsupplied => exact absurd hsupplied hruns
    | runsOut => rfl
  refine ⟨s', ?_⟩
  have haligned : ¬ (location % pageSize ≠ 0 ∨ length % pageSize ≠ 0) := by
    rw [not_or, not_not, not_not]
    exact ⟨hloc, hlen⟩
  rw [mmap, if_neg haligned, if_neg hne, anyPresent_of_translate h.tree.self hbelow le_rfl hpages,
    hloop]
  rfl

theorem length_ne_zero_of_runsOut (h : s.RunsOut location length) : length ≠ 0 := by
  rintro rfl
  exact h fun k hk => absurd hk (Nat.not_lt_zero k)

theorem mmapCall_eq_none (h : s.Sound) (hbelow : BelowKernel location length)
    (hloc : location % pageSize = 0) (hlen : length % pageSize = 0) (hne : location ≠ 0)
    (habsent : ∀ x, InRange location length x → s.machine.memory.translate x = none)
    (hruns : s.RunsOut location length) (fuel : Nat) :
    s.mmapCall fuel location length flags = none := by
  obtain ⟨s', hmmap⟩ := mmap_of_runsOut h hbelow hloc hlen hne habsent hruns flags
  have hmunmap := munmap_eq_none hloc hlen hne (length_ne_zero_of_runsOut hruns) fuel s'
  rw [mmapCall, hmmap]
  simp only [Option.bind_eq_bind, Option.bind_some]
  rw [hmunmap]
  rfl

/-- **Main result.** Whenever `mmap` runs out of frames, at whatever page and for whatever
it needs the frame, it does not roll back. -/
theorem not_rollsBack_of_runsOut (h : s.Sound) (hbelow : BelowKernel location length)
    (hloc : location % pageSize = 0) (hlen : length % pageSize = 0) (hne : location ≠ 0)
    (habsent : ∀ x, InRange location length x → s.machine.memory.translate x = none)
    (hruns : s.RunsOut location length) : ¬ s.RollsBack location length flags := by
  rintro ⟨status, s', ⟨N, hreturns⟩, -⟩
  have hreturn := hreturns N le_rfl
  rw [mmapCall_eq_none h hbelow hloc hlen hne habsent hruns] at hreturn
  cases hreturn

/-- There is a frame for a page, and none for its table. -/
def oneFrame : UserFrames := ⟨⟨emptyMemory, ⟨[some 4], [1, 3]⟩⟩, []⟩

theorem sound_oneFrame : oneFrame.Sound := by
  refine ⟨pageTree_emptyMemory, by decide, ?_⟩
  intro f hf
  obtain rfl : f = 4 := by simpa [oneFrame] using hf
  decide

theorem absent_oneFrame (x : Word) (hx : InRange 0x400000 pageSize x) :
    oneFrame.machine.memory.translate x = none := by
  have hpde : (emptyMemory.pde x).present = false := by
    refine Bool.eq_false_of_not_eq_true (not_present_emptyMemory ?_)
    rw [dirIndex_toNat]
    obtain ⟨-, hlt⟩ := hx
    rw [show (0x400000 : Word).toNat + pageSize.toNat = 4198400 from rfl] at hlt
    omega
  show emptyMemory.translate x = none
  rw [PagedMemory.translate, hpde]
  rfl

theorem runsOut_oneFrame : oneFrame.RunsOut 0x400000 pageSize := by
  intro hsupplied
  have hframes : framesFor oneFrame.machine.memory 0x400000 (pageCount pageSize) = 2 := by
    show 0 + pageFrames emptyMemory 0x400000 0 = 2
    rw [pageFrames, if_neg]
    rintro (hp | ⟨j, hj, -⟩)
    · exact absurd hp (by decide)
    · exact absurd hj (Nat.not_lt_zero j)
  obtain ⟨f, hf⟩ := hsupplied 1 (by omega)
  cases hf

theorem not_rollsBack_of_runsOut_oneFrame : ¬ oneFrame.RollsBack 0x400000 pageSize 0 :=
  not_rollsBack_of_runsOut sound_oneFrame (by decide) (by decide) (by decide) (by decide)
    absent_oneFrame runsOut_oneFrame

/-- So the error of `map_page` never gets to the program. -/
theorem not_rollsBack_oneFrame :
    ¬ ∀ (s : UserFrames) (location length flags : Word), s.Sound → BelowKernel location length →
      location % pageSize = 0 → length % pageSize = 0 → location ≠ 0 →
      (∀ x, InRange location length x → s.machine.memory.translate x = none) →
      s.RunsOut location length → s.RollsBack location length flags := by
  intro hall
  obtain ⟨status, s', ⟨N, hreturns⟩, -⟩ := hall oneFrame 0x400000 pageSize 0 sound_oneFrame
    (by decide) (by decide) (by decide) (by decide) absent_oneFrame runsOut_oneFrame
  have hreturn := hreturns N le_rfl
  rw [mmapCall_eq_none sound_oneFrame (by decide) (by decide) (by decide) (by decide)
    absent_oneFrame runsOut_oneFrame] at hreturn
  cases hreturn

end UserFrames
end QuarkKernel
