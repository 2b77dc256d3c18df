import QuarkKernel.FrameOwnership
import QuarkKernel.SpaceIsolation

/-! # `mmap` and `munmap` by one process leave the others alone

What the calls of a process do to memory is an orderly run with one address space loaded,
as long as the ranges are below the kernel. -/
namespace QuarkKernel
open PagedMemory

namespace HeldFrames
variable {s s' s0 : HeldFrames} {use : Frame → Option Use} {page frame flags : Word}
  {location length status : Word} {u u' : UserFrames} {a : Frame}

/-- `map_page` does not load another directory. -/
theorem Uses.cr3_mapPage (h : s.Uses use) (hpage : BelowWindow page)
    (hst : s.step (.mapPage page frame flags) = some s') : s'.memory.cr3 = s.memory.cr3 := by
  by_cases ha : frame % pageSize = 0
  · by_cases hp : (s.memory.pde page).present = true
    · rw [HeldFrames.step, Machine.mapPage_of_present h.self hpage ha (h.usable hpage hp)] at hst
      cases hst
      rfl
    · have hp : (s.memory.pde page).present = false := Bool.eq_false_of_not_eq_true hp
      rcases Option.eq_none_or_eq_some s.machine.pageMap.next with hnext | ⟨f, hnext⟩
      · rw [HeldFrames.step, Machine.mapPage_of_none h.self hpage ha hp hnext] at hst
        cases hst
        rfl
      · rw [h.step_mapPage hpage ha hp hnext] at hst
        cases hst
        rfl
  · rw [HeldFrames.step, Machine.mapPage_of_unaligned ha] at hst
    cases hst
    rfl

theorem Uses.cr3_unmapPage (h : s.Uses use) (hpage : BelowWindow page)
    (hst : s.step (.unmapPage page) = some s') : s'.memory.cr3 = s.memory.cr3 := by
  by_cases hp : (s.memory.pde page).present = true ∧ (s.memory.pte page).present = true
  · rw [HeldFrames.step,
      Machine.unmapPage_of_present h.self hpage (h.usable hpage hp.1) hp.2] at hst
    cases hst
    rfl
  · rw [HeldFrames.step, Machine.unmapPage_of_absent h.self hpage hp] at hst
    cases hst
    rfl

/-- An orderly call, with the address space loaded. -/
def Within (a : Frame) (s : HeldFrames) (op : Op) : Prop := s.Orderly op ∧ s.memory.cr3 = a

/-- The machine is one that an orderly run with one address space loaded has led to. -/
structure Follows (s0 s : HeldFrames) (machine : Machine) : Prop where
  run : (since s0).Reachable (Within s0.memory.cr3) s
  machine : s.machine = machine
  cr3 : s.memory.cr3 = s0.memory.cr3
  spaces : s.spaces = s0.spaces
  bootSpace : s.bootSpace = s0.bootSpace

theorem Reachable.since (h : system.Reachable Orderly s0)
    (hrun : (since s0).Reachable (Within s0.memory.cr3) s) : system.Reachable Orderly s := by
  induction hrun with
  | init hs => exact hs ▸ h
  | step _ hok hst ih => exact .step ih hok.1 hst

theorem Follows.next {m m' : Machine} {op : Op} (h : Follows s0 s m) (hok : s.Orderly op)
    (hst : s.step op = some s') (hmachine : s'.machine = m') (hcr3 : s'.memory.cr3 = s.memory.cr3)
    (hspaces : s'.spaces = s.spaces) (hboot : s'.bootSpace = s.bootSpace) : Follows s0 s' m' :=
  ⟨.step h.run ⟨hok, h.cr3⟩ hst, hmachine, hcr3.trans h.cr3, hspaces.trans h.spaces,
    hboot.trans h.bootSpace⟩

theorem Follows.reservePage (h : Follows s0 s u.machine) : ∃ s',
    s'.held = (s.machine.pageMap.next.toList ++ s.held) ∧
      Follows s0 s' { u.machine with pageMap := u.machine.pageMap.reservePage.2 } := by
  have hok : s.Orderly .reservePage := trivial
  obtain ⟨machine, frames⟩ := u
  obtain rfl : s.machine = machine := h.machine
  rcases Option.eq_none_or_eq_some s.machine.pageMap.next with hnext | ⟨f, hnext⟩
  · have hst : s.step .reservePage = some { s with
        machine.pageMap := ⟨s.machine.pageMap.answers.tail, s.machine.pageMap.reserved⟩ } := by
      rw [HeldFrames.step, PageMap.reservePage_of_none hnext]
      rfl
    refine ⟨_, ?_, h.next hok hst ?_ rfl rfl rfl⟩
    · rw [hnext]
      rfl
    · rw [PageMap.reservePage_of_none hnext]
  · refine ⟨_, ?_, h.next hok (step_reservePage hnext) ?_ rfl rfl rfl⟩
    · rw [hnext]
      rfl
    · rw [PageMap.reservePage_of_some hnext]

section
variable (h0 : system.Reachable Orderly s0) (hspace : s0.memory.cr3 ≠ s0.bootSpace)
include h0 hspace

/-- A pass of `mmap` is at most three calls: `reserve_page`, `map_page`, and `free_page` when
there is no frame for a table. -/
theorem Follows.mmapPass (h : Follows s0 s u.machine) (hpage : IsUser page)
    (hpass : u.mmapPass page = some (status, u')) : ∃ s', Follows s0 s' u'.machine := by
  obtain ⟨s1, hheld, h1⟩ := h.reservePage
  rcases Option.eq_none_or_eq_some s.machine.pageMap.next with hnext | ⟨f, hnext⟩
  · rw [UserFrames.mmapPass, ← h.machine, PageMap.reservePage_of_none hnext] at hpass
    rw [← h.machine, PageMap.reservePage_of_none hnext] at h1
    cases hpass
    exact ⟨s1, h1⟩
  · rw [UserFrames.mmapPass, ← h.machine, PageMap.reservePage_of_some hnext] at hpass
    rw [← h.machine, PageMap.reservePage_of_some hnext] at h1
    dsimp only at hpass
    rw [if_pos (show _ = Status.enone.code from frameAddress_aligned f)] at hpass
    obtain ⟨⟨mapStatus, m⟩, hmap, hpass⟩ := Option.bind_eq_some_iff.mp hpass
    obtain ⟨use, huse⟩ := uses_of_reachable (Reachable.since h0 h1.run)
    have hf : f ∈ s1.held := by
      rw [hheld, hnext]
      exact List.mem_cons_self ..
    have hok : s1.Orderly (.mapPage page (frameAddress f) (pageUsermode ||| pageRw)) := by
      refine ⟨hpage.belowWindow, fun _ => ?_, ?_⟩
      · rwa [frameNumber_frameAddress]
      · rw [if_pos hpage, h1.cr3, h1.bootSpace]
        exact hspace
    obtain ⟨s2, hst⟩ : ∃ s2, s1.step
        (.mapPage page (frameAddress f) (pageUsermode ||| pageRw)) = some s2 := by
      rw [HeldFrames.step, h1.machine, hmap]
      exact ⟨_, rfl⟩
    have hresult := hst
    rw [HeldFrames.step, h1.machine, hmap] at hresult
    have hcr3 := huse.cr3_mapPage hpage.belowWindow hst
    obtain rfl := Option.some.inj hresult
    have h2 := h1.next hok hst rfl hcr3 rfl rfl
    cases hpass
    by_cases hstatus : mapStatus = .enone
    · rw [if_neg (not_not.mpr hstatus)]
      exact ⟨_, h2⟩
    · -- the frame is given back
      rw [if_pos hstatus]
      have hfree := h2.next (show Orderly _ (Op.freePage f) by simpa [Orderly, hstatus] using hf)
        rfl rfl rfl rfl rfl
      rw [UserFrames.freePage, frameNumber_frameAddress]
      exact ⟨_, hfree⟩

/-- The loop of `mmap` over pages below the kernel. -/
theorem Follows.mmapLoop (h : Follows s0 s u.machine) (hbelow : BelowKernel location length)
    {n : Nat} (hn : n ≤ pageCount length) (hloop : u.mmapLoop location n = some (status, u')) :
    ∃ s', Follows s0 s' u'.machine := by
  induction n generalizing status u' with
  | zero =>
    cases hloop
    exact ⟨s, h⟩
  | succ n ih =>
    obtain ⟨⟨status1, u1⟩, hloop1, hpass⟩ := Option.bind_eq_some_iff.mp hloop
    obtain ⟨s1, h1⟩ := ih (by omega) hloop1
    dsimp only at hpass
    split at hpass
    · exact h1.mmapPass h0 hspace (isUser_pageAt hbelow (by omega)) hpass
    · cases hpass
      exact ⟨s1, h1⟩

/-- `mmap`, up to its return or its call of `munmap`. -/
theorem Follows.mmap {result : MmapResult} (h : Follows s0 s u.machine)
    (hfor : MemoryCalls.ForPrograms location length)
    (hmmap : u.mmap location length flags = some (result, u')) :
    ∃ s', Follows s0 s' u'.machine := by
  rw [UserFrames.mmap] at hmmap
  split at hmmap
  · cases hmmap
    exact ⟨s, h⟩
  split at hmmap
  · cases hmmap
    exact ⟨s, h⟩
  obtain ⟨present, -, hmmap⟩ := Option.bind_eq_some_iff.mp hmmap
  split at hmmap
  · cases hmmap
    exact ⟨s, h⟩
  · obtain ⟨⟨status, u1⟩, hloop, hresult⟩ := Option.bind_eq_some_iff.mp hmmap
    cases hresult
    rcases hfor with rfl | hbelow
    · cases hloop
      exact ⟨s, h⟩
    · exact h.mmapLoop h0 hspace hbelow le_rfl hloop

/-- A pass of `munmap` is `unmap_page`, for no entry has `PAGE_ANON`. -/
theorem Follows.munmapPass {result : Word} (h : Follows s0 s u.machine) (hpage : IsUser page)
    (hpass : u.munmapPass page status = some (result, u')) : ∃ s', Follows s0 s' u'.machine := by
  obtain ⟨use, huse⟩ := uses_of_reachable (Reachable.since h0 h.run)
  obtain ⟨type, htype, -, hanon⟩ := pageType_eq huse.self hpage.ne
  rw [UserFrames.munmapPass, ← h.machine, htype, Option.bind_eq_bind, Option.bind_some] at hpass
  split at hpass
  · obtain ⟨⟨frame, m⟩, hunmap, hpass⟩ := Option.bind_eq_some_iff.mp hpass
    rw [hanon] at hpass
    cases hpass
    have hok : s.Orderly (.unmapPage page) := by
      refine ⟨hpage.belowWindow, fun _ => ?_⟩
      rw [h.cr3, h.bootSpace]
      exact hspace
    obtain ⟨s', hst⟩ : ∃ s', s.step (.unmapPage page) = some s' := by
      rw [HeldFrames.step, hunmap]
      exact ⟨_, rfl⟩
    have hcr3 := huse.cr3_unmapPage hpage.belowWindow hst
    rw [HeldFrames.step, hunmap] at hst
    obtain rfl := Option.some.inj hst
    refine ⟨_, h.next hok ?_ rfl hcr3 rfl rfl⟩
    rw [HeldFrames.step, hunmap]
    rfl
  · cases hpass
    exact ⟨s, h⟩

end

/-! ### Runs of both calls -/

/-- The runs of `mmap` and `munmap` from a state. -/
def memoryCalls (t : MemoryCalls) : Transition.System MemoryCalls MemoryStep :=
  .ofStep (· = t) MemoryCalls.step

/-- `reserve_region` answers with frames that are not in use, and the ranges are below the
kernel. -/
def StaysBelow (t : MemoryCalls) (e : MemoryStep) : Prop :=
  t.answersFresh e ∧
    match e with
    | .mmap location length _ _ | .munmap location length =>
        MemoryCalls.ForPrograms location length
    | .pass => True

/-- The loop of `munmap` is at a page below the kernel. -/
def AtProgram : Control → Prop
  | .idle => True
  | .munmap location length n _ _ => n = 0 ∧ MemoryCalls.ForPrograms location length

/-- The calls are followed by an orderly run. -/
structure FollowsCalls (s0 : HeldFrames) (t : MemoryCalls) : Prop where
  follows : ∃ s, Follows s0 s t.user.machine
  control : AtProgram t.control

variable {t t' : MemoryCalls}

theorem FollowsCalls.munmapReturns {caller : Option Word} (h : ∃ s, Follows s0 s u.machine)
    (hst : MemoryCalls.munmapReturns u status caller = some t') : FollowsCalls s0 t' := by
  rw [MemoryCalls.munmapReturns] at hst
  split at hst
  · cases hst
  · cases hst
    exact ⟨h, trivial⟩

theorem FollowsCalls.munmap {caller : Option Word} (h : ∃ s, Follows s0 s u.machine)
    (hfor : MemoryCalls.ForPrograms location length)
    (hst : MemoryCalls.munmap u location length caller = some t') : FollowsCalls s0 t' := by
  rw [MemoryCalls.munmap] at hst
  split at hst
  · exact .munmapReturns h hst
  · cases hst
    exact ⟨h, rfl, hfor⟩

/-- **One step.** -/
theorem FollowsCalls.step {e : MemoryStep} (h0 : system.Reachable Orderly s0)
    (hspace : s0.memory.cr3 ≠ s0.bootSpace) (h : FollowsCalls s0 t) (hok : StaysBelow t e)
    (hst : t.step e = some t') : FollowsCalls s0 t' := by
  obtain ⟨⟨s, hs⟩, hcontrol⟩ := h
  obtain ⟨user, control⟩ := t
  cases e with
  | mmap location length flags answers =>
    obtain ⟨hfresh, hfor⟩ := hok
    rw [MemoryCalls.step] at hst
    cases control with
    | munmap => cases hst
    | idle =>
      obtain ⟨⟨result, u1⟩, hmmap, hresult⟩ := Option.bind_eq_some_iff.mp hst
      have hmachine : s.machine = user.machine := hs.machine
      have hanswers : s.Orderly (.answers answers) := by
        show PageMap.Fresh ⟨answers, s.machine.pageMap.reserved⟩
        rw [hmachine]
        exact hfresh
      have hs1 : Follows s0 _ { user.machine with
          pageMap := { user.machine.pageMap with answers } } :=
        hs.next hanswers rfl (by rw [← hmachine]) rfl rfl rfl
      obtain ⟨s2, hs2⟩ := hs1.mmap h0 hspace hfor hmmap
      cases result with
      | returns status =>
        cases hresult
        exact ⟨⟨s2, hs2⟩, trivial⟩
      | callsMunmap status => exact .munmap ⟨s2, hs2⟩ hfor hresult
  | munmap location length =>
    rw [MemoryCalls.step] at hst
    cases control with
    | munmap => cases hst
    | idle => exact .munmap ⟨s, hs⟩ hok.2 hst
  | pass =>
    rw [MemoryCalls.step] at hst
    cases control with
    | idle => cases hst
    | munmap location length n status caller =>
      obtain ⟨rfl, hfor⟩ := hcontrol
      dsimp only at hst
      split at hst
      · rename_i hn
        obtain ⟨⟨status1, u1⟩, hpass, hresult⟩ := Option.bind_eq_some_iff.mp hst
        cases hresult
        have hpage : IsUser (location + 0) := by
          rw [show location + 0 = location from BitVec.add_zero location, isUser_iff]
          rcases hfor with rfl | hbelow
          · exact absurd hn.1 (by decide)
          · rw [BelowKernel, toNat_kernelStart] at hbelow
            have hpos : (0 : Word).toNat < length.toNat := BitVec.lt_def.mp hn.1
            rw [show (0 : Word).toNat = 0 from rfl] at hpos
            omega
        exact ⟨hs.munmapPass h0 hspace hpage hpass, rfl, hfor⟩
      · exact .munmapReturns ⟨s, hs⟩ hst

/-- **`mmap` and `munmap` by one process.**  Every run of both below the kernel is an orderly
run of `reserve_page`, `map_page`, `unmap_page` and `free_page`, with the address space of
the process loaded.  So the address spaces stay isolated, and those of other processes stay
as they are. -/
theorem undisturbed_of_memoryCalls {s : HeldFrames} (h : system.Reachable Orderly s)
    (hspace : s.memory.cr3 ≠ s.bootSpace) (hstart : s.machine = t.user.machine)
    (hidle : t.control = .idle) (hrun : (memoryCalls t).Reachable StaysBelow t') :
    (∃ s' : HeldFrames, (since s).Reachable (Within s.memory.cr3) s' ∧
      s'.machine = t'.user.machine ∧ s'.spaces = s.spaces ∧ s'.bootSpace = s.bootSpace ∧
      s'.Isolated) ∧
    ∀ a, a ∈ s.spaces → a ≠ s.memory.cr3 → a ≠ s.bootSpace →
      SamePages a s.memory t'.user.machine.memory := by
  have hinv : FollowsCalls s t' := by
    refine hrun.invariant (FollowsCalls s) ?_ fun _ _ _ hinv hok hst => hinv.step h hspace hok hst
    rintro t rfl
    exact ⟨⟨s, .init rfl, hstart, rfl, rfl, rfl⟩, by rw [hidle]; trivial⟩
  obtain ⟨s', hs'⟩ := hinv.follows
  obtain ⟨use, huse⟩ := uses_of_reachable (Reachable.since h hs'.run)
  refine ⟨⟨s', hs'.run, hs'.machine, hs'.spaces, hs'.bootSpace, huse.isolated⟩, ?_⟩
  intro a ha hne hboot
  rw [← hs'.machine]
  refine (untouched_of_reachable h ha hboot (hs'.run.mono ?_)).pages
  rintro u op ⟨hok, hcr3⟩
  exact ⟨hok, fun heq => hne (heq.symm.trans hcr3)⟩

/-- The second of two address spaces is loaded, and its process maps the next page. -/
def mapsNextPage : MemoryCalls := ⟨⟨secondMapped.machine, []⟩, .idle⟩

theorem undisturbed_mapsNextPage : ∃ t', (memoryCalls mapsNextPage).Reachable StaysBelow t' ∧
    (∃ s', (since secondMapped).Reachable (Within 5) s' ∧ s'.machine = t'.user.machine) ∧
      SamePages 4 secondMapped.memory t'.user.machine.memory := by
  have hstep : (mapsNextPage.step (.mmap 0x2000 0x1000 0 [some 10])).isSome = true := by
    decide +kernel
  obtain ⟨t', ht'⟩ := Option.isSome_iff_exists.mp hstep
  have hok : StaysBelow mapsNextPage (.mmap 0x2000 0x1000 0 [some 10]) := by
    refine ⟨⟨by decide, ?_⟩, .inr (by decide)⟩
    intro f hf
    obtain rfl : f = 10 := by simpa using hf
    decide
  have hrun : (memoryCalls mapsNextPage).Reachable StaysBelow t' := .step (.init rfl) hok ht'
  have hreach := (reachable_loaded (a := 5) reachable_firstMapped (by decide)).step
    orderly_secondMapped step_secondMapped
  obtain ⟨⟨s', hs', hmachine, -⟩, hsame⟩ :=
    undisturbed_of_memoryCalls hreach (by decide) rfl rfl hrun
  exact ⟨t', hrun, ⟨s', hs', hmachine⟩, hsame 4 (by decide) (by decide) (by decide)⟩

end HeldFrames
end QuarkKernel
