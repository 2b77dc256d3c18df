import QuarkKernel.Mmap
import QuarkKernel.Transition

/-! # Who owns the frames of a program

Runs of `mmap` and `munmap` by one process.  A frame that `mmap` has got should be
mapped by one page until `free_page` gets it back (`Owned`).  `PAGE_ANON` is to tell
`munmap` which frames to give back, but `mmap` does not set it, and the page tables
have no place for it: `munmap` takes the page away and keeps the frame.

So frames stay owned as long as `munmap` meets none of them, and `mmap` does not call
it after it has mapped a page (`owned_of_reachable`). -/
namespace QuarkKernel
open PagedMemory

/-- One page of the program, and no other page, shows the frame. -/
def ShownOnce (m : PagedMemory) (f : Frame) : Prop :=
  ∃ page, IsUser page ∧ m.translate page = some f ∧ ∀ x, m.translate x = some f → SamePage page x

namespace UserFrames
variable {s s' : UserFrames} {page location length status : Word} {n : Nat}

/-- The frames that `mmap` has got are in use, and each is shown by one page. -/
structure Owns (s : UserFrames) : Prop where
  tree : PageTree s.machine.memory s.machine.pageMap.reserved
  owned : ∀ f, f ∈ s.frames → f ∈ s.machine.pageMap.reserved ∧ ShownOnce s.machine.memory f

/-! ### Passes of `mmap` -/

theorem Owns.mmapPass (h : s.Owns) (hpage : IsUser page)
    (habsent : s.machine.memory.translate page = none) (hpass : MmapPass s page status s') :
    s'.Owns := by
  cases hpass with
  | runsOut hmemory hreserved _ hframes =>
    constructor
    · rw [hmemory, hreserved]
      exact h.tree
    · rw [hmemory, hreserved, hframes]
      exact h.owned
  | maps g hunused hmaps hframes =>
    refine ⟨hmaps.tree, ?_⟩
    intro f hf
    rw [hframes] at hf
    rcases List.mem_cons.mp hf with rfl | hf
    · refine ⟨hmaps.grows f (List.mem_cons_self ..), page, hpage, (hmaps.maps page rfl).2, ?_⟩
      intro x hx
      exact samePage_of_translate_maps h.tree hunused hmaps hx
    · obtain ⟨hin, shown, huser, hshows, honly⟩ := h.owned f hf
      have hne : ¬ SamePage page shown := by
        intro hsame
        rw [← translate_of_samePage hsame, habsent] at hshows
        cases hshows
      refine ⟨hmaps.grows f (List.mem_cons_of_mem _ hin), shown, huser, ?_, ?_⟩
      · exact (hmaps.other shown huser hne).translate.trans hshows
      · intro x hx
        exact honly x (translate_of_translate_maps hunused hmaps hin hx)

/-- The tables there are after a page has been mapped. -/
theorem present_iff_of_maps {g : Frame} (hmaps : MapsPage (withFrame s.machine g) s'.machine page g)
    (d : BitVec 10) : (s'.machine.memory.entry s'.machine.memory.cr3 d).present = true ↔
      (s.machine.memory.entry s.machine.memory.cr3 d).present = true ∨ dirIndex page = d := by
  by_cases hd : d = dirIndex page
  · refine iff_of_true ?_ (.inr hd.symm)
    rw [hd]
    exact hmaps.present
  · have hsame : s'.machine.memory.entry s.machine.memory.cr3 d =
        s.machine.memory.entry s.machine.memory.cr3 d := hmaps.directory d hd
    rw [show s'.machine.memory.cr3 = s.machine.memory.cr3 from hmaps.cr3, hsame]
    exact (or_iff_left fun heq => hd heq.symm).symm

/-- The frames it takes to map page `i` of a range, with all pages before it mapped. -/
def pageFrames (m : PagedMemory) (location : Word) (i : Nat) : Nat :=
  if (m.pde (pageAt location i)).present = true ∨
      ∃ j, j < i ∧ dirIndex (pageAt location j) = dirIndex (pageAt location i) then 1 else 2

/-- The frames it takes to map the first `n` pages of a range. -/
def framesFor (m : PagedMemory) (location : Word) : Nat → Nat
  | 0 => 0
  | n + 1 => framesFor m location n + pageFrames m location n

theorem framesFor_mono (m : PagedMemory) (location : Word) {i j : Nat} (h : i ≤ j) :
    framesFor m location i ≤ framesFor m location j := by
  induction h with
  | refl => exact le_rfl
  | step _ ih => exact Nat.le_trans ih (Nat.le_add_right ..)

theorem Supplied.mono {answers : List (Option Frame)} {i j : Nat} (h : Supplied answers j)
    (hij : i ≤ j) : Supplied answers i :=
  fun k hk => h k (by omega)

/-- What the loop of `mmap` over the first `n` pages comes to: it maps them all, or it
stops at a page for which there are no frames. -/
inductive MmapLoop (s : UserFrames) (location : Word) (n : Nat) : Word → UserFrames → Prop
  | maps {s' : UserFrames} (hrange : MapsRange s s' location n)
      (hsupplied : Supplied s.machine.pageMap.answers (framesFor s.machine.memory location n))
      (hanswers : s'.machine.pageMap.answers =
        s.machine.pageMap.answers.drop (framesFor s.machine.memory location n))
      (htables : ∀ d, (s'.machine.memory.entry s'.machine.memory.cr3 d).present = true ↔
        (s.machine.memory.entry s.machine.memory.cr3 d).present = true ∨
          ∃ i, i < n ∧ dirIndex (pageAt location i) = d) :
      MmapLoop s location n Status.enone.code s'
  | runsOut {s' : UserFrames} (i : Nat) (hi : i < n)
      (hbefore : Supplied s.machine.pageMap.answers (framesFor s.machine.memory location i))
      (hnot : ¬ Supplied s.machine.pageMap.answers (framesFor s.machine.memory location (i + 1)))
      (hfirst : i = 0 → s'.machine.memory = s.machine.memory ∧ s'.frames = s.frames) :
      MmapLoop s location n Status.enomem.code s'

/-- The loop, with what becomes of the frames. -/
theorem mmapLoop_spec (h : s.Sound) (hbelow : BelowKernel location length)
    (habsent : ∀ i, i < pageCount length → s.machine.memory.translate (pageAt location i) = none)
    (hn : n ≤ pageCount length) :
    ∃ status s', s.mmapLoop location n = some (status, s') ∧ (s.Owns → s'.Owns) ∧
      MmapLoop s location n status s' := by
  induction n with
  | zero =>
    refine ⟨_, s, rfl, id, .maps (.zero h location) ?_ rfl ?_⟩
    · intro k hk
      exact absurd hk (Nat.not_lt_zero k)
    · intro d
      refine ⟨.inl, ?_⟩
      rintro (hp | ⟨i, hi, -⟩)
      · exact hp
      · exact absurd hi (Nat.not_lt_zero i)
  | succ n ih =>
    obtain ⟨status, s1, hloop, hown1, hspec⟩ := ih (by omega)
    rw [mmapLoop, hloop]
    simp only [Option.bind_eq_bind, Option.bind_some]
    have hpage := isUser_pageAt hbelow (i := n) (by omega)
    cases hspec with
    | runsOut i hi hbefore hnot hfirst =>
      exact ⟨_, s1, rfl, hown1, .runsOut i (by omega) hbefore hnot hfirst⟩
    | maps hrange hsupplied hanswers htables =>
      -- the page is still absent, since no page before it is the same
      have hother : ∀ i, i < n → ¬ SamePage (pageAt location i) (pageAt location n) := by
        intro i hi hsame
        have := eq_of_samePage_pageAt hbelow (Nat.lt_trans hi hn) (by omega) hsame
        omega
      have habsent1 : s1.machine.memory.translate (pageAt location n) = none := by
        rcases hrange.other (pageAt location n) hother with hsame | ⟨hd, -⟩
        · exact hsame.trans (habsent n (by omega))
        · exact absurd hd hpage.ne
      have hcost : pageCost s1.machine.memory (pageAt location n) =
          pageFrames s.machine.memory location n := by
        rw [pageCost, pageFrames]
        exact if_congr (htables (dirIndex (pageAt location n))) rfl rfl
      have hsplit : Supplied s.machine.pageMap.answers
          (framesFor s.machine.memory location (n + 1)) ↔
            Supplied s1.machine.pageMap.answers (pageCost s1.machine.memory (pageAt location n)) := by
        rw [framesFor, supplied_add, hcost, hanswers]
        exact and_iff_right hsupplied
      by_cases hs : Supplied s1.machine.pageMap.answers
          (pageCost s1.machine.memory (pageAt location n))
      · obtain ⟨s2, hpass, hmaps⟩ := mmapPass_of_supplied hrange.toSound hpage hs
        refine ⟨_, s2, hpass, fun hown => (hown1 hown).mmapPass hpage habsent1 hmaps, ?_⟩
        cases hmaps with
        | maps g hunused hmaps hframes =>
          refine .maps (hrange.succ hbelow (by omega) hunused hmaps) (hsplit.mpr hs) ?_ ?_
          · rw [answers_of_mapped hmaps.toMapped, hanswers, List.drop_drop, hcost, framesFor]
          · intro d
            rw [present_iff_of_maps hmaps d, htables d, or_assoc, Nat.exists_lt_succ_right]
      · obtain ⟨s2, hpass, hruns⟩ := mmapPass_of_not_supplied hrange.toSound hpage hs
        refine ⟨_, s2, hpass, fun hown => (hown1 hown).mmapPass hpage habsent1 hruns,
          .runsOut n (by omega) hsupplied (fun hall => hs (hsplit.mp hall)) ?_⟩
        rintro rfl
        cases hloop
        cases hruns with
        | runsOut hmemory _ _ hframes => exact ⟨hmemory, hframes⟩

/-! ### A pass of `munmap` -/

/-- The page is gone afterwards, and its frame is still in use: it is not given back. -/
theorem munmapPass_eq (h : PageTree s.machine.memory s.machine.pageMap.reserved)
    (hpage : IsUser page) (status : Word) :
    ∃ m', s.munmapPass page status = some (status, { s with machine := m' }) ∧
      UnmapsPage s.machine m' page := by
  obtain ⟨type, htype, hpresent, hanon⟩ := pageType_eq h.self hpage.ne
  rw [munmapPass, htype]
  simp only [Option.bind_eq_bind, Option.bind_some]
  rw [hpresent, hanon]
  rcases Option.eq_none_or_eq_some (s.machine.memory.translate page) with hnone | ⟨g, hg⟩
  · rw [hnone]
    refine ⟨s.machine, rfl, h, rfl, ?_, fun _ _ => rfl⟩
    intro x hx
    rw [← translate_of_samePage hx, hnone]
  · obtain ⟨m', hunmap, hspec⟩ := h.unmapsPage_unmapPage hpage hg
    rw [hg, hunmap]
    exact ⟨m', rfl, hspec⟩

/-- A page that shows none of the frames. -/
theorem Owns.unmaps (h : s.Owns) {m' : Machine} (hunmaps : UnmapsPage s.machine m' page)
    (hnot : ∀ f, f ∈ s.frames → s.machine.memory.translate page ≠ some f) :
    Owns { s with machine := m' } := by
  refine ⟨hunmaps.tree, ?_⟩
  intro f hf
  obtain ⟨hin, shown, huser, hshows, honly⟩ := h.owned f hf
  have hne : ¬ SamePage page shown := by
    intro hsame
    exact hnot f hf ((translate_of_samePage hsame).trans hshows)
  refine ⟨?_, shown, huser, (hunmaps.other shown hne).trans hshows, ?_⟩
  · show f ∈ m'.pageMap.reserved
    rw [hunmaps.pageMap]
    exact hin
  · intro x hx
    by_cases hsame : SamePage page x
    · rw [hunmaps.absent x hsame] at hx
      cases hx
    · rw [hunmaps.other x hsame] at hx
      exact honly x hx

end UserFrames

/-! ### Runs -/

/-- Where the process is: in its own code, or in the loop of `munmap`, which `mmap` may
have called to return its own status afterwards. -/
inductive Control where
  | idle
  | munmap (location length n status : Word) (caller : Option Word)
deriving DecidableEq, Repr

/-- What happens next: a system call, or another pass of the loop.  The answers are what
`reserve_page` finds during the call. -/
inductive MemoryStep where
  | mmap (location length flags : Word) (answers : List (Option Frame))
  | munmap (location length : Word)
  | pass

structure MemoryCalls where
  user : UserFrames
  control : Control

namespace MemoryCalls

/-- `munmap` returns; `mmap` panics if it returns an error. -/
def munmapReturns (user : UserFrames) (status : Word) (caller : Option Word) :
    Option MemoryCalls :=
  if caller.isSome ∧ status ≠ Status.enone.code then none else some ⟨user, .idle⟩

/-- `munmap` up to its loop. -/
def munmap (user : UserFrames) (location length : Word) (caller : Option Word) :
    Option MemoryCalls :=
  match UserFrames.munmapRefuses location length with
  | some status => munmapReturns user status caller
  | none => some ⟨user, .munmap location length 0 Status.enone.code caller⟩

def step (s : MemoryCalls) : MemoryStep → Option MemoryCalls
  | .mmap location length flags answers =>
      match s.control with
      | .idle => do
          let user := { s.user with machine := { s.user.machine with
            pageMap := { s.user.machine.pageMap with answers } } }
          let (result, user) ← user.mmap location length flags
          match result with
          | .returns _ => some ⟨user, .idle⟩
          | .callsMunmap status => munmap user location length (some status)
      | _ => none
  | .munmap location length =>
      match s.control with
      | .idle => munmap s.user location length none
      | _ => none
  | .pass =>
      match s.control with
      | .idle => none
      | .munmap location length n status caller =>
          if n < length ∧ status = Status.enone.code then do
            let (status, user) ← s.user.munmapPass (location + n) status
            some ⟨user, .munmap location length n status caller⟩
          else munmapReturns s.user status caller

/-- A process with any pages, none of them from `mmap`. -/
def Start (s : MemoryCalls) : Prop :=
  PageTree s.user.machine.memory s.user.machine.pageMap.reserved ∧ s.user.frames = [] ∧
    s.control = .idle

def system : Transition.System MemoryCalls MemoryStep := .ofStep Start step

/-- Each frame that `mmap` has got, and that has not been given back, is mapped by one
page of the process. -/
def Owned (s : MemoryCalls) : Prop :=
  ∀ f, f ∈ s.user.frames → ShownOnce s.user.machine.memory f

/-- What is relied on: `reserve_page` answers with frames that are not in use. -/
def answersFresh (s : MemoryCalls) : MemoryStep → Prop
  | .mmap _ _ _ answers => PageMap.Fresh ⟨answers, s.user.machine.pageMap.reserved⟩
  | _ => True

/-- The range is for a program to use. -/
def ForPrograms (location length : Word) : Prop := length = 0 ∨ BelowKernel location length

/-- The call does not come to unmap a page that `mmap` has mapped.  An `mmap` that is not
refused stays below the kernel, and gets the frames for all pages or not even those for
the first; a `munmap` that is not refused begins with another page. -/
def keepsFrames (s : MemoryCalls) : MemoryStep → Prop
  | .mmap location length _ answers =>
      (UserFrames.munmapRefuses location length).isSome ∨
        anyPresent s.user.machine.memory location (pageCount length) = some true ∨
        ForPrograms location length ∧
          (UserFrames.Supplied answers
              (UserFrames.framesFor s.user.machine.memory location (pageCount length)) ∨
            ¬ UserFrames.Supplied answers (UserFrames.framesFor s.user.machine.memory location 1))
  | .munmap location length =>
      (UserFrames.munmapRefuses location length).isSome ∨ length = 0 ∨
        IsUser location ∧
          ∀ f, f ∈ s.user.frames → s.user.machine.memory.translate location ≠ some f
  | .pass => True

/-- The loop of `munmap` will not meet a frame of `mmap`. -/
def Harmless (user : UserFrames) : Control → Prop
  | .idle => True
  | .munmap location length n status _ => n = 0 ∧ status = Status.enone.code ∧ (length = 0 ∨
      IsUser location ∧ ∀ f, f ∈ user.frames → user.machine.memory.translate location ≠ some f)

/-- The frames are owned, and will be after the loop of `munmap`. -/
structure KeepsOwned (s : MemoryCalls) : Prop where
  owns : s.user.Owns
  control : Harmless s.user s.control

variable {s s' : MemoryCalls} {user : UserFrames} {location length : Word}

theorem KeepsOwned.munmapReturns {status : Word} {caller : Option Word} (h : user.Owns)
    (hst : munmapReturns user status caller = some s') : s'.KeepsOwned := by
  rw [MemoryCalls.munmapReturns] at hst
  split at hst
  · cases hst
  · cases hst
    exact ⟨h, trivial⟩

theorem KeepsOwned.munmap {caller : Option Word} (h : user.Owns)
    (hother : (UserFrames.munmapRefuses location length).isSome ∨ length = 0 ∨ IsUser location ∧
      ∀ f, f ∈ user.frames → user.machine.memory.translate location ≠ some f)
    (hst : munmap user location length caller = some s') : s'.KeepsOwned := by
  rw [MemoryCalls.munmap] at hst
  split at hst
  · exact .munmapReturns h hst
  · rename_i hnone
    cases hst
    refine ⟨h, rfl, rfl, ?_⟩
    rcases hother with hrefuses | hother
    · rw [hnone] at hrefuses
      cases hrefuses
    · exact hother

theorem KeepsOwned.pass (h : s.KeepsOwned) (hst : s.step .pass = some s') : s'.KeepsOwned := by
  obtain ⟨user, control⟩ := s
  cases control with
  | idle => cases hst
  | munmap location length n status caller =>
    obtain ⟨hown, hn, hstatus, hother⟩ := h
    have hown : user.Owns := hown
    rw [step] at hst
    simp only at hst hn hstatus
    split at hst
    · rename_i hlt
      subst hn hstatus
      have hlength : length ≠ 0 := by
        rintro rfl
        exact absurd hlt.1 (by decide)
      obtain ⟨huser, hnot⟩ := hother.resolve_left hlength
      obtain ⟨m', hpass, hunmaps⟩ :=
        UserFrames.munmapPass_eq hown.tree huser Status.enone.code
      rw [show location + 0 = location from BitVec.add_zero location, hpass] at hst
      cases hst
      refine ⟨hown.unmaps hunmaps hnot, rfl, rfl, .inr ⟨huser, ?_⟩⟩
      intro f _ hf
      have hnone : m'.memory.translate location = none := hunmaps.absent location rfl
      rw [show m'.memory.translate location = some f from hf] at hnone
      cases hnone
    · exact .munmapReturns hown hst

/-- `mmap` when it is not refused, on pages that are all absent. -/
theorem owns_mmapLoop {s1 : UserFrames} (h : user.Sound) (hown : user.Owns)
    (hrange : ForPrograms location length)
    (hany : anyPresent user.machine.memory location (pageCount length) = some false)
    (hframes : UserFrames.Supplied user.machine.pageMap.answers
        (UserFrames.framesFor user.machine.memory location (pageCount length)) ∨
      ¬ UserFrames.Supplied user.machine.pageMap.answers
        (UserFrames.framesFor user.machine.memory location 1))
    {status : Word} (hloop : user.mmapLoop location (pageCount length) = some (status, s1)) :
    s1.Owns ∧ (status ≠ Status.enone.code → length = 0 ∨ IsUser location ∧
      ∀ f, f ∈ s1.frames → s1.machine.memory.translate location ≠ some f) := by
  rcases hrange with rfl | hbelow
  · -- no page, no pass
    cases hloop
    exact ⟨hown, fun _ => .inl rfl⟩
  · have habsent := translate_of_anyPresent h.tree.self hbelow le_rfl hany
    obtain ⟨status', s2, hloop', hown2, hspec⟩ :=
      UserFrames.mmapLoop_spec h hbelow habsent le_rfl
    rw [hloop] at hloop'
    obtain ⟨rfl, rfl⟩ := Prod.mk.inj (Option.some.inj hloop')
    refine ⟨hown2 hown, ?_⟩
    cases hspec with
    | maps => exact fun hne => absurd rfl hne
    | runsOut i hi hbefore hnot hfirst =>
      intro _
      rcases hframes with hall | hnone
      · refine absurd (hall.mono ?_) hnot
        exact UserFrames.framesFor_mono _ _ (by omega)
      · -- it stopped at the first page
        have hi0 : i = 0 := by
          by_contra hne
          exact hnone (hbefore.mono (UserFrames.framesFor_mono _ _ (by omega)))
        subst hi0
        obtain ⟨hmemory, hsame⟩ := hfirst rfl
        have hpage : pageAt location 0 = location := BitVec.add_zero location
        have huser := isUser_pageAt hbelow hi
        have hlocation := habsent 0 hi
        rw [hpage] at huser hlocation
        refine .inr ⟨huser, fun f _ hf => ?_⟩
        rw [hmemory, hlocation] at hf
        cases hf

theorem KeepsOwned.mmap {flags : Word} {answers : List (Option Frame)} (h : s.KeepsOwned)
    (hfresh : s.answersFresh (.mmap location length flags answers))
    (hkeeps : s.keepsFrames (.mmap location length flags answers))
    (hst : s.step (.mmap location length flags answers) = some s') : s'.KeepsOwned := by
  obtain ⟨old, control⟩ := s
  cases control with
  | munmap => cases hst
  | idle =>
    obtain ⟨user, huser⟩ : ∃ user : UserFrames, user = { old with machine := { old.machine with
        pageMap := { old.machine.pageMap with answers } } } := ⟨_, rfl⟩
    have hown : user.Owns := by
      rw [huser]
      exact ⟨h.owns.tree, h.owns.owned⟩
    have hsound : user.Sound := by
      rw [huser]
      exact ⟨h.owns.tree, hfresh⟩
    obtain ⟨⟨result, s1⟩, hmmap, hst⟩ := Option.bind_eq_some_iff.mp hst
    rw [← huser, UserFrames.mmap] at hmmap
    split at hmmap
    · cases hmmap
      cases hst
      exact ⟨hown, trivial⟩
    · rename_i haligned
      split at hmmap
      · cases hmmap
        cases hst
        exact ⟨hown, trivial⟩
      · rename_i hloc
        obtain ⟨present, hany, hmmap⟩ := Option.bind_eq_some_iff.mp hmmap
        cases present with
        | true =>
          cases hmmap
          cases hst
          exact ⟨hown, trivial⟩
        | false =>
          obtain ⟨⟨status, s2⟩, hloop, hmmap⟩ := Option.bind_eq_some_iff.mp hmmap
          obtain ⟨rfl, rfl⟩ := Prod.mk.inj (Option.some.inj hmmap)
          have hnot : UserFrames.munmapRefuses location length = none := by
            rw [UserFrames.munmapRefuses, if_neg haligned, if_neg hloc]
          have hmemory : user.machine.memory = old.machine.memory := by rw [huser]
          have hanswers : user.machine.pageMap.answers = answers := by rw [huser]
          obtain ⟨hrange, hframes⟩ : ForPrograms location length ∧ _ := by
            rcases hkeeps with hrefuses | hpresent | hrest
            · rw [hnot] at hrefuses
              cases hrefuses
            · rw [← hmemory, hany] at hpresent
              cases hpresent
            · exact hrest
          rw [← hmemory, ← hanswers] at hframes
          obtain ⟨hown2, hother⟩ := owns_mmapLoop hsound hown hrange hany hframes hloop
          -- a loop that failed is followed by `munmap`
          by_cases hstatus : status = Status.enone.code
          · rw [if_neg (not_not.mpr hstatus)] at hst
            cases hst
            exact ⟨hown2, trivial⟩
          · rw [if_pos hstatus] at hst
            exact .munmap hown2 (.inr (hother hstatus)) hst

theorem KeepsOwned.step {label : MemoryStep} (h : s.KeepsOwned) (hfresh : s.answersFresh label)
    (hkeeps : s.keepsFrames label) (hst : s.step label = some s') : s'.KeepsOwned := by
  cases label with
  | mmap location length flags answers => exact h.mmap hfresh hkeeps hst
  | munmap location length =>
    obtain ⟨user, control⟩ := s
    cases control with
    | munmap => cases hst
    | idle => exact .munmap h.owns hkeeps hst
  | pass => exact h.pass hst

theorem KeepsOwned.of_start (h : s.Start) : s.KeepsOwned := by
  obtain ⟨htree, hframes, hidle⟩ := h
  refine ⟨⟨htree, ?_⟩, ?_⟩
  · intro f hf
    rw [hframes] at hf
    cases hf
  · rw [hidle]
    trivial

/-- **Frame ownership.**  In every run whose calls do not come to unmap a page that `mmap`
has mapped: at every return and after every pass, each frame that `mmap` has got and that
has not been given back is mapped by one page. -/
theorem owned_of_reachable
    (h : system.Reachable (fun s label => s.answersFresh label ∧ s.keepsFrames label) s) :
    s.Owned := by
  have hkeeps : s.KeepsOwned := by
    refine h.invariant KeepsOwned (fun s => .of_start) ?_
    intro s label s' hi hok hst
    exact hi.step hok.1 hok.2 hst
  exact fun f hf => (hkeeps.owns.owned f hf).2

/-- `mmap`, when it returns. -/
theorem step_mmap {flags status : Word} {answers : List (Option Frame)}
    (hidle : s.control = .idle)
    (hmmap : UserFrames.mmap { s.user with machine := { s.user.machine with
      pageMap := { s.user.machine.pageMap with answers } } } location length flags =
        some (.returns status, user)) :
    s.step (.mmap location length flags answers) = some ⟨user, .idle⟩ := by
  rw [step, hidle]
  simp only [Option.bind_eq_bind]
  rw [hmmap]
  rfl

/-- A pass of `munmap`. -/
theorem step_pass {n status : Word} {caller : Option Word} {m' : Machine} (h : n < length)
    (hpass : user.munmapPass (location + n) Status.enone.code =
      some (status, { user with machine := m' })) :
    step ⟨user, .munmap location length n Status.enone.code caller⟩ .pass =
      some ⟨{ user with machine := m' }, .munmap location length n status caller⟩ := by
  rw [step]
  simp only [Option.bind_eq_bind]
  rw [if_pos, hpass]
  · rfl
  · exact ⟨h, trivial⟩

/-- The process before it has mapped anything. -/
def start : MemoryCalls := ⟨⟨⟨emptyMemory, ⟨[], [1, 3]⟩⟩, []⟩, .idle⟩

/-- The process after it has mapped the page at 0x400000. -/
def onePage : MemoryCalls :=
  ⟨⟨⟨(Machine.withTable emptyMemory 0x400000 5).setEntry 5 (tableIndex 0x400000)
      (pteWith ((Machine.withTable emptyMemory 0x400000 5).entry 5 (tableIndex 0x400000))
        (pagePresent ||| (pageUsermode ||| pageRw)) (frameAddress 4)), ⟨[], [5, 4, 1, 3]⟩⟩, [4]⟩, .idle⟩

/-- `mmap` of the page, with a frame for it and one for its table. -/
def mapOne : MemoryStep := .mmap 0x400000 pageSize 0 [some 4, some 5]

theorem step_start : start.step mapOne = some onePage :=
  step_mmap rfl (UserFrames.mmap_emptyProcess 0x400000 (by decide) (by decide) (by decide)
    (by decide) 0)

theorem answersFresh_start : start.answersFresh mapOne := by
  refine ⟨by decide, ?_⟩
  intro f hf
  obtain rfl | rfl : f = 4 ∨ f = 5 := by simpa using hf
  · decide
  · decide

theorem keepsFrames_start : start.keepsFrames mapOne := by
  refine .inr (.inr ⟨.inr (by decide), .inl ?_⟩)
  have hcount : UserFrames.framesFor emptyMemory 0x400000 (pageCount pageSize) ≤ 2 := by
    show 0 + UserFrames.pageFrames emptyMemory 0x400000 0 ≤ 2
    rw [UserFrames.pageFrames]
    split <;> omega
  intro k hk
  obtain rfl | rfl : k = 0 ∨ k = 1 := by
    have : k < 2 := Nat.lt_of_lt_of_le hk hcount
    omega
  · exact ⟨4, rfl⟩
  · exact ⟨5, rfl⟩

theorem start_start : start.Start := ⟨pageTree_emptyMemory, rfl, rfl⟩

theorem keepsOwned_start : start.KeepsOwned := .of_start start_start

/-- The frame is owned after the call. -/
theorem owned_of_reachable_onePage : onePage.user.frames = [4] ∧ onePage.Owned := by
  refine ⟨rfl, owned_of_reachable ?_⟩
  exact .step (.init start_start) ⟨answersFresh_start, keepsFrames_start⟩ step_start

/-- `munmap` of the page takes it away in the first pass of its loop, and keeps frame 4. -/
theorem not_owned_of_reachable :
    ¬ ∀ s, system.Reachable (fun s label => s.answersFresh label) s → s.Owned := by
  intro hall
  have hone : system.Reachable (fun s label => s.answersFresh label) onePage :=
    .step (.init start_start) answersFresh_start step_start
  have hcall : onePage.step (.munmap 0x400000 pageSize) =
      some ⟨onePage.user, .munmap 0x400000 pageSize 0 Status.enone.code none⟩ := rfl
  have hpass1 : onePage.KeepsOwned :=
    KeepsOwned.step keepsOwned_start answersFresh_start keepsFrames_start step_start
  obtain ⟨m', hpass, hunmaps⟩ := UserFrames.munmapPass_eq hpass1.owns.tree
    (isUser_iff.mpr (by decide) : IsUser 0x400000) Status.enone.code
  have hstep : step ⟨onePage.user, .munmap 0x400000 pageSize 0 Status.enone.code none⟩ .pass = _ :=
    step_pass (by decide) hpass
  have hcalled := hone.step (show onePage.answersFresh (.munmap 0x400000 pageSize) from trivial) hcall
  have hpassed := hcalled.step (show answersFresh _ .pass from trivial) hstep
  obtain ⟨shown, -, hshows, -⟩ := hall _ hpassed 4 (List.mem_cons_self ..)
  -- no other page showed the frame, and this one is gone
  obtain ⟨-, page, -, hpage, honly⟩ := hpass1.owns.owned 4 (List.mem_cons_self ..)
  have hlocation : SamePage page 0x400000 := honly 0x400000 (by decide)
  by_cases hsame : SamePage 0x400000 shown
  · have hnone := hunmaps.absent shown hsame
    rw [show m'.memory.translate shown = some 4 from hshows] at hnone
    cases hnone
  · have hold := (hunmaps.other shown hsame).symm.trans hshows
    exact hsame (hlocation.symm.trans (honly shown hold))

end MemoryCalls
end QuarkKernel
