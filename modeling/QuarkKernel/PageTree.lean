import QuarkKernel.UserSpace

/-! # All of an address space

`UserSpace` is about the part of the programs.  `PageTree` adds the rest: the tables
of the kernel's range are frames in use and no tables of a program, and so are the
frames behind its pages.  Behind the last directory entry every table shows as a
page of its own, so a new table shows there too; mapping or unmapping a page for a
program changes nothing else above the programs' part (`mapsPage_mapPage`,
`unmapsPage_unmapPage`). -/
namespace QuarkKernel
open PagedMemory

/-- The address space is well formed, the kernel's part too. -/
structure PageTree (m : PagedMemory) (reserved : List Frame) : Prop extends
    UserSpace m reserved where
  kernelTable : ∀ d : BitVec 10, 1021 ≤ d.toNat → d ≠ 1023 → (m.entry m.cr3 d).present = true →
    (m.entry m.cr3 d).physicalAddress ∈ reserved ∧ ¬ IsTable m (m.entry m.cr3 d).physicalAddress
  kernelData : ∀ x f, ¬ IsUser x → dirIndex x ≠ 1023 → m.translate x = some f → f ∈ reserved

/-- What a page behind the last directory entry shows: a table, if it is there. -/
theorem translate_window {m : PagedMemory} {x : Word} (h : m.SelfMapped)
    (hx : dirIndex x = 1023) :
    m.translate x = if (m.entry m.cr3 (tableIndex x)).present then
      some (m.entry m.cr3 (tableIndex x)).physicalAddress else none := by
  have hself : (m.pde x).present = true := by
    have hpermits := h.permits
    simp only [Entry.permits, Bool.and_eq_true] at hpermits
    rw [PagedMemory.pde, hx]
    exact hpermits.1
  rw [PagedMemory.translate, hself, h.pte_eq hx, Bool.true_and]

theorem translate_congr {m m' : PagedMemory} {x : Word} (hpde : m'.pde x = m.pde x)
    (hpte : (m.pde x).present = true → m'.pte x = m.pte x) : m'.translate x = m.translate x := by
  rw [PagedMemory.translate, PagedMemory.translate, hpde]
  cases hp : (m.pde x).present with
  | false => rfl
  | true => rw [hpte hp]

/-- All addresses of a page go to one frame. -/
theorem translate_of_samePage {m : PagedMemory} {x y : Word} (h : SamePage x y) :
    m.translate x = m.translate y := by
  obtain ⟨hdir, htable⟩ := samePage_iff.mp h
  have hpde : m.pde x = m.pde y := by rw [PagedMemory.pde, hdir, PagedMemory.pde]
  have hpte : m.pte x = m.pte y := by rw [PagedMemory.pte, hpde, htable, PagedMemory.pte]
  rw [PagedMemory.translate, PagedMemory.translate, hpde, hpte]

namespace PageTree
variable {m : PagedMemory} {reserved : List Frame} {f : Frame} {x page : Word}

theorem kernelIndex (hx : ¬ IsUser x) : 1021 ≤ (dirIndex x).toNat := by
  rw [IsUser] at hx
  omega

/-- Every page shows a frame in use. -/
theorem reserved_of_translate (h : PageTree m reserved) (hf : m.translate x = some f) :
    f ∈ reserved := by
  by_cases hx : IsUser x
  · exact (h.data x f hx hf).1
  · by_cases hd : dirIndex x = 1023
    · rw [translate_window h.self hd, Option.ite_none_right_eq_some] at hf
      obtain ⟨hp, hframe⟩ := hf
      rw [← Option.some.inj hframe]
      by_cases hself : tableIndex x = 1023
      · rw [hself, h.self.frame]
        exact h.directory
      · rcases Nat.lt_or_ge (tableIndex x).toNat 1021 with hlow | hhigh
        · exact (h.table _ hlow hp).2.2.2
        · exact (h.kernelTable _ hhigh hself hp).1
    · exact h.kernelData x f hx hd hf

theorem mono (h : PageTree m reserved) {reserved' : List Frame}
    (hsub : ∀ f, f ∈ reserved → f ∈ reserved') : PageTree m reserved' where
  toUserSpace := h.toUserSpace.mono hsub
  kernelTable d hd hne hp := ⟨hsub _ (h.kernelTable d hd hne hp).1, (h.kernelTable d hd hne hp).2⟩
  kernelData x f hx hd hf := hsub f (h.kernelData x f hx hd hf)

/-! ### Another entry in a table of a program -/

section SetPte
variable (h : PageTree m reserved) (hpage : IsUser page) (hp : (m.pde page).present = true)
  (e : Entry)
include h hpage hp

theorem translate_setPte (hx : ¬ IsUser x) :
    (m.setEntry (m.pde page).physicalAddress (tableIndex page) e).translate x = m.translate x := by
  have hentry := h.entry_setPte hpage hp e
  have hself : (m.setEntry (m.pde page).physicalAddress (tableIndex page) e).SelfMapped :=
    h.self.setEntry e fun heq => (h.usable hpage hp).ne heq.1.symm
  by_cases hd : dirIndex x = 1023
  · rw [translate_window hself hd, translate_window h.self hd, setEntry_cr3, hentry]
  · refine translate_congr (hentry _) fun hpx => ?_
    have hnot := (h.kernelTable _ (kernelIndex hx) hd hpx).2
    rw [PagedMemory.pte, show PagedMemory.pde _ x = m.pde x from hentry _]
    refine entry_setEntry_of_ne m e ?_
    rintro ⟨heq, -⟩
    exact hnot (heq ▸ UserSpace.isTable_pde hpage hp)

theorem setPte (hdata : e.present = true → e.physicalAddress ∈ reserved ∧
      ¬ IsTable m e.physicalAddress) :
    PageTree (m.setEntry (m.pde page).physicalAddress (tableIndex page) e) reserved where
  toUserSpace := h.toUserSpace.setPte hpage hp e hdata
  kernelTable d hd hne hpd := by
    rw [setEntry_cr3, h.entry_setPte hpage hp e] at hpd ⊢
    rw [h.isTable_setPte hpage hp e]
    exact h.kernelTable d hd hne hpd
  kernelData x f hx hd hf := by
    rw [h.translate_setPte hpage hp e hx] at hf
    exact h.kernelData x f hx hd hf

end SetPte

/-! ### A new table -/

section WithTable
variable (h : PageTree m reserved) (hpage : IsUser page) (hf : f ∉ reserved)
include h hpage hf

/-- The kernel's own pages. -/
theorem translate_withTable (hx : ¬ IsUser x) (hd : dirIndex x ≠ 1023) :
    (Machine.withTable m page f).translate x = m.translate x := by
  have hne : dirIndex x ≠ dirIndex page := by
    intro heq
    rw [IsUser, heq] at hx
    exact hx hpage
  have hpde : (Machine.withTable m page f).pde x = m.pde x :=
    (h.entry_withTable hf _).trans (if_neg hne)
  refine translate_congr hpde fun hpx => ?_
  obtain ⟨hin, hnot⟩ := h.kernelTable _ (kernelIndex hx) hd hpx
  have hframe : (m.pde x).physicalAddress ≠ f := by
    rintro rfl
    exact hf hin
  rw [PagedMemory.pte, hpde, Machine.withTable, entry_setFrame_of_ne _ _ _ hframe]
  refine entry_setEntry_of_ne _ _ ?_
  rintro ⟨heq, -⟩
  exact hnot (.inl heq)

/-- The window: the new table shows in it. -/
theorem translate_withTable_window (hd : dirIndex x = 1023) :
    (Machine.withTable m page f).translate x =
      if tableIndex x = dirIndex page then some f else m.translate x := by
  have hself := Machine.withTable_selfMapped h.self hpage.ne (h.fresh_ne hf)
  rw [translate_window hself hd, translate_window h.self hd]
  show (if ((Machine.withTable m page f).entry m.cr3 _).present = true then
    some ((Machine.withTable m page f).entry m.cr3 _).physicalAddress else none) = _
  rw [h.entry_withTable hf]
  by_cases ht : tableIndex x = dirIndex page
  · rw [if_pos ht, if_pos ht]
    rfl
  · rw [if_neg ht, if_neg ht]

theorem withTable (hp : (m.pde page).present = false) :
    PageTree (Machine.withTable m page f) (f :: reserved) where
  toUserSpace := h.toUserSpace.withTable hpage hp hf
  kernelTable d hd hne hpd := by
    have hcr3 : (Machine.withTable m page f).cr3 = m.cr3 := rfl
    have hdp : d ≠ dirIndex page := by
      rintro rfl
      rw [IsUser] at hpage
      omega
    rw [hcr3, h.entry_withTable hf, if_neg hdp] at hpd ⊢
    obtain ⟨hin, hnot⟩ := h.kernelTable d hd hne hpd
    refine ⟨List.mem_cons_of_mem _ hin, ?_⟩
    rw [h.isTable_withTable hf hpage hp]
    rintro (heq | htable)
    · exact hf (heq ▸ hin)
    · exact hnot htable
  kernelData x g hx hd hg := by
    rw [h.translate_withTable hpage hf hx hd] at hg
    exact List.mem_cons_of_mem _ (h.kernelData x g hx hd hg)

end WithTable
end PageTree

/-! ### `map_page` and `unmap_page` for a program -/

/-- `page` is mapped to frame `g` with all rights; nothing else changes, but for the
page of the window that shows the table of `page`, if that is new. -/
structure MapsPage (m m' : Machine) (page : Word) (g : Frame) : Prop extends
    Mapped m m' page g where
  tree : PageTree m'.memory m'.pageMap.reserved
  cr3 : m'.memory.cr3 = m.memory.cr3
  directory : ∀ d, d ≠ dirIndex page →
    m'.memory.entry m.memory.cr3 d = m.memory.entry m.memory.cr3 d
  present : (m'.memory.pde page).present = true
  kernel : ∀ x, ¬ IsUser x → dirIndex x ≠ 1023 → m'.memory.translate x = m.memory.translate x
  window : ∀ x, dirIndex x = 1023 → m'.memory.translate x = m.memory.translate x ∨
    tableIndex x = dirIndex page ∧ (m.memory.pde page).present = false ∧
      ∃ f, m'.memory.translate x = some f ∧ f ∉ m.pageMap.reserved ∧ f ∈ m'.pageMap.reserved

/-- `page` is no longer mapped, and that is all. -/
structure UnmapsPage (m m' : Machine) (page : Word) : Prop where
  tree : PageTree m'.memory m'.pageMap.reserved
  pageMap : m'.pageMap = m.pageMap
  absent : ∀ x, SamePage page x → m'.memory.translate x = none
  other : ∀ x, ¬ SamePage page x → m'.memory.translate x = m.memory.translate x

namespace PageTree
variable {m m' : Machine} {page flags : Word} {g : Frame}

theorem mapsPage_of_present (h : PageTree m.memory m.pageMap.reserved) (hfresh : m.pageMap.Fresh)
    (hpage : IsUser page) (hg : g ∈ m.pageMap.reserved) (hnot : ¬ IsTable m.memory g)
    (hrw : hasFlag flags pageRw = true) (huser : hasFlag flags pageUsermode = true)
    (hp : (m.memory.pde page).present = true) :
    ∃ m', m.mapPage page (frameAddress g) flags = some (.enone, m') ∧ MapsPage m m' page g := by
  obtain ⟨m', hmap, hmapped⟩ :=
    h.toUserSpace.mapPage_of_present hfresh hpage hg hnot hrw huser hp
  have hresult := hmap
  rw [Machine.mapPage_of_present h.self hpage.ne (frameAddress_aligned g) (h.usable hpage hp)]
    at hresult
  have hentry := h.entry_setPte hpage hp (pteWith (m.memory.entry (m.memory.pde page).physicalAddress
    (tableIndex page)) (pagePresent ||| flags) (frameAddress g))
  obtain rfl := (Prod.mk.inj (Option.some.inj hresult)).2
  refine ⟨_, hmap, hmapped, h.setPte hpage hp _ fun _ => ?_, rfl, fun d _ => hentry d, ?_, ?_, ?_⟩
  · rw [show (pteWith _ _ (frameAddress g)).physicalAddress = g from frameNumber_frameAddress g]
    exact ⟨hg, hnot⟩
  · exact (congrArg Entry.present (hentry _)).trans hp
  · intro x hx _
    exact h.translate_setPte hpage hp _ hx
  · intro x hd
    have hx : ¬ IsUser x := fun hx => hx.ne hd
    exact .inl (h.translate_setPte hpage hp _ hx)

/-- **Mapping a page for a program**, with the rest of the address space. -/
theorem mapsPage_mapPage (h : PageTree m.memory m.pageMap.reserved) (hfresh : m.pageMap.Fresh)
    (hpage : IsUser page) (hg : g ∈ m.pageMap.reserved) (hnot : ¬ IsTable m.memory g)
    (hrw : hasFlag flags pageRw = true) (huser : hasFlag flags pageUsermode = true)
    (hnext : (m.memory.pde page).present = false → m.pageMap.next.isSome) :
    ∃ m', m.mapPage page (frameAddress g) flags = some (.enone, m') ∧ MapsPage m m' page g := by
  by_cases hp : (m.memory.pde page).present = true
  · exact h.mapsPage_of_present hfresh hpage hg hnot hrw huser hp
  · -- the new table first, and then as before
    have hp : (m.memory.pde page).present = false := Bool.eq_false_of_not_eq_true hp
    obtain ⟨f, hf⟩ := Option.isSome_iff_exists.mp (hnext hp)
    obtain ⟨hunused, hfresh'⟩ := hfresh.next hf
    obtain ⟨m', hmap, hmapped⟩ :=
      h.toUserSpace.mapPage hfresh hpage hg hnot hrw huser (hnext hp)
    let m1 : Machine :=
      ⟨Machine.withTable m.memory page f, ⟨m.pageMap.answers.tail, f :: m.pageMap.reserved⟩⟩
    have htree1 : PageTree m1.memory m1.pageMap.reserved := h.withTable hpage hunused hp
    have hp1 : (m1.memory.pde page).present = true := by
      rw [PagedMemory.pde]
      show ((Machine.withTable m.memory page f).entry m.memory.cr3 (dirIndex page)).present = true
      rw [h.entry_withTable hunused, if_pos rfl]
      rfl
    have hnot1 : ¬ IsTable m1.memory g := by
      rw [h.isTable_withTable hunused hpage hp]
      rintro (rfl | htable)
      · exact hunused hg
      · exact hnot htable
    obtain ⟨m2, hmap2, hmaps2⟩ := mapsPage_of_present htree1 hfresh' hpage
      (List.mem_cons_of_mem _ hg) hnot1 hrw huser hp1
    have hlevel := Machine.mapLevel_of_some h.self hpage.ne hp hf (h.fresh_ne hunused)
    have hlevel1 := Machine.mapLevel_of_present htree1.self hpage.ne hp1
    have hsame : m.mapPage page (frameAddress g) flags = m1.mapPage page (frameAddress g) flags :=
      Machine.mapPage_congr (frameAddress_aligned g) hlevel hlevel1
    obtain rfl : m' = m2 := by
      rw [hmap, hmap2] at hsame
      exact (Prod.mk.inj (Option.some.inj hsame)).2
    refine ⟨m', hmap, hmapped, hmaps2.tree, hmaps2.cr3, ?_, hmaps2.present, ?_, ?_⟩
    · intro d hd
      exact (hmaps2.directory d hd).trans ((h.entry_withTable hunused d).trans (if_neg hd))
    · intro x hx hd
      exact (hmaps2.kernel x hx hd).trans (h.translate_withTable hpage hunused hx hd)
    · intro x hd
      rcases hmaps2.window x hd with hsame | ⟨-, habsent, -⟩
      · rw [hsame, show m1.memory.translate x = _ from h.translate_withTable_window hpage hunused hd]
        by_cases ht : tableIndex x = dirIndex page
        · rw [if_pos ht]
          exact .inr ⟨ht, hp, f, rfl, hunused, hmaps2.grows f (List.mem_cons_self ..)⟩
        · exact .inl (if_neg ht)
      · rw [hp1] at habsent
        cases habsent

/-- **Unmapping a page of a program.** -/
theorem unmapsPage_unmapPage (h : PageTree m.memory m.pageMap.reserved) (hpage : IsUser page)
    (hmapped : m.memory.translate page = some g) :
    ∃ m', m.unmapPage page = some (frameAddress g ||| page &&& 0xFFF, m') ∧
      UnmapsPage m m' page := by
  rw [PagedMemory.translate, Option.ite_none_right_eq_some, Bool.and_eq_true] at hmapped
  obtain ⟨⟨hpde, hpte⟩, hframe⟩ := hmapped
  have hunmap := Machine.unmapPage_of_present h.self hpage.ne (h.usable hpage hpde) hpte
  rw [Option.some.inj hframe] at hunmap
  have habsent : (pteWith (m.memory.entry (m.memory.pde page).physicalAddress (tableIndex page))
      0 0).present = false := rfl
  refine ⟨_, hunmap, h.setPte hpage hpde _ fun hp => ?_, rfl, ?_, ?_⟩
  · rw [habsent] at hp
    cases hp
  · intro x hx
    obtain ⟨hpdex, hptex⟩ := h.walk_setPte hpage hpde (pteWith
      (m.memory.entry (m.memory.pde page).physicalAddress (tableIndex page)) 0 0) hx
    rw [PagedMemory.translate, hpdex, hptex, habsent, Bool.and_false]
    rfl
  · intro x hne
    by_cases hx : IsUser x
    · exact (h.sameView_setPte hpage hpde _ hx hne).translate
    · exact h.translate_setPte hpage hpde _ hx

end PageTree
end QuarkKernel
