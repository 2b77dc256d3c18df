import QuarkKernel.MappedPages

/-! # Mapping a page and unmapping it

What `map_page` has set `physical_address`, `page_type` and `unmap_page` find again,
at every offset of the page, and no other page below the window is changed by either
call (`mapPage_roundTrip`).  The entries are reached through tables that may be new:
such a table is empty, so that it adds no page but the one. -/
namespace QuarkKernel
open PagedMemory

/-! ### Addresses in a page -/

section Offset
variable {page frame : Word} {o : Nat}

/-- The frame of an aligned address. -/
theorem frameAddress_frameNumber (ha : frame % pageSize = 0) :
    frameAddress (frameNumber frame) = frame := by
  rw [aligned_iff] at ha
  have hlt := frame.isLt
  apply BitVec.eq_of_toNat_eq
  rw [toNat_frameAddress, frameNumber, pageBits, BitVec.toNat_setWidth, BitVec.toNat_ushiftRight,
    Nat.shiftRight_eq_div_pow]
  omega

theorem toNat_add_offset (ha : page % pageSize = 0) (ho : o < 4096) :
    (page + BitVec.ofNat 32 o).toNat = page.toNat + o := by
  rw [aligned_iff] at ha
  have hlt := page.isLt
  rw [BitVec.toNat_add, BitVec.toNat_ofNat]
  omega

theorem samePage_add_offset (ha : page % pageSize = 0) (ho : o < 4096) :
    SamePage page (page + BitVec.ofNat 32 o) := by
  rw [SamePage, toNat_add_offset ha ho]
  rw [aligned_iff] at ha
  omega

/-- `frame << page_bits | (page & 0xFFF)` is a sum. -/
theorem address_add_offset (hframe : frame % pageSize = 0) (hpage : page % pageSize = 0)
    (ho : o < 4096) :
    frameAddress (frameNumber frame) ||| (page + BitVec.ofNat 32 o) &&& 0xFFF =
      frame + BitVec.ofNat 32 o := by
  have hsum := toNat_add_offset hframe ho
  have hoffset : ((page + BitVec.ofNat 32 o) &&& 0xFFF).toNat = o := by
    rw [BitVec.toNat_and, toNat_add_offset hpage ho, show (0xFFF : Word).toNat = 2 ^ 12 - 1 from rfl,
      Nat.and_two_pow_sub_one_eq_mod]
    rw [aligned_iff] at hpage
    omega
  rw [aligned_iff] at hframe
  have hshift : frame.toNat = (frame.toNat / 4096) <<< 12 := by
    rw [Nat.shiftLeft_eq]
    omega
  apply BitVec.eq_of_toNat_eq
  rw [frameAddress_frameNumber (aligned_iff.mpr hframe), BitVec.toNat_or, hoffset, hsum, hshift,
    ← Nat.shiftLeft_add_eq_or_of_lt ho]

end Offset

/-! ### The round trip -/

/-- `page` is mapped to `frame` as `flags` say, no other page has changed, and `unmap_page`
takes that back. -/
structure RoundTrip (m m' : Machine) (page frame flags : Word) : Prop where
  address : ∀ o, o < 4096 →
    physicalAddress m'.memory (page + BitVec.ofNat 32 o) = some (frame + BitVec.ofNat 32 o)
  type : ∃ type, pageType m'.memory page = some type ∧ hasFlag type pagePresent = true ∧
    hasFlag type pageRw = hasFlag flags pageRw ∧
    hasFlag type pageUsermode = hasFlag flags pageUsermode
  others : ∀ x, BelowWindow x → ¬ SamePage page x → m'.memory.view x = m.memory.view x
  unmaps : ∃ m'', m'.unmapPage page = some (frame, m'') ∧
    (∀ x, SamePage page x → m''.memory.view x = none) ∧
    ∀ x, BelowWindow x → ¬ SamePage page x → m''.memory.view x = m'.memory.view x

theorem hasFlag_entryFlags_rw (e : Entry) : hasFlag (entryFlags e) pageRw = e.rw := by
  have hbits : ∀ present rw usermode : Bool, hasFlag ((if present then pagePresent ||| pageExecutable
      else 0) ||| (if rw then pageRw else 0) ||| (if usermode then pageUsermode else 0))
      pageRw = rw := by decide
  exact hbits e.present e.rw e.usermode

theorem hasFlag_entryFlags_usermode (e : Entry) :
    hasFlag (entryFlags e) pageUsermode = e.usermode := by
  have hbits : ∀ present rw usermode : Bool, hasFlag ((if present then pagePresent ||| pageExecutable
      else 0) ||| (if rw then pageRw else 0) ||| (if usermode then pageUsermode else 0))
      pageUsermode = usermode := by decide
  exact hbits e.present e.rw e.usermode

section
variable {m m' : Machine} {page frame flags : Word} {status : Status}

/-- `unmap_page` finds the frame that `map_page` has entered. -/
theorem unmaps_withPage (h : PageTables m.memory) (hself : m.memory.SelfMapped)
    (hpage : page % pageSize = 0) (hbelow : BelowWindow page) (hframe : frame % pageSize = 0)
    (husable : UsableTable m.memory (dirIndex page) (m.memory.pde page).physicalAddress) :
    ∃ m'', Machine.unmapPage { m with memory := withPage m.memory page frame flags } page =
        some (frame, m'') ∧
      (∀ x, SamePage page x → m''.memory.view x = none) ∧
      ∀ x, BelowWindow x → ¬ SamePage page x →
        m''.memory.view x = (withPage m.memory page frame flags).view x := by
  have hp := husable.present
  have htables := pageTables_withPage frame flags h hbelow hp
  obtain ⟨hpde, hpte⟩ := walk_withPage frame flags h hbelow hp
    (rfl : SamePage page page)
  have hpresent : ((withPage m.memory page frame flags).pte page).present = true := by
    rw [hpte]
    exact pteWith_present _
  have hself' : (withPage m.memory page frame flags).SelfMapped :=
    hself.setEntry _ fun heq => h.ne _ hbelow hp heq.1.symm
  have hpde' : ((withPage m.memory page frame flags).pde page).present = true := by
    rw [hpde]
    exact hp
  have husable' : UsableTable (withPage m.memory page frame flags) (dirIndex page)
      ((withPage m.memory page frame flags).pde page).physicalAddress := by
    rw [hpde]
    exact husable.setEntry _ _
  have hvalue : frameAddress ((withPage m.memory page frame flags).pte page).physicalAddress |||
      page &&& 0xFFF = frame := by
    have haddr := address_add_offset (o := 0) hframe hpage (by decide)
    rw [show BitVec.ofNat 32 0 = 0#32 from rfl, BitVec.add_zero, BitVec.add_zero] at haddr
    rw [hpte]
    exact haddr
  have hunmap := Machine.unmapPage_of_present
    (m := { m with memory := withPage m.memory page frame flags }) hself' hbelow husable' hpresent
  rw [hvalue] at hunmap
  refine ⟨_, hunmap, ?_, ?_⟩
  · intro x hx
    obtain ⟨-, hgone⟩ := htables.walk_setPte hbelow hpde' (pteWith
      ((withPage m.memory page frame flags).entry _ (tableIndex page)) 0 0) hx
    refine view_of_absent fun hpres => ?_
    rw [hgone] at hpres
    cases hpres.2
  · intro x hx hne
    exact htables.view_setPte hbelow hpde' _ hx hne

/-- **Mapping a page and unmapping it.**  For all tables, pages, frames and flags, when
`reserve_page` does not provide a frame that holds a table: the call that succeeds maps
the page to the frame as the flags say, at every offset, changes no other page, and
`unmap_page` undoes it; the call that fails changes nothing. -/
theorem mapPage_roundTrip (h : PageTables m.memory) (hpage : page % pageSize = 0)
    (hbelow : BelowWindow page) (hnew : ∀ f, m.pageMap.next = some f → ¬ HoldsTable m.memory f)
    (hmap : m.mapPage page frame flags = some (status, m')) :
    (status = .enone → RoundTrip m m' page frame flags) ∧
      (status ≠ .enone → m'.memory = m.memory) := by
  cases h.mapPage_cases hbelow hnew hmap with
  | refuses ha => exact ⟨fun heq => (by cases heq), fun _ => rfl⟩
  | runsOut ha hp hnext => exact ⟨fun heq => (by cases heq), fun _ => rfl⟩
  | @maps m1 ha htable hself husable =>
    refine ⟨fun _ => ?_, fun hne => absurd rfl hne⟩
    obtain ⟨h1, hp1, hview⟩ := htable.tables h hbelow hnew
    have htables := pageTables_withPage frame flags h1 hbelow hp1
    have hwalk : ∀ x, SamePage page x →
        (withPage m1.memory page frame flags).pde x = m1.memory.pde page ∧
          (withPage m1.memory page frame flags).pte x =
            pteWith (m1.memory.pte page) (pagePresent ||| flags) frame :=
      fun x hx => walk_withPage frame flags h1 hbelow hp1 hx
    constructor
    · intro o ho
      obtain ⟨hpde, hpte⟩ := hwalk _ (samePage_add_offset hpage ho)
      rw [htables.physicalAddress_eq (by rw [hpde]; exact hp1), hpte]
      exact congrArg some (address_add_offset ha hpage ho)
    · obtain ⟨hpde, hpte⟩ := hwalk page rfl
      refine ⟨_, htables.pageType_eq page, ?_⟩
      rw [hpde, if_pos hp1, hpte, hasFlag_entryFlags_present, hasFlag_entryFlags_rw,
        hasFlag_entryFlags_usermode]
      exact ⟨pteWith_present _, hasFlag_present_or flags pageRw (by decide),
        hasFlag_present_or flags pageUsermode (by decide)⟩
    · intro x hx hne
      exact (view_withPage_of_ne frame flags h1 hbelow hp1 hx hne).trans (hview x hx)
    · exact unmaps_withPage h1 hself hpage hbelow ha husable

end

/-! ### A page of a process without pages -/

theorem present_emptyMemory {d : BitVec 10} (hp : (emptyMemory.entry 1 d).present = true) :
    d = 1021 ∨ d = 1023 := by
  by_contra hne
  rw [not_or] at hne
  rw [absent_emptyMemory hne.1 hne.2] at hp
  cases hp

theorem pageTables_emptyMemory : PageTables emptyMemory where
  present := rfl
  frame := rfl
  ne d hd hp := by
    obtain rfl := (present_emptyMemory hp).resolve_right hd
    decide
  distinct d d' hd hd' hp hp' _ := by
    obtain rfl := (present_emptyMemory hp).resolve_right hd
    exact ((present_emptyMemory hp').resolve_right hd').symm

theorem holdsTable_emptyMemory {f : Frame} (hf : HoldsTable emptyMemory f) : f = 1 ∨ f = 3 := by
  rcases hf with hf | ⟨d, hd, hp, hf⟩
  · exact .inl hf
  · obtain rfl := (present_emptyMemory hp).resolve_right hd
    exact .inr hf.symm

/-- The page at 0x400000 is mapped to frame 6, with frame 4 for its table. -/
theorem mapPage_roundTrip_emptyMemory :
    ∃ m', emptyProcess.machine.mapPage 0x400000 0x6000 (pageUsermode ||| pageRw) =
        some (.enone, m') ∧
      RoundTrip emptyProcess.machine m' 0x400000 0x6000 (pageUsermode ||| pageRw) := by
  have hnew : ∀ f, emptyProcess.machine.pageMap.next = some f → ¬ HoldsTable emptyMemory f := by
    rintro f hnext htable
    obtain rfl := Option.some.inj hnext
    exact absurd (holdsTable_emptyMemory htable) (by decide)
  have hmap : emptyProcess.machine.mapPage 0x400000 0x6000 (pageUsermode ||| pageRw) = _ :=
    Machine.mapPage_of_some pageTree_emptyMemory.self (by decide) (by decide) (by decide) rfl
      (by decide)
  exact ⟨_, hmap, (mapPage_roundTrip pageTables_emptyMemory (by decide) (by decide) hnew hmap).1 rfl⟩

end QuarkKernel
