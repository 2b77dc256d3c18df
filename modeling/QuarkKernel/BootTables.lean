import QuarkKernel.PageMapBootstrap
import QuarkKernel.StartPaging

/-! # The first tables

What is done to the kernel's table before frames can be reserved: `start_paging` fills it,
`x86_startup` takes away what is behind the kernel, `initialize_screen` maps a page of the
kernel to the screen, `kernel_initialize` makes the text read-only, and
`initialize_page_map` maps the bitmap behind the kernel.  `BootTables` is what holds in
between: so many pages of text, so many pages of the kernel, the frames they are in, and
what is known of the entries behind them. -/
namespace QuarkKernel
open PagedMemory
open CountedLoop (loop)

/-! ### The loops -/

/-- The passes of `for(void *p = first; p < limit; p += page_size)`. -/
def passesTo (first limit : Word) : Nat := if first < limit then passCount (limit - first) else 0

/-- The loop in `x86_startup` from `_kernel_end` on. -/
def unmapBehind (m : Machine) (kernelEnd multibootEnd : Word) : Option Machine :=
  loop (fun i m => (m.unmapPage (pageAt kernelEnd i)).map Prod.snd)
    (passesTo kernelEnd multibootEnd) m

/-- The frame of the screen. -/
def screenFrame : Frame := 0xB8

/-- `initialize_screen`, but for the serial port. -/
def initializeScreen (m : Machine) (screen : Word) : Option (Status × Machine) :=
  m.mapPage screen 0x000B8000 pageRw

/-- The loop in `kernel_initialize` from `_kernel_start` to `_kernel_tend`. -/
def protectText (m : PagedMemory) (start tend : Word) : Option PagedMemory :=
  loop (fun i m => (setPteType m (pageAt start i) (pageTableLevels - 1) pagePresent).map Prod.snd)
    (passesTo start tend) m

theorem passesTo_eq {first limit : Word} {size : Nat} (h : limit.toNat = first.toNat + size) :
    passesTo first limit = (size + 4095) / 4096 := by
  have hlt := limit.isLt
  rw [passesTo]
  split
  · rw [passCount, BitVec.toNat_sub]
    omega
  · rename_i hnot
    rw [BitVec.lt_def] at hnot
    omega

/-- The entry that `set_pte_type` leaves. -/
def typedWith (e : Entry) (flags : Word) : Entry :=
  { e with
    present := hasFlag flags pagePresent
    rw := hasFlag flags pageRw
    usermode := hasFlag flags pageUsermode }

theorem setPteType_table {m : PagedMemory} {page : Word} {f : Frame} (h : m.SelfMapped)
    (hd : dirIndex page ≠ 1023) (ht : UsableTable m (dirIndex page) f) (flags : Word) :
    setPteType m page 1 flags = some (0, m.setEntry f (tableIndex page)
      (typedWith (m.entry f (tableIndex page)) flags)) := by
  have hat := entryAt_pte h ht
  have hp : (m.pde page).present = true := ht.present
  rw [setPteType, getPtePointer_table h hd, if_pos hp]
  show (m.modifyEntry _ _).bind _ = _
  rw [hat.modifyEntry, Option.bind_some, Option.bind_eq_bind, (hat.setEntry _).modifyEntry,
    Option.bind_some, ((hat.setEntry _).setEntry _).modifyEntry, Option.bind_some]
  simp only [entry_setEntry_self, setEntry_setEntry]
  rfl

/-- The page of the kernel with this number. -/
theorem toNat_kernelPage {i : Nat} (hi : i < 1024) :
    (dirIndex (pageAt kernelStart i)).toNat = 1021 ∧
      (tableIndex (pageAt kernelStart i)).toNat = i := by
  have haddr : (pageAt kernelStart i).toNat = 4282384384 + 4096 * i := by
    rw [pageAt, BitVec.toNat_add, BitVec.toNat_ofNat, toNat_kernelStart]
    omega
  rw [dirIndex_toNat, tableIndex_toNat, haddr]
  omega

theorem pageAt_pageAt (x : Word) (i j : Nat) : pageAt (pageAt x i) j = pageAt x (i + j) := by
  rw [pageAt, pageAt, pageAt, Nat.mul_add, BitVec.ofNat_add, BitVec.add_assoc]

namespace StartPaging
variable (a : StartPaging)

/-- The frame of the kernel's page `i`. -/
def kernelFrame (i : Nat) : Frame := BitVec.ofNat 20 (a.start.toNat / 4096 + i)

/-- The directory `start_paging` makes. -/
def firstDirectory : FrameData := fun d =>
  if d = 1023 then a.directory + 3
  else if d = dirIndex a.linearAddr then a.table + 3 + 1024
  else if d = 0 then a.identityTable + 3
  else 0

/-- What the entry of a kernel's page is. -/
structure Shows (e : Entry) (writable : Bool) (f : Frame) : Prop where
  present : e.present = true
  rw : e.rw = writable
  usermode : e.usermode = false
  frame : e.physicalAddress = f

/-- **The tables at boot.**  The table of the kernel shows `n` pages, which are in `frames` and
of which the first `text` are read-only, and behind them what `rest` says; what is not a table
is as it was in `ram`. -/
structure BootTables (ram : Frame → FrameData) (frames : Nat → Frame) (text n : Nat)
    (rest : BitVec 10 → Frame → Prop) (m : PagedMemory) : Prop where
  cr3 : m.cr3 = frameNumber a.directory
  directory : m.ram m.cr3 = a.firstDirectory
  identity : ∀ i, (m.entry (frameNumber a.identityTable) i).present = true →
    (m.entry (frameNumber a.identityTable) i).usermode = false
  kernel : ∀ i : BitVec 10, i.toNat < n → Shows (m.entry (frameNumber a.table) i)
    (decide (text ≤ i.toNat)) (frames i.toNat)
  rest : ∀ i : BitVec 10, n ≤ i.toNat → (m.entry (frameNumber a.table) i).present = true →
    (m.entry (frameNumber a.table) i).usermode = false ∧
      rest i (m.entry (frameNumber a.table) i).physicalAddress
  image : ∀ f, f ≠ frameNumber a.directory → f ≠ frameNumber a.table →
    f ≠ frameNumber a.identityTable → m.ram f = ram f

variable {a} {m : PagedMemory} {ram : Frame → FrameData} {text n : Nat}
  {rest rest' : BitVec 10 → Frame → Prop} {frames frames' : Nat → Frame}

/-! ### The directory -/

/-- An entry for a table, and the bits that `start_paging` sets in it. -/
theorem shows_tableEntry {x : Word} (ha : x % pageSize = 0) :
    Shows (Entry.ofWord (x + 3)) true (frameNumber x) ∧
      Shows (Entry.ofWord (x + 3 + 1024)) true (frameNumber x) := by
  obtain ⟨hpresent, hframe, hpresent', hframe'⟩ := ofWord_tableEntry ha
  rw [aligned_iff] at ha
  have hlt := x.isLt
  have h3 : (x + 3).toNat = x.toNat + 3 := by
    rw [BitVec.toNat_add, show (3 : Word).toNat = 3 from rfl]
    omega
  have h1027 : (x + 3 + 1024).toNat = x.toNat + 1027 := by
    rw [BitVec.toNat_add, h3, show (1024 : Word).toNat = 1024 from rfl]
    omega
  have hbits : ∀ w : Word, w.toNat % 8 = 3 →
      (Entry.ofWord w).rw = true ∧ (Entry.ofWord w).usermode = false := by
    intro w hw
    constructor
    · show w.toNat.testBit 1 = true
      rw [Nat.testBit_eq_decide_div_mod_eq, decide_eq_true_eq]
      omega
    · show w.toNat.testBit 2 = false
      rw [Nat.testBit_eq_decide_div_mod_eq, decide_eq_false_iff_not]
      omega
  obtain ⟨hrw, hmode⟩ := hbits (x + 3) (by omega)
  obtain ⟨hrw', hmode'⟩ := hbits (x + 3 + 1024) (by omega)
  exact ⟨⟨hpresent, hrw, hmode, hframe⟩, ⟨hpresent', hrw', hmode', hframe'⟩⟩

/-! ### What `start_paging` leaves -/

section Fills
variable {i : Nat}

/-- The number of pages that are mapped. -/
def mappedPages (a : StartPaging) : Nat := passCount (a.endAddr - a.start)

/-- What is promised of the arguments, and that the range is below 4 MiB. -/
structure Low (a : StartPaging) : Prop extends a.Layout where
  aligned : a.start % pageSize = 0
  le : a.start ≤ a.endAddr
  low : a.endAddr.toNat ≤ 4194304

theorem Low.start_lt (h : a.Low) (hi : i < a.mappedPages) :
    a.start.toNat + 4096 * i < a.endAddr.toNat := by
  have hle := h.le
  rw [BitVec.le_def] at hle
  rw [mappedPages, passCount, BitVec.toNat_sub] at hi
  have := h.low
  omega

theorem Low.mappedPages_le (h : a.Low) : a.start.toNat / 4096 + a.mappedPages ≤ 1024 := by
  have hle := h.le
  have haligned := h.aligned
  rw [BitVec.le_def] at hle
  rw [aligned_iff] at haligned
  have := h.low
  rw [mappedPages, passCount, BitVec.toNat_sub]
  omega

theorem Low.p_fills (h : a.Low) (ram : Frame → FrameData) {k : Nat} (hk : k ≤ a.mappedPages) :
    (a.fills k (a.fillLoop ram)).p.toNat = a.start.toNat + 4096 * k := by
  have hmax := h.mappedPages_le
  have haligned := h.aligned
  rw [aligned_iff] at haligned
  exact StartPaging.p_fills (fun j hj => h.start_lt (by omega)) (by omega)

/-- The words the first `k` passes have stored. -/
theorem Low.ram_fills (h : a.Low) (ram : Frame → FrameData) {k : Nat} (hk : k ≤ a.mappedPages)
    (f : Frame) (j : BitVec 10) :
    (a.fills k (a.fillLoop ram)).ram f j =
      if f = frameNumber a.identityTable ∧ a.start.toNat / 4096 ≤ j.toNat ∧
        j.toNat < a.start.toNat / 4096 + k then BitVec.ofNat 32 (4096 * j.toNat) + 3
      else if f = frameNumber a.table ∧ j.toNat < k then
        BitVec.ofNat 32 (a.start.toNat + 4096 * j.toNat) + 3
      else ram f j := by
  induction k with
  | zero =>
    rw [if_neg (by omega), if_neg (by omega)]
    rfl
  | succ k ih =>
    have hp := h.p_fills ram (Nat.le_of_succ_le hk)
    have hlt : (a.fills k (a.fillLoop ram)).p < a.endAddr := by
      rw [BitVec.lt_def, hp]
      exact h.start_lt hk
    have hmax := h.mappedPages_le
    have haligned := h.aligned
    rw [aligned_iff] at haligned
    have ih := ih (Nat.le_of_succ_le hk)
    rw [fills_of_lt hlt]
    generalize a.fills k (a.fillLoop ram) = s at ih hp hlt ⊢
    have hindex : (s.p / pageSize).toNat = a.start.toNat / 4096 + k := by
      rw [BitVec.toNat_udiv, hp, show pageSize.toNat = 4096 from rfl]
      omega
    have htable : (s.p / pageSize - a.start / pageSize).toNat = k := by
      rw [BitVec.toNat_sub, hindex, BitVec.toNat_udiv, show pageSize.toNat = 4096 from rfl]
      omega
    have hword : ∀ w : Nat, w = a.start.toNat + 4096 * k → s.p = BitVec.ofNat 32 w := by
      rintro w rfl
      rw [← hp, BitVec.ofNat_toNat, BitVec.setWidth_eq]
    have hfill : (a.fill s).ram f j =
        if f = frameNumber a.identityTable ∧ j.toNat = a.start.toNat / 4096 + k then s.p + 3
        else if f = frameNumber a.table ∧ j.toNat = k then s.p + 3 else s.ram f j := by
      show storeWord (storeWord _ _ _) _ _ f j = _
      rw [storeWord_entry h.identityTable (by omega), storeWord_entry h.table (by omega), hindex,
        htable]
    rw [hfill, ih]
    have hne := h.table_ne_identityTable
    by_cases hid : f = frameNumber a.identityTable
    · have hnt : f ≠ frameNumber a.table := fun ht => hne (ht.symm.trans hid)
      simp only [hid, hne.symm, true_and, false_and, if_false]
      by_cases hj : j.toNat = a.start.toNat / 4096 + k
      · rw [if_pos hj, if_pos (by omega), hword (4096 * j.toNat) (by omega)]
      · rw [if_neg hj]
        exact ite_congr (propext (by omega)) (fun _ => rfl) (fun _ => rfl)
    · simp only [hid, false_and, if_false]
      by_cases hj : f = frameNumber a.table ∧ j.toNat = k
      · rw [if_pos hj, if_pos ⟨hj.1, by omega⟩, hj.2, hword _ rfl]
      · have hiff : f = frameNumber a.table ∧ j.toNat < k ↔
            f = frameNumber a.table ∧ j.toNat < k + 1 := by
          refine and_congr_right fun ht => ?_
          have hne : j.toNat ≠ k := fun heq => hj ⟨ht, heq⟩
          omega
        rw [if_neg hj]
        exact ite_congr (propext hiff) (fun _ => rfl) (fun _ => rfl)

/-- More passes change nothing. -/
theorem Low.fills_add (h : a.Low) (k : Nat) :
    a.fills (a.mappedPages + k) (a.fillLoop ram) = a.fills a.mappedPages (a.fillLoop ram) := by
  induction k with
  | zero => rfl
  | succ k ih =>
    have hdone : ¬ (a.fills (a.mappedPages + k) (a.fillLoop ram)).p < a.endAddr := by
      have hle := h.le
      rw [BitVec.le_def] at hle
      rw [ih, BitVec.lt_def, h.p_fills ram (Nat.le_refl _), mappedPages, passCount,
        BitVec.toNat_sub]
      omega
    rw [← Nat.add_assoc, fills_of_le hdone, ih]

theorem Low.fills_of_startPaging (h : a.Low) {fuel : Nat} {count : Word}
    (hcall : a.startPaging ram fuel = some (count, m)) :
    m = a.install (a.fills a.mappedPages (a.fillLoop ram)).ram := by
  rw [startPaging] at hcall
  split at hcall
  · cases hcall
  · rename_i hdone
    obtain ⟨-, rfl⟩ := hcall
    rcases Nat.lt_or_ge fuel a.mappedPages with hlt | hge
    · rw [BitVec.lt_def, h.p_fills ram (Nat.le_of_lt hlt)] at hdone
      exact absurd (h.start_lt hlt) hdone
    · rw [← Nat.add_sub_cancel' hge, h.fills_add]

/-- The frames of the tables are cleared: they are in `.bss`. -/
def Cleared (a : StartPaging) (ram : Frame → FrameData) : Prop :=
  ∀ i, ram (frameNumber a.directory) i = 0 ∧ ram (frameNumber a.table) i = 0 ∧
    ram (frameNumber a.identityTable) i = 0

theorem not_present_zero : (Entry.ofWord 0).present = false := by decide

theorem frameNumber_ofNat {w : Nat} (hw : w < 2 ^ 32) :
    frameNumber (BitVec.ofNat 32 w) = BitVec.ofNat 20 (w / 4096) := by
  apply BitVec.eq_of_toNat_eq
  rw [toNat_frameNumber, BitVec.toNat_ofNat, BitVec.toNat_ofNat]
  omega

/-- The directory, in a frame that was cleared. -/
theorem directory_install (h : a.Layout) (hclear : ∀ i, ram (frameNumber a.directory) i = 0) :
    (a.install ram).ram (frameNumber a.directory) = a.firstDirectory := by
  have hindex : (a.linearAddr >>> 22).toNat = (dirIndex a.linearAddr).toNat :=
    toNat_directoryIndex a.linearAddr
  have hlt := (dirIndex a.linearAddr).isLt
  have hzero : a.directory + 4 * 0 = a.directory := BitVec.add_zero _
  have hfirst : ∀ f j, storeWord ram a.directory (a.identityTable + 3) f j =
      if f = frameNumber a.directory ∧ j.toNat = 0 then a.identityTable + 3 else ram f j := by
    intro f j
    have hstore : storeWord ram (a.directory + 4 * 0) (a.identityTable + 3) f j = _ :=
      storeWord_entry h.directory (by decide)
    rw [hzero] at hstore
    exact hstore
  have hsame : ∀ d d' : BitVec 10,
      (frameNumber a.directory = frameNumber a.directory ∧ d.toNat = d'.toNat) = (d = d') :=
    fun d d' => propext ⟨fun heq => BitVec.eq_of_toNat_eq heq.2, fun heq => ⟨rfl, by rw [heq]⟩⟩
  funext d
  rw [install]
  dsimp only
  rw [storeWord_entry h.directory (by decide), storeWord_entry h.directory (by omega), hfirst,
    hindex, hclear, firstDirectory]
  exact ite_congr (hsame d 1023) (fun _ => rfl) fun _ =>
    ite_congr (hsame d _) (fun _ => rfl) fun _ => ite_congr (hsame d 0) (fun _ => rfl) fun _ => rfl

/-- **`start_paging`.** -/
theorem bootTables_startPaging (h : a.Low) (hclear : Cleared a ram) {fuel : Nat} {count : Word}
    (hcall : a.startPaging ram fuel = some (count, m)) (hn : n ≤ a.mappedPages) :
    BootTables a ram a.kernelFrame 0 n (fun i _ => i.toNat < a.mappedPages) m := by
  have hmax := h.mappedPages_le
  have haligned := h.aligned
  rw [aligned_iff] at haligned
  obtain rfl := h.fills_of_startPaging hcall
  obtain ⟨-, -, hother⟩ := ram_install h.toLayout (a.fills a.mappedPages (a.fillLoop ram)).ram
  have hfills := h.ram_fills ram (Nat.le_refl _)
  -- the table and the identity table after the loop
  have hentry : ∀ f i w, f ≠ frameNumber a.directory →
      (a.fills a.mappedPages (a.fillLoop ram)).ram f i = w →
        (a.install (a.fills a.mappedPages (a.fillLoop ram)).ram).entry f i = Entry.ofWord w := by
    rintro f i _ hf rfl
    rw [PagedMemory.entry, hother f i hf]
  have hpage : ∀ w, w % 4096 = 0 → w < 2 ^ 32 →
      Shows (Entry.ofWord (BitVec.ofNat 32 w + 3)) true (BitVec.ofNat 20 (w / 4096)) := by
    intro w hw hlt
    rw [← frameNumber_ofNat hlt]
    refine (shows_tableEntry (aligned_iff.mpr ?_)).1
    rw [BitVec.toNat_ofNat]
    omega
  have htable := h.table_ne_identityTable
  have hkernel : ∀ i : BitVec 10, i.toNat < a.mappedPages → Shows
      ((a.install (a.fills a.mappedPages (a.fillLoop ram)).ram).entry (frameNumber a.table) i) true
      (a.kernelFrame i.toNat) := by
    intro i hi
    rw [hentry _ i _ h.directory_ne_table.symm (hfills _ i), if_neg fun heq => htable heq.1,
      if_pos ⟨rfl, hi⟩, kernelFrame, show a.start.toNat / 4096 + i.toNat =
        (a.start.toNat + 4096 * i.toNat) / 4096 by omega]
    exact hpage _ (by omega) (by omega)
  refine ⟨rfl, ?_, ?_, ?_, ?_, ?_⟩
  · refine directory_install h.toLayout fun i => ?_
    rw [hfills, if_neg fun heq => h.directory_ne_identityTable heq.1,
      if_neg fun heq => h.directory_ne_table heq.1]
    exact (hclear i).1
  · intro i hp
    have hi := i.isLt
    rw [hentry _ i _ h.directory_ne_identityTable.symm (hfills _ i)] at hp ⊢
    by_cases hin : a.start.toNat / 4096 ≤ i.toNat ∧ i.toNat < a.start.toNat / 4096 + a.mappedPages
    · rw [if_pos ⟨rfl, hin⟩]
      exact (hpage _ (by omega) (by omega)).usermode
    · rw [if_neg fun heq => hin heq.2, if_neg fun heq => htable heq.1.symm, (hclear i).2.2,
        not_present_zero] at hp
      cases hp
  · intro i hi
    exact hkernel i (by omega)
  · intro i _ hp
    by_cases hi : i.toNat < a.mappedPages
    · exact ⟨(hkernel i hi).usermode, hi⟩
    · rw [hentry _ i _ h.directory_ne_table.symm (hfills _ i), if_neg fun heq => htable heq.1,
        if_neg fun heq => hi heq.2, (hclear i).2.1, not_present_zero] at hp
      cases hp
  · intro f hdir htab hid
    funext j
    rw [hother f j hdir, hfills, if_neg fun heq => hid heq.1, if_neg fun heq => htab heq.1]

end Fills

/-! ### Between the loops -/

/-- What the linker script says: the kernel starts at `_kernel_start`, it has `n` pages, the
first `text` of them its text and what is read only, and the three tables are among the
others.  `pages` is not from the script: it says that the multiboot information, and with it
what is mapped at the start, ends behind the kernel, where the boot loader has put it. -/
structure Linked (a : StartPaging) (text n : Nat) : Prop extends a.Low where
  linear : a.linearAddr = kernelStart
  pages : a.start.toNat + 4096 * n ≤ a.endAddr.toNat
  text_le : text ≤ n
  data : ∀ f, f = frameNumber a.directory ∨ f = frameNumber a.table ∨
    f = frameNumber a.identityTable → ∃ i, text ≤ i ∧ i < n ∧ f = a.kernelFrame i

section Tables
variable {i : BitVec 10} {e : Entry}

theorem dirIndex_kernelStart : dirIndex kernelStart = 1021 := by decide

theorem Linked.dirIndex (h : a.Linked text n) : dirIndex a.linearAddr = 1021 := by
  rw [h.linear, dirIndex_kernelStart]

theorem Linked.le_mappedPages (h : a.Linked text n) : n ≤ a.mappedPages := by
  have hle := h.le
  have hpages := h.pages
  have hlow := h.low
  rw [BitVec.le_def] at hle
  rw [mappedPages, passCount, BitVec.toNat_sub]
  omega

theorem Linked.low_pages (h : a.Linked text n) : a.start.toNat / 4096 + n ≤ 1024 := by
  have := h.mappedPages_le
  have := h.le_mappedPages
  omega

/-- The pages of the kernel are in different frames. -/
theorem Linked.kernelFrame_inj (h : a.Linked text n) {i j : Nat} (hi : i < n) (hj : j < n)
    (heq : a.kernelFrame i = a.kernelFrame j) : i = j := by
  have hmax := h.low_pages
  have := congrArg BitVec.toNat heq
  rw [kernelFrame, kernelFrame, BitVec.toNat_ofNat, BitVec.toNat_ofNat] at this
  omega

/-- The entries of the directory. -/
structure FirstEntries (a : StartPaging) (m : PagedMemory) : Prop where
  self : Shows (m.entry m.cr3 1023) true m.cr3
  kernel : Shows (m.entry m.cr3 1021) true (frameNumber a.table)
  identity : Shows (m.entry m.cr3 0) true (frameNumber a.identityTable)
  rest : ∀ d, (m.entry m.cr3 d).present = true → d = 1023 ∨ d = 1021 ∨ d = 0

theorem BootTables.firstEntries (h : BootTables a ram frames text n rest m)
    (hl : a.Linked text' n) : FirstEntries a m := by
  have hentry : ∀ d, m.entry m.cr3 d = Entry.ofWord (a.firstDirectory d) := by
    intro d
    rw [PagedMemory.entry, h.directory]
  have hword : ∀ d, a.firstDirectory d = if d = 1023 then a.directory + 3
      else if d = 1021 then a.table + 3 + 1024 else if d = 0 then a.identityTable + 3 else 0 := by
    intro d
    rw [firstDirectory, hl.dirIndex]
  refine ⟨?_, ?_, ?_, fun d hp => ?_⟩
  · rw [hentry, hword, if_pos rfl, h.cr3]
    exact (shows_tableEntry hl.toLayout.directory).1
  · rw [hentry, hword, if_neg (by decide), if_pos rfl]
    exact (shows_tableEntry hl.toLayout.table).2
  · rw [hentry, hword, if_neg (by decide), if_neg (by decide), if_pos rfl]
    exact (shows_tableEntry hl.toLayout.identityTable).1
  · by_contra hne
    rw [hentry, hword, if_neg fun hd => hne (.inl hd), if_neg fun hd => hne (.inr (.inl hd)),
      if_neg fun hd => hne (.inr (.inr hd)), not_present_zero] at hp
    cases hp

theorem FirstEntries.selfMapped (h : FirstEntries a m) : m.SelfMapped :=
  ⟨permits_iff.mpr ⟨h.self.present, h.self.rw⟩, h.self.frame⟩

theorem FirstEntries.usable (h : FirstEntries a m) (hne : frameNumber a.table ≠ m.cr3) :
    UsableTable m 1021 (frameNumber a.table) :=
  ⟨permits_iff.mpr ⟨h.kernel.present, h.kernel.rw⟩, h.kernel.frame, hne⟩

theorem BootTables.table_ne (h : BootTables a ram frames text n rest m) (hl : a.Linked text' n) :
    frameNumber a.table ≠ m.cr3 := by
  rw [h.cr3]
  exact hl.toLayout.directory_ne_table.symm

/-- **The rule for a write** to the table of the kernel. -/
theorem BootTables.setEntry (h : BootTables a ram frames text n rest m) (hl : a.Linked text'' n)
    (hkernel : ∀ j : BitVec 10, j.toNat < n → Shows
      ((m.setEntry (frameNumber a.table) i e).entry (frameNumber a.table) j)
      (decide (text' ≤ j.toNat)) (frames' j.toNat))
    (hrest : ∀ j : BitVec 10, n ≤ j.toNat →
      ((m.setEntry (frameNumber a.table) i e).entry (frameNumber a.table) j).present = true →
        ((m.setEntry (frameNumber a.table) i e).entry (frameNumber a.table) j).usermode = false ∧
          rest' j ((m.setEntry (frameNumber a.table) i e).entry (frameNumber a.table)
            j).physicalAddress) :
    BootTables a ram frames' text' n rest' (m.setEntry (frameNumber a.table) i e) := by
  refine ⟨h.cr3, ?_, fun j => ?_, hkernel, hrest, fun f hdir htable hid => ?_⟩
  · rw [← h.directory]
    exact setFrame_ram_of_ne _ _ (h.table_ne hl).symm
  · rw [entry_setEntry_of_ne _ _ fun heq => hl.table_ne_identityTable heq.1.symm]
    exact h.identity j
  · rw [← h.image f hdir htable hid]
    exact setFrame_ram_of_ne _ _ htable

end Tables

/-! ### The passes -/

section Passes
variable {pages i : Nat}

/-- A page of the kernel's first 4 MiB. -/
structure AtKernel (page : Word) (i : Nat) : Prop where
  dir : dirIndex page = 1021
  index : (tableIndex page).toNat = i

theorem atKernel_pageAt (hi : i < 1024) : AtKernel (pageAt kernelStart i) i := by
  obtain ⟨hdir, hindex⟩ := toNat_kernelPage hi
  exact ⟨BitVec.eq_of_toNat_eq hdir, hindex⟩

theorem AtKernel.below {page : Word} (hpage : AtKernel page i) : dirIndex page ≠ 1023 := by
  rw [hpage.dir]
  decide

theorem AtKernel.ne {page : Word} (hpage : AtKernel page i) {j : BitVec 10}
    (hj : j.toNat ≠ i) : j ≠ tableIndex page := by
  rintro rfl
  exact hj hpage.index

/-- The entry of a page in the table of the kernel. -/
theorem BootTables.pte {page : Word} (h : BootTables a ram frames text n rest m)
    (hl : a.Linked pages n) (hpage : AtKernel page i) :
    (m.pde page).present = true ∧ (m.pde page).physicalAddress = frameNumber a.table ∧
      m.pte page = m.entry (frameNumber a.table) (tableIndex page) := by
  have hfirst := (h.firstEntries hl).kernel
  have hpde : m.pde page = m.entry m.cr3 1021 := by rw [PagedMemory.pde, hpage.dir]
  rw [PagedMemory.pte, hpde, hfirst.frame]
  exact ⟨hfirst.present, rfl, rfl⟩

theorem BootTables.usable {page : Word} (h : BootTables a ram frames text n rest m)
    (hl : a.Linked pages n) (hpage : AtKernel page i) :
    UsableTable m (dirIndex page) (frameNumber a.table) := by
  rw [hpage.dir]
  exact (h.firstEntries hl).usable (h.table_ne hl)

/-- One pass of the loop in `x86_startup`. -/
theorem BootTables.unmapPage {pageMap : PageMap} (hi : n ≤ i ∧ i < 1024)
    (hl : a.Linked pages n)
    (h : BootTables a ram frames text n (fun j f => i ≤ j.toNat ∧ rest j f) m) :
    ∃ r m', Machine.unmapPage ⟨m, pageMap⟩ (pageAt kernelStart i) = some (r, ⟨m', pageMap⟩) ∧
      BootTables a ram frames text n (fun j f => i + 1 ≤ j.toNat ∧ rest j f) m' := by
  have hself := (h.firstEntries hl).selfMapped
  have hpage := atKernel_pageAt hi.2
  obtain ⟨hpde, -, hpte⟩ := h.pte hl hpage
  by_cases hp : (m.pte (pageAt kernelStart i)).present = true
  · refine ⟨_, _, Machine.unmapPage_of_present (m := ⟨m, pageMap⟩) hself hpage.below
      (h.usable hl hpage) hp, h.setEntry hl (fun j hj => ?_) fun j hj hpj => ?_⟩
    · rw [entry_setEntry_of_ne _ _ fun heq => hpage.ne (by omega) heq.2]
      exact h.kernel j hj
    · by_cases hji : j = tableIndex (pageAt kernelStart i)
      · subst hji
        rw [entry_setEntry_self] at hpj
        cases hpj
      · rw [entry_setEntry_of_ne _ _ fun heq => hji heq.2] at hpj ⊢
        obtain ⟨hmode, hle, hrest⟩ := h.rest j hj hpj
        have hne : j.toNat ≠ i := fun heq =>
          hji (BitVec.eq_of_toNat_eq (heq.trans hpage.index.symm))
        exact ⟨hmode, by omega, hrest⟩
  · refine ⟨_, _, Machine.unmapPage_of_absent (m := ⟨m, pageMap⟩) hself hpage.below
      fun hboth => hp hboth.2, h.cr3, h.directory, h.identity, h.kernel, fun j hj hpj => ?_,
      h.image⟩
    obtain ⟨hmode, hle, hrest⟩ := h.rest j hj hpj
    refine ⟨hmode, ?_, hrest⟩
    have hne : j.toNat ≠ i := by
      intro heq
      rw [hpte, ← BitVec.eq_of_toNat_eq (heq.trans hpage.index.symm)] at hp
      exact hp hpj
    omega

/-- `initialize_screen` for a page of the kernel. -/
theorem BootTables.initializeScreen {pageMap : PageMap} (hi : text ≤ i ∧ i < n)
    (hl : a.Linked pages n) (h : BootTables a ram frames text n rest m) :
    ∃ m', initializeScreen ⟨m, pageMap⟩ (pageAt kernelStart i) = some (.enone, ⟨m', pageMap⟩) ∧
      BootTables a ram (Function.update frames i screenFrame) text n rest m' := by
  have hmax := hl.low_pages
  have hpage := atKernel_pageAt (i := i) (by omega)
  refine ⟨_, Machine.mapPage_of_present (m := ⟨m, pageMap⟩) (h.firstEntries hl).selfMapped
    hpage.below (by decide) (h.usable hl hpage), h.setEntry hl (fun j hj => ?_)
      fun j hj hpj => ?_⟩
  · by_cases hji : j = tableIndex (pageAt kernelStart i)
    · subst hji
      rw [entry_setEntry_self, hpage.index, Function.update_self, decide_eq_true hi.1]
      exact ⟨rfl, rfl, rfl, rfl⟩
    · have hne : j.toNat ≠ i := fun heq =>
        hji (BitVec.eq_of_toNat_eq (heq.trans hpage.index.symm))
      rw [entry_setEntry_of_ne _ _ fun heq => hji heq.2, Function.update_of_ne hne]
      exact h.kernel j hj
  · rw [entry_setEntry_of_ne _ _ fun heq => hpage.ne (by omega) heq.2] at hpj ⊢
    exact h.rest j hj hpj

/-- One pass of the loop in `kernel_initialize`. -/
theorem BootTables.protect (hi : i < n) (hl : a.Linked pages n)
    (h : BootTables a ram frames i n rest m) :
    ∃ m', setPteType m (pageAt kernelStart i) 1 pagePresent = some (0, m') ∧
      BootTables a ram frames (i + 1) n rest m' := by
  have hmax := hl.low_pages
  have hpage := atKernel_pageAt (i := i) (by omega)
  refine ⟨_, setPteType_table (h.firstEntries hl).selfMapped hpage.below (h.usable hl hpage) _,
    h.setEntry hl (fun j hj => ?_) fun j hj hpj => ?_⟩
  · obtain ⟨hp, hrw, hmode, hframe⟩ := h.kernel j hj
    by_cases hji : j = tableIndex (pageAt kernelStart i)
    · subst hji
      rw [entry_setEntry_self, hpage.index, decide_eq_false (Nat.not_succ_le_self i)]
      rw [hpage.index] at hframe
      exact ⟨rfl, rfl, rfl, hframe⟩
    · have hne : j.toNat ≠ i := fun heq =>
        hji (BitVec.eq_of_toNat_eq (heq.trans hpage.index.symm))
      rw [entry_setEntry_of_ne _ _ fun heq => hji heq.2]
      refine ⟨hp, ?_, hmode, hframe⟩
      rw [hrw]
      exact decide_eq_decide.mpr (by omega)
  · rw [entry_setEntry_of_ne _ _ fun heq => hpage.ne (by omega) heq.2] at hpj ⊢
    exact h.rest j hj hpj

/-- One pass of the loops in `initialize_page_map`. -/
theorem BootTables.mapBitmap {bitmap : List Frame} {page location : Word} {mapped : Option Nat}
    {m' : PagedMemory} (hi : n ≤ i) (hpage : AtKernel page i) (hl : a.Linked pages n)
    (htables : PageTables m) (h : BootTables a ram frames text n (fun _ f => f ∈ bitmap) m)
    (hcall : mapBitmapPage m page location = some (mapped, m')) :
    BootTables a ram frames text n (fun _ f => f ∈ bitmap ++ [frameNumber location]) m' := by
  obtain ⟨hpde, hframe, hpte⟩ := h.pte hl hpage
  obtain ⟨count, -, hpass⟩ := mapBitmapPage_cases htables hpage.below hcall
  cases hpass with
  | table hp =>
    rw [hp] at hpde
    cases hpde
  | found =>
    refine ⟨h.cr3, h.directory, h.identity, h.kernel, fun j hj hpj => ?_, h.image⟩
    obtain ⟨hmode, hmem⟩ := h.rest j hj hpj
    exact ⟨hmode, List.mem_append_left _ hmem⟩
  | entry =>
    rw [hframe]
    refine h.setEntry hl (fun j hj => ?_) fun j hj hpj => ?_
    · rw [entry_setEntry_of_ne _ _ fun heq => hpage.ne (by omega) heq.2]
      exact h.kernel j hj
    · by_cases hji : j = tableIndex page
      · subst hji
        rw [entry_setEntry_self]
        exact ⟨rfl, List.mem_append_right _ (List.mem_singleton_self _)⟩
      · rw [entry_setEntry_of_ne _ _ fun heq => hji heq.2] at hpj ⊢
        obtain ⟨hmode, hmem⟩ := h.rest j hj hpj
        exact ⟨hmode, List.mem_append_left _ hmem⟩

end Passes

/-! ### The loops from the start to the end -/

section Loops
variable {textSize : Word}

theorem toNat_kernelEnd (hl : a.Linked text n) :
    (pageAt kernelStart n).toNat = kernelStart.toNat + 4096 * n := by
  have hmax := hl.low_pages
  rw [pageAt, BitVec.toNat_add, BitVec.toNat_ofNat, toNat_kernelStart]
  omega

/-- **The loop in `x86_startup`.** -/
theorem BootTables.unmapBehind {pageMap : PageMap} (hl : a.Linked text' n)
    (h : BootTables a ram frames text n (fun j _ => j.toNat < a.mappedPages) m) :
    ∃ m', unmapBehind ⟨m, pageMap⟩ (pageAt kernelStart n) (kernelStart + (a.endAddr - a.start)) =
        some ⟨m', pageMap⟩ ∧
      BootTables a ram frames text n (fun _ _ => False) m' := by
  have hmax := hl.mappedPages_le
  have hlow := hl.low
  have hpages := hl.pages
  have hle := hl.le
  rw [BitVec.le_def] at hle
  have hpasses : passesTo (pageAt kernelStart n) (kernelStart + (a.endAddr - a.start)) =
      a.mappedPages - n := by
    have hend : (kernelStart + (a.endAddr - a.start)).toNat =
        (pageAt kernelStart n).toNat + (a.endAddr.toNat - a.start.toNat - 4096 * n) := by
      rw [toNat_kernelEnd hl, BitVec.toNat_add, BitVec.toNat_sub, toNat_kernelStart]
      omega
    rw [passesTo_eq hend, mappedPages, passCount, BitVec.toNat_sub]
    omega
  obtain ⟨⟨m', pageMap'⟩, hloop, rfl, htables⟩ := CountedLoop.loop_of_invariant
    (fun i (m : Machine) => (m.unmapPage (pageAt (pageAt kernelStart n) i)).map Prod.snd)
    (a.mappedPages - n) ⟨m, pageMap⟩
    (fun i t => t.pageMap = pageMap ∧ BootTables a ram frames text n
      (fun j _ => n + i ≤ j.toNat ∧ j.toNat < a.mappedPages) t.memory) (by
      refine ⟨rfl, h.cr3, h.directory, h.identity, h.kernel, fun j hj hpj => ?_, h.image⟩
      obtain ⟨hmode, hlt⟩ := h.rest j hj hpj
      exact ⟨hmode, hj, hlt⟩) (by
      rintro i ⟨t, pageMap⟩ hi ⟨rfl, ht⟩
      obtain ⟨r, t', hcall, ht'⟩ := ht.unmapPage ⟨Nat.le_add_right n i, by omega⟩ hl
      rw [pageAt_pageAt, hcall]
      exact ⟨_, rfl, rfl, ht'⟩)
  refine ⟨m', ?_, htables.cr3, htables.directory, htables.identity, htables.kernel,
    fun j hj hpj => ?_, htables.image⟩
  · rw [QuarkKernel.unmapBehind, hpasses, hloop]
  · obtain ⟨-, hge, hlt⟩ := htables.rest j hj hpj
    omega

/-- **The loop in `kernel_initialize`.** -/
theorem BootTables.protectText (hl : a.Linked (passCount textSize) n)
    (h : BootTables a ram frames 0 n rest m) :
    ∃ m', protectText m kernelStart (kernelStart + textSize) = some m' ∧
      BootTables a ram frames (passCount textSize) n rest m' := by
  have hmax := hl.low_pages
  have hle := hl.text_le
  have hpasses : passesTo kernelStart (kernelStart + textSize) = passCount textSize := by
    refine passesTo_eq ?_
    rw [passCount] at hle
    rw [BitVec.toNat_add, toNat_kernelStart]
    omega
  rw [QuarkKernel.protectText, hpasses]
  refine CountedLoop.loop_of_invariant _ _ m (fun i t => BootTables a ram frames i n rest t) h ?_
  intro i t hi ht
  obtain ⟨t', hcall, ht'⟩ := ht.protect (by omega) hl
  refine ⟨t', ?_, ht'⟩
  show Option.map Prod.snd (setPteType t _ 1 _) = _
  rw [hcall]
  rfl

/-- The tables are apart. -/
theorem BootTables.pageTables (h : BootTables a ram frames text n rest m) (hl : a.Linked text' n) :
    PageTables m := by
  obtain ⟨hself, hkernel, hidentity, hrest⟩ := h.firstEntries hl
  have hne : ∀ d, d ≠ 1023 → (m.entry m.cr3 d).present = true →
      d = 1021 ∧ (m.entry m.cr3 d).physicalAddress = frameNumber a.table ∨
        d = 0 ∧ (m.entry m.cr3 d).physicalAddress = frameNumber a.identityTable := by
    intro d hd hp
    obtain rfl | rfl | rfl := hrest d hp
    · exact absurd rfl hd
    · exact .inl ⟨rfl, hkernel.frame⟩
    · exact .inr ⟨rfl, hidentity.frame⟩
  refine ⟨hself.present, hself.frame, fun d hd hp => ?_, fun d d' hd hd' hp hp' heq => ?_⟩
  · rw [h.cr3]
    obtain ⟨-, hframe⟩ | ⟨-, hframe⟩ := hne d hd hp
    · rw [← h.cr3, hframe, h.cr3]
      exact hl.directory_ne_table.symm
    · rw [← h.cr3, hframe, h.cr3]
      exact hl.directory_ne_identityTable.symm
  · have hapart := hl.table_ne_identityTable
    obtain ⟨rfl, hframe⟩ | ⟨rfl, hframe⟩ := hne d hd hp
    · obtain ⟨rfl, -⟩ | ⟨-, hframe'⟩ := hne d' hd' hp'
      · rfl
      · exact absurd (hframe.symm.trans (heq.trans hframe')) hapart
    · obtain ⟨-, hframe'⟩ | ⟨rfl, -⟩ := hne d' hd' hp'
      · exact absurd (hframe.symm.trans (heq.trans hframe')) hapart.symm
      · rfl

/-- **The loops in `initialize_page_map`**, for a bitmap that ends in the table of the
kernel. -/
theorem BootTables.mapBitmapPages {insert : InsertRegion} {map : MemoryMap} {s' : Scan}
    {size : Word} {status : Status} {fuel k j j' : Nat} {t t' : PagedMemory}
    (hl : a.Linked text' n) (hsize : n + passCount size ≤ 1024)
    (h : BootTables a ram frames text n (fun _ f => f ∈ ((Scan.start map).after insert k).1) t)
    (hcall : mapBitmapPages insert (pageAt kernelStart n) (passCount size) fuel
      ((Scan.start map).after insert k).2 j t = some (status, s', j', t')) :
    ∃ k', s' = ((Scan.start map).after insert k').2 ∧
      BootTables a ram frames text n (fun _ f => f ∈ ((Scan.start map).after insert k').1) t' := by
  induction fuel generalizing k j t with
  | zero => cases hcall
  | succ fuel ih =>
    rw [QuarkKernel.mapBitmapPages] at hcall
    by_cases hj : j < passCount size
    · rw [if_pos hj] at hcall
      cases hstep : ((Scan.start map).after insert k).2.step insert with
      | none =>
        rw [hstep] at hcall
        obtain ⟨rfl, rfl, rfl, rfl⟩ := hcall
        exact ⟨k, rfl, h⟩
      | some result =>
        obtain ⟨location, s⟩ := result
        have hafter := Scan.after_of_some hstep
        rw [hstep] at hcall
        cases location with
        | none =>
          rw [Option.map_none, Option.toList_none, List.append_nil] at hafter
          refine ih (k := k + 1) (j := j) (t := t) ?_ ?_
          · rw [hafter]
            exact h
          · rw [hafter]
            exact hcall
        | some location =>
          rw [Option.map_some, Option.toList_some] at hafter
          obtain ⟨⟨mapped, t1⟩, hpass, hrest⟩ := Option.bind_eq_some_iff.mp hcall
          rw [pageAt_pageAt] at hpass
          have h1 := h.mapBitmap (Nat.le_add_right n j) (atKernel_pageAt (by omega)) hl
            (h.pageTables hl) hpass
          obtain ⟨count, rfl, -⟩ := mapBitmapPage_cases (h.pageTables hl)
            (atKernel_pageAt (i := n + j) (by omega)).below hpass
          refine ih (k := k + 1) (j := j + count) (t := t1) ?_ ?_
          · rw [hafter]
            exact h1
          · rw [hafter]
            exact hrest
    · rw [if_neg hj] at hcall
      obtain ⟨rfl, rfl, rfl, rfl⟩ := hcall
      exact ⟨k, rfl, h⟩

end Loops
end StartPaging
end QuarkKernel
