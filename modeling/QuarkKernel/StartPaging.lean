import QuarkKernel.Mmap

/-! # `start_paging`

The first tables of the kernel are filled while there is no paging yet: one table for the
kernel's pages, one that maps the same frames to their own addresses.  Both have 1024
entries.  The first one is indexed from the start of the range, the second one by the
frame itself, so a range that reaches beyond 4 MiB runs over the end of the second table,
however short it is (`startPaging_iff`). -/
namespace QuarkKernel
open PagedMemory

/-- A store to a physical address. -/
def storeWord (ram : Frame → FrameData) (address value : Word) : Frame → FrameData :=
  Function.update ram (frameNumber address)
    (Function.update (ram (frameNumber address)) (wordIndex address) value)

/-- The address that a linear address is translated to. -/
def linearToPhysical (m : PagedMemory) (x : Word) : Option Word :=
  (m.translate x).map fun f => frameAddress f ||| x &&& 0xFFF

/-- The tables that the loop fills. -/
inductive FilledTable
  | table
  | identityTable
deriving DecidableEq, Repr

/-- The variables of the loop, the memory, and the table and index of each store so far. -/
structure FillLoop where
  ram : Frame → FrameData
  p : Word
  count : Word
  stores : List (FilledTable × Word)

/-- The arguments of `start_paging`. -/
structure StartPaging where
  linearAddr : Word
  start : Word
  endAddr : Word
  directory : Word
  table : Word
  identityTable : Word

namespace StartPaging
variable (a : StartPaging)

/-- The variables before the loop. -/
def fillLoop (ram : Frame → FrameData) : FillLoop := ⟨ram, a.start, 0, []⟩

/-- The body of the loop. -/
def fill (s : FillLoop) : FillLoop :=
  let tableEntry := s.p + 3
  let index := s.p / pageSize
  let ram := storeWord s.ram (a.table + 4 * (index - a.start / pageSize)) tableEntry
  { ram := storeWord ram (a.identityTable + 4 * index) tableEntry
    p := s.p + pageSize
    count := s.count + 1
    stores := (.identityTable, index) :: (.table, index - a.start / pageSize) :: s.stores }

/-- `while (p < end)`, for at most as many passes. -/
def fills : Nat → FillLoop → FillLoop
  | 0, s => s
  | n + 1, s =>
      let t := fills n s
      if t.p < a.endAddr then a.fill t else t

/-- The entries of the directory, which is then in use. -/
def install (ram : Frame → FrameData) : PagedMemory :=
  let directoryIndex := a.linearAddr >>> 22
  let ram := storeWord ram a.directory (a.identityTable + 3)
  let ram := storeWord ram (a.directory + 4 * directoryIndex) (a.table + 3 + 1024)
  let ram := storeWord ram (a.directory + 4 * 1023) (a.directory + 3)
  ⟨ram, frameNumber a.directory⟩

/-- `start_paging`, with the count it returns; `none` if `fuel` passes are not enough. -/
def startPaging (ram : Frame → FrameData) (fuel : Nat) : Option (Word × PagedMemory) :=
  let s := a.fills fuel (a.fillLoop ram)
  if s.p < a.endAddr then none else some (s.count, a.install s.ram)

/-- What the linker script and `_start` provide: three frames for the tables, and a linear
address whose directory entry is neither the first nor the last. -/
structure Layout : Prop where
  directory : a.directory % pageSize = 0
  table : a.table % pageSize = 0
  identityTable : a.identityTable % pageSize = 0
  directory_ne_table : frameNumber a.directory ≠ frameNumber a.table
  directory_ne_identityTable : frameNumber a.directory ≠ frameNumber a.identityTable
  table_ne_identityTable : frameNumber a.table ≠ frameNumber a.identityTable
  linearAddr : a.linearAddr.toNat % 4194304 = 0
  linearAddr_pos : dirIndex a.linearAddr ≠ 0
  linearAddr_below : dirIndex a.linearAddr ≠ 1023

end StartPaging

/-! ### Stores to a table -/

section Store
variable {ram : Frame → FrameData} {table value i : Word} {f : Frame} {j : BitVec 10}

theorem toNat_frameNumber (x : Word) : (frameNumber x).toNat = x.toNat / 4096 := by
  have hlt := x.isLt
  rw [frameNumber, pageBits, BitVec.toNat_setWidth, BitVec.toNat_ushiftRight,
    Nat.shiftRight_eq_div_pow]
  omega

theorem toNat_entryAddress (ha : table % pageSize = 0) (hi : i.toNat < 1024) :
    (table + 4 * i).toNat = table.toNat + 4 * i.toNat := by
  rw [aligned_iff] at ha
  have hlt := table.isLt
  rw [BitVec.toNat_add, BitVec.toNat_mul, show (4 : Word).toNat = 4 from rfl]
  omega

/-- A store to an entry, and the entries afterwards. -/
theorem storeWord_entry (ha : table % pageSize = 0) (hi : i.toNat < 1024) :
    storeWord ram (table + 4 * i) value f j =
      if f = frameNumber table ∧ j.toNat = i.toNat then value else ram f j := by
  have haddr := toNat_entryAddress ha hi
  rw [aligned_iff] at ha
  have hframe : frameNumber (table + 4 * i) = frameNumber table := by
    apply BitVec.eq_of_toNat_eq
    rw [toNat_frameNumber, toNat_frameNumber, haddr]
    omega
  have hword : (wordIndex (table + 4 * i)).toNat = i.toNat := by
    rw [wordIndex_toNat, haddr]
    omega
  rw [storeWord, hframe]
  by_cases hf : f = frameNumber table
  · subst hf
    rw [Function.update_self]
    by_cases hj : j.toNat = i.toNat
    · obtain rfl : j = wordIndex (table + 4 * i) := BitVec.eq_of_toNat_eq (hj.trans hword.symm)
      rw [Function.update_self, if_pos ⟨rfl, hj⟩]
    · rw [Function.update_of_ne fun h => hj (by rw [h]; exact hword), if_neg fun h => hj h.2]
  · rw [Function.update_of_ne hf, if_neg fun h => hf h.1]

end Store

/-- The entry in an address of a frame with `present` and `rw` set, whatever the three bits
of it that the processor leaves to the kernel. -/
theorem ofWord_tableEntry {x : Word} (ha : x % pageSize = 0) :
    (Entry.ofWord (x + 3)).present = true ∧ (Entry.ofWord (x + 3)).physicalAddress = frameNumber x ∧
      (Entry.ofWord (x + 3 + 1024)).present = true ∧
        (Entry.ofWord (x + 3 + 1024)).physicalAddress = frameNumber x := by
  rw [aligned_iff] at ha
  have hlt := x.isLt
  have h3 : (x + 3).toNat = x.toNat + 3 := by
    rw [BitVec.toNat_add, show (3 : Word).toNat = 3 from rfl]
    omega
  have h1027 : (x + 3 + 1024).toNat = x.toNat + 1027 := by
    rw [BitVec.toNat_add, h3, show (1024 : Word).toNat = 1024 from rfl]
    omega
  have hpresent : ∀ w : Word, w.toNat % 2 = 1 → (Entry.ofWord w).present = true := by
    intro w hw
    show w.toNat.testBit 0 = true
    rw [Nat.testBit_zero, hw]
    rfl
  have hframe : ∀ w : Word, w.toNat / 4096 = x.toNat / 4096 →
      (Entry.ofWord w).physicalAddress = frameNumber x := by
    intro w hw
    apply BitVec.eq_of_toNat_eq
    show (w.extractLsb' 12 20).toNat = _
    rw [BitVec.extractLsb'_toNat, Nat.shiftRight_eq_div_pow, toNat_frameNumber]
    omega
  exact ⟨hpresent _ (by omega), hframe _ (by omega), hpresent _ (by omega), hframe _ (by omega)⟩

/-- An address from its frame and the offset of another address in its page. -/
theorem frameAddress_or_offset {f : Frame} {x y : Word} (hf : f = frameNumber y)
    (ho : x.toNat % 4096 = y.toNat % 4096) : frameAddress f ||| x &&& 0xFFF = y := by
  have hoffset : (x &&& 0xFFF).toNat = y.toNat % 4096 := by
    rw [BitVec.toNat_and, show (0xFFF : Word).toNat = 2 ^ 12 - 1 from rfl,
      Nat.and_two_pow_sub_one_eq_mod]
    exact ho
  have hshift : (frameAddress f).toNat = (y.toNat / 4096) <<< 12 := by
    rw [toNat_frameAddress, hf, toNat_frameNumber, Nat.shiftLeft_eq, Nat.mul_comm]
  apply BitVec.eq_of_toNat_eq
  rw [BitVec.toNat_or, hoffset, hshift, ← Nat.shiftLeft_add_eq_or_of_lt (by omega), Nat.shiftLeft_eq]
  exact Nat.div_add_mod' y.toNat 4096

/-- A linear address whose two entries are given. -/
theorem linearToPhysical_eq {m : PagedMemory} {f : Frame} {d v x y : Word}
    (hpde : m.ram m.cr3 (dirIndex x) = d) (hd : (Entry.ofWord d).present = true)
    (hf : (Entry.ofWord d).physicalAddress = f) (hpte : m.ram f (tableIndex x) = v + 3)
    (ha : v % pageSize = 0) (hframe : frameNumber v = frameNumber y)
    (ho : x.toNat % 4096 = y.toNat % 4096) : linearToPhysical m x = some y := by
  obtain ⟨hpresent, haddress, -⟩ := ofWord_tableEntry ha
  have hpde' : m.pde x = Entry.ofWord d := by rw [PagedMemory.pde, PagedMemory.entry, hpde]
  have hpte' : m.pte x = Entry.ofWord (v + 3) := by
    rw [PagedMemory.pte, hpde', hf, PagedMemory.entry, hpte]
  rw [linearToPhysical, PagedMemory.translate, hpde', hpte', hd, hpresent, haddress]
  exact congrArg some (frameAddress_or_offset hframe ho)

/-! ### The loop -/

namespace StartPaging
variable {a : StartPaging} {ram : Frame → FrameData} {s : FillLoop} {n : Nat}

theorem fills_of_lt (h : (a.fills n s).p < a.endAddr) : a.fills (n + 1) s = a.fill (a.fills n s) :=
  if_pos h

theorem fills_of_le (h : ¬ (a.fills n s).p < a.endAddr) : a.fills (n + 1) s = a.fills n s :=
  if_neg h

/-- The address that a pass is for, as long as it has not wrapped around. -/
theorem p_fills (hbelow : ∀ k, k < n → a.start.toNat + 4096 * k < a.endAddr.toNat)
    (hn : a.start.toNat + 4096 * n < 2 ^ 32) :
    (a.fills n (a.fillLoop ram)).p.toNat = a.start.toNat + 4096 * n := by
  induction n with
  | zero => rfl
  | succ n ih =>
    have hp := ih (fun k hk => hbelow k (by omega)) (by omega)
    have hlt : (a.fills n (a.fillLoop ram)).p < a.endAddr := by
      rw [BitVec.lt_def, hp]
      exact hbelow n (by omega)
    rw [fills_of_lt hlt]
    show ((a.fills n (a.fillLoop ram)).p + pageSize).toNat = _
    rw [BitVec.toNat_add, hp, show pageSize.toNat = 4096 from rfl]
    omega

/-- The first `n` passes have filled `n` entries of each table. -/
structure Filled (a : StartPaging) (n : Nat) (s : FillLoop) : Prop where
  p : s.p.toNat = a.start.toNat + 4096 * n
  table : ∀ j : BitVec 10, j.toNat < n →
    s.ram (frameNumber a.table) j = BitVec.ofNat 32 (a.start.toNat + 4096 * j.toNat) + 3
  identityTable : ∀ j : BitVec 10, a.start.toNat / 4096 ≤ j.toNat →
    j.toNat < a.start.toNat / 4096 + n →
      s.ram (frameNumber a.identityTable) j = BitVec.ofNat 32 (4096 * j.toNat) + 3
  stores : ∀ store ∈ s.stores, store.2.toNat < 1024

theorem Filled.zero (ram : Frame → FrameData) : Filled a 0 (a.fillLoop ram) where
  p := rfl
  table j hj := absurd hj (Nat.not_lt_zero _)
  identityTable j hle hlt := by omega
  stores store hstore := by cases hstore

/-- One pass, for an address below 4 MiB. -/
theorem Filled.fill (hf : Filled a n s) (h : a.Layout) (hstart : a.start % pageSize = 0)
    (hp : s.p.toNat < 4194304) : Filled a (n + 1) (a.fill s) := by
  have hpn := hf.p
  rw [aligned_iff] at hstart
  have hindex : (s.p / pageSize).toNat = a.start.toNat / 4096 + n := by
    rw [BitVec.toNat_udiv, hpn, show pageSize.toNat = 4096 from rfl]
    omega
  have htable : (s.p / pageSize - a.start / pageSize).toNat = n := by
    rw [BitVec.toNat_sub, hindex, BitVec.toNat_udiv, show pageSize.toNat = 4096 from rfl]
    omega
  have hsum : s.p = BitVec.ofNat 32 (a.start.toNat + 4096 * n) := by
    rw [← hpn, BitVec.ofNat_toNat, BitVec.setWidth_eq]
  -- the entries after the two stores
  have hram : ∀ f j, (a.fill s).ram f j =
      if f = frameNumber a.identityTable ∧ j.toNat = a.start.toNat / 4096 + n then s.p + 3
      else if f = frameNumber a.table ∧ j.toNat = n then s.p + 3 else s.ram f j := by
    intro f j
    show storeWord (storeWord _ _ _) _ _ f j = _
    rw [storeWord_entry h.identityTable (by omega), storeWord_entry h.table (by omega), hindex,
      htable]
  refine ⟨?_, fun j hj => ?_, fun j hle hj => ?_, fun store hstore => ?_⟩
  · show (s.p + pageSize).toNat = _
    rw [BitVec.toNat_add, hpn, show pageSize.toNat = 4096 from rfl]
    omega
  · rw [hram, if_neg fun heq => h.table_ne_identityTable heq.1]
    by_cases hjn : j.toNat = n
    · rw [if_pos ⟨rfl, hjn⟩, hjn, hsum]
    · rw [if_neg fun heq => hjn heq.2]
      exact hf.table j (by omega)
  · rw [hram]
    by_cases hjn : j.toNat = a.start.toNat / 4096 + n
    · rw [if_pos ⟨rfl, hjn⟩, hsum, hjn]
      congr 2
      omega
    · rw [if_neg fun heq => hjn heq.2, if_neg fun heq => h.table_ne_identityTable heq.1.symm]
      exact hf.identityTable j hle (by omega)
  · rcases List.mem_cons.mp hstore with rfl | hstore
    · show (s.p / pageSize).toNat < 1024
      omega
    · rcases List.mem_cons.mp hstore with rfl | hstore
      · show (s.p / pageSize - a.start / pageSize).toNat < 1024
        omega
      · exact hf.stores store hstore

/-- All passes, up to a range that ends at 4 MiB. -/
theorem filled_fills (h : a.Layout) (hstart : a.start % pageSize = 0)
    (hend : a.endAddr.toNat ≤ 4194304) (ram : Frame → FrameData) (n : Nat) :
    ∃ k, Filled a k (a.fills n (a.fillLoop ram)) ∧
      (k = n ∨ ¬ (a.fills n (a.fillLoop ram)).p < a.endAddr) := by
  induction n with
  | zero => exact ⟨0, .zero ram, .inl rfl⟩
  | succ n ih =>
    obtain ⟨k, hf, hk⟩ := ih
    by_cases hlt : (a.fills n (a.fillLoop ram)).p < a.endAddr
    · obtain rfl := hk.resolve_right (not_not.mpr hlt)
      rw [fills_of_lt hlt]
      rw [BitVec.lt_def] at hlt
      exact ⟨k + 1, hf.fill h hstart (by omega), .inl rfl⟩
    · rw [fills_of_le hlt]
      exact ⟨k, hf, .inr hlt⟩

/-! ### The tables -/

/-- The stores are all in the tables, and afterwards each address of the range can be reached
at itself and in the kernel's range. -/
def MapsKernel (a : StartPaging) (ram : Frame → FrameData) : Prop :=
  (∀ n, ∀ store ∈ (a.fills n (a.fillLoop ram)).stores, store.2.toNat < 1024) ∧
    ∃ fuel count m, a.startPaging ram fuel = some (count, m) ∧
      ∀ p, a.start ≤ p → p < a.endAddr → linearToPhysical m p = some p ∧
        linearToPhysical m (a.linearAddr + (p - a.start)) = some p

/-- The entries of the directory; nothing else has changed. -/
theorem ram_install (h : a.Layout) (ram : Frame → FrameData) :
    (a.install ram).ram (a.install ram).cr3 0 = a.identityTable + 3 ∧
      (a.install ram).ram (a.install ram).cr3 (dirIndex a.linearAddr) = a.table + 3 + 1024 ∧
      ∀ f j, f ≠ frameNumber a.directory → (a.install ram).ram f j = ram f j := by
  have hlt := (dirIndex a.linearAddr).isLt
  have hindex : (a.linearAddr >>> 22).toNat = (dirIndex a.linearAddr).toNat := by
    rw [BitVec.toNat_ushiftRight, dirIndex_toNat, Nat.shiftRight_eq_div_pow]
  have hpos : (dirIndex a.linearAddr).toNat ≠ 0 := fun heq =>
    h.linearAddr_pos (BitVec.eq_of_toNat_eq heq)
  have hbelow : (dirIndex a.linearAddr).toNat ≠ 1023 := fun heq =>
    h.linearAddr_below (BitVec.eq_of_toNat_eq heq)
  have hzero : a.directory + 4 * 0 = a.directory := BitVec.add_zero _
  have hfirst : ∀ f j, storeWord ram a.directory (a.identityTable + 3) f j =
      if f = frameNumber a.directory ∧ j.toNat = 0 then a.identityTable + 3 else ram f j := by
    intro f j
    have hstore : storeWord ram (a.directory + 4 * 0) (a.identityTable + 3) f j = _ :=
      storeWord_entry h.directory (by decide)
    rw [hzero] at hstore
    exact hstore
  have hstore : ∀ f j, (a.install ram).ram f j =
      if f = frameNumber a.directory ∧ j.toNat = 1023 then a.directory + 3
      else if f = frameNumber a.directory ∧ j.toNat = (dirIndex a.linearAddr).toNat then
        a.table + 3 + 1024
      else if f = frameNumber a.directory ∧ j.toNat = 0 then a.identityTable + 3
      else ram f j := by
    intro f j
    show storeWord (storeWord (storeWord _ _ _) _ _) _ _ f j = _
    rw [storeWord_entry h.directory (by decide), storeWord_entry h.directory (by omega), hfirst,
      hindex]
    rfl
  have hcr3 : (a.install ram).cr3 = frameNumber a.directory := rfl
  refine ⟨?_, ?_, fun f j hf => ?_⟩
  · rw [hstore, if_neg fun heq => absurd heq.2 (by decide), if_neg fun heq => hpos heq.2.symm,
      if_pos ⟨hcr3, rfl⟩]
  · rw [hstore, if_neg fun heq => hbelow heq.2, if_pos ⟨hcr3, rfl⟩]
  · rw [hstore, if_neg fun heq => hf heq.1, if_neg fun heq => hf heq.1, if_neg fun heq => hf heq.1]

/-- The range up to 4 MiB is mapped at both places. -/
theorem linearToPhysical_install {k : Nat} {p : Word} (h : a.Layout)
    (hstart : a.start % pageSize = 0) (hend : a.endAddr.toNat ≤ 4194304) (hf : Filled a k s)
    (hdone : ¬ s.p < a.endAddr) (hle : a.start ≤ p) (hlt : p < a.endAddr) :
    linearToPhysical (a.install s.ram) p = some p ∧
      linearToPhysical (a.install s.ram) (a.linearAddr + (p - a.start)) = some p := by
  obtain ⟨hidentity, hkernel, hother⟩ := ram_install h s.ram
  obtain ⟨hpresent, hframe, -, -⟩ := ofWord_tableEntry h.identityTable
  obtain ⟨-, -, hpresent', hframe'⟩ := ofWord_tableEntry h.table
  have hp := hf.p
  have hla := h.linearAddr
  have hmax := a.linearAddr.isLt
  rw [BitVec.le_def] at hle
  rw [BitVec.lt_def] at hlt hdone
  rw [aligned_iff] at hstart
  have hoffset : (a.linearAddr + (p - a.start)).toNat =
      a.linearAddr.toNat + (p.toNat - a.start.toNat) := by
    rw [BitVec.toNat_add, BitVec.toNat_sub]
    omega
  have hpage : ∀ w : Nat, w = p.toNat / 4096 * 4096 → BitVec.ofNat 32 w % pageSize = 0 ∧
      frameNumber (BitVec.ofNat 32 w) = frameNumber p := by
    rintro w rfl
    have hw : (BitVec.ofNat 32 (p.toNat / 4096 * 4096)).toNat = p.toNat / 4096 * 4096 := by
      rw [BitVec.toNat_ofNat]
      omega
    refine ⟨aligned_iff.mpr (by omega), BitVec.eq_of_toNat_eq ?_⟩
    rw [toNat_frameNumber, toNat_frameNumber, hw]
    omega
  constructor
  · -- the identity table is indexed by the frame
    have hdir : dirIndex p = 0 := by
      apply BitVec.eq_of_toNat_eq
      rw [dirIndex_toNat, show (0 : BitVec 10).toNat = 0 from rfl]
      omega
    have hindex : (tableIndex p).toNat = p.toNat / 4096 := by
      rw [tableIndex_toNat]
      omega
    obtain ⟨ha, hsame⟩ := hpage (4096 * (tableIndex p).toNat) (by omega)
    refine linearToPhysical_eq (by rw [hdir]; exact hidentity) hpresent hframe ?_ ha hsame rfl
    rw [hother _ _ h.directory_ne_identityTable.symm]
    exact hf.identityTable _ (by omega) (by omega)
  · -- the kernel's table is indexed from the start of the range
    have hdir : dirIndex (a.linearAddr + (p - a.start)) = dirIndex a.linearAddr := by
      apply BitVec.eq_of_toNat_eq
      rw [dirIndex_toNat, dirIndex_toNat, hoffset]
      omega
    have hindex : (tableIndex (a.linearAddr + (p - a.start))).toNat =
        (p.toNat - a.start.toNat) / 4096 := by
      rw [tableIndex_toNat, hoffset]
      omega
    obtain ⟨ha, hsame⟩ := hpage (a.start.toNat +
      4096 * (tableIndex (a.linearAddr + (p - a.start))).toNat) (by omega)
    refine linearToPhysical_eq (by rw [hdir]; exact hkernel) hpresent' hframe' ?_ ha hsame
      (by omega)
    rw [hother _ _ h.directory_ne_table.symm]
    exact hf.table _ (by omega)

/-- A range that ends beyond 4 MiB gets to a store beyond the second table. -/
theorem exists_store_beyond (hstart : a.start % pageSize = 0) (hlt : a.start < a.endAddr)
    (hend : ¬ a.endAddr.toNat ≤ 4194304) (ram : Frame → FrameData) :
    ∃ n, ∃ store ∈ (a.fills n (a.fillLoop ram)).stores, ¬ store.2.toNat < 1024 := by
  have hmax := a.endAddr.isLt
  rw [aligned_iff] at hstart
  rw [BitVec.lt_def] at hlt
  -- the pass for 4 MiB, or the first one if that comes later
  have hp : (a.fills ((4194304 - a.start.toNat) / 4096) (a.fillLoop ram)).p.toNat =
      a.start.toNat + 4096 * ((4194304 - a.start.toNat) / 4096) :=
    p_fills (fun k hk => by omega) (by omega)
  refine ⟨(4194304 - a.start.toNat) / 4096 + 1, (.identityTable,
    (a.fills ((4194304 - a.start.toNat) / 4096) (a.fillLoop ram)).p / pageSize), ?_, ?_⟩
  · rw [fills_of_lt (by rw [BitVec.lt_def, hp]; omega)]
    exact List.mem_cons_self ..
  · show ¬ (_ / pageSize).toNat < 1024
    rw [BitVec.toNat_udiv, hp, show pageSize.toNat = 4096 from rfl]
    omega

/-- **The boot mapping.**  All stores are in the tables and the whole range is mapped at
both places exactly when the range ends at 4 MiB or before. -/
theorem startPaging_iff (h : a.Layout) (hstart : a.start % pageSize = 0)
    (hlt : a.start < a.endAddr) (ram : Frame → FrameData) :
    MapsKernel a ram ↔ a.endAddr.toNat ≤ 4194304 := by
  constructor
  · rintro ⟨hstores, -⟩
    by_contra hend
    obtain ⟨n, store, hstore, hbeyond⟩ := exists_store_beyond hstart hlt hend ram
    exact hbeyond (hstores n store hstore)
  · intro hend
    refine ⟨fun n => ?_, 1024, ?_⟩
    · obtain ⟨k, hf, -⟩ := filled_fills h hstart hend ram n
      exact hf.stores
    · obtain ⟨k, hf, hk⟩ := filled_fills h hstart hend ram 1024
      have hdone : ¬ (a.fills 1024 (a.fillLoop ram)).p < a.endAddr := by
        rcases hk with rfl | hdone
        · rw [BitVec.lt_def, hf.p]
          omega
        · exact hdone
      exact ⟨_, _, if_neg hdone, fun p hle hp =>
        linearToPhysical_install h hstart hend hf hdone hle hp⟩

/-- The kernel at 1 MiB, with the tables at its end and the multiboot information behind
them. -/
def atOneMiB (endAddr : Word) : StartPaging where
  linearAddr := 0xFF400000
  start := 0x100000
  endAddr := endAddr
  directory := 0x110000
  table := 0x111000
  identityTable := 0x112000

theorem layout_atOneMiB (endAddr : Word) : (atOneMiB endAddr).Layout where
  directory := show (0x110000 : Word) % pageSize = 0 by decide
  table := show (0x111000 : Word) % pageSize = 0 by decide
  identityTable := show (0x112000 : Word) % pageSize = 0 by decide
  directory_ne_table := show frameNumber 0x110000 ≠ frameNumber 0x111000 by decide
  directory_ne_identityTable := show frameNumber 0x110000 ≠ frameNumber 0x112000 by decide
  table_ne_identityTable := show frameNumber 0x111000 ≠ frameNumber 0x112000 by decide
  linearAddr := show (0xFF400000 : Word).toNat % 4194304 = 0 by decide
  linearAddr_pos := show dirIndex 0xFF400000 ≠ 0 by decide
  linearAddr_below := show dirIndex 0xFF400000 ≠ 1023 by decide

theorem startPaging_iff_atOneMiB :
    MapsKernel (atOneMiB 0x113400) (fun _ _ => 0) ↔ (0x113400 : Word).toNat ≤ 4194304 :=
  startPaging_iff (layout_atOneMiB _) (by decide) (by decide) _

/-- Multiboot information that ends a page above 4 MiB. -/
theorem not_mapsKernel_atOneMiB :
    ¬ ∀ (a : StartPaging) (ram : Frame → FrameData), a.Layout → a.start % pageSize = 0 →
      a.start < a.endAddr → MapsKernel a ram := by
  intro hall
  have hmaps := hall (atOneMiB 0x401000) (fun _ _ => 0) (layout_atOneMiB _) (by decide) (by decide)
  obtain ⟨n, store, hstore, hbeyond⟩ :=
    exists_store_beyond (a := atOneMiB 0x401000) (by decide) (by decide) (by decide) (fun _ _ => 0)
  exact hbeyond (hmaps.1 n store hstore)

end StartPaging
end QuarkKernel
