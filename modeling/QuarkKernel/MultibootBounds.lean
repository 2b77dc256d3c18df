import QuarkKernel.ByteCopies
import QuarkKernel.MultibootTable

/-! # Where `read_multiboot_table` stays

The parser trusts the sizes in the table.  Seen through `bounded`, where an access to a
byte behind the table is a fault, it comes to an end just if the tags lead to an end tag
in the table and each of them keeps to it (`parsesBounded_iff`). -/
namespace QuarkKernel
namespace Multiboot

open ByteMemory (Memory Present addrAt addrAt_addrAt loadWord loadWords present_append)
open ByteCopies (Bytes)

/-- The memory of which only the bytes below `limit` may be read. -/
def bounded (memory : Bytes) (limit : Nat) : Memory :=
  fun addr => if addr.toNat < limit then some (memory addr) else none

/-- The `uint32_t` at `addr`. -/
def wordAt (memory : Bytes) (addr : Word) : Word := loadWord (fun x => some (memory x)) addr

/-- The `size` bytes from `addr` lie below `limit`. -/
def Within (limit : Nat) (addr : Word) (size : Nat) : Prop :=
  ∀ i, i < size → (addrAt addr i).toNat < limit

/-- `read_multiboot_table` ends, without a read at or behind the end of the table and
without a write outside of the buffers. -/
def ParsesBounded (memory : Bytes) (table : Word) (bootInfo : BootInfo) : Prop :=
  ∃ fuel result, readMultibootTable
    (bounded memory (table.toNat + (wordAt memory table).toNat)) fuel bootInfo table = some result

/-! ### Tags that keep to the table -/

section
variable (memory : Bytes) (limit : Nat)

instance (addr : Word) (size : Nat) : Decidable (Within limit addr size) :=
  inferInstanceAs (Decidable (∀ i, i < size → (addrAt addr i).toNat < limit))

/-- A NUL in the table, less than `room` bytes on. -/
def StringWithin (addr : Word) (room : Nat) : Prop :=
  ∃ length, length < room ∧ memory (addrAt addr length) = 0 ∧ Within limit addr (length + 1)

/-- Some number of entries, `stride` bytes apart, takes up `left` bytes modulo `2 ^ 32`, and
all of them lie in the table. -/
def EntriesWithin (entry left stride : Word) : Prop :=
  ∃ count : Nat, left = BitVec.ofNat 32 count * stride ∧
    ∀ i, i < count → Within limit (entry + BitVec.ofNat 32 i * stride) 20

/-- What is read of a tag, besides its type and its size, lies in the table; the strings that
are copied fit.  `count` modules have been taken before. -/
def TagWithin (count : Nat) (addr : Word) : Prop :=
  let type := wordAt memory addr
  if type = 4 then Within limit (addrAt addr 8) 8
  else if type = 6 then
    Within limit (addrAt addr 8) 4 ∧
      EntriesWithin limit (addrAt addr 16) (wordAt memory (addrAt addr 4) - 16)
        (wordAt memory (addrAt addr 8))
  else if type = 3 then
    count < moduleLimit → Within limit (addrAt addr 8) 8 ∧
      StringWithin memory limit (addrAt addr 16) moduleStringSize
  else if type = 1 ∨ type = 2 then StringWithin memory limit (addrAt addr 8) nameSize
  else True

/-- The number of modules taken after a tag. -/
def countAfter (count : Nat) (addr : Word) : Nat :=
  if wordAt memory addr = 3 ∧ count < moduleLimit then count + 1 else count

/-- Where the next tag is. -/
def nextTag (addr : Word) : Word :=
  let size := wordAt memory (addrAt addr 4)
  addr + ((size + 7) - (size + 7) % 8)

/-- The tags from `addr` on come to an end tag, or to NULL, and keep to the table. -/
inductive TagChain : Nat → Word → Prop
  | null {count : Nat} : TagChain count 0
  | stop {count : Nat} {addr : Word} : Within limit addr 4 → wordAt memory addr = 0 →
      TagChain count addr
  | next {count : Nat} {addr : Word} : Within limit addr 8 → wordAt memory addr ≠ 0 →
      TagWithin memory limit count addr →
      TagChain (countAfter memory count addr) (nextTag memory addr) → TagChain count addr

end

/-! ### Reading below a limit -/

section
variable {memory : Bytes} {limit : Nat} {addr : Word}

theorem bounded_of_lt (h : addr.toNat < limit) :
    bounded memory limit addr = some (memory addr) := if_pos h

theorem isSome_bounded : (bounded memory limit addr).isSome ↔ addr.toNat < limit := by
  rw [bounded]
  split
  · exact ⟨fun _ => by assumption, fun _ => rfl⟩
  · exact ⟨fun h => Bool.noConfusion h, fun h => absurd h (by assumption)⟩

theorem present_bounded {size : Nat} :
    Present (bounded memory limit) addr size ↔ Within limit addr size :=
  forall₂_congr fun _ _ => isSome_bounded

theorem readWord_bounded {value : Word} :
    readWord (bounded memory limit) addr = some value ↔
      Within limit addr 4 ∧ wordAt memory addr = value := by
  rw [readWord, loadWords]
  by_cases hpresent : Present (bounded memory limit) addr 4
  · have hwithin := present_bounded.mp hpresent
    have hbyte : ∀ i, i < 4 → bounded memory limit (addrAt addr i) =
        some (memory (addrAt addr i)) := fun i hi => bounded_of_lt (hwithin i hi)
    have hword : loadWord (bounded memory limit) addr = wordAt memory addr := by
      rw [wordAt, loadWord, loadWord, hbyte 3 (by omega), hbyte 2 (by omega), hbyte 1 (by omega),
        hbyte 0 (by omega)]
    have haddr : addrAt addr (4 * 0) = addr := BitVec.add_zero addr
    rw [if_pos hpresent]
    show some (loadWord (bounded memory limit) (addrAt addr (4 * 0))) = some value ↔ _
    rw [haddr, hword, Option.some_inj]
    exact (and_iff_right hwithin).symm
  · rw [if_neg hpresent]
    constructor
    · intro h
      cases h
    · rintro ⟨hwithin, -⟩
      exact absurd (present_bounded.mpr hwithin) hpresent

theorem within_add {m n : Nat} :
    Within limit addr (m + n) ↔ Within limit addr m ∧ Within limit (addrAt addr m) n := by
  have hpresent : ∀ a size, Within limit a size ↔ Present (bounded (fun _ => 0) limit) a size :=
    fun _ _ => present_bounded.symm
  rw [hpresent, hpresent, hpresent]
  exact present_append

theorem readLong_bounded :
    (∃ value, readLong (bounded memory limit) addr = some value) ↔ Within limit addr 8 := by
  rw [show 8 = 4 + 4 from rfl, within_add, readLong]
  constructor
  · rintro ⟨value, h⟩
    obtain ⟨low, hlow, h⟩ := Option.bind_eq_some_iff.mp h
    obtain ⟨high, hhigh, -⟩ := Option.bind_eq_some_iff.mp h
    exact ⟨(readWord_bounded.mp hlow).1, (readWord_bounded.mp hhigh).1⟩
  · rintro ⟨hlow, hhigh⟩
    rw [readWord_bounded.mpr ⟨hlow, rfl⟩, Option.bind_eq_bind, Option.bind_some,
      readWord_bounded.mpr ⟨hhigh, rfl⟩]
    exact ⟨_, rfl⟩

/-! ### Strings -/

theorem not_stringWithin_zero : ¬ StringWithin memory limit addr 0 := by
  rintro ⟨length, hlt, -⟩
  exact Nat.not_lt_zero length hlt

/-- One character of a string. -/
theorem stringWithin_succ {room : Nat} :
    StringWithin memory limit addr (room + 1) ↔ addr.toNat < limit ∧
      (memory addr = 0 ∨ StringWithin memory limit (addrAt addr 1) room) := by
  have hzero : addrAt addr 0 = addr := BitVec.add_zero addr
  constructor
  · rintro ⟨length, hlt, hnul, hwithin⟩
    have hfirst := hwithin 0 (Nat.succ_pos length)
    rw [hzero] at hfirst
    refine ⟨hfirst, ?_⟩
    rcases Nat.eq_zero_or_pos length with rfl | hpos
    · exact Or.inl (hzero ▸ hnul)
    · right
      refine ⟨length - 1, by omega, ?_, fun i hi => ?_⟩
      · rw [addrAt_addrAt, show 1 + (length - 1) = length by omega]
        exact hnul
      · rw [addrAt_addrAt]
        exact hwithin (1 + i) (by omega)
  · rintro ⟨hfirst, hnul | ⟨length, hlt, hnul, hwithin⟩⟩
    · refine ⟨0, Nat.succ_pos room, hzero.symm ▸ hnul, fun i hi => ?_⟩
      obtain rfl : i = 0 := by omega
      rw [hzero]
      exact hfirst
    · refine ⟨length + 1, by omega, ?_, fun i hi => ?_⟩
      · rw [Nat.add_comm, ← addrAt_addrAt]
        exact hnul
      · rcases Nat.eq_zero_or_pos i with rfl | hpos
        · rw [hzero]
          exact hfirst
        · have hrest := hwithin (i - 1) (by omega)
          rw [addrAt_addrAt, show 1 + (i - 1) = i by omega] at hrest
          exact hrest

theorem strcpy_bounded {room : Nat} :
    (∃ str, strcpy (bounded memory limit) room addr = some str) ↔
      StringWithin memory limit addr room := by
  induction room generalizing addr with
  | zero =>
    constructor
    · rintro ⟨str, h⟩
      cases h
    · intro h
      exact absurd h not_stringWithin_zero
  | succ room ih =>
    rw [stringWithin_succ, ← ih, strcpy]
    by_cases hlt : addr.toNat < limit
    · rw [bounded_of_lt hlt, Option.bind_eq_bind, Option.bind_some, and_iff_right hlt]
      by_cases hnul : memory addr = 0
      · rw [if_pos hnul]
        exact ⟨fun _ => Or.inl hnul, fun _ => ⟨[], rfl⟩⟩
      · rw [if_neg hnul, or_iff_right hnul]
        constructor
        · rintro ⟨str, h⟩
          obtain ⟨rest, hrest, -⟩ := Option.map_eq_some_iff.mp h
          exact ⟨rest, hrest⟩
        · rintro ⟨rest, hrest⟩
          exact ⟨memory addr :: rest, by rw [hrest]; rfl⟩
    · have hnone : bounded memory limit addr = none := if_neg hlt
      rw [hnone]
      constructor
      · rintro ⟨str, h⟩
        cases h
      · intro h
        exact absurd h.1 hlt

/-! ### The entries of a memory map -/

/-- What the body of the loop reads of an entry. -/
theorem readEntry_bounded :
    (∃ base length type, readLong (bounded memory limit) addr = some base ∧
      readLong (bounded memory limit) (addrAt addr 8) = some length ∧
      readWord (bounded memory limit) (addrAt addr 16) = some type) ↔ Within limit addr 20 := by
  rw [show 20 = 8 + (8 + 4) from rfl, within_add, within_add, ← readLong_bounded,
    ← readLong_bounded, addrAt_addrAt]
  constructor
  · rintro ⟨base, length, type, hbase, hlength, htype⟩
    exact ⟨⟨base, hbase⟩, ⟨length, hlength⟩, (readWord_bounded.mp htype).1⟩
  · rintro ⟨⟨base, hbase⟩, ⟨length, hlength⟩, htype⟩
    exact ⟨base, length, _, hbase, hlength, readWord_bounded.mpr ⟨htype, rfl⟩⟩

/-- One entry that lies in the table, and those behind it. -/
theorem EntriesWithin.cons {entry left stride : Word} (hentry : Within limit entry 20)
    (h : EntriesWithin limit (entry + stride) (left - stride) stride) :
    EntriesWithin limit entry left stride := by
  obtain ⟨count, hleft, hentries⟩ := h
  refine ⟨count + 1, ?_, fun i hi => ?_⟩
  · rw [BitVec.ofNat_add, BitVec.add_mul, ← hleft]
    show left = left - stride + 1#32 * stride
    rw [BitVec.one_mul, BitVec.sub_add_cancel]
  · rcases Nat.eq_zero_or_pos i with rfl | hpos
    · show Within limit (entry + 0#32 * stride) 20
      rw [BitVec.zero_mul, BitVec.add_zero]
      exact hentry
    · have hplace : entry + stride + BitVec.ofNat 32 (i - 1) * stride =
          entry + BitVec.ofNat 32 i * stride := by
        conv_rhs => rw [show i = i - 1 + 1 by omega, BitVec.ofNat_add, BitVec.add_mul]
        show _ = entry + (BitVec.ofNat 32 (i - 1) * stride + 1#32 * stride)
        rw [BitVec.one_mul, BitVec.add_assoc, BitVec.add_comm stride]
      rw [← hplace]
      exact hentries (i - 1) (by omega)

/-- The first of some entries, and the others. -/
theorem entries_uncons {entry left stride : Word} {count : Nat}
    (hleft : left = BitVec.ofNat 32 (count + 1) * stride)
    (hentries : ∀ i, i < count + 1 → Within limit (entry + BitVec.ofNat 32 i * stride) 20) :
    Within limit entry 20 ∧ left - stride = BitVec.ofNat 32 count * stride ∧
      ∀ i, i < count → Within limit (entry + stride + BitVec.ofNat 32 i * stride) 20 := by
  refine ⟨?_, ?_, fun i hi => ?_⟩
  · have hfirst := hentries 0 (Nat.succ_pos count)
    have hzero : entry + BitVec.ofNat 32 0 * stride = entry := by
      show entry + 0#32 * stride = entry
      rw [BitVec.zero_mul, BitVec.add_zero]
    rw [hzero] at hfirst
    exact hfirst
  · rw [hleft, BitVec.ofNat_add, BitVec.add_mul]
    show _ + 1#32 * stride - stride = _
    rw [BitVec.one_mul, BitVec.add_sub_cancel]
  · have hnext := hentries (i + 1) (Nat.succ_lt_succ hi)
    have hplace : entry + BitVec.ofNat 32 (i + 1) * stride =
        entry + stride + BitVec.ofNat 32 i * stride := by
      rw [BitVec.ofNat_add, BitVec.add_mul]
      show entry + (BitVec.ofNat 32 i * stride + 1#32 * stride) = _
      rw [BitVec.one_mul, BitVec.add_comm _ stride, BitVec.add_assoc]
    rw [hplace] at hnext
    exact hnext

theorem readEntries_done {view : Memory} {left : Word} (hdone : left = 0) (fuel : Nat)
    (bootInfo : BootInfo) (entry stride : Word) :
    readEntries view fuel bootInfo entry left stride = some bootInfo := by
  cases fuel with
  | zero => rw [readEntries, if_pos hdone]
  | succ fuel => rw [readEntries, if_pos hdone]

theorem entriesWithin_nil {entry left stride : Word} (hdone : left = 0) :
    EntriesWithin limit entry left stride :=
  ⟨0, hdone.trans (BitVec.zero_mul ..).symm, fun i hi => absurd hi (Nat.not_lt_zero i)⟩

/-- A loop that ends has read entries in the table. -/
theorem entriesWithin_of_readEntries {fuel : Nat} {bootInfo bootInfo' : BootInfo}
    {entry left stride : Word}
    (h : readEntries (bounded memory limit) fuel bootInfo entry left stride = some bootInfo') :
    EntriesWithin limit entry left stride ∧ bootInfo'.moduleCount = bootInfo.moduleCount := by
  induction fuel generalizing bootInfo entry left with
  | zero =>
    rw [readEntries] at h
    split at h
    · rename_i hdone
      obtain rfl := Option.some.inj h
      exact ⟨entriesWithin_nil hdone, rfl⟩
    · cases h
  | succ fuel ih =>
    rw [readEntries] at h
    split at h
    · rename_i hdone
      obtain rfl := Option.some.inj h
      exact ⟨entriesWithin_nil hdone, rfl⟩
    · obtain ⟨base, hbase, h⟩ := Option.bind_eq_some_iff.mp h
      obtain ⟨length, hlength, h⟩ := Option.bind_eq_some_iff.mp h
      obtain ⟨type, htype, h⟩ := Option.bind_eq_some_iff.mp h
      obtain ⟨hrest, hcount⟩ := ih h
      exact ⟨hrest.cons (readEntry_bounded.mp ⟨base, length, type, hbase, hlength, htype⟩), hcount⟩

/-- Entries in the table are read to their end. -/
theorem readEntries_of_entriesWithin {entry left stride : Word} (bootInfo : BootInfo)
    (h : EntriesWithin limit entry left stride) :
    ∃ fuel bootInfo', readEntries (bounded memory limit) fuel bootInfo entry left stride =
      some bootInfo' := by
  obtain ⟨count, hleft, hentries⟩ := h
  induction count generalizing bootInfo entry left with
  | zero => exact ⟨0, bootInfo, readEntries_done (hleft.trans (BitVec.zero_mul ..)) 0 _ _ _⟩
  | succ count ih =>
    by_cases hdone : left = 0
    · exact ⟨0, bootInfo, readEntries_done hdone 0 _ _ _⟩
    · obtain ⟨hfirst, hleft', hrest⟩ := entries_uncons hleft hentries
      obtain ⟨base, length, type, hbase, hlength, htype⟩ :=
        (@readEntry_bounded memory limit entry).mpr hfirst
      obtain ⟨fuel, bootInfo', h⟩ := ih { bootInfo with map := bootInfo.map ++
        [⟨base.setWidth 32, length.setWidth 32, entryType type⟩] } hleft' hrest
      refine ⟨fuel + 1, bootInfo', ?_⟩
      rw [readEntries, if_neg hdone]
      simp only [hbase, hlength, htype, Option.bind_eq_bind, Option.bind_some]
      exact h

/-- More fuel does not change a result. -/
theorem readEntries_mono {view : Memory} {fuel fuel' : Nat} (hle : fuel ≤ fuel')
    {bootInfo bootInfo' : BootInfo} {entry left stride : Word}
    (h : readEntries view fuel bootInfo entry left stride = some bootInfo') :
    readEntries view fuel' bootInfo entry left stride = some bootInfo' := by
  induction fuel generalizing fuel' bootInfo entry left with
  | zero =>
    rw [readEntries] at h
    split at h
    · rename_i hdone
      rw [readEntries_done hdone, h]
    · cases h
  | succ fuel ih =>
    obtain ⟨fuel', rfl⟩ := Nat.exists_eq_succ_of_ne_zero
      (Nat.ne_of_gt (Nat.lt_of_lt_of_le (Nat.succ_pos fuel) hle))
    rw [readEntries] at h ⊢
    split at h
    · rename_i hdone
      rw [if_pos hdone, h]
    · rename_i hgo
      rw [if_neg hgo]
      obtain ⟨base, hbase, h⟩ := Option.bind_eq_some_iff.mp h
      obtain ⟨length, hlength, h⟩ := Option.bind_eq_some_iff.mp h
      obtain ⟨type, htype, h⟩ := Option.bind_eq_some_iff.mp h
      simp only [hbase, hlength, htype, Option.bind_eq_bind, Option.bind_some]
      exact ih (Nat.le_of_succ_le_succ hle) h

/-! ### One tag -/

/-- A tag that has been dealt with keeps to the table. -/
theorem tagWithin_of_readTag {fuel : Nat} {bootInfo bootInfo' : BootInfo}
    (h : readTag (bounded memory limit) fuel bootInfo addr (wordAt memory addr) = some bootInfo') :
    TagWithin memory limit bootInfo.moduleCount addr ∧
      bootInfo'.moduleCount = countAfter memory bootInfo.moduleCount addr := by
  unfold readTag at h
  unfold TagWithin countAfter
  simp only
  split at h
  · rename_i h4
    obtain ⟨high, hhigh, h⟩ := Option.bind_eq_some_iff.mp h
    obtain ⟨low, hlow, h⟩ := Option.bind_eq_some_iff.mp h
    obtain rfl := Option.some.inj h
    rw [if_pos h4, if_neg (fun h3 => absurd (h4.symm.trans h3.1) (by decide))]
    refine ⟨?_, rfl⟩
    rw [show 8 = 4 + 4 from rfl, within_add, addrAt_addrAt]
    exact ⟨(readWord_bounded.mp hlow).1, (readWord_bounded.mp hhigh).1⟩
  rename_i h4
  rw [if_neg h4]
  split at h
  · rename_i h6
    obtain ⟨size, hsize, h⟩ := Option.bind_eq_some_iff.mp h
    obtain ⟨stride, hstride, h⟩ := Option.bind_eq_some_iff.mp h
    obtain ⟨hentries, hcount⟩ := entriesWithin_of_readEntries h
    rw [if_pos h6, if_neg (fun h3 => absurd (h6.symm.trans h3.1) (by decide)),
      (readWord_bounded.mp hsize).2, (readWord_bounded.mp hstride).2]
    exact ⟨⟨(readWord_bounded.mp hstride).1, hentries⟩, hcount⟩
  rename_i h6
  rw [if_neg h6]
  split at h
  · rename_i h3
    rw [if_pos h3]
    split at h
    · rename_i hroom
      obtain ⟨start, hstart, h⟩ := Option.bind_eq_some_iff.mp h
      obtain ⟨stop, hstop, h⟩ := Option.bind_eq_some_iff.mp h
      obtain ⟨str, hstr, h⟩ := Option.bind_eq_some_iff.mp h
      obtain rfl := Option.some.inj h
      rw [if_pos ⟨h3, hroom⟩]
      refine ⟨fun _ => ⟨?_, strcpy_bounded.mp ⟨str, hstr⟩⟩, rfl⟩
      rw [show 8 = 4 + 4 from rfl, within_add, addrAt_addrAt]
      exact ⟨(readWord_bounded.mp hstart).1, (readWord_bounded.mp hstop).1⟩
    · rename_i hroom
      obtain rfl := Option.some.inj h
      rw [if_neg (fun hand => hroom hand.2)]
      exact ⟨fun hlt => absurd hlt hroom, rfl⟩
  rename_i h3
  rw [if_neg h3]
  have hcount : (if wordAt memory addr = 3 ∧ bootInfo.moduleCount < moduleLimit then
      bootInfo.moduleCount + 1 else bootInfo.moduleCount) = bootInfo.moduleCount :=
    if_neg (fun hand => h3 hand.1)
  rw [hcount]
  split at h
  · rename_i h1
    obtain ⟨str, hstr, h⟩ := Option.bind_eq_some_iff.mp h
    obtain rfl := Option.some.inj h
    rw [if_pos (Or.inl h1)]
    exact ⟨strcpy_bounded.mp ⟨str, hstr⟩, rfl⟩
  rename_i h1
  split at h
  · rename_i h2
    obtain ⟨str, hstr, h⟩ := Option.bind_eq_some_iff.mp h
    obtain rfl := Option.some.inj h
    rw [if_pos (Or.inr h2)]
    exact ⟨strcpy_bounded.mp ⟨str, hstr⟩, rfl⟩
  · rename_i h2
    obtain rfl := Option.some.inj h
    rw [if_neg (not_or.mpr ⟨h1, h2⟩)]
    exact ⟨trivial, rfl⟩

/-- A tag that keeps to the table can be dealt with. -/
theorem readTag_of_tagWithin (bootInfo : BootInfo) (hhead : Within limit addr 8)
    (h : TagWithin memory limit bootInfo.moduleCount addr) :
    ∃ fuel bootInfo', readTag (bounded memory limit) fuel bootInfo addr (wordAt memory addr) =
      some bootInfo' := by
  unfold TagWithin at h
  unfold readTag
  simp only at h
  by_cases h4 : wordAt memory addr = 4
  · rw [if_pos h4, show 8 = 4 + 4 from rfl, within_add, addrAt_addrAt] at h
    simp only [if_pos h4, readWord_bounded.mpr ⟨h.2, rfl⟩, readWord_bounded.mpr ⟨h.1, rfl⟩]
    exact ⟨0, _, rfl⟩
  rw [if_neg h4] at h
  simp only [if_neg h4]
  by_cases h6 : wordAt memory addr = 6
  · rw [if_pos h6] at h
    have hsize := ((within_add (n := 4)).mp hhead).2
    obtain ⟨fuel, bootInfo', hentries⟩ := readEntries_of_entriesWithin bootInfo h.2
    refine ⟨fuel, bootInfo', ?_⟩
    rw [if_pos h6, readWord_bounded.mpr ⟨hsize, rfl⟩, Option.bind_eq_bind, Option.bind_some,
      readWord_bounded.mpr ⟨h.1, rfl⟩]
    exact hentries
  rw [if_neg h6] at h
  simp only [if_neg h6]
  by_cases h3 : wordAt memory addr = 3
  · rw [if_pos h3] at h
    simp only [if_pos h3]
    by_cases hroom : bootInfo.moduleCount < moduleLimit
    · obtain ⟨hrange, hstr⟩ := h hroom
      rw [show 8 = 4 + 4 from rfl, within_add, addrAt_addrAt] at hrange
      obtain ⟨str, hstr⟩ := strcpy_bounded.mpr hstr
      simp only [if_pos hroom, readWord_bounded.mpr ⟨hrange.1, rfl⟩,
        readWord_bounded.mpr ⟨hrange.2, rfl⟩, hstr]
      exact ⟨0, _, rfl⟩
    · simp only [if_neg hroom]
      exact ⟨0, bootInfo, rfl⟩
  rw [if_neg h3] at h
  simp only [if_neg h3]
  by_cases h1 : wordAt memory addr = 1
  · rw [if_pos (Or.inl h1)] at h
    obtain ⟨str, hstr⟩ := strcpy_bounded.mpr h
    simp only [if_pos h1, hstr]
    exact ⟨0, _, rfl⟩
  simp only [if_neg h1]
  by_cases h2 : wordAt memory addr = 2
  · rw [if_pos (Or.inr h2)] at h
    obtain ⟨str, hstr⟩ := strcpy_bounded.mpr h
    simp only [if_pos h2, hstr]
    exact ⟨0, _, rfl⟩
  · simp only [if_neg h2]
    exact ⟨0, bootInfo, rfl⟩

/-- Fuel only counts for a memory map. -/
theorem readTag_mono {view : Memory} {fuel fuel' : Nat} (hle : fuel ≤ fuel')
    {bootInfo bootInfo' : BootInfo} {type : Word}
    (h : readTag view fuel bootInfo addr type = some bootInfo') :
    readTag view fuel' bootInfo addr type = some bootInfo' := by
  unfold readTag at h ⊢
  rcases eq_or_ne type 6 with rfl | h6
  · rw [if_neg (by decide), if_pos rfl] at h ⊢
    obtain ⟨size, hsize, h⟩ := Option.bind_eq_some_iff.mp h
    obtain ⟨stride, hstride, h⟩ := Option.bind_eq_some_iff.mp h
    rw [hsize, Option.bind_eq_bind, Option.bind_some, hstride]
    exact readEntries_mono hle h
  · rw [if_neg h6] at h ⊢
    exact h

/-! ### The tags -/

theorem readMultibootTableEntry_mono {view : Memory} {fuel fuel' : Nat} (hle : fuel ≤ fuel')
    {bootInfo bootInfo' : BootInfo} {next : Word}
    (h : readMultibootTableEntry view fuel bootInfo addr = some (next, bootInfo')) :
    readMultibootTableEntry view fuel' bootInfo addr = some (next, bootInfo') := by
  obtain ⟨type, htype, h⟩ := Option.bind_eq_some_iff.mp h
  rw [readMultibootTableEntry, htype, Option.bind_eq_bind, Option.bind_some]
  split at h
  · rename_i hend
    rw [if_pos hend, h]
  · rename_i hgo
    obtain ⟨bootInfo₁, htag, h⟩ := Option.bind_eq_some_iff.mp h
    rw [if_neg hgo, readTag_mono hle htag]
    exact h

/-- More fuel does not change a result. -/
theorem readTags_mono {view : Memory} {fuel fuel' : Nat} (hle : fuel ≤ fuel')
    {bootInfo : BootInfo} {result : List Word × BootInfo}
    (h : readTags view fuel addr bootInfo = some result) :
    readTags view fuel' addr bootInfo = some result := by
  induction fuel generalizing fuel' addr bootInfo result with
  | zero =>
    rw [readTags] at h
    split at h
    · rename_i hnull
      rw [← h]
      cases fuel' with
      | zero => rw [readTags, if_pos hnull]
      | succ fuel' => rw [readTags, if_pos hnull]
    · cases h
  | succ fuel ih =>
    obtain ⟨fuel', rfl⟩ := Nat.exists_eq_succ_of_ne_zero
      (Nat.ne_of_gt (Nat.lt_of_lt_of_le (Nat.succ_pos fuel) hle))
    rw [readTags] at h ⊢
    split at h
    · rename_i hnull
      rw [if_pos hnull, h]
    · rename_i hgo
      have hle' := Nat.le_of_succ_le_succ hle
      obtain ⟨⟨next, bootInfo₁⟩, hentry, h⟩ := Option.bind_eq_some_iff.mp h
      obtain ⟨rest, hrest, h⟩ := Option.bind_eq_some_iff.mp h
      rw [if_neg hgo, readMultibootTableEntry_mono hle' hentry, Option.bind_eq_bind,
        Option.bind_some]
      dsimp only
      rw [ih hle' hrest]
      exact h

theorem TagChain.tagWithin {count : Nat} (h : TagChain memory limit count addr)
    (hnull : addr ≠ 0) (hgo : wordAt memory addr ≠ 0) : TagWithin memory limit count addr := by
  cases h with
  | null => exact absurd rfl hnull
  | stop _ hend => exact absurd hend hgo
  | next _ _ htag _ => exact htag

/-- The tags of a table that is read keep to it. -/
theorem tagChain_of_readTags {fuel : Nat} {bootInfo : BootInfo} {result : List Word × BootInfo}
    (h : readTags (bounded memory limit) fuel addr bootInfo = some result) :
    TagChain memory limit bootInfo.moduleCount addr := by
  induction fuel generalizing addr bootInfo result with
  | zero =>
    rw [readTags] at h
    split at h
    · rename_i hnull
      exact hnull ▸ TagChain.null
    · cases h
  | succ fuel ih =>
    rw [readTags] at h
    split at h
    · rename_i hnull
      exact hnull ▸ TagChain.null
    · obtain ⟨⟨next, bootInfo₁⟩, hentry, h⟩ := Option.bind_eq_some_iff.mp h
      obtain ⟨rest, hrest, -⟩ := Option.bind_eq_some_iff.mp h
      obtain ⟨type, htype, hentry⟩ := Option.bind_eq_some_iff.mp hentry
      obtain ⟨hhead, rfl⟩ := readWord_bounded.mp htype
      split at hentry
      · rename_i hend
        exact TagChain.stop hhead hend
      · rename_i hgo
        obtain ⟨bootInfo₂, htag, hentry⟩ := Option.bind_eq_some_iff.mp hentry
        obtain ⟨size, hsize, hentry⟩ := Option.bind_eq_some_iff.mp hentry
        obtain ⟨hsizeIn, rfl⟩ := readWord_bounded.mp hsize
        obtain ⟨rfl, rfl⟩ := Prod.mk.inj (Option.some.inj hentry)
        obtain ⟨htagWithin, hcount⟩ := tagWithin_of_readTag htag
        have hchain := ih hrest
        rw [hcount] at hchain
        exact TagChain.next (within_add.mpr ⟨hhead, hsizeIn⟩) hgo htagWithin hchain

/-- Tags that keep to the table are read to their end. -/
theorem readTags_of_tagChain {count : Nat} (h : TagChain memory limit count addr)
    {bootInfo : BootInfo} (hcount : bootInfo.moduleCount = count) :
    ∃ fuel result, readTags (bounded memory limit) fuel addr bootInfo = some result := by
  induction h generalizing bootInfo with
  | null => exact ⟨0, _, by rw [readTags, if_pos rfl]⟩
  | @stop count addr hhead hend =>
    rcases eq_or_ne addr 0 with rfl | hnull
    · exact ⟨0, _, by rw [readTags, if_pos rfl]⟩
    have hentry : readMultibootTableEntry (bounded memory limit) 0 bootInfo addr =
        some (0, bootInfo) := by
      rw [readMultibootTableEntry, readWord_bounded.mpr ⟨hhead, hend⟩, Option.bind_eq_bind,
        Option.bind_some, if_pos rfl]
    refine ⟨1, ([addr], bootInfo), ?_⟩
    rw [readTags, if_neg hnull, hentry]
    rfl
  | @next count addr hhead hgo htag hchain ih =>
    rcases eq_or_ne addr 0 with rfl | hnull
    · exact ⟨0, _, by rw [readTags, if_pos rfl]⟩
    subst hcount
    obtain ⟨fuel₁, bootInfo₁, htag₁⟩ := readTag_of_tagWithin bootInfo hhead htag
    obtain ⟨hword, hsize⟩ := (within_add (m := 4) (n := 4)).mp hhead
    have hentry : readMultibootTableEntry (bounded memory limit) fuel₁ bootInfo addr =
        some (nextTag memory addr, bootInfo₁) := by
      rw [readMultibootTableEntry, readWord_bounded.mpr ⟨hword, rfl⟩, Option.bind_eq_bind,
        Option.bind_some, if_neg hgo, htag₁, Option.bind_eq_bind, Option.bind_some,
        readWord_bounded.mpr ⟨hsize, rfl⟩]
      rfl
    obtain ⟨fuel₂, rest, hrest⟩ := ih (tagWithin_of_readTag htag₁).2
    refine ⟨max fuel₁ fuel₂ + 1, (addr :: rest.1, rest.2), ?_⟩
    rw [readTags, if_neg hnull, readMultibootTableEntry_mono (le_max_left fuel₁ fuel₂) hentry,
      Option.bind_eq_bind, Option.bind_some]
    dsimp only
    rw [readTags_mono (le_max_right fuel₁ fuel₂) hrest]
    rfl

/-! ### The table -/

theorem tagChain_of_parsesBounded {table : Word} {bootInfo : BootInfo}
    (h : ParsesBounded memory table bootInfo) :
    Within (table.toNat + (wordAt memory table).toNat) table 4 ∧
      TagChain memory (table.toNat + (wordAt memory table).toNat) bootInfo.moduleCount
        (addrAt table 8) := by
  obtain ⟨fuel, result, h⟩ := h
  obtain ⟨size, hsize, h⟩ := Option.bind_eq_some_iff.mp h
  obtain ⟨tags, htags, -⟩ := Option.bind_eq_some_iff.mp h
  exact ⟨(readWord_bounded.mp hsize).1, tagChain_of_readTags htags⟩

end

/-- `x86_startup` passes a `boot_info_t` without modules. -/
theorem parsesBounded_iff (memory : Bytes) (table : Word) (bootInfo : BootInfo)
    (hcount : bootInfo.moduleCount = 0) :
    ParsesBounded memory table bootInfo ↔
      Within (table.toNat + (wordAt memory table).toNat) table 4 ∧
        TagChain memory (table.toNat + (wordAt memory table).toNat) 0 (addrAt table 8) := by
  constructor
  · intro h
    rw [← hcount]
    exact tagChain_of_parsesBounded h
  · rintro ⟨hhead, hchain⟩
    obtain ⟨fuel, tags, htags⟩ := readTags_of_tagChain hchain hcount
    refine ⟨fuel, (table + wordAt memory table, tags.1, tags.2), ?_⟩
    rw [readMultibootTable, readWord_bounded.mpr ⟨hhead, rfl⟩, Option.bind_eq_bind,
      Option.bind_some, htags]
    rfl

/-- A memory with these words from 64 KiB on, and zeros elsewhere. -/
def tableBytes (words : List Word) : Bytes := fun addr => (tableMemory words addr).getD 0

/-- A memory map with one entry. -/
theorem parsesBounded_iff_memoryMap :
    ParsesBounded (tableBytes [56, 0, 6, 40, 24, 0, 0, 1, 4096, 0, 1, 0, 0, 8]) 0x10000
      emptyBootInfo := by
  refine (parsesBounded_iff _ 0x10000 emptyBootInfo rfl).mpr ⟨by decide +kernel, ?_⟩
  refine TagChain.next (by decide +kernel) (by decide +kernel) ?_
    (TagChain.stop (by decide +kernel) (by decide +kernel))
  unfold TagWithin
  rw [if_neg (by decide +kernel), if_pos (by decide +kernel)]
  exact ⟨by decide +kernel, 1, by decide +kernel, by decide +kernel⟩

/-- A command line of 64 characters. -/
def longCommandTags : List Tag := [⟨73, .bootCommand (List.replicate 64 0x61)⟩]

/-- The table is well formed, and the command line overruns `kernel_parameters`. -/
theorem not_parsesBounded :
    ¬ ∀ (memory : Bytes) (table : Word) (tags : List Tag) (bootInfo : BootInfo),
      InfoAt (fun addr => some (memory addr)) table tags → bootInfo.moduleCount = 0 →
        ParsesBounded memory table bootInfo := by
  intro hall
  let memory := tableBytes ([96, 0, 1, 73] ++ List.replicate 16 0x61616161 ++ [0, 0, 0, 8])
  have hinfo : InfoAt (fun addr => some (memory addr)) 0x10000 longCommandTags := by
    decide +kernel
  obtain ⟨-, hchain⟩ := tagChain_of_parsesBounded (hall memory _ _ emptyBootInfo hinfo rfl)
  have htag := hchain.tagWithin (by decide +kernel) (by decide +kernel)
  unfold TagWithin at htag
  rw [if_neg (by decide +kernel), if_neg (by decide +kernel), if_neg (by decide +kernel),
    if_pos (by decide +kernel)] at htag
  obtain ⟨length, hlt, hnul, -⟩ := htag
  have hchars : ∀ length, length < 64 → memory (addrAt (addrAt (addrAt 0x10000 8) 8) length) ≠ 0 :=
    by decide +kernel
  exact hchars length hlt hnul

end Multiboot
end QuarkKernel
