import Mathlib.Data.List.Forall2
import QuarkKernel.Multiboot

/-! # The boot loader's table

What a well-formed Multiboot2 table holds, and what `read_multiboot_table` makes of
it.  A table is given by its list of tags; `InfoAt` says that it stands in memory.
The tags that lead to calls of `memmap_insert_region` are cut up into pieces, one
for each call. -/
namespace QuarkKernel
namespace Multiboot

open ByteMemory (Memory addrAt addrAt_addrAt)

/-! ### Tables -/

/-- An entry of a memory map. -/
structure MapEntry where
  base : BitVec 64
  length : BitVec 64
  type : Word
deriving DecidableEq, Repr

/-- What a tag says. -/
inductive TagBody where
  | bootCommand (str : List (BitVec 8))
  | bootloader (str : List (BitVec 8))
  | module (module : Module)
  | memoryInfo (low high : Word)
  | memoryMap (entrySize : Word) (entries : List MapEntry)
  | other (type : Word)
deriving DecidableEq, Repr

/-- A tag; `size` does not count the padding after it. -/
structure Tag where
  size : Word
  body : TagBody
deriving DecidableEq, Repr

/-- The number that stands for a kind of tag. -/
def TagBody.type : TagBody → Word
  | .bootCommand _ => 1
  | .bootloader _ => 2
  | .module _ => 3
  | .memoryInfo _ _ => 4
  | .memoryMap _ _ => 6
  | .other type => type

/-- The string at an address, closed by a NUL. -/
def StringAt (memory : Memory) (addr : Word) : List (BitVec 8) → Prop
  | [] => memory addr = some 0
  | byte :: bytes =>
      memory addr = some byte ∧ byte ≠ 0 ∧ StringAt memory (addrAt addr 1) bytes

/-- Entries that start `entrySize` bytes apart. -/
def EntriesAt (memory : Memory) (entrySize : Word) (addr : Word) : List MapEntry → Prop
  | [] => True
  | entry :: entries =>
      readLong memory addr = some entry.base ∧
        readLong memory (addrAt addr 8) = some entry.length ∧
        readWord memory (addrAt addr 16) = some entry.type ∧
        EntriesAt memory entrySize (addr + entrySize) entries

/-- The fields of a tag after its type and its size. -/
def BodyAt (memory : Memory) (addr size : Word) : TagBody → Prop
  | .bootCommand str | .bootloader str =>
      StringAt memory (addrAt addr 8) str ∧ 8 + (str.length + 1) ≤ size.toNat
  | .module module =>
      readWord memory (addrAt addr 8) = some module.start ∧
        readWord memory (addrAt addr 12) = some module.stop ∧ module.start ≤ module.stop ∧
        StringAt memory (addrAt addr 16) module.str ∧ 16 + (module.str.length + 1) ≤ size.toNat
  | .memoryInfo low high =>
      readWord memory (addrAt addr 8) = some low ∧ readWord memory (addrAt addr 12) = some high ∧
        16 ≤ size.toNat
  | .memoryMap entrySize entries =>
      readWord memory (addrAt addr 8) = some entrySize ∧ 24 ≤ entrySize.toNat ∧
        size.toNat = 16 + entries.length * entrySize.toNat ∧
        EntriesAt memory entrySize (addrAt addr 16) entries
  | .other type => type ∉ [0, 1, 2, 3, 4, (6 : Word)]

def TagAt (memory : Memory) (addr : Word) (tag : Tag) : Prop :=
  readWord memory addr = some tag.body.type ∧ readWord memory (addrAt addr 4) = some tag.size ∧
    8 ≤ tag.size.toNat ∧ BodyAt memory addr tag.size tag.body

/-- A number of bytes, rounded up to a multiple of eight. -/
def pad (size : Nat) : Nat := (size + 7) / 8 * 8

/-- The tags from an address on, and the end tag. -/
def TagsAt (memory : Memory) (addr : Word) : List Tag → Prop
  | [] => readWord memory addr = some 0 ∧ readWord memory (addrAt addr 4) = some 8
  | tag :: tags => TagAt memory addr tag ∧ TagsAt memory (addrAt addr (pad tag.size.toNat)) tags

/-- The number of bytes of all tags and the end tag. -/
def tagsSize : List Tag → Nat
  | [] => 8
  | tag :: tags => pad tag.size.toNat + tagsSize tags

/-- The addresses of the tags, that of the end tag included. -/
def tagAddresses (addr : Word) : List Tag → List Word
  | [] => [addr]
  | tag :: tags => addr :: tagAddresses (addrAt addr (pad tag.size.toNat)) tags

/-- The size of the whole table. -/
def totalSize (tags : List Tag) : Nat := 8 + tagsSize tags

/-- A well-formed table. -/
def InfoAt (memory : Memory) (table : Word) (tags : List Tag) : Prop :=
  readWord memory table = some (BitVec.ofNat 32 (totalSize tags)) ∧
    table.toNat + totalSize tags ≤ 2 ^ 32 ∧ TagsAt memory (addrAt table 8) tags

instance decidableStringAt (memory : Memory) :
    (addr : Word) → (str : List (BitVec 8)) → Decidable (StringAt memory addr str)
  | addr, [] => inferInstanceAs (Decidable (memory addr = some 0))
  | addr, byte :: bytes =>
      have := decidableStringAt memory (addrAt addr 1) bytes
      inferInstanceAs (Decidable (memory addr = some byte ∧ byte ≠ 0 ∧
        StringAt memory (addrAt addr 1) bytes))

instance decidableEntriesAt (memory : Memory) (entrySize : Word) :
    (addr : Word) → (entries : List MapEntry) → Decidable (EntriesAt memory entrySize addr entries)
  | _, [] => inferInstanceAs (Decidable True)
  | addr, entry :: entries =>
      have := decidableEntriesAt memory entrySize (addr + entrySize) entries
      inferInstanceAs (Decidable (readLong memory addr = some entry.base ∧
        readLong memory (addrAt addr 8) = some entry.length ∧
        readWord memory (addrAt addr 16) = some entry.type ∧
        EntriesAt memory entrySize (addr + entrySize) entries))

instance (memory : Memory) (addr size : Word) (body : TagBody) :
    Decidable (BodyAt memory addr size body) := by
  cases body <;> unfold BodyAt <;> infer_instance

instance (memory : Memory) (addr : Word) (tag : Tag) : Decidable (TagAt memory addr tag) :=
  inferInstanceAs (Decidable (_ ∧ _ ∧ _ ∧ _))

instance decidableTagsAt (memory : Memory) :
    (addr : Word) → (tags : List Tag) → Decidable (TagsAt memory addr tags)
  | addr, [] => inferInstanceAs (Decidable (readWord memory addr = some 0 ∧
      readWord memory (addrAt addr 4) = some 8))
  | addr, tag :: tags =>
      have := decidableTagsAt memory (addrAt addr (pad tag.size.toNat)) tags
      inferInstanceAs (Decidable (TagAt memory addr tag ∧
        TagsAt memory (addrAt addr (pad tag.size.toNat)) tags))

instance (memory : Memory) (table : Word) (tags : List Tag) :
    Decidable (InfoAt memory table tags) :=
  inferInstanceAs (Decidable (_ ∧ _ ∧ _))

/-! ### What a table describes -/

/-- Something that gets a call of `memmap_insert_region`. -/
inductive Piece where
  | entry (entry : MapEntry)
  | module (module : Module)

/-- A range of physical memory, of any size. -/
structure PhysicalRange where
  base : Nat
  length : Nat
  type : RegionType

/-- The modules of a table. -/
def moduleTags (tags : List Tag) : List Module :=
  tags.filterMap fun tag => match tag.body with
    | .module module => some module
    | _ => none

/-- The pieces of a tag that comes after `count` modules. -/
def TagBody.pieces (count : Nat) : TagBody → List Piece
  | .memoryMap _ entries => entries.map .entry
  | .module m => if count < moduleLimit then [.module m] else []
  | _ => []

/-- How many modules are taken up to the end of the tag. -/
def TagBody.countAfter (count : Nat) : TagBody → Nat
  | .module _ => if count < moduleLimit then count + 1 else count
  | _ => count

/-- The memory-map entries and the first eight modules, in the order of the table. -/
def pieces : Nat → List Tag → List Piece
  | _, [] => []
  | count, tag :: tags => tag.body.pieces count ++ pieces (tag.body.countAfter count) tags

/-- The memory a piece is about.  A module takes whole pages. -/
def Piece.range : Piece → PhysicalRange
  | .entry e => ⟨e.base.toNat, e.length.toNat, entryType e.type⟩
  | .module m =>
      ⟨m.start.toNat, (m.stop.toNat - m.start.toNat + 4095) / 4096 * 4096, .unavailable⟩

/-- The call marks the memory of the range, as far as 32 bits reach, and no other. -/
def Describes (call : Region) (range : PhysicalRange) : Prop :=
  call.type = range.type ∧
    ∀ x, x < 2 ^ 32 → (call.location.toNat ≤ x ∧ x < call.location.toNat + call.size.toNat ↔
      range.base ≤ x ∧ x < range.base + range.length)

/-- The table is read as it is meant. -/
def Decodes (memory : Memory) (bootInfo : BootInfo) (table : Word) (tags : List Tag) : Prop :=
  ∃ bootInfo' : BootInfo,
    (∃ N, ∀ fuel, N ≤ fuel → readMultibootTable memory fuel bootInfo table =
      some (addrAt table (totalSize tags), tagAddresses (addrAt table 8) tags, bootInfo')) ∧
    List.Forall₂ Describes bootInfo'.map ((pieces 0 tags).map Piece.range) ∧
    (List.range bootInfo'.moduleCount).map bootInfo'.modules =
      (moduleTags tags).take moduleLimit

/-! ### When a table can be read -/

/-- There is room for the command line, or the name of the boot loader. -/
def TagBody.NameFits : TagBody → Prop
  | .bootCommand str | .bootloader str => str.length < nameSize
  | _ => True

/-- There is room for the string of a module. -/
def Piece.StringFits : Piece → Prop
  | .entry _ => True
  | .module m => m.str.length < moduleStringSize

/-- The piece has the same memory below 4 GiB in 32-bit values. -/
def Piece.InRange : Piece → Prop
  | .entry e =>
      if e.base.toNat < 2 ^ 32 then
        e.length.toNat < 2 ^ 32 ∨ 2 ^ 32 ≤ e.base.toNat + e.length.toNat % 2 ^ 32
      else e.length.toNat % 2 ^ 32 = 0
  | .module m => m.stop.toNat - m.start.toNat + 4095 < 2 ^ 32

instance : (body : TagBody) → Decidable body.NameFits
  | .bootCommand str | .bootloader str => inferInstanceAs (Decidable (str.length < nameSize))
  | .module _ | .memoryInfo _ _ | .memoryMap _ _ | .other _ => inferInstanceAs (Decidable True)

instance : (piece : Piece) → Decidable piece.StringFits
  | .entry _ => inferInstanceAs (Decidable True)
  | .module m => inferInstanceAs (Decidable (m.str.length < moduleStringSize))

instance : (piece : Piece) → Decidable piece.InRange
  | .entry e => inferInstanceAs (Decidable (if e.base.toNat < 2 ^ 32 then
      e.length.toNat < 2 ^ 32 ∨ 2 ^ 32 ≤ e.base.toNat + e.length.toNat % 2 ^ 32
      else e.length.toNat % 2 ^ 32 = 0))
  | .module m => inferInstanceAs (Decidable (m.stop.toNat - m.start.toNat + 4095 < 2 ^ 32))

/-- Every string of the tags fits. -/
def StringsFit (count : Nat) (tags : List Tag) : Prop :=
  (∀ tag ∈ tags, tag.body.NameFits) ∧ ∀ piece ∈ pieces count tags, piece.StringFits

instance (count : Nat) (tags : List Tag) : Decidable (StringsFit count tags) :=
  inferInstanceAs (Decidable ((∀ tag ∈ tags, tag.body.NameFits) ∧
    ∀ piece ∈ pieces count tags, piece.StringFits))

/-- The condition under which a table is read as it is meant. -/
def Readable (tags : List Tag) : Prop :=
  StringsFit 0 tags ∧ ∀ piece ∈ pieces 0 tags, piece.InRange

instance (tags : List Tag) : Decidable (Readable tags) :=
  inferInstanceAs (Decidable (StringsFit 0 tags ∧ ∀ piece ∈ pieces 0 tags, piece.InRange))

/-! ### Strings and entries -/

/-- A string is copied as a whole if there is room for its NUL as well. -/
theorem strcpy_of_stringAt {memory : Memory} {str : List (BitVec 8)} {addr : Word}
    (h : StringAt memory addr str) (room : Nat) :
    strcpy memory room addr = if str.length < room then some str else none := by
  induction str generalizing addr room with
  | nil =>
    cases room with
    | zero => rfl
    | succ room =>
      rw [strcpy, show memory addr = some 0 from h,
        if_pos (show [].length < room + 1 from Nat.succ_pos room)]
      rfl
  | cons byte bytes ih =>
    obtain ⟨hbyte, hnonzero, hrest⟩ := h
    cases room with
    | zero => rfl
    | succ room =>
      rw [strcpy, hbyte, Option.bind_eq_bind, Option.bind_some, if_neg hnonzero, ih hrest room]
      simp only [List.length_cons, Nat.succ_lt_succ_iff]
      split <;> rfl

/-- The call of `memmap_insert_region` for an entry. -/
def MapEntry.region (entry : MapEntry) : Region :=
  ⟨entry.base.setWidth 32, entry.length.setWidth 32, entryType entry.type⟩

/-- The countdown of the remaining size comes to zero after the last entry. -/
theorem readEntries_of_entriesAt {memory : Memory} {entrySize : Word} {entries : List MapEntry}
    (hsize : 0 < entrySize.toNat) {fuel : Nat} (bootInfo : BootInfo) {addr tagSize : Word}
    (h : EntriesAt memory entrySize addr entries) (hfuel : entries.length ≤ fuel)
    (htag : tagSize.toNat = entries.length * entrySize.toNat) :
    readEntries memory fuel bootInfo addr tagSize entrySize =
      some { bootInfo with map := bootInfo.map ++ entries.map MapEntry.region } := by
  induction entries generalizing fuel bootInfo addr tagSize with
  | nil =>
    have hzero : tagSize = 0 := BitVec.eq_of_toNat_eq (by simpa using htag)
    rw [readEntries.eq_def]
    dsimp only
    rw [if_pos hzero, List.map_nil, List.append_nil]
  | cons entry entries ih =>
    obtain ⟨hbase, hlength, htype, hrest⟩ := h
    rw [List.length_cons, Nat.add_one_mul] at htag
    have hnonzero : tagSize ≠ 0 := by
      rintro rfl
      simp at htag
      omega
    obtain ⟨rest, rfl⟩ : ∃ rest, fuel = rest + 1 := ⟨fuel - 1, by simp at hfuel; omega⟩
    have hleft : (tagSize - entrySize).toNat = entries.length * entrySize.toNat := by
      rw [BitVec.toNat_sub_of_le (by rw [BitVec.le_def]; omega)]
      omega
    rw [readEntries, if_neg hnonzero]
    dsimp only
    rw [hbase, hlength, htype]
    simp only [Option.bind_eq_bind, Option.bind_some]
    rw [ih _ hrest (by simpa using hfuel) hleft, List.map_cons, List.append_assoc]
    rfl

/-! ### Tags -/

/-- The call for a piece. -/
def Piece.region : Piece → Region
  | .entry e => e.region
  | .module m => ⟨m.start, moduleSize m.start m.stop, .unavailable⟩

/-- What a tag does whose strings fit. -/
def TagBody.apply (bootInfo : BootInfo) : TagBody → BootInfo
  | .bootCommand str => { bootInfo with parameters := str }
  | .bootloader str => { bootInfo with bootloader := str }
  | .module m => if bootInfo.moduleCount < moduleLimit then bootInfo.addModule m else bootInfo
  | .memoryInfo low high => { bootInfo with memorySize := high * 1024 + low * 1024 }
  | .memoryMap _ entries =>
      { bootInfo with map := bootInfo.map ++ entries.map MapEntry.region }
  | .other _ => bootInfo

/-- The rounds of the loop over the entries. -/
def TagBody.rounds : TagBody → Nat
  | .memoryMap _ entries => entries.length
  | _ => 0

theorem TagBody.map_apply (bootInfo : BootInfo) (body : TagBody) :
    (body.apply bootInfo).map =
      bootInfo.map ++ (body.pieces bootInfo.moduleCount).map Piece.region := by
  cases body with
  | module m =>
    rw [apply, pieces]
    split
    · rfl
    · exact (List.append_nil _).symm
  | memoryMap entrySize entries =>
    rw [apply, pieces, List.map_map]
    rfl
  | _ => exact (List.append_nil _).symm

theorem TagBody.moduleCount_apply (bootInfo : BootInfo) (body : TagBody) :
    (body.apply bootInfo).moduleCount = body.countAfter bootInfo.moduleCount := by
  cases body with
  | module m =>
    rw [apply, countAfter]
    split <;> rfl
  | _ => rfl

/-- A tag is read if its strings fit, and is a fault otherwise. -/
theorem readTag_of_tagAt {memory : Memory} {addr : Word} {tag : Tag} (h : TagAt memory addr tag)
    {fuel : Nat} (hfuel : tag.body.rounds ≤ fuel) (bootInfo : BootInfo) :
    readTag memory fuel bootInfo addr tag.body.type =
      if tag.body.NameFits ∧ ∀ piece ∈ tag.body.pieces bootInfo.moduleCount, piece.StringFits
      then some (tag.body.apply bootInfo) else none := by
  obtain ⟨-, hsize, -, hbody⟩ := h
  obtain ⟨size, body⟩ := tag
  dsimp only at hsize hbody hfuel ⊢
  cases body with
  | bootCommand str =>
    have hcopy := strcpy_of_stringAt hbody.1 nameSize
    simp only [readTag, TagBody.type, TagBody.pieces, TagBody.NameFits, hcopy]
    by_cases hfits : str.length < nameSize <;> simp [hfits, TagBody.apply]
  | bootloader str =>
    have hcopy := strcpy_of_stringAt hbody.1 nameSize
    simp only [readTag, TagBody.type, TagBody.pieces, TagBody.NameFits, hcopy]
    by_cases hfits : str.length < nameSize <;> simp [hfits, TagBody.apply]
  | module m =>
    obtain ⟨hstart, hstop, -, hstr, -⟩ := hbody
    have hcopy := strcpy_of_stringAt hstr moduleStringSize
    simp only [readTag, TagBody.type, TagBody.pieces, TagBody.NameFits, TagBody.apply, hstart,
      hstop, hcopy]
    by_cases hroom : bootInfo.moduleCount < moduleLimit
    · by_cases hfits : m.str.length < moduleStringSize <;>
        simp [hroom, hfits, Piece.StringFits]
    · simp [hroom]
  | memoryInfo low high =>
    obtain ⟨hlow, hhigh, -⟩ := hbody
    simp only [readTag, TagBody.type, TagBody.pieces, TagBody.NameFits, TagBody.apply, hlow, hhigh]
    simp
  | memoryMap entrySize entries =>
    obtain ⟨hentry, hleast, htag, hentries⟩ := hbody
    -- the countdown starts at the size of the entries
    have hleft : (size - 16).toNat = entries.length * entrySize.toNat := by
      rw [BitVec.toNat_sub_of_le (by rw [BitVec.le_def, htag]; simp), htag]
      simp
    have hread := readEntries_of_entriesAt (by omega) bootInfo hentries hfuel hleft
    have hfits : ∀ piece ∈ entries.map Piece.entry, piece.StringFits := by
      intro piece hpiece
      obtain ⟨entry, -, rfl⟩ := List.mem_map.mp hpiece
      trivial
    show readTag memory fuel bootInfo addr 6 = _
    rw [readTag, if_neg (by decide), if_pos rfl, hsize, hentry]
    simp only [Option.bind_eq_bind, Option.bind_some]
    rw [hread, if_pos ⟨trivial, hfits⟩]
    rfl
  | other type =>
    simp only [BodyAt, List.mem_cons, List.not_mem_nil, or_false, not_or] at hbody
    obtain ⟨-, h1, h2, h3, h4, h6⟩ := hbody
    show readTag memory fuel bootInfo addr type = _
    rw [readTag, if_neg h4, if_neg h6, if_neg h3, if_neg h1, if_neg h2,
      if_pos ⟨trivial, by simp [TagBody.pieces]⟩]
    rfl

/-! ### The whole table -/

/-- The rounds of the loop over the tags, and of the loops in it. -/
def rounds : List Tag → Nat
  | [] => 1
  | tag :: tags => tag.body.rounds + 1 + rounds tags

theorem roundUp_eq {size : Word} (h : size.toNat + 7 < 2 ^ 32) :
    (size + 7) - (size + 7) % 8 = BitVec.ofNat 32 (pad size.toNat) := by
  have hsum : (size + 7).toNat = size.toNat + 7 := by
    rw [BitVec.toNat_add]
    exact Nat.mod_eq_of_lt h
  have hrest : ((size + 7) % 8).toNat = (size.toNat + 7) % 8 := by
    rw [BitVec.toNat_umod, hsum]
    rfl
  apply BitVec.eq_of_toNat_eq
  rw [BitVec.toNat_sub_of_le (by rw [BitVec.le_def, hsum, hrest]; omega), hsum, hrest,
    BitVec.toNat_ofNat, pad]
  omega

theorem eight_le_tagsSize (tags : List Tag) : 8 ≤ tagsSize tags := by
  induction tags with
  | nil => exact Nat.le_refl 8
  | cons tag tags ih =>
    rw [tagsSize]
    omega

theorem toNat_addrAt {addr : Word} {i : Nat} (h : addr.toNat + i < 2 ^ 32) :
    (addrAt addr i).toNat = addr.toNat + i := by
  rw [addrAt, BitVec.toNat_add, BitVec.toNat_ofNat, Nat.add_mod_mod, Nat.mod_eq_of_lt h]

theorem stringsFit_cons (count : Nat) (tag : Tag) (tags : List Tag) :
    StringsFit count (tag :: tags) ↔
      (tag.body.NameFits ∧ ∀ piece ∈ tag.body.pieces count, piece.StringFits) ∧
        StringsFit (tag.body.countAfter count) tags := by
  simp only [StringsFit, pieces, List.forall_mem_cons, List.forall_mem_append]
  tauto

theorem type_ne_zero_of_tagAt {memory : Memory} {addr : Word} {tag : Tag}
    (h : TagAt memory addr tag) : tag.body.type ≠ 0 := by
  obtain ⟨-, -, -, hbody⟩ := h
  cases hkind : tag.body with
  | other type =>
    rw [hkind] at hbody
    intro hzero
    exact hbody (by rw [show type = 0 from hzero]; simp)
  | _ => simp [TagBody.type]

/-- One call: the tag is read, and the next one starts after the padding. -/
theorem readMultibootTableEntry_of_tagAt {memory : Memory} {addr : Word} {tag : Tag}
    (h : TagAt memory addr tag) (hsize : tag.size.toNat + 7 < 2 ^ 32) (fuel : Nat)
    (bootInfo : BootInfo) :
    readMultibootTableEntry memory fuel bootInfo addr =
      (readTag memory fuel bootInfo addr tag.body.type).map
        (addrAt addr (pad tag.size.toNat), ·) := by
  have hnonzero := type_ne_zero_of_tagAt h
  obtain ⟨htype, hword, -, -⟩ := h
  rw [readMultibootTableEntry, htype]
  simp only [Option.bind_eq_bind, Option.bind_some]
  rw [if_neg hnonzero, hword]
  simp only [Option.bind_some, roundUp_eq hsize]
  cases readTag memory fuel bootInfo addr tag.body.type <;> rfl

/-- The loop reads the tags one after the other, up to one that does not fit. -/
theorem readTags_of_tagsAt {memory : Memory} {tags : List Tag} {addr : Word} {fuel : Nat}
    (bootInfo : BootInfo) (h : TagsAt memory addr tags) (haddr : 0 < addr.toNat)
    (hend : addr.toNat + tagsSize tags ≤ 2 ^ 32) (hfuel : rounds tags ≤ fuel) :
    readTags memory fuel addr bootInfo =
      if StringsFit bootInfo.moduleCount tags
      then some (tagAddresses addr tags, (tags.map Tag.body).foldl TagBody.apply bootInfo)
      else none := by
  have hnonzero : addr ≠ 0 := by
    rintro rfl
    simp at haddr
  -- one round for each tag; the address stays above 0, which would end the loop
  induction tags generalizing addr fuel bootInfo with
  | nil =>
    obtain ⟨rest, rfl⟩ : ∃ rest, fuel = rest + 1 := ⟨fuel - 1, by simp [rounds] at hfuel; omega⟩
    have hlast : readMultibootTableEntry memory rest bootInfo addr = some (0, bootInfo) := by
      rw [readMultibootTableEntry, h.1]
      rfl
    have hstop : readTags memory rest 0 bootInfo = some ([], bootInfo) := by
      rw [readTags.eq_def]
      rfl
    rw [readTags, if_neg hnonzero]
    dsimp only
    rw [hlast, Option.bind_eq_bind, Option.bind_some, hstop, if_pos (by simp [StringsFit, pieces])]
    rfl
  | cons tag tags ih =>
    obtain ⟨htag, htags⟩ := h
    rw [rounds] at hfuel
    rw [tagsSize] at hend
    obtain ⟨rest, rfl⟩ : ∃ rest, fuel = rest + 1 := ⟨fuel - 1, by omega⟩
    have hleast := eight_le_tagsSize tags
    have hpad : tag.size.toNat ≤ pad tag.size.toNat := by
      rw [pad]
      omega
    have hnext : (addrAt addr (pad tag.size.toNat)).toNat = addr.toNat + pad tag.size.toNat :=
      toNat_addrAt (by omega)
    have hentry := readMultibootTableEntry_of_tagAt htag (by rw [pad] at hend; omega) rest bootInfo
    rw [readTag_of_tagAt htag (by omega)] at hentry
    rw [readTags, if_neg hnonzero]
    dsimp only
    rw [hentry]
    simp only [stringsFit_cons]
    by_cases hfits : tag.body.NameFits ∧
        ∀ piece ∈ tag.body.pieces bootInfo.moduleCount, piece.StringFits
    · have hnextNonzero : addrAt addr (pad tag.size.toNat) ≠ 0 := by
        intro hzero
        rw [hzero] at hnext
        simp at hnext
        omega
      have hrounds : rounds tags ≤ rest := by omega
      have hrest := ih (tag.body.apply bootInfo) htags (by omega) (by omega) hrounds hnextNonzero
      rw [TagBody.moduleCount_apply] at hrest
      rw [if_pos hfits, Option.map_some, Option.bind_eq_bind, Option.bind_some]
      dsimp only
      rw [hrest]
      -- this tag is read; whether all are is up to the rest
      by_cases hall : StringsFit (tag.body.countAfter bootInfo.moduleCount) tags
      · rw [if_pos hall, if_pos ⟨hfits, hall⟩]
        rfl
      · rw [if_neg hall, if_neg fun hboth => hall hboth.2]
        rfl
    · rw [if_neg hfits, if_neg fun hboth => hfits hboth.1]
      rfl

/-! ### What the calls describe -/

theorem toNat_and_not_4095 (size : Word) :
    (size &&& ~~~(4095 : Word)).toNat = size.toNat / 4096 * 4096 := by
  have hmask : ∀ i : Fin 32, (~~~(4095 : Word)).getLsbD i = decide (12 ≤ i.val) := by decide
  have hshift : size &&& ~~~(4095 : Word) = (size >>> 12) <<< 12 := by
    apply BitVec.eq_of_getLsbD_eq
    intro i hi
    rw [BitVec.getLsbD_and, hmask ⟨i, hi⟩, BitVec.getLsbD_shiftLeft, BitVec.getLsbD_ushiftRight]
    by_cases hlow : i < 12
    · simp [hlow, show ¬ 12 ≤ i by omega]
    · simp [hlow, hi, show 12 ≤ i by omega, show 12 + (i - 12) = i by omega]
  have hlt := size.isLt
  rw [hshift, BitVec.toNat_shiftLeft, BitVec.toNat_ushiftRight, Nat.shiftRight_eq_div_pow,
    Nat.shiftLeft_eq, Nat.mod_eq_of_lt (by omega)]

/-- The size of a module in whole pages, unless adding 4095 leaves 32 bits. -/
theorem toNat_moduleSize {start stop : Word} (h : start ≤ stop) :
    (moduleSize start stop).toNat =
      (stop.toNat - start.toNat + 4095) % 2 ^ 32 / 4096 * 4096 := by
  rw [moduleSize, toNat_and_not_4095, BitVec.toNat_add, BitVec.toNat_sub_of_le h]
  rfl

theorem entry_describes_iff (entry : MapEntry) :
    Describes entry.region (Piece.entry entry).range ↔ (Piece.entry entry).InRange := by
  simp only [Describes, MapEntry.region, Piece.range, Piece.InRange, BitVec.toNat_setWidth,
    true_and]
  constructor
  · intro hsame
    split
    · by_contra hno
      -- the byte after the truncated length
      have hx := hsame (entry.base.toNat + entry.length.toNat % 2 ^ 32) (by omega)
      omega
    · by_contra hno
      have hx := hsame (entry.base.toNat % 2 ^ 32) (by omega)
      omega
  · intro hrange x hx
    split at hrange <;> omega

theorem module_describes_iff {m : Module} (h : m.start ≤ m.stop) :
    Describes (Piece.module m).region (Piece.module m).range ↔ (Piece.module m).InRange := by
  have hlt := m.stop.isLt
  have hstart := m.start.isLt
  simp only [Describes, Piece.region, Piece.range, Piece.InRange, toNat_moduleSize h, true_and]
  constructor
  · intro hsame
    by_contra hno
    -- the size has wrapped around to nothing
    have hx := hsame m.start.toNat hstart
    omega
  · intro hrange x hx
    rw [Nat.mod_eq_of_lt hrange]

/-- The modules of a table end after they start. -/
theorem start_le_stop_of_tagsAt {memory : Memory} {tags : List Tag} {addr : Word} {count : Nat}
    (h : TagsAt memory addr tags) {m : Module} (hm : Piece.module m ∈ pieces count tags) :
    m.start ≤ m.stop := by
  induction tags generalizing addr count with
  | nil => cases hm
  | cons tag tags ih =>
    obtain ⟨⟨-, -, -, hbody⟩, htags⟩ := h
    rcases List.mem_append.mp hm with hhere | hrest
    · cases hkind : tag.body with
      | module m' =>
        rw [hkind] at hbody hhere
        rw [TagBody.pieces] at hhere
        split at hhere
        · obtain rfl := Piece.module.inj (List.mem_singleton.mp hhere)
          exact hbody.2.2.1
        · cases hhere
      | memoryMap entrySize entries =>
        rw [hkind] at hhere
        obtain ⟨entry, -, hentry⟩ := List.mem_map.mp hhere
        cases hentry
      | _ =>
        rw [hkind] at hhere
        cases hhere
    · exact ih htags hrest

theorem describes_iff {memory : Memory} {tags : List Tag} {addr : Word} {count : Nat}
    (h : TagsAt memory addr tags) {piece : Piece} (hpiece : piece ∈ pieces count tags) :
    Describes piece.region piece.range ↔ piece.InRange := by
  cases piece with
  | entry e => exact entry_describes_iff e
  | module m => exact module_describes_iff (start_le_stop_of_tagsAt h hpiece)

/-! ### What is left in `struct boot_info_t` -/

theorem map_foldl_apply (tags : List Tag) (bootInfo : BootInfo) :
    ((tags.map Tag.body).foldl TagBody.apply bootInfo).map =
      bootInfo.map ++ (pieces bootInfo.moduleCount tags).map Piece.region := by
  induction tags generalizing bootInfo with
  | nil => exact (List.append_nil _).symm
  | cons tag tags ih =>
    rw [List.map_cons, List.foldl_cons, ih, TagBody.map_apply, TagBody.moduleCount_apply, pieces,
      List.map_append, List.append_assoc]

/-- The modules taken so far. -/
def BootInfo.taken (bootInfo : BootInfo) : List Module :=
  (List.range bootInfo.moduleCount).map bootInfo.modules

theorem BootInfo.taken_addModule (bootInfo : BootInfo) (m : Module) :
    (bootInfo.addModule m).taken = bootInfo.taken ++ [m] := by
  have hmodules : (bootInfo.addModule m).modules =
      Function.update bootInfo.modules bootInfo.moduleCount m := rfl
  have hcount : (bootInfo.addModule m).moduleCount = bootInfo.moduleCount + 1 := rfl
  have hsame : (List.range bootInfo.moduleCount).map
      (Function.update bootInfo.modules bootInfo.moduleCount m) = bootInfo.taken := by
    apply List.map_congr_left
    intro i hi
    exact Function.update_of_ne (Nat.ne_of_lt (List.mem_range.mp hi)) _ _
  rw [taken, hmodules, hcount, List.range_succ, List.map_append, List.map_singleton, hsame,
    Function.update_self]

/-- The first modules are taken, up to the limit. -/
theorem taken_foldl_apply (tags : List Tag) (bootInfo : BootInfo) :
    ((tags.map Tag.body).foldl TagBody.apply bootInfo).taken =
      bootInfo.taken ++ (moduleTags tags).take (moduleLimit - bootInfo.moduleCount) := by
  induction tags generalizing bootInfo with
  | nil => simp [moduleTags]
  | cons tag tags ih =>
    rw [List.map_cons, List.foldl_cons, ih, TagBody.moduleCount_apply]
    cases hkind : tag.body with
    | module m =>
      have hcons : moduleTags (tag :: tags) = m :: moduleTags tags := by
        simp [moduleTags, hkind]
      rw [TagBody.apply, TagBody.countAfter, hcons]
      split
      · rw [BootInfo.taken_addModule, List.append_assoc, List.singleton_append,
          show moduleLimit - bootInfo.moduleCount =
            moduleLimit - (bootInfo.moduleCount + 1) + 1 by omega, List.take_succ_cons]
      · rw [show moduleLimit - bootInfo.moduleCount = 0 by omega, List.take_zero, List.take_zero]
    | _ =>
      have hcons : moduleTags (tag :: tags) = moduleTags tags := by
        simp [moduleTags, hkind]
      rw [hcons]
      rfl

/-! ### Tables that are read as they are meant -/

theorem readMultibootTable_of_infoAt {memory : Memory} {table : Word} {tags : List Tag}
    (h : InfoAt memory table tags) {fuel : Nat} (hfuel : rounds tags ≤ fuel)
    (bootInfo : BootInfo) :
    readMultibootTable memory fuel bootInfo table =
      if StringsFit bootInfo.moduleCount tags
      then some (addrAt table (totalSize tags), tagAddresses (addrAt table 8) tags,
        (tags.map Tag.body).foldl TagBody.apply bootInfo)
      else none := by
  obtain ⟨hsize, hend, htags⟩ := h
  have hleast := eight_le_tagsSize tags
  rw [totalSize] at hend
  have hfirst : (addrAt table 8).toNat = table.toNat + 8 := toNat_addrAt (by omega)
  rw [readMultibootTable, hsize]
  simp only [Option.bind_eq_bind, Option.bind_some]
  rw [readTags_of_tagsAt bootInfo htags (by omega) (by omega) hfuel]
  split <;> rfl

/-- The calls for the pieces describe them exactly when they keep in range. -/
theorem forall_describes_iff {memory : Memory} {table : Word} {tags : List Tag}
    (h : InfoAt memory table tags) :
    List.Forall₂ Describes ((pieces 0 tags).map Piece.region)
      ((pieces 0 tags).map Piece.range) ↔ ∀ piece ∈ pieces 0 tags, piece.InRange := by
  rw [List.forall₂_map_left_iff, List.forall₂_map_right_iff, List.forall₂_same]
  exact forall₂_congr fun piece hpiece => describes_iff h.2.2 hpiece

theorem map_of_infoAt (tags : List Tag) {bootInfo : BootInfo} (hcount : bootInfo.moduleCount = 0)
    (hmap : bootInfo.map = []) :
    ((tags.map Tag.body).foldl TagBody.apply bootInfo).map = (pieces 0 tags).map Piece.region := by
  rw [map_foldl_apply, hmap, hcount, List.nil_append]

theorem readable_of_decodes {memory : Memory} {table : Word} {tags : List Tag}
    {bootInfo : BootInfo} (h : InfoAt memory table tags) (hcount : bootInfo.moduleCount = 0)
    (hmap : bootInfo.map = []) (hdecodes : Decodes memory bootInfo table tags) :
    Readable tags := by
  obtain ⟨bootInfo', ⟨N, hresult⟩, hdescribes, -⟩ := hdecodes
  have hread := readMultibootTable_of_infoAt h (Nat.le_add_left (rounds tags) N) bootInfo
  rw [hresult _ (Nat.le_add_right N _), hcount] at hread
  split at hread
  · rename_i hfits
    obtain rfl := congrArg (fun result => result.2.2) (Option.some.inj hread)
    dsimp only at hdescribes
    rw [map_of_infoAt tags hcount hmap] at hdescribes
    exact ⟨hfits, (forall_describes_iff h).mp hdescribes⟩
  · cases hread

theorem decodes_of_readable {memory : Memory} {table : Word} {tags : List Tag}
    {bootInfo : BootInfo} (h : InfoAt memory table tags) (hcount : bootInfo.moduleCount = 0)
    (hmap : bootInfo.map = []) (hreadable : Readable tags) :
    Decodes memory bootInfo table tags := by
  obtain ⟨hfits, hrange⟩ := hreadable
  refine ⟨(tags.map Tag.body).foldl TagBody.apply bootInfo, ⟨rounds tags, ?_⟩, ?_, ?_⟩
  · intro fuel hfuel
    rw [readMultibootTable_of_infoAt h hfuel, hcount, if_pos hfits]
  · rw [map_of_infoAt tags hcount hmap]
    exact (forall_describes_iff h).mpr hrange
  · have htaken := taken_foldl_apply tags bootInfo
    rw [hcount, BootInfo.taken, BootInfo.taken, hcount] at htaken
    exact htaken

/-- **Main result.** A well-formed table is read as it is meant exactly when its strings
fit and its ranges keep their memory in 32 bits. -/
theorem decodes_iff {memory : Memory} {table : Word} {tags : List Tag} {bootInfo : BootInfo}
    (h : InfoAt memory table tags) (hcount : bootInfo.moduleCount = 0) (hmap : bootInfo.map = []) :
    Decodes memory bootInfo table tags ↔ Readable tags :=
  ⟨readable_of_decodes h hcount hmap, decodes_of_readable h hcount hmap⟩

/-- `boot_info` as `x86_startup` passes it. -/
def emptyBootInfo : BootInfo :=
  { bootloader := [], parameters := [], memorySize := 0, map := [], moduleCount := 0,
    modules := fun _ => ⟨0, 0, []⟩ }

/-- A memory with these words from 64 KiB on. -/
def tableMemory (words : List Word) : Memory :=
  ByteMemory.writeWords (fun _ => none) 0x10000 words

/-- Tags of all kinds. -/
def mixedTags : List Tag :=
  [⟨10, .bootCommand [0x61]⟩, ⟨18, .module ⟨0x200000, 0x201800, [0x6d]⟩⟩,
    ⟨16, .memoryInfo 640 0x7c00⟩,
    ⟨64, .memoryMap 24 [⟨0, 0x9fc00, 1⟩, ⟨0x100000, 0x7f00000, 1⟩]⟩, ⟨20, .other 5⟩]

theorem decodes_iff_mixedTags :
    Decodes
        (tableMemory
          [160, 0, 1, 10, 0x61, 0, 3, 18, 0x200000, 0x201800, 0x6d, 0, 4, 16, 640, 0x7c00,
            6, 64, 24, 0, 0, 0, 0x9fc00, 0, 1, 0, 0x100000, 0, 0x7f00000, 0, 1, 0,
            5, 20, 0, 0, 0, 0, 0, 8])
        emptyBootInfo 0x10000 mixedTags ↔ Readable mixedTags :=
  decodes_iff (by decide +kernel) rfl rfl

example : Readable mixedTags := by decide

/-- One range of memory, which starts at 4 GiB. -/
def highTags : List Tag := [⟨40, .memoryMap 24 [⟨0x100000000, 4096, 1⟩]⟩]

/-- Memory at 4 GiB makes the first page available. -/
theorem not_decodes_highTags :
    ¬ ∀ (memory : Memory) (table : Word) (tags : List Tag) (bootInfo : BootInfo),
      InfoAt memory table tags → bootInfo.moduleCount = 0 → bootInfo.map = [] →
        Decodes memory bootInfo table tags := by
  intro hall
  have hinfo : InfoAt (tableMemory [56, 0, 6, 40, 24, 0, 0, 1, 4096, 0, 1, 0, 0, 8]) 0x10000
      highTags := by
    decide +kernel
  have hreadable : Readable highTags :=
    readable_of_decodes hinfo rfl rfl (hall _ _ _ emptyBootInfo hinfo rfl rfl)
  exact absurd hreadable (by decide)

end Multiboot
end QuarkKernel
