import Mathlib.Data.BitVec
import Mathlib.Data.List.GetD

/-! # Byte memory with 32-bit addresses

A memory gives the byte at each address, or `none` where an access faults.
Addresses wrap around.  A block of words is stored little-endian and all at once;
reading it back gives the same words (`loadWords_storeWords`). -/
namespace ByteMemory

/-- The byte at each address; `none` where an access faults. -/
abbrev Memory := BitVec 32 → Option (BitVec 8)

/-- The address `i` bytes on. -/
def addrAt (addr : BitVec 32) (i : Nat) : BitVec 32 := addr + BitVec.ofNat 32 i

/-- No access to the `size` bytes from `addr` faults. -/
def Present (memory : Memory) (addr : BitVec 32) (size : Nat) : Prop :=
  ∀ i, i < size → (memory (addrAt addr i)).isSome

instance (memory : Memory) (addr : BitVec 32) (size : Nat) :
    Decidable (Present memory addr size) :=
  inferInstanceAs (Decidable (∀ i, i < size → (memory (addrAt addr i)).isSome))

/-- Byte `i` of a word. -/
def byteOf (word : BitVec 32) (i : Nat) : BitVec 8 := word.extractLsb' (8 * i) 8

/-- The word at `addr`. -/
def loadWord (memory : Memory) (addr : BitVec 32) : BitVec 32 :=
  (memory (addrAt addr 3)).getD 0 ++ (memory (addrAt addr 2)).getD 0 ++
    (memory (addrAt addr 1)).getD 0 ++ (memory (addrAt addr 0)).getD 0

/-- The memory with `words` from `addr` on. -/
def writeWords (memory : Memory) (addr : BitVec 32) (words : List (BitVec 32)) : Memory :=
  fun x =>
    let offset := (x - addr).toNat
    if offset < 4 * words.length then some (byteOf (words.getD (offset / 4) 0) (offset % 4))
    else memory x

/-- Copy `words` to `addr`; `none` on a fault. -/
def storeWords (memory : Memory) (addr : BitVec 32) (words : List (BitVec 32)) :
    Option Memory :=
  if Present memory addr (4 * words.length) then some (writeWords memory addr words) else none

/-- The `count` words from `addr` on; `none` on a fault. -/
def loadWords (memory : Memory) (addr : BitVec 32) (count : Nat) : Option (List (BitVec 32)) :=
  if Present memory addr (4 * count) then
    some ((List.range count).map fun i => loadWord memory (addrAt addr (4 * i)))
  else none

theorem addrAt_addrAt (addr : BitVec 32) (i j : Nat) :
    addrAt (addrAt addr i) j = addrAt addr (i + j) := by
  rw [addrAt, addrAt, addrAt, BitVec.ofNat_add, BitVec.add_assoc]

theorem addrAt_sub (addr : BitVec 32) {i : Nat} (hi : i < 2 ^ 32) :
    (addrAt addr i - addr).toNat = i := by
  rw [addrAt, BitVec.add_comm, BitVec.add_sub_cancel, BitVec.toNat_ofNat, Nat.mod_eq_of_lt hi]

theorem byteOf_append (word : BitVec 32) :
    byteOf word 3 ++ byteOf word 2 ++ byteOf word 1 ++ byteOf word 0 = word := by
  ext i hi
  simp only [byteOf, BitVec.getElem_append, BitVec.getElem_extractLsb', dite_eq_ite]
  split
  · rw [Nat.zero_add, BitVec.getLsbD_eq_getElem]
  · split
    · rw [show 8 * 1 + (i - 8) = i by omega, BitVec.getLsbD_eq_getElem]
    · split
      · rw [show 8 * 2 + (i - 8 - 8) = i by omega, BitVec.getLsbD_eq_getElem]
      · rw [show 8 * 3 + (i - 8 - 8 - 8) = i by omega, BitVec.getLsbD_eq_getElem]

/-- Bit `j` of a word is in byte `j / 8`. -/
theorem getLsbD_loadWord (memory : Memory) (addr : BitVec 32) {j : Nat} (hj : j < 32) :
    (loadWord memory addr).getLsbD j =
      ((memory (addrAt addr (j / 8))).getD 0).getLsbD (j % 8) := by
  have hbyte : j / 8 = 0 ∨ j / 8 = 1 ∨ j / 8 = 2 ∨ j / 8 = 3 := by omega
  simp only [loadWord, BitVec.getLsbD_append]
  rcases hbyte with h | h | h | h <;> rw [h]
  · rw [if_pos (by omega), show j % 8 = j by omega]
  · rw [if_neg (by omega), if_pos (by omega), show j % 8 = j - 8 by omega]
  · rw [if_neg (by omega), if_neg (by omega), if_pos (by omega),
      show j % 8 = j - 8 - 8 by omega]
  · rw [if_neg (by omega), if_neg (by omega), if_neg (by omega),
      show j % 8 = j - 8 - 8 - 8 by omega]

theorem writeWords_at (memory : Memory) (addr : BitVec 32) {words : List (BitVec 32)} {i j : Nat}
    (hlen : 4 * words.length ≤ 2 ^ 32) (hi : i < words.length) (hj : j < 4) :
    writeWords memory addr words (addrAt addr (4 * i + j)) = some (byteOf (words.getD i 0) j) := by
  simp only [writeWords]
  rw [addrAt_sub addr (by omega), if_pos (by omega), show (4 * i + j) / 4 = i by omega,
    show (4 * i + j) % 4 = j by omega]

/-- Outside of the block nothing changes. -/
theorem writeWords_of_le {memory : Memory} {addr x : BitVec 32} {words : List (BitVec 32)}
    (h : 4 * words.length ≤ (x - addr).toNat) : writeWords memory addr words x = memory x := by
  simp only [writeWords]
  rw [if_neg (by omega)]

/-- Writing takes no byte away. -/
theorem isSome_writeWords {memory : Memory} {x : BitVec 32} (h : (memory x).isSome)
    (addr : BitVec 32) (words : List (BitVec 32)) : (writeWords memory addr words x).isSome := by
  simp only [writeWords]
  split
  · rfl
  · exact h

theorem loadWord_writeWords (memory : Memory) (addr : BitVec 32) {words : List (BitVec 32)}
    {i : Nat} (hlen : 4 * words.length ≤ 2 ^ 32) (hi : i < words.length) :
    loadWord (writeWords memory addr words) (addrAt addr (4 * i)) = words.getD i 0 := by
  have hbyte : ∀ j, j < 4 → (writeWords memory addr words (addrAt (addrAt addr (4 * i)) j)).getD 0 =
      byteOf (words.getD i 0) j := by
    intro j hj
    rw [addrAt_addrAt, writeWords_at memory addr hlen hi hj]
    rfl
  rw [loadWord, hbyte 3 (by omega), hbyte 2 (by omega), hbyte 1 (by omega), hbyte 0 (by omega),
    byteOf_append]

/-- What is written reads back. -/
theorem loadWords_writeWords (memory : Memory) (addr : BitVec 32) {words : List (BitVec 32)}
    (hlen : 4 * words.length ≤ 2 ^ 32) :
    loadWords (writeWords memory addr words) addr words.length = some words := by
  have hpres : Present (writeWords memory addr words) addr (4 * words.length) := by
    intro i hi
    rw [show i = 4 * (i / 4) + i % 4 by omega,
      writeWords_at memory addr hlen (by omega) (Nat.mod_lt i (by omega))]
    rfl
  rw [loadWords, if_pos hpres]
  congr 1
  apply List.ext_getElem
  · simp
  · intro i hi hi'
    rw [List.getElem_map, List.getElem_range, loadWord_writeWords memory addr hlen hi',
      List.getD_eq_getElem _ _ hi']

/-- **A stored block reads back.** -/
theorem loadWords_storeWords {memory memory' : Memory} {addr : BitVec 32}
    {words : List (BitVec 32)} (hlen : 4 * words.length ≤ 2 ^ 32)
    (h : storeWords memory addr words = some memory') :
    loadWords memory' addr words.length = some words := by
  rw [storeWords] at h
  split at h
  · obtain rfl := Option.some.inj h
    exact loadWords_writeWords memory addr hlen
  · cases h

/-! ### Blocks in two parts -/

/-- How far an address is from a point further on. -/
theorem sub_addrAt (addr x : BitVec 32) {i : Nat} (hi : i < 2 ^ 32) :
    (x - addrAt addr i).toNat =
      if i ≤ (x - addr).toNat then (x - addr).toNat - i else (x - addr).toNat + 2 ^ 32 - i := by
  have hsub : x - addrAt addr i = (x - addr) - BitVec.ofNat 32 i := by
    rw [addrAt, sub_add_eq_sub_sub]
  have hlt := (x - addr).isLt
  rw [hsub, BitVec.toNat_sub, BitVec.toNat_ofNat, Nat.mod_eq_of_lt hi]
  split <;> omega

theorem present_append {memory : Memory} {addr : BitVec 32} {i j : Nat} :
    Present memory addr (i + j) ↔ Present memory addr i ∧ Present memory (addrAt addr i) j := by
  constructor
  · intro h
    refine ⟨fun n hn => h n (by omega), fun n hn => ?_⟩
    rw [addrAt_addrAt]
    exact h (i + n) (by omega)
  · rintro ⟨hi, hj⟩ n hn
    by_cases hlt : n < i
    · exact hi n hlt
    · have hmem := hj (n - i) (by omega)
      rw [addrAt_addrAt, show i + (n - i) = n by omega] at hmem
      exact hmem

theorem present_congr {memory memory' : Memory} {addr : BitVec 32} {size : Nat}
    (h : ∀ i, i < size → memory' (addrAt addr i) = memory (addrAt addr i)) :
    Present memory' addr size ↔ Present memory addr size := by
  constructor
  · intro hp i hi
    rw [← h i hi]
    exact hp i hi
  · intro hp i hi
    rw [h i hi]
    exact hp i hi

/-- A block goes to memory in one piece or in two, the second part first. -/
theorem writeWords_append (memory : Memory) (addr : BitVec 32) {l r : List (BitVec 32)}
    (hl : 4 * l.length < 2 ^ 32) :
    writeWords memory addr (l ++ r) =
      writeWords (writeWords memory (addrAt addr (4 * l.length)) r) addr l := by
  funext x
  simp only [writeWords]
  rw [sub_addrAt addr x hl, List.length_append]
  by_cases hfirst : (x - addr).toNat < 4 * l.length
  · rw [if_pos (show (x - addr).toNat < 4 * (l.length + r.length) by omega), if_pos hfirst,
      List.getD_append _ _ _ _ (by omega)]
  · rw [if_neg hfirst, if_pos (show 4 * l.length ≤ (x - addr).toNat by omega)]
    by_cases hsecond : (x - addr).toNat < 4 * (l.length + r.length)
    · rw [if_pos hsecond, if_pos (by omega), List.getD_append_right _ _ _ _ (by omega)]
      rw [show ((x - addr).toNat - 4 * l.length) / 4 = (x - addr).toNat / 4 - l.length by omega,
        show ((x - addr).toNat - 4 * l.length) % 4 = (x - addr).toNat % 4 by omega]
    · rw [if_neg hsecond, if_neg (by omega)]

theorem storeWords_append (memory : Memory) (addr : BitVec 32) {l r : List (BitVec 32)}
    (hlen : 4 * (l.length + r.length) ≤ 2 ^ 32) (hl : 4 * l.length < 2 ^ 32) :
    storeWords memory addr (l ++ r) =
      (storeWords memory (addrAt addr (4 * l.length)) r).bind fun m => storeWords m addr l := by
  have hsame : ∀ i, i < 4 * l.length →
      writeWords memory (addrAt addr (4 * l.length)) r (addrAt addr i) =
        memory (addrAt addr i) := by
    intro i hi
    apply writeWords_of_le
    rw [sub_addrAt addr _ hl, addrAt_sub addr (by omega), if_neg (by omega)]
    omega
  rw [storeWords, storeWords, List.length_append, Nat.mul_add]
  by_cases hr : Present memory (addrAt addr (4 * l.length)) (4 * r.length)
  · rw [if_pos hr, Option.bind_some, storeWords, writeWords_append memory addr hl]
    simp only [present_append, hr, and_true, present_congr hsame]
  · rw [if_neg hr, if_neg fun h => hr (present_append.mp h).2]
    rfl

theorem loadWord_congr {memory memory' : Memory} {addr : BitVec 32}
    (h : ∀ i, i < 4 → memory' (addrAt addr i) = memory (addrAt addr i)) :
    loadWord memory' addr = loadWord memory addr := by
  rw [loadWord, loadWord, h 0 (by omega), h 1 (by omega), h 2 (by omega), h 3 (by omega)]

/-- What is read depends on the bytes of the block only. -/
theorem loadWords_congr {memory memory' : Memory} {addr : BitVec 32} {count : Nat}
    (h : ∀ i, i < 4 * count → memory' (addrAt addr i) = memory (addrAt addr i)) :
    loadWords memory' addr count = loadWords memory addr count := by
  rw [loadWords, loadWords]
  simp only [present_congr h]
  have hwords : (List.range count).map (fun i => loadWord memory' (addrAt addr (4 * i))) =
      (List.range count).map fun i => loadWord memory (addrAt addr (4 * i)) := by
    apply List.map_congr_left
    intro i hi
    have hlt := List.mem_range.mp hi
    apply loadWord_congr
    intro j hj
    rw [addrAt_addrAt]
    exact h (4 * i + j) (by omega)
  rw [hwords]

theorem loadWords_append (memory : Memory) (addr : BitVec 32) (i j : Nat) :
    loadWords memory addr (i + j) =
      (loadWords memory addr i).bind fun l =>
        (loadWords memory (addrAt addr (4 * i)) j).map (l ++ ·) := by
  rw [loadWords, loadWords, loadWords, Nat.mul_add]
  by_cases hi : Present memory addr (4 * i)
  · by_cases hj : Present memory (addrAt addr (4 * i)) (4 * j)
    · rw [if_pos (present_append.mpr ⟨hi, hj⟩), if_pos hi, if_pos hj, List.range_add]
      simp only [Option.bind_some, Option.map_some, List.map_append, List.map_map]
      congr 3
      funext n
      simp only [Function.comp_apply]
      rw [addrAt_addrAt, Nat.mul_add]
    · rw [if_neg fun h => hj (present_append.mp h).2, if_pos hi, if_neg hj]
      rfl
  · rw [if_neg fun h => hi (present_append.mp h).1, if_neg hi]
    rfl

theorem length_of_loadWords {memory : Memory} {addr : BitVec 32} {count : Nat}
    {words : List (BitVec 32)} (h : loadWords memory addr count = some words) :
    words.length = count := by
  rw [loadWords] at h
  split at h
  · obtain rfl := Option.some.inj h
    rw [List.length_map, List.length_range]
  · cases h

/-- What was read was present, and so was what was written. -/
theorem present_of_loadWords {memory : Memory} {addr : BitVec 32} {count : Nat}
    {words : List (BitVec 32)} (h : loadWords memory addr count = some words) :
    Present memory addr (4 * count) := by
  rw [loadWords] at h
  split at h
  · assumption
  · cases h

/-- The end of a block. -/
theorem loadWords_drop {memory : Memory} {addr : BitVec 32} {words : List (BitVec 32)} (i j : Nat)
    (h : loadWords memory addr (i + j) = some words) :
    loadWords memory (addrAt addr (4 * i)) j = some (words.drop i) := by
  rw [loadWords_append] at h
  obtain ⟨l, hl, h⟩ := Option.bind_eq_some_iff.mp h
  obtain ⟨r, hr, rfl⟩ := Option.map_eq_some_iff.mp h
  rw [hr, ← length_of_loadWords hl, List.drop_left]

/-- The beginning of a block. -/
theorem loadWords_take {memory : Memory} {addr : BitVec 32} {words : List (BitVec 32)} (i j : Nat)
    (h : loadWords memory addr (i + j) = some words) :
    loadWords memory addr i = some (words.take i) := by
  rw [loadWords_append] at h
  obtain ⟨l, hl, h⟩ := Option.bind_eq_some_iff.mp h
  obtain ⟨r, hr, rfl⟩ := Option.map_eq_some_iff.mp h
  rw [hl, ← length_of_loadWords hl, List.take_left]

end ByteMemory
