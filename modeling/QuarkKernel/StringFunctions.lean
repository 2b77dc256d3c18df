import QuarkKernel.ByteCopies
import QuarkKernel.Status

/-! # `string.c`

`memmove` and `strcpy` copy downwards where the destination begins inside of the
source.  Both loops end before the first byte, so an overlapping copy is right only
if that byte is there already (`memmove_moved_iff`, `strcpy_moved_iff`). -/
namespace QuarkKernel
namespace StringFunctions

open ByteMemory (addrAt addrAt_sub addrAt_addrAt)
open ByteCopies

/-! ### `memcpy` and `memmove` -/

/-- The memory after `count` passes of the loop of `memcpy`. -/
def memcpyLoop (memory : Bytes) (dest src : Word) : Nat → Bytes
  | 0 => memory
  | count + 1 =>
      let memory := memcpyLoop memory dest src count
      store memory (addrAt dest count) (memory (addrAt src count))

/-- `memcpy` -/
def memcpy (memory : Bytes) (destination source num : Word) : Bytes × Word :=
  if 0 < num then (memcpyLoop memory destination source num.toNat, destination)
  else (memory, destination)

/-- The loop of `memmove` that runs downwards from `i`.  The test stands behind the
decrement, so the pass for 0 is only made in a loop that starts with it. -/
def memmoveDown (dest src : Word) (memory : Bytes) (i : Word) : Bytes :=
  let memory := store memory (dest + i) (memory (src + i))
  if i - 1 ≠ 0 then memmoveDown dest src memory (i - 1) else memory
termination_by (i - 1).toNat
decreasing_by
  rename_i h
  have hpos : (i - 1).toNat ≠ 0 := fun h0 => h (BitVec.eq_of_toNat_eq h0)
  bv_omega

/-- `memmove` -/
def memmove (memory : Bytes) (destination source num : Word) : Bytes × Word :=
  if 0 < num then
    if destination < source ∨ source + num ≤ destination then
      memcpy memory destination source num
    else if destination ≠ source then
      (memmoveDown destination source memory (num - 1), destination)
    else (memory, destination)
  else (memory, destination)

theorem memcpyLoop_eq (memory : Bytes) (dest src : Word) (count : Nat) :
    memcpyLoop memory dest src count = copyOffsets dest src memory (List.range count) := by
  induction count with
  | zero => rfl
  | succ count ih =>
    rw [memcpyLoop, List.range_succ, copyOffsets_append, ← ih]
    rfl

theorem memmoveDown_eq {dest src : Word} {memory : Bytes} {count : Nat} (hpos : 0 < count)
    (hlt : count < 2 ^ 32) :
    memmoveDown dest src memory (BitVec.ofNat 32 count) =
      copyOffsets dest src memory (descending count) := by
  induction count generalizing memory with
  | zero => exact absurd hpos (Nat.lt_irrefl 0)
  | succ count ih =>
    have hpred : BitVec.ofNat 32 (count + 1) - 1 = BitVec.ofNat 32 count := by
      rw [BitVec.ofNat_add]
      exact BitVec.add_sub_cancel ..
    rw [memmoveDown, hpred, descending, copyOffsets]
    rcases Nat.eq_zero_or_pos count with rfl | hcount
    · rw [if_neg (fun h => h rfl)]
      rfl
    · have hne : BitVec.ofNat 32 count ≠ 0 := by
        intro h
        have htoNat := congrArg BitVec.toNat h
        rw [BitVec.toNat_ofNat, Nat.mod_eq_of_lt (by omega)] at htoNat
        exact absurd htoNat (Nat.ne_of_gt hcount)
      rw [if_pos hne]
      exact ih hcount (by omega)

/-- `memmove` moves the bytes and returns the destination. -/
def MemmoveCorrect (memory : Bytes) (destination source num : Word) : Prop :=
  Moved memory (memmove memory destination source num).1 destination source num.toNat ∧
    (memmove memory destination source num).2 = destination

section
variable {memory : Bytes} {destination source num : Word}

/-- Where the ranges do not wrap around, places are told apart by their numbers. -/
theorem toNat_addrAt_of_le {addr : Word} {size i : Nat} (hwrap : addr.toNat + size ≤ 2 ^ 32)
    (hi : i < size) : (addrAt addr i).toNat = addr.toNat + i := by
  rw [toNat_addrAt, Nat.mod_eq_of_lt (by omega)]

/-- The copy upwards is right wherever it is made. -/
theorem memcpy_moved (hsource : source.toNat + num.toNat ≤ 2 ^ 32)
    (hdest : destination.toNat + num.toNat ≤ 2 ^ 32)
    (happart : destination.toNat ≤ source.toNat ∨
      source.toNat + num.toNat ≤ destination.toNat) :
    Moved memory (memcpy memory destination source num).1 destination source num.toNat := by
  unfold memcpy
  split
  · simp only [memcpyLoop_eq]
    apply moved_range (Nat.le_of_lt num.isLt)
    intro i j hij hj heq
    have htoNat := congrArg BitVec.toNat heq
    rw [toNat_addrAt_of_le hsource hj, toNat_addrAt_of_le hdest (by omega)] at htoNat
    omega
  · rename_i hzero
    have hnum : num.toNat = 0 := by
      rw [BitVec.lt_def] at hzero
      exact Nat.eq_zero_of_not_pos hzero
    rw [hnum]
    exact ⟨fun i hi => absurd hi (Nat.not_lt_zero i), fun _ _ => rfl⟩

theorem memcpy_snd : (memcpy memory destination source num).2 = destination := by
  unfold memcpy
  split <;> rfl

theorem moved_self (memory : Bytes) (addr : Word) (size : Nat) :
    Moved memory memory addr addr size :=
  ⟨fun _ _ => rfl, fun _ _ => rfl⟩

/-- Where the destination begins inside of the source, everything but the first byte is
copied. -/
theorem memmove_overlap_iff (hsource : source.toNat + num.toNat ≤ 2 ^ 32)
    (hdest : destination.toNat + num.toNat ≤ 2 ^ 32) (hlt : source < destination)
    (hover : destination.toNat < source.toNat + num.toNat) :
    MemmoveCorrect memory destination source num ↔ memory destination = memory source := by
  rw [BitVec.lt_def] at hlt
  have hsum : (source + num).toNat = source.toNat + num.toNat := by
    rw [BitVec.toNat_add, Nat.mod_eq_of_lt (by omega)]
  have hup : ¬ (destination < source ∨ source + num ≤ destination) := by
    rw [BitVec.lt_def, BitVec.le_def, hsum]
    omega
  have hpos : 0 < num := by
    rw [BitVec.lt_def]
    show 0 < num.toNat
    omega
  have hne : destination ≠ source := by
    rintro rfl
    exact absurd hlt (Nat.lt_irrefl _)
  have hcount : num - 1 = BitVec.ofNat 32 (num.toNat - 1) := by bv_omega
  have hsize : num.toNat = num.toNat - 1 + 1 := by omega
  unfold MemmoveCorrect memmove
  rw [if_pos hpos, if_neg hup, if_pos hne, hcount, memmoveDown_eq (by omega) (by omega),
    and_iff_left rfl, hsize]
  apply moved_descending_iff (by omega)
  intro i j hj hji hi heq
  have htoNat := congrArg BitVec.toNat heq
  rw [toNat_addrAt_of_le hsource (by omega), toNat_addrAt_of_le hdest (by omega)] at htoNat
  omega

/-- Anywhere else the copy is right. -/
theorem memmove_of_apart (hsource : source.toNat + num.toNat ≤ 2 ^ 32)
    (hdest : destination.toNat + num.toNat ≤ 2 ^ 32)
    (happart : ¬ (source < destination ∧ destination.toNat < source.toNat + num.toNat)) :
    MemmoveCorrect memory destination source num := by
  rw [BitVec.lt_def] at happart
  unfold MemmoveCorrect memmove
  split
  · split
    · exact ⟨memcpy_moved hsource hdest (by omega), memcpy_snd⟩
    · rename_i hup
      have hle : destination.toNat ≤ source.toNat := by
        by_contra hgt
        rw [BitVec.lt_def, BitVec.le_def, BitVec.toNat_add] at hup
        omega
      rw [BitVec.lt_def] at hup
      obtain rfl : destination = source := BitVec.eq_of_toNat_eq (by omega)
      rw [if_neg (fun h => h rfl)]
      exact ⟨moved_self memory destination num.toNat, rfl⟩
  · rename_i hzero
    have hnum : num.toNat = 0 := by
      rw [BitVec.lt_def] at hzero
      exact Nat.eq_zero_of_not_pos hzero
    rw [hnum]
    exact ⟨⟨fun i hi => absurd hi (Nat.not_lt_zero i), fun _ _ => rfl⟩, rfl⟩

end

/-- **`memmove` is right unless the destination begins inside of the source** and the first
byte is not there already. -/
theorem memmove_moved_iff (memory : Bytes) (destination source num : Word)
    (hsource : source.toNat + num.toNat ≤ 2 ^ 32)
    (hdest : destination.toNat + num.toNat ≤ 2 ^ 32) :
    MemmoveCorrect memory destination source num ↔
      (source < destination ∧ destination.toNat < source.toNat + num.toNat →
        memory destination = memory source) := by
  by_cases hover : source < destination ∧ destination.toNat < source.toNat + num.toNat
  · rw [memmove_overlap_iff hsource hdest hover.1 hover.2]
    exact ⟨fun h _ => h, fun h => h hover⟩
  · exact ⟨fun _ h => absurd h hover, fun _ => memmove_of_apart hsource hdest hover⟩

/-- Two bytes moved down by one. -/
theorem memmove_moved_down : MemmoveCorrect (fun addr => addr.setWidth 8) 0x1000 0x1001 2 :=
  (memmove_moved_iff (fun addr => addr.setWidth 8) 0x1000 0x1001 2 (by decide) (by decide)).mpr
    fun h => absurd h.1 (by decide)

/-- Two bytes moved up by one: the first one is not copied. -/
theorem memmove_up_one : ¬ ∀ (memory : Bytes) (destination source num : Word),
    source.toNat + num.toNat ≤ 2 ^ 32 → destination.toNat + num.toNat ≤ 2 ^ 32 →
      MemmoveCorrect memory destination source num := by
  intro hcorrect
  have hfirst := (memmove_overlap_iff (by decide) (by decide) (by decide) (by decide)).mp
    (hcorrect (fun addr => addr.setWidth 8) 0x1001 0x1000 2 (by decide) (by decide))
  exact absurd hfirst (by decide)

/-! ### `strlen` and `strcpy` -/

/-- The loop of `strlen`; `none` if it takes more than `fuel` passes. -/
def strlenLoop (memory : Bytes) (str : Word) : Nat → Word → Option Word
  | 0, _ => none
  | fuel + 1, i => if memory (str + i) = 0 then some i else strlenLoop memory str fuel (i + 1)

/-- `strlen`.  The count is an `int`, taken as the word with its bits. -/
def strlen (memory : Bytes) (fuel : Nat) (str : Word) : Option Word := strlenLoop memory str fuel 0

/-- The loop of `strcpy` that runs upwards; `none` if it takes more than `fuel` passes. -/
def strcpyUp : Nat → Bytes → Word → Word → Option Bytes
  | 0, _, _, _ => none
  | fuel + 1, memory, d, s =>
      let memory := store memory d (memory s)
      -- `*s` is read again, after the store
      if memory s = 0 then some memory else strcpyUp fuel memory (d + 1) (s + 1)

/-- The loop of `strcpy` that runs downwards while `d` is above the destination. -/
def strcpyDown (destination : Word) (memory : Bytes) (d s : Word) : Bytes :=
  let memory := store memory d (memory s)
  if destination < d - 1 then strcpyDown destination memory (d - 1) (s - 1) else memory
termination_by (d - 1).toNat
decreasing_by
  rename_i h
  rw [BitVec.lt_def] at h
  have hpos : (d - 1).toNat ≠ 0 := by omega
  bv_omega

/-- `strcpy`, with the destination it returns. -/
def strcpy (memory : Bytes) (fuel : Nat) (destination source : Word) : Option (Bytes × Word) := do
  let sourceLen ← strlen memory fuel source
  if destination ≤ source ∨ source + sourceLen < destination then do
    let memory ← strcpyUp fuel memory destination source
    some (memory, destination)
  else
    some (strcpyDown destination memory (destination + sourceLen) (source + sourceLen),
      destination)

/-- There is a string of `length` characters at `addr`. -/
def HasString (memory : Bytes) (addr : Word) (length : Nat) : Prop :=
  length < 2 ^ 32 ∧ memory (addrAt addr length) = 0 ∧
    ∀ i, i < length → memory (addrAt addr i) ≠ 0

/-- `strcpy` ends, has moved the string with its NUL, and returns the destination. -/
def StrcpyCorrect (memory : Bytes) (destination source : Word) (length : Nat) : Prop :=
  ∃ fuel memory', strcpy memory fuel destination source = some (memory', destination) ∧
    Moved memory memory' destination source (length + 1)

section
variable {memory : Bytes} {destination source : Word} {length : Nat}

theorem ofNat_succ (i : Nat) : BitVec.ofNat 32 (i + 1) = BitVec.ofNat 32 i + 1 :=
  BitVec.ofNat_add ..

theorem strlenLoop_eq (h : HasString memory source length) {i : Nat} (hi : i ≤ length)
    (fuel : Nat) : strlenLoop memory source fuel (BitVec.ofNat 32 i) =
      if length - i < fuel then some (BitVec.ofNat 32 length) else none := by
  obtain ⟨hlt, hnul, hchars⟩ := h
  induction fuel generalizing i with
  | zero => rw [strlenLoop, if_neg (Nat.not_lt_zero _)]
  | succ fuel ih =>
    rw [strlenLoop]
    change (if memory (addrAt source i) = 0 then _ else _) = _
    rcases Nat.eq_or_lt_of_le hi with rfl | hi
    · rw [if_pos hnul, if_pos (by omega)]
    · rw [if_neg (hchars i hi), ← ofNat_succ, ih hi]
      simp only [show length - (i + 1) < fuel ↔ length - i < fuel + 1 by omega]

theorem strlen_eq (h : HasString memory source length) (fuel : Nat) :
    strlen memory fuel source =
      if length < fuel then some (BitVec.ofNat 32 length) else none :=
  strlenLoop_eq h (Nat.zero_le length) fuel

theorem HasString.tail (h : HasString memory source (length + 1)) :
    HasString memory (addrAt source 1) length := by
  obtain ⟨hlt, hnul, hchars⟩ := h
  refine ⟨by omega, ?_, fun i hi => ?_⟩
  · rw [addrAt_addrAt, Nat.add_comm]
    exact hnul
  · rw [addrAt_addrAt, Nat.add_comm]
    exact hchars (i + 1) (by omega)

/-- Writing elsewhere keeps a string. -/
theorem HasString.store (h : HasString memory source length) {addr : Word} {byte : BitVec 8}
    (hne : ∀ i, i ≤ length → addrAt source i ≠ addr) :
    HasString (ByteCopies.store memory addr byte) source length := by
  obtain ⟨hlt, hnul, hchars⟩ := h
  refine ⟨hlt, ?_, fun i hi => ?_⟩
  · rw [store_of_ne (hne length (Nat.le_refl length))]
    exact hnul
  · rw [store_of_ne (hne i (Nat.le_of_lt hi))]
    exact hchars i hi

/-- Upwards the whole string is copied, if no part of it has been written to when it is read. -/
theorem strcpyUp_eq {fuel : Nat} (h : HasString memory source length) (hfuel : length < fuel)
    (hread : ∀ i j, i < j → j < length + 1 → addrAt source j ≠ addrAt destination i) :
    strcpyUp fuel memory destination source =
      some (copyOffsets destination source memory (List.range (length + 1))) := by
  induction length generalizing memory destination source fuel with
  | zero =>
    obtain ⟨fuel, rfl⟩ := Nat.exists_eq_succ_of_ne_zero (Nat.ne_of_gt hfuel)
    have hnul : memory source = 0 := by simpa using h.2.1
    have hkept : store memory destination (memory source) source = 0 := by
      by_cases heq : source = destination
      · rw [heq, store_self, ← heq, hnul]
      · rw [store_of_ne heq, hnul]
    rw [strcpyUp]
    simp only [hkept, if_true]
    rw [show List.range (0 + 1) = [0] from rfl, copyOffsets, addrAt_zero, addrAt_zero]
    rfl
  | succ length ih =>
    obtain ⟨fuel, rfl⟩ := Nat.exists_eq_succ_of_ne_zero (Nat.ne_of_gt (Nat.zero_lt_of_lt hfuel))
    have hchar : memory source ≠ 0 := by simpa using h.2.2 0 (Nat.succ_pos length)
    have hkept : store memory destination (memory source) source ≠ 0 := by
      by_cases heq : source = destination
      · rw [heq, store_self, ← heq]
        exact hchar
      · rw [store_of_ne heq]
        exact hchar
    have htail : HasString (store memory destination (memory source)) (addrAt source 1) length := by
      apply h.tail.store
      intro i hi
      rw [addrAt_addrAt, ← addrAt_zero destination]
      exact hread 0 (1 + i) (by omega) (by omega)
    have hread' : ∀ i j, i < j → j < length + 1 →
        addrAt (addrAt source 1) j ≠ addrAt (addrAt destination 1) i := by
      intro i j hij hj
      rw [addrAt_addrAt, addrAt_addrAt]
      exact hread (1 + i) (1 + j) (by omega) (by omega)
    rw [strcpyUp]
    simp only [hkept, if_false]
    rw [List.range_succ_eq_map, copyOffsets, addrAt_zero, addrAt_zero]
    show strcpyUp fuel _ (addrAt destination 1) (addrAt source 1) = _
    rw [ih htail (by omega) hread']
    exact congrArg some copyOffsets_map_succ.symm

/-- Where the destination begins behind the first byte of the source, the copy upwards writes
over the NUL before it gets there, and never ends. -/
theorem strcpyUp_diverges {ahead : Nat} (hpos : 0 < ahead) (hdest : destination = addrAt source ahead)
    (hchars : ∀ i, i < ahead → memory (addrAt source i) ≠ 0) (fuel : Nat) :
    strcpyUp fuel memory destination source = none := by
  induction fuel generalizing memory destination source with
  | zero => rfl
  | succ fuel ih =>
    have hchar : memory source ≠ 0 := by simpa using hchars 0 hpos
    -- the byte just written closes the gap in front of the destination
    have hwindow : ∀ i, i ≤ ahead →
        store memory destination (memory source) (addrAt source i) ≠ 0 := by
      intro i hi
      by_cases heq : addrAt source i = destination
      · rw [heq, store_self]
        exact hchar
      · rw [store_of_ne heq]
        apply hchars
        refine Nat.lt_of_le_of_ne hi ?_
        rintro rfl
        exact heq hdest.symm
    have hkept : store memory destination (memory source) source ≠ 0 := by
      simpa using hwindow 0 (Nat.zero_le ahead)
    rw [strcpyUp]
    simp only [hkept, if_false]
    apply ih
    · show addrAt destination 1 = addrAt (addrAt source 1) ahead
      rw [hdest, addrAt_addrAt, addrAt_addrAt, Nat.add_comm]
    · intro i hi
      show store memory destination (memory source) (addrAt (addrAt source 1) i) ≠ 0
      rw [addrAt_addrAt, Nat.add_comm]
      exact hwindow (i + 1) hi

theorem addrAt_succ_sub_one (addr : Word) (i : Nat) : addrAt addr (i + 1) - 1 = addrAt addr i := by
  rw [addrAt, ofNat_succ, ← add_assoc]
  exact BitVec.add_sub_cancel ..

/-- Downwards everything but the first byte is copied, if the destination does not wrap
around. -/
theorem strcpyDown_eq (hpos : 0 < length) (hdest : destination.toNat + length ≤ 2 ^ 32) :
    strcpyDown destination memory (addrAt destination length) (addrAt source length) =
      copyOffsets destination source memory (descending length) := by
  induction length generalizing memory with
  | zero => exact absurd hpos (Nat.lt_irrefl 0)
  | succ length ih =>
    rw [strcpyDown, addrAt_succ_sub_one, addrAt_succ_sub_one, descending, copyOffsets]
    rcases Nat.eq_zero_or_pos length with rfl | hlength
    · rw [addrAt_zero, if_neg (BitVec.lt_irrefl destination)]
      rfl
    · have hgo : destination < addrAt destination length := by
        rw [BitVec.lt_def, toNat_addrAt_of_le hdest (Nat.lt_succ_self length)]
        omega
      rw [if_pos hgo]
      exact ih hlength (by omega)

/-- How far an address is from another base. -/
theorem toNat_addrAt_sub (destination source : Word) (i : Nat) :
    (addrAt destination i - source).toNat = ((destination - source).toNat + i) % 2 ^ 32 := by
  rw [← toNat_addrAt]
  congr 1
  rw [addrAt, addrAt, add_sub_right_comm]

/-- Apart from each other, or with the destination in front, strings are copied upwards. -/
theorem strcpy_of_apart (h : HasString memory source length)
    (happart : destination = source ∨ length < (destination - source).toNat) :
    StrcpyCorrect memory destination source length := by
  have hlength := h.1
  have hsub := BitVec.toNat_sub destination source
  have hsum : (source + BitVec.ofNat 32 length).toNat = (source.toNat + length) % 2 ^ 32 :=
    toNat_addrAt source length
  have hup : destination ≤ source ∨ source + BitVec.ofNat 32 length < destination := by
    rw [BitVec.le_def, BitVec.lt_def, hsum]
    rcases happart with rfl | happart
    · exact Or.inl (Nat.le_refl _)
    · omega
  have hread : ∀ i j, i < j → j < length + 1 → addrAt source j ≠ addrAt destination i := by
    intro i j hij hj heq
    have hplace := toNat_addrAt_sub destination source i
    rw [← heq, addrAt_sub source (by omega)] at hplace
    rcases happart with rfl | happart
    · rw [BitVec.sub_self] at hplace
      replace hplace : j = (0 + i) % 2 ^ 32 := hplace
      omega
    · omega
  refine ⟨length + 1, _, ?_, moved_range (by omega) hread⟩
  rw [strcpy, strlen_eq h, if_pos (Nat.lt_succ_self length), Option.bind_eq_bind,
    Option.bind_some, if_pos hup, strcpyUp_eq h (Nat.lt_succ_self length) hread]
  rfl

/-- The destination begins inside of the source, and neither wraps around. -/
theorem strcpy_overlap_iff (h : HasString memory source length) (hlt : source < destination)
    (hover : (destination - source).toNat ≤ length)
    (hdest : destination.toNat + length ≤ 2 ^ 32) :
    StrcpyCorrect memory destination source length ↔ memory destination = memory source := by
  rw [BitVec.lt_def] at hlt
  have hlength := h.1
  have hsub : (destination - source).toNat = destination.toNat - source.toNat :=
    BitVec.toNat_sub_of_le (by rw [BitVec.le_def]; omega)
  have hdown : ¬ (destination ≤ source ∨ source + BitVec.ofNat 32 length < destination) := by
    rw [BitVec.le_def, BitVec.lt_def, show source + BitVec.ofNat 32 length = addrAt source length
      from rfl, toNat_addrAt, Nat.mod_eq_of_lt (by omega)]
    omega
  have hstrcpy : ∀ fuel, strcpy memory fuel destination source =
      if length < fuel then
        some (copyOffsets destination source memory (descending length), destination)
      else none := by
    intro fuel
    rw [strcpy, strlen_eq h]
    split
    · rw [Option.bind_eq_bind, Option.bind_some, if_neg hdown]
      exact congrArg some (congrArg (·, destination) (strcpyDown_eq (by omega) hdest))
    · rfl
  have hread : ∀ i j, 1 ≤ j → j < i → i ≤ length → addrAt source j ≠ addrAt destination i := by
    intro i j hj hji hi heq
    have hplace := congrArg BitVec.toNat heq
    rw [toNat_addrAt, toNat_addrAt, Nat.mod_eq_of_lt (by omega : source.toNat + j < 2 ^ 32)]
      at hplace
    omega
  rw [← moved_descending_iff (by omega) hread]
  constructor
  · rintro ⟨fuel, memory', hsome, hmem⟩
    rw [hstrcpy] at hsome
    split at hsome
    · obtain ⟨rfl, -⟩ := Prod.mk.inj (Option.some.inj hsome)
      exact hmem
    · cases hsome
  · intro hmem
    exact ⟨length + 1, _, by rw [hstrcpy, if_pos (Nat.lt_succ_self length)], hmem⟩

theorem strcpyDown_once {d s : Word} (hstop : ¬ destination < d - 1) :
    strcpyDown destination memory d s = store memory d (memory s) := by
  rw [strcpyDown, if_neg hstop]

/-- If the end of the destination has wrapped around, it lies below the destination. -/
theorem not_lt_sub_one_of_wrap (hlength : length < 2 ^ 32)
    (hdown : ¬ (destination ≤ source ∨ source + BitVec.ofNat 32 length < destination))
    (hwrap : ¬ (source < destination ∧ destination.toNat + length ≤ 2 ^ 32)) :
    ¬ destination < destination + BitVec.ofNat 32 length - 1 := by
  have hlt : source < destination := by
    rw [BitVec.lt_def]
    rw [BitVec.le_def] at hdown
    omega
  have hend : 2 ^ 32 < destination.toNat + length := by
    by_contra hle
    exact hwrap ⟨hlt, by omega⟩
  have hplace : (destination + BitVec.ofNat 32 length).toNat =
      destination.toNat + length - 2 ^ 32 := by
    rw [show destination + BitVec.ofNat 32 length = addrAt destination length from rfl,
      toNat_addrAt]
    omega
  rw [BitVec.lt_def]
  bv_omega

/-- Where one of the two wraps around, an overlapping copy never ends or stops after the
NUL. -/
theorem not_strcpyCorrect_of_wrap (h : HasString memory source length)
    (hne : destination ≠ source) (hover : (destination - source).toNat ≤ length)
    (hwrap : ¬ (source < destination ∧ destination.toNat + length ≤ 2 ^ 32)) :
    ¬ StrcpyCorrect memory destination source length := by
  rintro ⟨fuel, memory', hsome, hmoved, -⟩
  obtain ⟨hlength, hnul, hchars⟩ := h
  have hahead : destination = addrAt source (destination - source).toNat := by
    rw [addrAt, BitVec.ofNat_toNat, BitVec.setWidth_eq, add_sub_cancel]
  have hpos : 0 < (destination - source).toNat := by
    apply Nat.pos_of_ne_zero
    intro hzero
    rw [hzero, addrAt_zero] at hahead
    exact hne hahead
  rw [strcpy, strlen_eq ⟨hlength, hnul, hchars⟩] at hsome
  split at hsome
  · rw [Option.bind_eq_bind, Option.bind_some] at hsome
    split at hsome
    · rw [strcpyUp_diverges hpos hahead fun i hi => hchars i (by omega)] at hsome
      cases hsome
    · rename_i hdown
      obtain ⟨rfl, -⟩ := Prod.mk.inj (Option.some.inj hsome)
      rw [strcpyDown_once (not_lt_sub_one_of_wrap (by omega) hdown hwrap)] at hmoved
      -- the NUL of the source stands where one of its characters should be
      have hchar := hmoved (length - (destination - source).toNat) (by omega)
      have hplace : addrAt destination (length - (destination - source).toNat) =
          addrAt source length := by
        calc addrAt destination (length - (destination - source).toNat)
            = addrAt (addrAt source (destination - source).toNat)
                (length - (destination - source).toNat) := by rw [← hahead]
          _ = addrAt source length := by rw [addrAt_addrAt, Nat.add_sub_cancel' hover]
      refine hchars _ (by omega) (hchar.symm.trans ?_)
      rw [hplace]
      by_cases hsame : addrAt source length = destination + BitVec.ofNat 32 length
      · rw [hsame, store_self]
        exact hnul
      · rw [store_of_ne hsame]
        exact hnul
  · cases hsome

end

/-- The destination does not begin inside of the source behind its first byte; or it does,
the string does not wrap around there, and its first character is there already. -/
def StrcpyFits (memory : Bytes) (destination source : Word) (length : Nat) : Prop :=
  destination = source ∨ length < (destination - source).toNat ∨
    source < destination ∧ destination.toNat + length ≤ 2 ^ 32 ∧
      memory destination = memory source

/-- **`strcpy` is right unless the destination begins inside of the source** and the first
character is not there already. -/
theorem strcpy_moved_iff (memory : Bytes) (destination source : Word) (length : Nat)
    (h : HasString memory source length) :
    StrcpyCorrect memory destination source length ↔
      StrcpyFits memory destination source length := by
  by_cases happart : destination = source ∨ length < (destination - source).toNat
  · refine ⟨fun _ => ?_, fun _ => strcpy_of_apart h happart⟩
    rcases happart with heq | hlt
    · exact Or.inl heq
    · exact Or.inr (Or.inl hlt)
  · obtain ⟨hne, hover⟩ := not_or.mp happart
    by_cases hwrap : source < destination ∧ destination.toNat + length ≤ 2 ^ 32
    · rw [strcpy_overlap_iff h hwrap.1 (Nat.le_of_not_lt hover) hwrap.2]
      constructor
      · intro heq
        exact Or.inr (Or.inr ⟨hwrap.1, hwrap.2, heq⟩)
      · rintro (heq | hlt | ⟨-, -, heq⟩)
        · exact absurd heq hne
        · exact absurd hlt hover
        · exact heq
    · constructor
      · intro hcorrect
        exact absurd hcorrect (not_strcpyCorrect_of_wrap h hne (Nat.le_of_not_lt hover) hwrap)
      · rintro (heq | hlt | ⟨hlt, hle, -⟩)
        · exact absurd heq hne
        · exact absurd hlt hover
        · exact absurd ⟨hlt, hle⟩ hwrap

/-- The string `A` at 0x1000, and nothing else. -/
def letterA : Bytes := store (fun _ => 0) 0x1000 0x41

theorem hasString_letterA : HasString letterA 0x1000 1 := by
  refine ⟨by decide, by decide, fun i hi => ?_⟩
  obtain rfl : i = 0 := by omega
  decide

/-- A string copied below itself. -/
theorem strcpy_moved_down : StrcpyCorrect letterA 0x0FFF 0x1000 1 :=
  (strcpy_moved_iff letterA 0x0FFF 0x1000 1 hasString_letterA).mpr (Or.inr (Or.inl (by decide)))

/-- A string copied one byte up: its only character is not copied. -/
theorem strcpy_up_one : ¬ ∀ (memory : Bytes) (destination source : Word) (length : Nat),
    HasString memory source length → StrcpyCorrect memory destination source length := by
  intro hcorrect
  have hfirst := (strcpy_overlap_iff hasString_letterA (by decide) (by decide) (by decide)).mp
    (hcorrect letterA 0x1001 0x1000 1 hasString_letterA)
  exact absurd hfirst (by decide)

end StringFunctions
end QuarkKernel
