import QuarkKernel.ByteMemory

/-! # Copying byte by byte

A copy moves the bytes at some offsets from one address to another, one after the
other, in memory where nothing faults.  It keeps what it has still to read, and so
moves the original bytes, if no offset is read after it has been written to
(`copyOffsets_apply`). -/
namespace ByteCopies

open ByteMemory (addrAt addrAt_sub addrAt_addrAt)

/-- Memory in which no access faults. -/
abbrev Bytes := BitVec 32 → BitVec 8

/-- `*addr = byte` -/
def store (memory : Bytes) (addr : BitVec 32) (byte : BitVec 8) : Bytes :=
  Function.update memory addr byte

/-- Copy the bytes at the offsets, in their order. -/
def copyOffsets (dest src : BitVec 32) (memory : Bytes) : List Nat → Bytes
  | [] => memory
  | i :: offsets =>
      copyOffsets dest src (store memory (addrAt dest i) (memory (addrAt src i))) offsets

/-- The offsets `count`, …, 1. -/
def descending : Nat → List Nat
  | 0 => []
  | count + 1 => (count + 1) :: descending count

/-- The bytes from `src` as they were in `memory` are in `memory'` from `dest`, and nothing
else has changed. -/
def Moved (memory memory' : Bytes) (dest src : BitVec 32) (size : Nat) : Prop :=
  (∀ i, i < size → memory' (addrAt dest i) = memory (addrAt src i)) ∧
    ∀ x, (∀ i, i < size → x ≠ addrAt dest i) → memory' x = memory x

theorem store_self (memory : Bytes) (addr : BitVec 32) (byte : BitVec 8) :
    store memory addr byte addr = byte := Function.update_self ..

theorem store_of_ne {memory : Bytes} {addr x : BitVec 32} {byte : BitVec 8} (h : x ≠ addr) :
    store memory addr byte x = memory x := Function.update_of_ne h ..

@[simp] theorem addrAt_zero (addr : BitVec 32) : addrAt addr 0 = addr := BitVec.add_zero addr

theorem addrAt_inj {addr : BitVec 32} {i j : Nat} (hi : i < 2 ^ 32) (hj : j < 2 ^ 32)
    (h : addrAt addr i = addrAt addr j) : i = j := by
  rw [← addrAt_sub addr hi, h, addrAt_sub addr hj]

theorem toNat_addrAt (addr : BitVec 32) (i : Nat) :
    (addrAt addr i).toNat = (addr.toNat + i) % 2 ^ 32 := by
  rw [addrAt, BitVec.toNat_add, BitVec.toNat_ofNat, Nat.add_mod_mod]

theorem mem_descending {i count : Nat} : i ∈ descending count ↔ 1 ≤ i ∧ i ≤ count := by
  induction count with
  | zero =>
    constructor
    · intro h
      exact absurd h List.not_mem_nil
    · omega
  | succ count ih =>
    rw [descending, List.mem_cons, ih]
    omega

theorem pairwise_descending (count : Nat) : (descending count).Pairwise (· > ·) := by
  induction count with
  | zero => exact List.Pairwise.nil
  | succ count ih =>
    refine List.Pairwise.cons (fun i hi => ?_) ih
    have hle := (mem_descending.mp hi).2
    omega

section
variable {dest src : BitVec 32} {memory : Bytes} {offsets : List Nat}

/-- What is at none of the places written to is kept. -/
theorem copyOffsets_of_ne {x : BitVec 32} (h : ∀ i ∈ offsets, x ≠ addrAt dest i) :
    copyOffsets dest src memory offsets x = memory x := by
  induction offsets generalizing memory with
  | nil => rfl
  | cons i offsets ih =>
    rw [copyOffsets, ih fun j hj => h j (List.mem_cons_of_mem i hj),
      store_of_ne (h i List.mem_cons_self)]

/-- **A copy moves the original bytes** if no place is read after it has been written. -/
theorem copyOffsets_apply (hread : offsets.Pairwise fun i j => addrAt src j ≠ addrAt dest i)
    (hwrite : offsets.Pairwise fun i j => addrAt dest i ≠ addrAt dest j) :
    ∀ i ∈ offsets, copyOffsets dest src memory offsets (addrAt dest i) = memory (addrAt src i) := by
  induction offsets generalizing memory with
  | nil => exact fun i hi => absurd hi List.not_mem_nil
  | cons i offsets ih =>
    obtain ⟨hread_i, hread⟩ := List.pairwise_cons.mp hread
    obtain ⟨hwrite_i, hwrite⟩ := List.pairwise_cons.mp hwrite
    intro j hj
    rw [copyOffsets]
    rcases List.mem_cons.mp hj with rfl | hj
    · rw [copyOffsets_of_ne hwrite_i, store_self]
    · rw [ih hread hwrite j hj, store_of_ne (hread_i j hj)]

theorem copyOffsets_append (more : List Nat) :
    copyOffsets dest src memory (offsets ++ more) =
      copyOffsets dest src (copyOffsets dest src memory offsets) more := by
  induction offsets generalizing memory with
  | nil => rfl
  | cons i offsets ih => exact ih

/-- Both pointers one further on. -/
theorem copyOffsets_map_succ :
    copyOffsets dest src memory (offsets.map (· + 1)) =
      copyOffsets (addrAt dest 1) (addrAt src 1) memory offsets := by
  induction offsets generalizing memory with
  | nil => rfl
  | cons i offsets ih =>
    rw [List.map_cons, copyOffsets, copyOffsets, ih, addrAt_addrAt, addrAt_addrAt,
      Nat.add_comm 1 i]

/-- Offsets in order are different places. -/
theorem pairwise_addrAt_ne {r : Nat → Nat → Prop} (hpair : offsets.Pairwise r)
    (hne : ∀ i j, r i j → i ≠ j) (hlt : ∀ i ∈ offsets, i < 2 ^ 32) :
    offsets.Pairwise fun i j => addrAt dest i ≠ addrAt dest j := by
  apply List.Pairwise.imp_of_mem _ hpair
  intro i j hi hj hr heq
  exact hne i j hr (addrAt_inj (hlt i hi) (hlt j hj) heq)

/-- **Upwards** a copy is right if no source byte behind the one at hand has been reached. -/
theorem moved_range {size : Nat} (hsize : size ≤ 2 ^ 32)
    (hread : ∀ i j, i < j → j < size → addrAt src j ≠ addrAt dest i) :
    Moved memory (copyOffsets dest src memory (List.range size)) dest src size := by
  have hpair := List.pairwise_lt_range (n := size)
  constructor
  · intro i hi
    apply copyOffsets_apply _ _ i (List.mem_range.mpr hi)
    · apply List.Pairwise.imp_of_mem _ hpair
      intro i j _ hj hlt
      exact hread i j hlt (List.mem_range.mp hj)
    · apply pairwise_addrAt_ne hpair (fun i j => Nat.ne_of_lt)
      intro i hi
      exact Nat.lt_of_lt_of_le (List.mem_range.mp hi) hsize
  · intro x hx
    exact copyOffsets_of_ne fun i hi => hx i (List.mem_range.mp hi)

/-- **Downwards** a copy that leaves the first byte out is right if that byte is there
already. -/
theorem moved_descending_iff {count : Nat} (hcount : count + 1 ≤ 2 ^ 32)
    (hread : ∀ i j, 1 ≤ j → j < i → i ≤ count → addrAt src j ≠ addrAt dest i) :
    Moved memory (copyOffsets dest src memory (descending count)) dest src (count + 1) ↔
      memory dest = memory src := by
  have hpair := pairwise_descending count
  have hfirst : copyOffsets dest src memory (descending count) dest = memory dest := by
    apply copyOffsets_of_ne
    intro i hi heq
    obtain ⟨hone, hle⟩ := mem_descending.mp hi
    have hzero : addrAt dest 0 = addrAt dest i := by rw [addrAt_zero, ← heq]
    have h0 := addrAt_inj (by omega) (by omega) hzero
    omega
  have hothers : ∀ i ∈ descending count,
      copyOffsets dest src memory (descending count) (addrAt dest i) = memory (addrAt src i) := by
    apply copyOffsets_apply
    · apply List.Pairwise.imp_of_mem _ hpair
      intro i j hi hj hgt
      exact hread i j (mem_descending.mp hj).1 hgt (mem_descending.mp hi).2
    · apply pairwise_addrAt_ne hpair (fun i j => Nat.ne_of_gt)
      intro i hi
      have hle := (mem_descending.mp hi).2
      omega
  constructor
  · rintro ⟨hmoved, -⟩
    have hzero := hmoved 0 (Nat.succ_pos count)
    rw [addrAt_zero, addrAt_zero, hfirst] at hzero
    exact hzero
  · intro heq
    constructor
    · intro i hi
      rcases Nat.eq_zero_or_pos i with rfl | hpos
      · rw [addrAt_zero, addrAt_zero, hfirst, heq]
      · exact hothers i (mem_descending.mpr ⟨hpos, by omega⟩)
    · intro x hx
      apply copyOffsets_of_ne
      intro i hi
      have hle := (mem_descending.mp hi).2
      exact hx i (by omega)

end

end ByteCopies
