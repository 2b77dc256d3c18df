import Mathlib.Data.BitVec

/-! # Packed bit fields

A record of bit fields, the first in the lowest bits.  A run of fields is read from the
packed record at its place (`extract_packed`), so that one side can write fields and the other
read others, as long as their bits are the same. -/
namespace BitFields

/-- A field with its value. -/
structure BitField where
  width : Nat
  value : BitVec width
deriving DecidableEq

/-- A field of the given width. -/
abbrev field {width : Nat} (value : BitVec width) : BitField := ⟨width, value⟩

def totalWidth : List BitField → Nat
  | [] => 0
  | f :: fields => f.width + totalWidth fields

/-- The number the fields make up. -/
def pack : List BitField → Nat
  | [] => 0
  | f :: fields => f.value.toNat + 2 ^ f.width * pack fields

/-- The fields in a word. -/
def packed (n : Nat) (fields : List BitField) : BitVec n := BitVec.ofNat n (pack fields)

@[simp] theorem totalWidth_nil : totalWidth [] = 0 := rfl

@[simp] theorem totalWidth_cons (f : BitField) (fields : List BitField) :
    totalWidth (f :: fields) = f.width + totalWidth fields := rfl

theorem pack_lt (fields : List BitField) : pack fields < 2 ^ totalWidth fields := by
  induction fields with
  | nil => simp [pack]
  | cons f fields ih =>
    have hvalue := f.value.isLt
    calc pack (f :: fields) = f.value.toNat + 2 ^ f.width * pack fields := rfl
      _ < 2 ^ f.width * (pack fields + 1) := by rw [Nat.mul_succ]; omega
      _ ≤ 2 ^ f.width * 2 ^ totalWidth fields := Nat.mul_le_mul_left _ ih
      _ = 2 ^ totalWidth (f :: fields) := by rw [totalWidth_cons, Nat.pow_add]

theorem pack_drop (fields : List BitField) (i : Nat) :
    pack fields / 2 ^ totalWidth (fields.take i) = pack (fields.drop i) := by
  induction fields generalizing i with
  | nil => simp [pack]
  | cons f fields ih =>
    cases i with
    | zero => simp
    | succ i =>
      have hvalue := f.value.isLt
      rw [List.take_succ_cons, List.drop_succ_cons, totalWidth_cons, Nat.pow_add,
        ← Nat.div_div_eq_div_mul, pack, Nat.add_mul_div_left _ _ (by omega),
        Nat.div_eq_of_lt hvalue, Nat.zero_add, ih]

theorem pack_take (fields : List BitField) (i : Nat) :
    pack fields % 2 ^ totalWidth (fields.take i) = pack (fields.take i) := by
  induction fields generalizing i with
  | nil => simp [pack]
  | cons f fields ih =>
    cases i with
    | zero => simp [pack, Nat.mod_one]
    | succ i =>
      have hvalue := f.value.isLt
      rw [List.take_succ_cons, totalWidth_cons, Nat.pow_add, Nat.mod_mul, pack,
        Nat.add_mul_mod_self_left, Nat.mod_eq_of_lt hvalue,
        Nat.add_mul_div_left _ _ (by omega), Nat.div_eq_of_lt hvalue, Nat.zero_add, ih]
      rfl

/-- **A run of fields is read at its place.** -/
theorem extract_packed {n : Nat} {fields : List BitField} (hfits : totalWidth fields ≤ n)
    (i j : Nat) :
    (packed n fields).extractLsb' (totalWidth (fields.take i))
      (totalWidth ((fields.drop i).take j)) = packed _ ((fields.drop i).take j) := by
  have hlt : pack fields < 2 ^ n :=
    (pack_lt fields).trans_le (Nat.pow_le_pow_right (by omega) hfits)
  apply BitVec.eq_of_toNat_eq
  rw [BitVec.extractLsb'_toNat, packed, packed, BitVec.toNat_ofNat, BitVec.toNat_ofNat,
    Nat.mod_eq_of_lt hlt, Nat.shiftRight_eq_div_pow, pack_drop, pack_take,
    Nat.mod_eq_of_lt (pack_lt _)]

/-- A field is read at its place. -/
theorem extract_field {n i place : Nat} {fields : List BitField} {f : BitField}
    (hfits : totalWidth fields ≤ n) (hf : fields[i]? = some f)
    (hplace : totalWidth (fields.take i) = place) :
    (packed n fields).extractLsb' place f.width = f.value := by
  have hone : (fields.drop i).take 1 = [f] := by
    rw [List.take_one, List.head?_drop, hf]
    rfl
  have hpart := extract_packed hfits i 1
  rw [hone, hplace, show packed (totalWidth [f]) [f] = f.value by simp [packed, pack]] at hpart
  exact hpart

/-- Bits that are masked and moved down are those bits. -/
theorem setWidth_masked {w : Nat} (x : BitVec w) {n i : Nat} (h : i + n ≤ w) :
    ((x &&& ((BitVec.allOnes n).setWidth w <<< i)) >>> i).setWidth n = x.extractLsb' i n := by
  apply BitVec.eq_of_getLsbD_eq
  intro j hj
  simp [hj, show i + j < w by omega]

/-- A word in two parts. -/
theorem extract_append_setWidth {w n k : Nat} (x : BitVec w) (h : n + k ≤ w) :
    x.extractLsb' n k ++ x.setWidth n = x.setWidth (k + n) := by
  rw [BitVec.setWidth_eq_extractLsb' (show n ≤ w by omega),
    BitVec.setWidth_eq_extractLsb' (show k + n ≤ w by omega)]
  exact BitVec.extractLsb'_append_extractLsb'_eq_extractLsb' (Nat.zero_add n).symm

end BitFields
