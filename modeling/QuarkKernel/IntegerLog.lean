import Mathlib.Data.BitVec
import Mathlib.Data.Nat.Log
import Mathlib.Data.Nat.Bitwise
import Mathlib.Order.Bounds.Basic

/-! # `math.c`

`ilog2` and `llog2` are compiled from one of several bodies, chosen by the compiler
and the size of a `long`.  Those that count leading zeros round the logarithm up;
those that smear the highest bit downwards and look the result up in a table round
it down.  They meet on the powers of two only. -/

/-! ### Smearing the bits of a word -/

namespace BitSmear
variable {w : Nat}

/-- `x |= x >> shift` -/
def orShift (x : BitVec w) (shift : Nat) : BitVec w := x ||| x >>> shift

/-- Bit `i` of `y` tells whether one of the bits `i`, …, `i + n - 1` of `x` is set. -/
def Smeared (x y : BitVec w) (n : Nat) : Prop :=
  ∀ i, y.getLsbD i = true ↔ ∃ j, j < n ∧ x.getLsbD (i + j) = true

theorem Smeared.refl (x : BitVec w) : Smeared x x 1 := by
  intro i
  constructor
  · intro h
    exact ⟨0, Nat.one_pos, h⟩
  · rintro ⟨j, hj, h⟩
    obtain rfl : j = 0 := by omega
    exact h

/-- A shift by no more than what has been smeared leaves no bit out. -/
theorem Smeared.orShift {x y : BitVec w} {n shift : Nat} (h : Smeared x y n) (hs : shift ≤ n) :
    Smeared x (orShift y shift) (n + shift) := by
  intro i
  rw [BitSmear.orShift, BitVec.getLsbD_or, BitVec.getLsbD_ushiftRight, Bool.or_eq_true, h, h]
  constructor
  · rintro (⟨j, hj, hx⟩ | ⟨j, hj, hx⟩)
    · exact ⟨j, by omega, hx⟩
    · exact ⟨shift + j, by omega, by rw [← hx]; congr 1; omega⟩
  · rintro ⟨j, hj, hx⟩
    rcases Nat.lt_or_ge j n with hlt | hge
    · exact Or.inl ⟨j, hlt, hx⟩
    · exact Or.inr ⟨j - shift, by omega, by rw [← hx]; congr 1; omega⟩

/-- Some bit from `i` on is set just when the word is at least `2 ^ i`. -/
theorem exists_getLsbD_iff (x : BitVec w) (i : Nat) :
    (∃ j, x.getLsbD (i + j) = true) ↔ 2 ^ i ≤ x.toNat := by
  constructor
  · rintro ⟨j, hj⟩
    calc 2 ^ i ≤ 2 ^ (i + j) := Nat.pow_le_pow_right (by omega) (by omega)
      _ ≤ x.toNat := Nat.ge_two_pow_of_testBit hj
  · intro h
    obtain ⟨k, hk, hbit⟩ := Nat.exists_ge_and_testBit_of_ge_two_pow h
    exact ⟨k - i, by rw [Nat.add_sub_cancel' hk]; exact hbit⟩

/-- **A word smeared over its whole width** is all ones up to its highest bit. -/
theorem Smeared.toNat_eq {x y : BitVec w} {n : Nat} (h : Smeared x y n) (hn : w ≤ n)
    (hx : x.toNat ≠ 0) : y.toNat = 2 ^ (x.toNat.log2 + 1) - 1 := by
  apply Nat.eq_of_testBit_eq
  intro i
  rw [Nat.testBit_two_pow_sub_one, Bool.eq_iff_iff, decide_eq_true_iff]
  have hwide : (∃ j, j < n ∧ x.getLsbD (i + j) = true) ↔ ∃ j, x.getLsbD (i + j) = true := by
    constructor
    · rintro ⟨j, -, hj⟩
      exact ⟨j, hj⟩
    · rintro ⟨j, hj⟩
      have hlt := BitVec.lt_of_getLsbD hj
      exact ⟨j, by omega, hj⟩
  calc y.toNat.testBit i = true ↔ ∃ j, j < n ∧ x.getLsbD (i + j) = true := h i
    _ ↔ 2 ^ i ≤ x.toNat := hwide.trans (exists_getLsbD_iff x i)
    _ ↔ i ≤ x.toNat.log2 := (Nat.le_log2 hx).symm
    _ ↔ i < x.toNat.log2 + 1 := Nat.lt_succ_iff.symm

end BitSmear

namespace QuarkKernel

open BitSmear

/-! ### The bodies of `ilog2` and `llog2` -/

/-- `__builtin_clz`, for an argument other than 0. -/
def builtinClz {w : Nat} (x : BitVec w) : Nat := x.clz.toNat

/-- The body that counts leading zeros, for a type of `w` bits. -/
def log2Clz {w : Nat} (x : BitVec w) : Nat :=
  if x.toNat ≤ 1 then 0 else w - builtinClz (x - 1#w)

/-- The table for 32 bits. -/
def log2Table32 : Vector Nat 32 := ⟨#[
  0,  9,  1, 10, 13, 21,  2, 29,
  11, 14, 16, 18, 22, 25,  3, 30,
  8, 12, 20, 28, 15, 17, 24,  7,
  19, 27, 23,  6, 26,  5,  4, 31], rfl⟩

/-- The table for 64 bits. -/
def log2Table64 : Vector Nat 64 := ⟨#[
  0, 58, 1, 59, 47, 53, 2, 60, 39, 48, 27, 54, 33, 42, 3, 61,
  51, 37, 40, 49, 18, 28, 20, 55, 30, 34, 11, 43, 14, 22, 4, 62,
  57, 46, 52, 38, 26, 32, 41, 50, 36, 17, 19, 29, 10, 13, 21, 56,
  45, 25, 31, 35, 16, 9, 12, 44, 24, 15, 8, 23, 7, 6, 5, 63], rfl⟩

/-- The five steps of smearing 32 bits. -/
def smear32 {w : Nat} (x : BitVec w) : BitVec w :=
  orShift (orShift (orShift (orShift (orShift x 1) 2) 4) 8) 16

theorem toNat_ushiftRight_lt {w : Nat} (x : BitVec w) {shift bits : Nat} (h : w = shift + bits) :
    (x >>> shift).toNat < 2 ^ bits := by
  rw [BitVec.toNat_ushiftRight, Nat.shiftRight_eq_div_pow, Nat.div_lt_iff_lt_mul (Nat.two_pow_pos shift),
    ← Nat.pow_add, Nat.add_comm, ← h]
  exact x.isLt

/-- `x >> shift`, the index of a table of `2 ^ bits` entries. -/
def topBits {w : Nat} (x : BitVec w) (shift bits : Nat) (h : w = shift + bits) : Fin (2 ^ bits) :=
  ⟨(x >>> shift).toNat, toNat_ushiftRight_lt x h⟩

/-- The body that looks up 32 bits. -/
def log2Lookup32 (x : BitVec 32) : Nat :=
  log2Table32.get (topBits (smear32 x * 0x07C4ACDD) 27 5 rfl)

/-- `ilog2`, compiled by GCC. -/
def ilog2Gnuc (x : BitVec 32) : Nat := log2Clz x

/-- `ilog2`, compiled by another compiler. -/
def ilog2Table (x : BitVec 32) : Nat := log2Lookup32 x

/-- `llog2`, compiled by GCC for a `long` of 4 bytes. -/
def llog2Gnuc32 (x : BitVec 32) : Nat := log2Clz x

/-- `llog2`, compiled by GCC for a `long` of 8 bytes. -/
def llog2Gnuc64 (x : BitVec 64) : Nat := log2Clz x

/-- `llog2`, compiled by another compiler for a `long` of 8 bytes. -/
def llog2Table64 (x : BitVec 64) : Nat :=
  log2Table64.get (topBits (orShift (smear32 x) 32 * 0x03f6eaf2cd271461) 58 6 rfl)

/-- `llog2`, compiled by another compiler for any other `long`. -/
def llog2Table32 (x : BitVec 32) : Nat := log2Lookup32 x

/-! ### What they compute -/

/-- Counting leading zeros gives the least exponent that reaches `x`. -/
theorem log2Clz_eq_clog {w : Nat} (x : BitVec w) : log2Clz x = Nat.clog 2 x.toNat := by
  unfold log2Clz builtinClz
  split
  · rename_i hle
    exact (Nat.clog_of_right_le_one hle 2).symm
  · rename_i hgt
    have hw : 1 < w := by
      by_contra hw
      have hlt := x.isLt
      have hpow : 2 ^ w ≤ 2 ^ 1 := Nat.pow_le_pow_right (by omega) (by omega)
      omega
    have hone : (1#w).toNat = 1 := by
      rw [BitVec.toNat_ofNat, Nat.mod_eq_of_lt (Nat.one_lt_two_pow (by omega))]
    have hsub : (x - 1#w).toNat = x.toNat - 1 := by
      rw [BitVec.toNat_sub_of_le (by rw [BitVec.le_def, hone]; omega), hone]
    have hne : x - 1#w ≠ 0#w := by
      intro h
      have htoNat := congrArg BitVec.toNat h
      rw [hsub, BitVec.toNat_ofNat, Nat.zero_mod] at htoNat
      omega
    have hclz : (x - 1#w).clz.toNat < w := by
      have hlt := BitVec.clz_lt_iff_ne_zero.mpr hne
      rw [BitVec.lt_def] at hlt
      simpa [Nat.mod_eq_of_lt (Nat.lt_two_pow_self (n := w))] using hlt
    have hlow := BitVec.two_pow_sub_clz_le_toNat_of_ne_zero (by omega : 0 < w) hne
    have hhigh := BitVec.toNat_lt_two_pow_sub_clz (x := x - 1#w)
    rw [hsub] at hlow hhigh
    apply le_antisymm
    · have hlt : w - 1 - (x - 1#w).clz.toNat < Nat.clog 2 x.toNat :=
        (Nat.lt_clog_iff_pow_lt (by omega)).mpr (by omega)
      omega
    · exact Nat.clog_le_of_le_pow (by omega)

theorem smeared_smear32 {w : Nat} (x : BitVec w) : Smeared x (smear32 x) 32 := by
  have h1 : Smeared x (orShift x 1) 2 := (Smeared.refl x).orShift (Nat.le_refl 1)
  have h2 : Smeared x (orShift (orShift x 1) 2) 4 := h1.orShift (Nat.le_refl 2)
  have h4 : Smeared x (orShift (orShift (orShift x 1) 2) 4) 8 := h2.orShift (Nat.le_refl 4)
  exact (h4.orShift (Nat.le_refl 8)).orShift (Nat.le_refl 16)

/-- The constant sends each run of ones to its own place in the table. -/
theorem log2Table32_ones : ∀ k : Fin 32,
    log2Table32.get (topBits (BitVec.ofNat 32 (2 ^ (k.val + 1) - 1) * 0x07C4ACDD) 27 5 rfl) =
      k.val := by
  decide

theorem log2Table64_ones : ∀ k : Fin 64,
    log2Table64.get
      (topBits (BitVec.ofNat 64 (2 ^ (k.val + 1) - 1) * 0x03f6eaf2cd271461) 58 6 rfl) = k.val := by
  decide

/-- A word smeared over its whole width is found again by its logarithm. -/
theorem Smeared.eq_ofNat {w n : Nat} {x y : BitVec w} (h : Smeared x y n) (hn : w ≤ n)
    (hx : x.toNat ≠ 0) : y = BitVec.ofNat w (2 ^ (x.toNat.log2 + 1) - 1) := by
  apply BitVec.eq_of_toNat_eq
  rw [BitVec.toNat_ofNat, ← h.toNat_eq hn hx, Nat.mod_eq_of_lt y.isLt]

/-- Looking the smeared word up gives the greatest exponent that `x` reaches. -/
theorem log2Lookup32_eq_log2 (x : BitVec 32) (hx : x.toNat ≠ 0) :
    log2Lookup32 x = x.toNat.log2 := by
  have hlt : x.toNat.log2 < 32 := (Nat.log2_lt hx).mpr x.isLt
  rw [log2Lookup32, Smeared.eq_ofNat (smeared_smear32 x) (Nat.le_refl 32) hx]
  exact log2Table32_ones ⟨x.toNat.log2, hlt⟩

theorem llog2Table64_eq_log2 (x : BitVec 64) (hx : x.toNat ≠ 0) :
    llog2Table64 x = x.toNat.log2 := by
  have hlt : x.toNat.log2 < 64 := (Nat.log2_lt hx).mpr x.isLt
  have hsmear : Smeared x (orShift (smear32 x) 32) 64 :=
    (smeared_smear32 x).orShift (Nat.le_refl 32)
  rw [llog2Table64, Smeared.eq_ofNat hsmear (Nat.le_refl 64) hx]
  exact log2Table64_ones ⟨x.toNat.log2, hlt⟩

/-- Rounding down and rounding up meet on the powers of two only. -/
theorem log2_eq_clog_iff {x : Nat} (hx : x ≠ 0) :
    x.log2 = Nat.clog 2 x ↔ ∃ k, x = 2 ^ k := by
  constructor
  · intro h
    refine ⟨x.log2, le_antisymm ?_ (Nat.log2_self_le hx)⟩
    rw [h]
    exact Nat.le_pow_clog (by omega) x
  · rintro ⟨k, rfl⟩
    rw [Nat.log2_two_pow, Nat.clog_pow 2 k (by omega)]

/-! ### The variants side by side -/

/-- `k` is the least exponent with `2 ^ k ≥ x`. -/
def RoundsUp {w : Nat} (x : BitVec w) (k : Nat) : Prop := IsLeast {k | x.toNat ≤ 2 ^ k} k

/-- Every body of `llog2` for a `long` of 8 bytes rounds up. -/
def RoundUp64 (x : BitVec 64) : Prop := RoundsUp x (llog2Gnuc64 x) ∧ RoundsUp x (llog2Table64 x)

/-- Every body of `ilog2` and `llog2` rounds up at an argument of 32 bits. -/
def RoundUp32 (x : BitVec 32) : Prop :=
  RoundsUp x (ilog2Gnuc x) ∧ RoundsUp x (ilog2Table x) ∧ RoundsUp x (llog2Gnuc32 x) ∧
    RoundsUp x (llog2Table32 x) ∧ RoundUp64 (x.setWidth 64)

theorem roundsUp_iff {w k : Nat} {x : BitVec w} : RoundsUp x k ↔ k = Nat.clog 2 x.toNat := by
  have hleast : RoundsUp x (Nat.clog 2 x.toNat) :=
    ⟨Nat.le_pow_clog (by omega) _, fun _ hk => Nat.clog_le_of_le_pow hk⟩
  constructor
  · intro h
    exact IsLeast.unique h hleast
  · rintro rfl
    exact hleast

theorem roundUp64_iff {x : BitVec 64} (hx : x.toNat ≠ 0) :
    RoundUp64 x ↔ ∃ k, x.toNat = 2 ^ k := by
  rw [RoundUp64, roundsUp_iff, roundsUp_iff, llog2Gnuc64, log2Clz_eq_clog,
    llog2Table64_eq_log2 x hx, log2_eq_clog_iff hx]
  exact and_iff_right rfl

theorem roundUp32_iff {x : BitVec 32} (hx : x.toNat ≠ 0) :
    RoundUp32 x ↔ ∃ k, x.toNat = 2 ^ k := by
  have hwide : (x.setWidth 64).toNat = x.toNat := BitVec.toNat_setWidth_of_le (by omega)
  rw [RoundUp32, roundUp64_iff (by rw [hwide]; exact hx), hwide]
  simp only [roundsUp_iff, ilog2Gnuc, ilog2Table, llog2Gnuc32, llog2Table32, log2Clz_eq_clog,
    log2Lookup32_eq_log2 x hx, log2_eq_clog_iff hx, true_and, and_self]

/-- **The variants agree on the powers of two only.** -/
theorem integerLog_roundUp_iff (x : BitVec 32) (y : BitVec 64) (hx : 1 ≤ x.toNat)
    (hy : 1 ≤ y.toNat) :
    (RoundUp32 x ↔ ∃ k, x.toNat = 2 ^ k) ∧ (RoundUp64 y ↔ ∃ k, y.toNat = 2 ^ k) :=
  ⟨roundUp32_iff (Nat.one_le_iff_ne_zero.mp hx), roundUp64_iff (Nat.one_le_iff_ne_zero.mp hy)⟩

/-- Sixteen rounds to its own exponent in every variant. -/
theorem integerLog_roundUp_sixteen : RoundUp32 16 ∧ RoundUp64 16 :=
  have hiff := integerLog_roundUp_iff 16 16 (by decide) (by decide)
  ⟨hiff.1.mpr ⟨4, rfl⟩, hiff.2.mpr ⟨4, rfl⟩⟩

/-- Three is rounded up by one variant and down by the other. -/
theorem integerLog_three : ilog2Gnuc 3 = 2 ∧ ilog2Table 3 = 1 ∧
    ¬ ((∀ x : BitVec 32, 1 ≤ x.toNat → RoundUp32 x) ∧ ∀ x : BitVec 64, 1 ≤ x.toNat → RoundUp64 x) := by
  refine ⟨by decide, by decide, ?_⟩
  rintro ⟨hround, -⟩
  obtain ⟨hgnuc, htable, -⟩ := hround 3 (by decide)
  have hagree : ilog2Gnuc 3 = ilog2Table 3 :=
    (roundsUp_iff.mp hgnuc).trans (roundsUp_iff.mp htable).symm
  exact absurd hagree (by decide)

end QuarkKernel
