import Mathlib.Data.Nat.Digits.Lemmas
import QuarkKernel.Status

/-! # `itoa` of `stdio.c`

The digits are written downwards from the end of a static buffer of 65 bytes, the
last one first, until nothing is left of the value and the width asked for has been
reached.  The width is not bounded, so only widths up to 64 stay inside the buffer;
there the string is an exact numeral (`itoa_exact_iff`). -/

/-! ### Numerals padded with zeros -/

namespace PaddedDigits

/-- The digits of `n`, least significant first, of which there are at least `width` and
at least one: a `do` loop that runs while there is value or width left. -/
def padded (base : Nat) (hbase : 2 ≤ base) (n width : Nat) : List Nat :=
  n % base :: if 1 < width ∨ n / base ≠ 0 then padded base hbase (n / base) (width - 1) else []
termination_by width + n
decreasing_by
  rename_i h
  have hle : n / base ≤ n := Nat.div_le_self n base
  rcases h with h | h
  · omega
  · have hlt : n / base < n := by
      apply Nat.div_lt_self _ (by omega)
      by_contra hn
      exact h (by rw [show n = 0 by omega, Nat.zero_div])
    omega

/-- The number of digits of the numeral for `n`; zero has one. -/
def digitCount (base n : Nat) : Nat := max 1 (Nat.digits base n).length

variable {base : Nat} (hbase : 2 ≤ base)

theorem padded_eq (n width : Nat) : padded base hbase n width =
    n % base :: if 1 < width ∨ n / base ≠ 0 then padded base hbase (n / base) (width - 1)
      else [] := by
  rw [padded]

/-- What the loop writes are the digits of `n`, and zeros. -/
theorem padded_eq_rightpad (n width : Nat) :
    padded base hbase n width = (Nat.digits base n).rightpad (max 1 width) 0 := by
  induction n, width using padded.induct base hbase with
  | case1 n width ih =>
    have hdigits : n ≠ 0 → Nat.digits base n = n % base :: Nat.digits base (n / base) :=
      fun hn => Nat.digits_def' (by omega) (by omega)
    have hzero : n = 0 → n / base = 0 ∧ n % base = 0 := by
      rintro rfl
      exact ⟨Nat.zero_div base, Nat.zero_mod base⟩
    rw [padded_eq]
    by_cases hgo : 1 < width ∨ n / base ≠ 0
    · rw [if_pos hgo, ih hgo]
      by_cases hn : n = 0
      · obtain ⟨hdiv, hmod⟩ := hzero hn
        have hwidth : 1 < width := hgo.resolve_right (fun h => h hdiv)
        rw [hdiv, hmod, hn, Nat.digits_zero, List.rightpad, List.rightpad, List.nil_append,
          List.nil_append, List.length_nil, ← List.replicate_succ]
        congr 1
        omega
      · rw [hdigits hn, List.rightpad, List.rightpad, List.cons_append, List.length_cons]
        congr 3
        by_cases hdiv : n / base = 0
        · have hwidth : 1 < width := hgo.resolve_right (fun h => h hdiv)
          omega
        · have hpos : 0 < (Nat.digits base (n / base)).length :=
            List.length_pos_of_ne_nil (Nat.digits_ne_nil_iff_ne_zero.mpr hdiv)
          omega
    · rw [if_neg hgo]
      have hwidth : max 1 width = 1 := by omega
      have hdiv : n / base = 0 := by
        by_contra h
        exact hgo (Or.inr h)
      rw [hwidth]
      by_cases hn : n = 0
      · rw [(hzero hn).2, hn, Nat.digits_zero]
        rfl
      · rw [hdigits hn, hdiv, Nat.digits_zero]
        rfl

theorem length_padded (n width : Nat) :
    (padded base hbase n width).length = max width (digitCount base n) := by
  rw [padded_eq_rightpad, List.length_rightpad, digitCount]
  omega

theorem lt_of_mem_padded {n width d : Nat} (h : d ∈ padded base hbase n width) : d < base := by
  rw [padded_eq_rightpad, List.rightpad, List.mem_append] at h
  rcases h with h | h
  · exact Nat.digits_lt_base (by omega) h
  · rw [List.eq_of_mem_replicate h]
    omega

theorem ofDigits_padded (n width : Nat) : Nat.ofDigits base (padded base hbase n width) = n := by
  rw [padded_eq_rightpad, List.rightpad, Nat.ofDigits_append_replicate_zero, Nat.ofDigits_digits]

include hbase in
/-- A value below `base ^ k` has no more than `k` digits. -/
theorem digitCount_le {n k : Nat} (hk : 0 < k) (h : n < base ^ k) : digitCount base n ≤ k :=
  max_le hk ((Nat.digits_length_le_iff (by omega) n).mpr h)

end PaddedDigits

namespace QuarkKernel

open PaddedDigits

/-- `"0123456789abcdef"` -/
def digits : Vector (BitVec 8) 16 := ⟨#[
  0x30, 0x31, 0x32, 0x33, 0x34, 0x35, 0x36, 0x37,
  0x38, 0x39, 0x61, 0x62, 0x63, 0x64, 0x65, 0x66], rfl⟩

/-- `digits[digit]` -/
def digitChar (digit : Nat) : BitVec 8 := digits.toList.getD digit 0

/-- `sizeof(buffer)` -/
def itoaBufferSize : Nat := 65

/-- The state of `itoa`.  Places are given by their distance from `buffer`; a place
outside of it belongs to whatever the linker put there. -/
structure ItoaState where
  /-- The bytes of the buffer and around it. -/
  memory : Int → BitVec 8
  s : Int
  /-- The places written to, the last one first. -/
  writes : List Int

namespace ItoaState

/-- `*s = byte` -/
def store (state : ItoaState) (byte : BitVec 8) : ItoaState :=
  { state with
    memory := Function.update state.memory state.s byte
    writes := state.s :: state.writes }

/-- `*--s = digits[digit]` -/
def putDigit (state : ItoaState) (digit : Nat) : ItoaState :=
  { state with s := state.s - 1 }.store (digitChar digit)

end ItoaState

/-- The loop of `itoa`.  `count` stays below the width or the number of digits, so it
does not wrap around. -/
def itoaLoop (base : Nat) (hbase : 2 ≤ base) (width n count : Nat) (state : ItoaState) :
    ItoaState :=
  let state := state.putDigit (n % base)
  if count + 1 < width ∨ n / base ≠ 0 then
    itoaLoop base hbase width (n / base) (count + 1) state
  else state
termination_by width - count + n
decreasing_by
  rename_i h
  have hle : n / base ≤ n := Nat.div_le_self n base
  rcases h with h | h
  · omega
  · have hlt : n / base < n := by
      apply Nat.div_lt_self _ (by omega)
      by_contra hn
      exact h (by rw [show n = 0 by omega, Nat.zero_div])
    omega

/-- `itoa`, in front of which the bytes around the buffer are `memory`; `none` is NULL. -/
def itoa (memory : Int → BitVec 8) (n base width : Word) : Option ItoaState :=
  if h : base.toNat < 2 ∨ 16 < base.toNat then none
  else
    let state : ItoaState := { memory, s := 64, writes := [] }
    some (itoaLoop base.toNat (Nat.le_of_not_lt fun hlt => h (Or.inl hlt)) width.toNat n.toNat 0
      (state.store 0))

/-! ### What the loop writes -/

namespace ItoaState

@[simp] theorem putDigit_s (state : ItoaState) (digit : Nat) :
    (state.putDigit digit).s = state.s - 1 := rfl

@[simp] theorem putDigit_writes (state : ItoaState) (digit : Nat) :
    (state.putDigit digit).writes = (state.s - 1) :: state.writes := rfl

theorem putDigit_memory_self (state : ItoaState) (digit : Nat) :
    (state.putDigit digit).memory (state.s - 1) = digitChar digit :=
  Function.update_self ..

theorem putDigit_memory_of_ne (state : ItoaState) (digit : Nat) {i : Int} (h : i ≠ state.s - 1) :
    (state.putDigit digit).memory i = state.memory i :=
  Function.update_of_ne h ..

/-- The digits of a list, put in front of what is there. -/
def putDigits (state : ItoaState) (list : List Nat) : ItoaState := list.foldl putDigit state

@[simp] theorem putDigits_cons (state : ItoaState) (digit : Nat) (list : List Nat) :
    state.putDigits (digit :: list) = (state.putDigit digit).putDigits list := rfl

theorem putDigits_s (state : ItoaState) (list : List Nat) :
    (state.putDigits list).s = state.s - list.length := by
  induction list generalizing state with
  | nil => simp [putDigits]
  | cons digit list ih =>
    rw [putDigits_cons, ih, putDigit_s, List.length_cons]
    push_cast
    omega

theorem mem_putDigits_writes {state : ItoaState} {list : List Nat} {i : Int} :
    i ∈ (state.putDigits list).writes ↔
      (state.s - list.length ≤ i ∧ i < state.s) ∨ i ∈ state.writes := by
  induction list generalizing state with
  | nil =>
    constructor
    · exact Or.inr
    · rintro (h | h)
      · rw [List.length_nil] at h
        omega
      · exact h
  | cons digit list ih =>
    rw [putDigits_cons, ih, putDigit_s, putDigit_writes, List.mem_cons, List.length_cons]
    push_cast
    constructor
    · rintro (h | h | h)
      · exact Or.inl (by omega)
      · exact Or.inl (by omega)
      · exact Or.inr h
    · rintro (h | h)
      · rcases Int.lt_or_le i (state.s - 1) with hlt | hle
        · exact Or.inl (by omega)
        · exact Or.inr (Or.inl (by omega))
      · exact Or.inr (Or.inr h)

/-- What lies from the old `s` on is kept. -/
theorem putDigits_memory_of_le {state : ItoaState} (list : List Nat) {i : Int} (h : state.s ≤ i) :
    (state.putDigits list).memory i = state.memory i := by
  induction list generalizing state with
  | nil => rfl
  | cons digit list ih =>
    rw [putDigits_cons, ih (by rw [putDigit_s]; omega),
      putDigit_memory_of_ne _ _ (by omega : i ≠ state.s - 1)]

theorem putDigits_memory {state : ItoaState} {list : List Nat} {k : Nat} (hk : k < list.length) :
    (state.putDigits list).memory (state.s - 1 - k) = digitChar list[k] := by
  induction list generalizing state k with
  | nil => exact absurd hk (Nat.not_lt_zero k)
  | cons digit list ih =>
    rw [putDigits_cons]
    cases k with
    | zero =>
      rw [Int.natCast_zero, Int.sub_zero,
        putDigits_memory_of_le list (by rw [putDigit_s] : _ ≤ state.s - 1), putDigit_memory_self]
      rfl
    | succ k =>
      have hplace : state.s - 1 - ((k + 1 : Nat) : Int) = (state.putDigit digit).s - 1 - k := by
        rw [putDigit_s]
        push_cast
        omega
      rw [hplace, ih (Nat.lt_of_succ_lt_succ hk)]
      rfl

end ItoaState

/-- The loop puts the padded numeral. -/
theorem itoaLoop_eq (base : Nat) (hbase : 2 ≤ base) (width n count : Nat) (state : ItoaState) :
    itoaLoop base hbase width n count state =
      state.putDigits (padded base hbase n (width - count)) := by
  induction n, count, state using itoaLoop.induct base hbase width with
  | case1 n count state state' hgo ih =>
    rw [itoaLoop, padded_eq, ItoaState.putDigits_cons, if_pos hgo,
      if_pos (by omega : 1 < width - count ∨ n / base ≠ 0), Nat.sub_sub]
    exact ih
  | case2 n count state hstop =>
    rw [itoaLoop, padded_eq, ItoaState.putDigits_cons, if_neg hstop,
      if_neg (by omega : ¬ (1 < width - count ∨ n / base ≠ 0))]
    rfl

/-! ### The string it returns -/

/-- The string at `place` is `text`, with a NUL behind it. -/
def StringAt (memory : Int → BitVec 8) (place : Int) (text : List (BitVec 8)) : Prop :=
  (∀ i (hi : i < text.length), memory (place + i) = text[i] ∧ text[i] ≠ 0) ∧
    memory (place + text.length) = 0

/-- The characters for the digits of a numeral, most significant first. -/
def numeral (list : List Nat) : List (BitVec 8) := list.reverse.map digitChar

theorem digitChar_ne_zero : ∀ {digit : Nat}, digit < 16 → digitChar digit ≠ 0 := by
  decide

namespace ItoaState

/-- Digits put in front of a NUL are a string. -/
theorem stringAt_putDigits {state : ItoaState} {list : List Nat}
    (hnul : state.memory state.s = 0) (hdigits : ∀ d ∈ list, d < 16) :
    StringAt (state.putDigits list).memory (state.putDigits list).s (numeral list) := by
  have hlen : (numeral list).length = list.length := by
    rw [numeral, List.length_map, List.length_reverse]
  constructor
  · intro i hi
    rw [hlen] at hi
    have hk : list.length - 1 - i < list.length := by omega
    have hget : (numeral list)[i] = digitChar list[list.length - 1 - i] := by
      simp only [numeral, List.getElem_map, List.getElem_reverse]
    rw [hget]
    constructor
    · rw [← @putDigits_memory state list _ hk, putDigits_s]
      have hplace : state.s - list.length + i = state.s - 1 - (list.length - 1 - i : Nat) := by
        omega
      rw [hplace]
    · exact digitChar_ne_zero (hdigits _ (List.getElem_mem hk))
  · rw [hlen, putDigits_s, Int.sub_add_cancel, putDigits_memory_of_le list (Int.le_refl _), hnul]

end ItoaState

/-- What `itoa` should do: it keeps inside of the buffer, and returns the numeral for `n`
in `base`, of at least `width` digits. -/
def ItoaExact (memory : Int → BitVec 8) (n base width : Word) : Prop :=
  ∃ state list, itoa memory n base width = some state ∧
    (∀ i ∈ state.writes, 0 ≤ i ∧ i < itoaBufferSize) ∧
    StringAt state.memory state.s (numeral list) ∧
    list.length = max width.toNat (digitCount base.toNat n.toNat) ∧
    (∀ d ∈ list, d < base.toNat) ∧ Nat.ofDigits base.toNat list = n.toNat

section
variable {base : Word} (memory : Int → BitVec 8) (n width : Word)

/-- `itoa` puts the padded numeral in front of the NUL. -/
theorem itoa_eq (hbase : 2 ≤ base.toNat) (hbase' : base.toNat ≤ 16) :
    itoa memory n base width =
      some ((({ memory, s := 64, writes := [] } : ItoaState).store 0).putDigits
        (padded base.toNat hbase n.toNat width.toNat)) := by
  rw [itoa, dif_neg (by omega)]
  simp only [itoaLoop_eq, Nat.sub_zero]

/-- A word has at most 32 digits. -/
theorem digitCount_word_le (hbase : 2 ≤ base.toNat) : digitCount base.toNat n.toNat ≤ 32 := by
  apply digitCount_le hbase (by omega)
  calc n.toNat < 2 ^ 32 := n.isLt
    _ ≤ base.toNat ^ 32 := Nat.pow_le_pow_left hbase 32

/-- Only a width above 64 leads out of the buffer. -/
theorem itoa_inside_iff {state : ItoaState} (hbase : 2 ≤ base.toNat) (hbase' : base.toNat ≤ 16)
    (h : itoa memory n base width = some state) :
    (∀ i ∈ state.writes, 0 ≤ i ∧ i < itoaBufferSize) ↔ width.toNat ≤ 64 := by
  rw [itoa_eq memory n width hbase hbase'] at h
  obtain rfl := Option.some.inj h
  have hcount := digitCount_word_le n hbase
  have hlen := length_padded hbase n.toNat width.toNat
  constructor
  · intro hinside
    by_contra hwidth
    have hout : (-1 : Int) ∈ ((({ memory, s := 64, writes := [] } : ItoaState).store 0).putDigits
        (padded base.toNat hbase n.toNat width.toNat)).writes := by
      apply ItoaState.mem_putDigits_writes.mpr
      left
      rw [hlen]
      show (64 : Int) - _ ≤ -1 ∧ (-1 : Int) < 64
      omega
    have hnonneg := (hinside _ hout).1
    omega
  · intro hwidth i hi
    rcases ItoaState.mem_putDigits_writes.mp hi with hi | hi
    · rw [hlen] at hi
      replace hi : (64 : Int) - _ ≤ i ∧ i < 64 := hi
      rw [itoaBufferSize]
      omega
    · obtain rfl : i = 64 := List.mem_singleton.mp hi
      exact ⟨by decide, by decide⟩

/-- Wherever it is put, the string is the padded numeral. -/
theorem stringAt_itoa {state : ItoaState} (hbase : 2 ≤ base.toNat) (hbase' : base.toNat ≤ 16)
    (h : itoa memory n base width = some state) :
    StringAt state.memory state.s (numeral (padded base.toNat hbase n.toNat width.toNat)) := by
  rw [itoa_eq memory n width hbase hbase'] at h
  obtain rfl := Option.some.inj h
  apply ItoaState.stringAt_putDigits
  · exact Function.update_self (64 : Int) 0 memory
  · intro d hd
    exact Nat.lt_of_lt_of_le (lt_of_mem_padded hbase hd) hbase'

theorem width_le_of_itoaExact (hbase : 2 ≤ base.toNat) (hbase' : base.toNat ≤ 16)
    (h : ItoaExact memory n base width) : width.toNat ≤ 64 := by
  obtain ⟨state, list, hitoa, hwrites, -⟩ := h
  exact (itoa_inside_iff memory n width hbase hbase' hitoa).mp hwrites

theorem itoaExact_of_width_le (hbase : 2 ≤ base.toNat) (hbase' : base.toNat ≤ 16)
    (hwidth : width.toNat ≤ 64) : ItoaExact memory n base width :=
  have hitoa := itoa_eq memory n width hbase hbase'
  ⟨_, padded base.toNat hbase n.toNat width.toNat, hitoa,
    (itoa_inside_iff memory n width hbase hbase' hitoa).mpr hwidth,
    stringAt_itoa memory n width hbase hbase' hitoa, length_padded hbase n.toNat width.toNat,
    fun _ hd => lt_of_mem_padded hbase hd, ofDigits_padded hbase _ _⟩

end

/-- **`itoa` is exact for widths up to 64**, and only for these. -/
theorem itoa_exact_iff (memory : Int → BitVec 8) (n base width : Word) (hbase : 2 ≤ base.toNat)
    (hbase' : base.toNat ≤ 16) : ItoaExact memory n base width ↔ width.toNat ≤ 64 :=
  ⟨width_le_of_itoaExact memory n width hbase hbase',
    itoaExact_of_width_le memory n width hbase hbase'⟩

/-- The widest value in the smallest base, padded to the whole buffer. -/
theorem itoa_exact_ones : ItoaExact (fun _ => 0) 0xFFFFFFFF 2 64 :=
  (itoa_exact_iff (fun _ => 0) 0xFFFFFFFF 2 64 (by decide) (by decide)).mpr (by decide)

/-- `%65u` writes in front of the buffer. -/
theorem itoa_width_65 : ¬ ∀ (memory : Int → BitVec 8) (n base width : Word), 2 ≤ base.toNat →
    base.toNat ≤ 16 → ItoaExact memory n base width := by
  intro hexact
  have hwidth := width_le_of_itoaExact (fun _ => 0) 0 65 (by decide) (by decide)
    (hexact (fun _ => 0) 0 10 65 (by decide) (by decide))
  exact absurd hwidth (by decide)

end QuarkKernel
