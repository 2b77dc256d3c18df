import QuarkKernel.ByteCopies
import QuarkKernel.Itoa

/-! # `printf` of `stdio.c`

The format is walked over by one pointer, in the loop of `printf`, behind a `%`, and
over the width.  Three things go wrong: the case for `o` runs into the one for `x`, a
format that ends inside of a directive is left over its NUL, and the width is passed on
to `itoa` as it is.  Formats without these are printed as they should be
(`printf_correct_iff`). -/
namespace QuarkKernel
namespace Printf

open ByteMemory (addrAt)
open ByteCopies (Bytes)
open PaddedDigits

/-! ### Strings -/

section
variable {α : Type} (byteAt : α → BitVec 8) (next : α → α)

/-- The characters up to the NUL, as `puts` comes to them; `none` if it takes more than
`fuel` passes. -/
def putsLoop : Nat → α → Option (List (BitVec 8))
  | 0, _ => none
  | fuel + 1, str =>
      if byteAt str = 0 then some [] else (putsLoop fuel (next str)).map (byteAt str :: ·)

/-- There is the string `text`, and a NUL behind it. -/
def TextFrom : α → List (BitVec 8) → Prop
  | str, [] => byteAt str = 0
  | str, c :: text => byteAt str = c ∧ c ≠ 0 ∧ TextFrom (next str) text

variable {byteAt next}

theorem putsLoop_eq {text : List (BitVec 8)} {str : α} (h : TextFrom byteAt next str text)
    {fuel : Nat} (hfuel : text.length < fuel) : putsLoop byteAt next fuel str = some text := by
  induction text generalizing str fuel with
  | nil =>
    obtain ⟨fuel, rfl⟩ := Nat.exists_eq_succ_of_ne_zero (Nat.ne_of_gt hfuel)
    exact if_pos h
  | cons c text ih =>
    obtain ⟨fuel, rfl⟩ := Nat.exists_eq_succ_of_ne_zero (Nat.ne_of_gt (Nat.zero_lt_of_lt hfuel))
    obtain ⟨hbyte, hne, hrest⟩ := h
    rw [putsLoop, if_neg (by rw [hbyte]; exact hne), ih hrest (Nat.lt_of_succ_lt_succ hfuel), hbyte]
    rfl

end

theorem textFrom_of_stringAt {buffer : Int → BitVec 8} {place : Int} {text : List (BitVec 8)}
    (h : StringAt buffer place text) : TextFrom buffer (· + 1) place text := by
  induction text generalizing place with
  | nil => simpa [TextFrom] using h.2
  | cons c text ih =>
    obtain ⟨hchars, hnul⟩ := h
    have hfirst := hchars 0 (Nat.succ_pos _)
    rw [Int.natCast_zero, Int.add_zero] at hfirst
    refine ⟨hfirst.1, hfirst.2, ih ⟨fun i hi => ?_, ?_⟩⟩
    · have hplace : place + 1 + (i : Int) = place + ((i + 1 : Nat) : Int) := by omega
      rw [hplace]
      exact hchars (i + 1) (Nat.succ_lt_succ hi)
    · have hplace : place + 1 + (text.length : Int) = place + ((c :: text).length : Int) := by
        rw [List.length_cons]
        omega
      rw [hplace]
      exact hnul

/-! ### `printf` -/

/-- The number of addresses; no string is longer. -/
def addressCount : Nat := 2 ^ 32

/-- What `printf` has done so far.  `pos` is how far the format pointer has been moved,
`furthest` how far a character of the format has been read; `buffer` is the one of `itoa`,
which nothing else refers to. -/
structure State where
  pos : Nat
  furthest : Nat
  consumed : Nat
  output : List (BitVec 8)
  buffer : Int → BitVec 8

namespace State

/-- `*format` is read. -/
def look (state : State) : State := { state with furthest := max state.furthest state.pos }

/-- `format++` -/
def advance (state : State) : State := { state with pos := state.pos + 1 }

/-- `va_arg` -/
def takeArg (state : State) : State := { state with consumed := state.consumed + 1 }

/-- Characters are printed. -/
def put (state : State) (text : List (BitVec 8)) : State :=
  { state with output := state.output ++ text }

end State

/-- `puts(itoa(n, base, width))`; `none` if `itoa` writes outside of its buffer. -/
def putsItoa (state : State) (n base width : Word) : Option State := do
  let run ← itoa state.buffer n base width
  if run.writes.all fun i => decide (0 ≤ i) && decide (i < (itoaBufferSize : Int)) then do
    let text ← putsLoop run.memory (· + 1) addressCount run.s
    some { state.put text with buffer := run.memory }
  else none

/-- `*format >= '0' && *format <= '9'`.  A character from 0x80 on is negative. -/
def isDigit (c : BitVec 8) : Bool := decide (0x30 ≤ c) && decide (c ≤ 0x39)

/-- `(width * 10) + *format - '0'` -/
def pushDigit (width : Word) (c : BitVec 8) : Word := width * 10 + c.setWidth 32 - 0x30

section
variable (memory : Bytes) (format : Word) (args : Nat → Word)

/-- The character of the format at `pos`. -/
def charAt (pos : Nat) : BitVec 8 := memory (addrAt format pos)

/-- The `switch` behind a `%`.  `padding`, which it sets, is not used. -/
def flag (state : State) : State :=
  let state := state.advance.look
  if charAt memory format state.pos = 0x30 then state.advance else state

/-- The loop that reads the width; `none` if it takes more than `fuel` passes. -/
def widthLoop : Nat → State → Word → Option (State × Word)
  | 0, _, _ => none
  | fuel + 1, state, width =>
      let state := state.look
      let c := charAt memory format state.pos
      if isDigit c then widthLoop fuel state.advance (pushDigit width c) else some (state, width)

/-- The `switch` over the directive. -/
def directive (state : State) (width : Word) : Option State :=
  let state := state.look
  let c := charAt memory format state.pos
  if c = 0x69 then
    let n := args state.consumed
    if n.slt 0 then putsItoa (state.takeArg.put [0x2D]) (-n) 10 width
    else putsItoa state.takeArg n 10 width
  else if c = 0x75 then putsItoa state.takeArg (args state.consumed) 10 width
  else if c = 0x6F then do
    let state ← putsItoa state.takeArg (args state.consumed) 8 width
    -- there is no `break`
    putsItoa state.takeArg (args state.consumed) 16 width
  else if c = 0x78 then putsItoa state.takeArg (args state.consumed) 16 width
  else if c = 0x73 then do
    let text ← putsLoop memory (· + 1) addressCount (args state.consumed)
    some (state.takeArg.put text)
  else if c = 0x25 then some (state.put [0x25])
  else some state

/-- The loop of `printf`; `none` if it takes more than `fuel` passes, or on undefined
behaviour. -/
def printfLoop : Nat → State → Option State
  | 0, _ => none
  | fuel + 1, state =>
      let state := state.look
      let c := charAt memory format state.pos
      if c = 0 then some state
      else if c = 0x25 then do
        let (state, width) ← widthLoop memory format addressCount (flag memory format state) 0
        let state ← directive memory format args state width
        printfLoop fuel state.advance
      else printfLoop fuel (state.put [c]).advance

/-- `printf`, with what is in the buffer of `itoa` before. -/
def printf (fuel : Nat) (buffer : Int → BitVec 8) : Option State :=
  printfLoop memory format args fuel
    { pos := 0, furthest := 0, consumed := 0, output := [], buffer }

end

/-! ### What a format means -/

/-- A part of a format: a character, a directive with its width, or a `%` without a
directive at the end. -/
inductive Item where
  | literal (c : BitVec 8)
  | conversion (width : Word) (c : BitVec 8)
  | unfinished
deriving DecidableEq, Repr

/-- The items of a format, or of what follows after a `%` and the digits of a width. -/
def items : Option Word → List (BitVec 8) → List Item
  | none, [] => []
  | some _, [] => [.unfinished]
  | none, c :: chars => if c = 0x25 then items (some 0) chars else .literal c :: items none chars
  | some width, c :: chars =>
      if isDigit c then items (some (pushDigit width c)) chars
      else .conversion width c :: items none chars

/-- The directives for numbers. -/
def IsNumber (c : BitVec 8) : Prop := c = 0x69 ∨ c = 0x75 ∨ c = 0x6F ∨ c = 0x78

instance (c : BitVec 8) : Decidable (IsNumber c) :=
  inferInstanceAs (Decidable (c = 0x69 ∨ c = 0x75 ∨ c = 0x6F ∨ c = 0x78))

namespace Item

/-- The number of arguments that an item takes. -/
def takes : Item → Nat
  | conversion _ c => if IsNumber c ∨ c = 0x73 then 1 else 0
  | _ => 0

/-- A base has at least two digits. -/
theorem two_le_base : 2 ≤ 8 ∧ 2 ≤ 10 ∧ 2 ≤ 16 := by decide

/-- The decimal numeral of a signed number. -/
def signedText (n width : Word) : List (BitVec 8) :=
  if n.toInt < 0 then
    0x2D :: numeral (padded 10 two_le_base.2.1 n.toInt.natAbs width.toNat)
  else numeral (padded 10 two_le_base.2.1 n.toInt.natAbs width.toNat)

/-- What an item should print, for the argument `n` if it takes one; `text` is the string
that a pointer points to. -/
def text (text : Word → List (BitVec 8)) (n : Word) : Item → List (BitVec 8)
  | literal c => [c]
  | conversion width c =>
      if c = 0x69 then signedText n width
      else if c = 0x75 then numeral (padded 10 two_le_base.2.1 n.toNat width.toNat)
      else if c = 0x6F then numeral (padded 8 two_le_base.1 n.toNat width.toNat)
      else if c = 0x78 then numeral (padded 16 two_le_base.2.2 n.toNat width.toNat)
      else if c = 0x73 then text n
      else if c = 0x25 then [0x25]
      else []
  | unfinished => []

/-- An item that `printf` deals with: no octal, no unfinished one, and no width above 64. -/
def Fits : Item → Prop
  | literal _ => True
  | conversion width c => c ≠ 0x6F ∧ (IsNumber c → width.toNat ≤ 64)
  | unfinished => False

end Item

/-- The number of arguments that a format takes. -/
def argCount (list : List Item) : Nat := (list.map Item.takes).sum

/-- What a format should print, with the arguments from `k` on. -/
def render (args : Nat → Word) (text : Word → List (BitVec 8)) : List Item → Nat → List (BitVec 8)
  | [], _ => []
  | item :: list, k => item.text text (args k) ++ render args text list (k + item.takes)

/-- Where a string is to be printed, the argument points to one. -/
def ArgsFit (memory : Bytes) (args : Nat → Word) (text : Word → List (BitVec 8)) :
    List Item → Nat → Prop
  | [], _ => True
  | item :: list, k =>
      (∀ width, item = .conversion width 0x73 →
        TextFrom memory (· + 1) (args k) (text (args k)) ∧
          (text (args k)).length < addressCount) ∧
      ArgsFit memory args text list (k + item.takes)

/-- `printf` ends, without having read behind the NUL, has taken one argument for each
directive, and has printed what the format means. -/
def PrintfCorrect (memory : Bytes) (format : Word) (args : Nat → Word)
    (text : Word → List (BitVec 8)) (buffer : Int → BitVec 8) (chars : List (BitVec 8)) : Prop :=
  ∃ fuel state, printf memory format args fuel buffer = some state ∧
    state.furthest ≤ chars.length ∧ state.consumed = argCount (items none chars) ∧
    state.output = render args text (items none chars) 0

/-! ### Numbers -/

section
variable {state state' : State} {n base width : Word}

/-- Nothing but the output and the buffer of `itoa` has changed. -/
structure Prints (state : State) (text : List (BitVec 8)) (state' : State) : Prop where
  pos : state'.pos = state.pos
  furthest : state'.furthest = state.furthest
  consumed : state'.consumed = state.consumed
  output : state'.output = state.output ++ text

/-- A number whose width leaves the buffer alone is printed as its padded numeral. -/
theorem putsItoa_prints (state : State) (n base : Word) {width : Word}
    (hbase : 2 ≤ base.toNat) (hbase' : base.toNat ≤ 16) (hwidth : width.toNat ≤ 64) :
    ∃ state', putsItoa state n base width = some state' ∧
      Prints state (numeral (padded base.toNat hbase n.toNat width.toNat)) state' := by
  obtain ⟨run, hitoa⟩ : ∃ run, itoa state.buffer n base width = some run :=
    ⟨_, itoa_eq state.buffer n width hbase hbase'⟩
  have hinside := (itoa_inside_iff state.buffer n width hbase hbase' hitoa).mpr hwidth
  have hall : (run.writes.all fun i => decide (0 ≤ i) && decide (i < (itoaBufferSize : Int))) =
      true := by
    rw [List.all_eq_true]
    intro i hi
    rw [Bool.and_eq_true, decide_eq_true_iff, decide_eq_true_iff]
    exact hinside i hi
  have hstring := textFrom_of_stringAt (stringAt_itoa state.buffer n width hbase hbase' hitoa)
  have hshort : (numeral (padded base.toNat hbase n.toNat width.toNat)).length < addressCount := by
    have hcount := digitCount_word_le n hbase
    have hlen := length_padded hbase n.toNat width.toNat
    rw [numeral, List.length_map, List.length_reverse, hlen, addressCount]
    omega
  have hputs := putsLoop_eq hstring hshort
  refine ⟨{ state.put (numeral (padded base.toNat hbase n.toNat width.toNat)) with
    buffer := run.memory }, ?_, ⟨rfl, rfl, rfl, rfl⟩⟩
  rw [putsItoa, hitoa, Option.bind_eq_bind, Option.bind_some, if_pos hall, hputs]
  rfl

/-- What is printed has a width that leaves the buffer alone. -/
theorem width_le_of_putsItoa (hbase : 2 ≤ base.toNat) (hbase' : base.toNat ≤ 16)
    (h : putsItoa state n base width = some state') : width.toNat ≤ 64 := by
  rw [putsItoa] at h
  obtain ⟨run, hitoa, h⟩ := Option.bind_eq_some_iff.mp h
  split at h
  · rename_i hall
    apply (itoa_inside_iff state.buffer n width hbase hbase' hitoa).mp
    intro i hi
    have hi := List.all_eq_true.mp hall i hi
    rw [Bool.and_eq_true, decide_eq_true_iff, decide_eq_true_iff] at hi
    exact hi
  · cases h

/-- A number that is printed at all is printed as its padded numeral. -/
theorem prints_of_putsItoa (hbase : 2 ≤ base.toNat) (hbase' : base.toNat ≤ 16)
    (h : putsItoa state n base width = some state') :
    width.toNat ≤ 64 ∧
      Prints state (numeral (padded base.toNat hbase n.toNat width.toNat)) state' := by
  have hwidth := width_le_of_putsItoa hbase hbase' h
  obtain ⟨state'', hputs, hprints⟩ := putsItoa_prints state n base hbase hbase' hwidth
  obtain rfl := Option.some.inj (hputs.symm.trans h)
  exact ⟨hwidth, hprints⟩

end

/-! ### One directive -/

section
variable {memory : Bytes} {format : Word} {args : Nat → Word}
variable {state state' : State} {width : Word} {c : BitVec 8}

/-- The octal case takes the argument of the case behind it as well. -/
def Item.octal : Item → Nat
  | .conversion _ c => if c = 0x6F then 1 else 0
  | _ => 0

/-- The widths that `printf` gets through with. -/
def Item.WidthFits : Item → Prop
  | .literal _ => True
  | .conversion width c => IsNumber c → width.toNat ≤ 64
  | .unfinished => False

/-- What a directive leaves that has been dealt with. -/
theorem directive_sound (hchar : charAt memory format state.pos = c)
    (h : directive memory format args state width = some state') :
    (Item.conversion width c).WidthFits ∧ state'.pos = state.pos ∧
      state'.furthest = max state.furthest state.pos ∧
      state'.consumed = state.consumed + (Item.conversion width c).takes +
        (Item.conversion width c).octal := by
  have hlook : charAt memory format state.look.pos = c := hchar
  unfold directive at h
  simp only [hlook] at h
  by_cases hi : c = 0x69
  · subst hi
    rw [if_pos rfl] at h
    split at h
    · obtain ⟨hwidth, hprints⟩ := prints_of_putsItoa (by decide) (by decide) h
      exact ⟨fun _ => hwidth, hprints.pos, hprints.furthest, hprints.consumed⟩
    · obtain ⟨hwidth, hprints⟩ := prints_of_putsItoa (by decide) (by decide) h
      exact ⟨fun _ => hwidth, hprints.pos, hprints.furthest, hprints.consumed⟩
  rw [if_neg hi] at h
  by_cases hu : c = 0x75
  · subst hu
    rw [if_pos rfl] at h
    obtain ⟨hwidth, hprints⟩ := prints_of_putsItoa (by decide) (by decide) h
    exact ⟨fun _ => hwidth, hprints.pos, hprints.furthest, hprints.consumed⟩
  rw [if_neg hu] at h
  by_cases ho : c = 0x6F
  · subst ho
    rw [if_pos rfl] at h
    obtain ⟨middle, hfirst, h⟩ := Option.bind_eq_some_iff.mp h
    obtain ⟨hwidth, hprints⟩ := prints_of_putsItoa (by decide) (by decide) hfirst
    obtain ⟨-, hprints'⟩ := prints_of_putsItoa (by decide) (by decide) h
    refine ⟨fun _ => hwidth, hprints'.pos.trans hprints.pos,
      hprints'.furthest.trans hprints.furthest, hprints'.consumed.trans ?_⟩
    show middle.consumed + 1 = state.consumed + 1 + 1
    rw [hprints.consumed]
    rfl
  rw [if_neg ho] at h
  have hoctal : (Item.conversion width c).octal = 0 := if_neg ho
  by_cases hx : c = 0x78
  · subst hx
    rw [if_pos rfl] at h
    obtain ⟨hwidth, hprints⟩ := prints_of_putsItoa (by decide) (by decide) h
    exact ⟨fun _ => hwidth, hprints.pos, hprints.furthest, hprints.consumed⟩
  rw [if_neg hx] at h
  have hnumber : ¬ IsNumber c := by
    rintro (h | h | h | h)
    · exact hi h
    · exact hu h
    · exact ho h
    · exact hx h
  rw [hoctal]
  by_cases hs : c = 0x73
  · subst hs
    rw [if_pos rfl] at h
    obtain ⟨text, -, h⟩ := Option.bind_eq_some_iff.mp h
    obtain rfl := Option.some.inj h
    exact ⟨fun hn => absurd hn hnumber, rfl, rfl, rfl⟩
  have htakes : (Item.conversion width c).takes = 0 := if_neg (not_or.mpr ⟨hnumber, hs⟩)
  rw [if_neg hs] at h
  rw [htakes]
  split at h
  · obtain rfl := Option.some.inj h
    exact ⟨fun hn => absurd hn hnumber, rfl, rfl, rfl⟩
  · obtain rfl := Option.some.inj h
    exact ⟨fun hn => absurd hn hnumber, rfl, rfl, rfl⟩

theorem slt_zero_iff (n : Word) : n.slt 0 = true ↔ n.toInt < 0 :=
  BitVec.slt_iff_toInt_lt

/-- What is left of a negative number without its sign, for the least one too. -/
theorem toNat_neg_of_toInt_neg {n : Word} (h : n.toInt < 0) : (-n).toNat = n.toInt.natAbs := by
  have hlt := n.isLt
  rw [BitVec.toInt_eq_toNat_cond] at h ⊢
  rw [BitVec.toNat_neg]
  split at h
  · omega
  · rename_i hbig
    rw [if_neg hbig]
    omega

theorem toNat_of_toInt_nonneg {n : Word} (h : ¬ n.toInt < 0) : n.toNat = n.toInt.natAbs := by
  have hlt := n.isLt
  rw [BitVec.toInt_eq_toNat_cond] at h ⊢
  split at h
  · rename_i hsmall
    rw [if_pos hsmall]
    omega
  · omega

/-- A directive that fits prints what it means. -/
theorem directive_complete {text : Word → List (BitVec 8)}
    (hchar : charAt memory format state.pos = c) (hfits : (Item.conversion width c).Fits)
    (hstring : c = 0x73 → TextFrom memory (· + 1) (args state.consumed)
      (text (args state.consumed)) ∧ (text (args state.consumed)).length < addressCount) :
    ∃ state', directive memory format args state width = some state' ∧
      state'.output = state.output ++
        (Item.conversion width c).text text (args state.consumed) := by
  have hlook : charAt memory format state.look.pos = c := hchar
  obtain ⟨hoctal, hwidth⟩ := hfits
  unfold directive Item.text
  simp only [hlook]
  by_cases hi : c = 0x69
  · rw [if_pos hi, if_pos hi, Item.signedText]
    have hle := hwidth (Or.inl hi)
    by_cases hneg : (args state.consumed).toInt < 0
    · obtain ⟨state', hputs, hprints⟩ := putsItoa_prints
        (state.look.takeArg.put [0x2D]) (-args state.consumed) 10 (by decide) (by decide) hle
      refine ⟨state', ?_, ?_⟩
      · exact (if_pos ((slt_zero_iff _).mpr hneg)).trans hputs
      · rw [if_pos hneg, hprints.output, toNat_neg_of_toInt_neg hneg]
        exact List.append_assoc ..
    · obtain ⟨state', hputs, hprints⟩ := putsItoa_prints
        state.look.takeArg (args state.consumed) 10 (by decide) (by decide) hle
      refine ⟨state', ?_, ?_⟩
      · exact (if_neg fun h => hneg ((slt_zero_iff _).mp h)).trans hputs
      · rw [if_neg hneg, hprints.output, toNat_of_toInt_nonneg hneg]
        rfl
  rw [if_neg hi, if_neg hi]
  by_cases hu : c = 0x75
  · rw [if_pos hu, if_pos hu]
    obtain ⟨state', hputs, hprints⟩ := putsItoa_prints
      state.look.takeArg (args state.consumed) 10 (by decide) (by decide) (hwidth (Or.inr (Or.inl hu)))
    exact ⟨state', hputs, hprints.output⟩
  rw [if_neg hu, if_neg hu, if_neg hoctal, if_neg hoctal]
  by_cases hx : c = 0x78
  · rw [if_pos hx, if_pos hx]
    obtain ⟨state', hputs, hprints⟩ := putsItoa_prints
      state.look.takeArg (args state.consumed) 16 (by decide) (by decide) (hwidth (Or.inr (Or.inr (Or.inr hx))))
    exact ⟨state', hputs, hprints.output⟩
  rw [if_neg hx, if_neg hx]
  by_cases hs : c = 0x73
  · obtain ⟨htext, hshort⟩ := hstring hs
    rw [if_pos hs, if_pos hs]
    refine ⟨state.look.takeArg.put (text (args state.consumed)), ?_, rfl⟩
    rw [show state.look.consumed = state.consumed from rfl, putsLoop_eq htext hshort]
    rfl
  rw [if_neg hs, if_neg hs]
  by_cases hpercent : c = 0x25
  · rw [if_pos hpercent, if_pos hpercent]
    exact ⟨_, rfl, rfl⟩
  · rw [if_neg hpercent, if_neg hpercent]
    exact ⟨_, rfl, (List.append_nil _).symm⟩

end

/-! ### The walk over the format -/

section
variable (memory : Bytes) (format : Word) (args : Nat → Word)

/-- The rest of `printf`, from in front of a character or inside of a width. -/
def resume : Option Word → Nat → Nat → State → Option State
  | none, _, fuel, state => printfLoop memory format args fuel state
  | some width, passes, fuel, state =>
      (widthLoop memory format passes state width).bind fun r =>
        (directive memory format args r.1 r.2).bind fun state =>
          printfLoop memory format args fuel state.advance

variable {memory format args} {state state' : State} {width : Word} {c : BitVec 8} {fuel : Nat}

theorem look_look (state : State) : state.look.look = state.look := by
  simp only [State.look, Nat.max_assoc, Nat.max_self]

theorem widthLoop_look (passes : Nat) :
    widthLoop memory format passes state.look width =
      widthLoop memory format passes state width := by
  cases passes with
  | zero => rfl
  | succ passes => rw [widthLoop, widthLoop, look_look]

theorem printfLoop_nul (hchar : charAt memory format state.pos = 0) :
    printfLoop memory format args (fuel + 1) state = some state.look :=
  if_pos hchar

theorem printfLoop_literal (hchar : charAt memory format state.pos = c) (hnul : c ≠ 0)
    (hpercent : c ≠ 0x25) :
    printfLoop memory format args (fuel + 1) state =
      printfLoop memory format args fuel (state.look.put [c]).advance := by
  have hlook : charAt memory format state.look.pos = c := hchar
  rw [printfLoop]
  simp only [hlook, if_neg hnul, if_neg hpercent]

/-- The flag behind a `%` is read as a digit of the width would be. -/
theorem printfLoop_percent (hchar : charAt memory format state.pos = 0x25) :
    ∃ passes, addressCount ≤ passes ∧ printfLoop memory format args (fuel + 1) state =
      resume memory format args (some 0) passes fuel state.look.advance := by
  have hlook : charAt memory format state.look.pos = 0x25 := hchar
  have hloop : printfLoop memory format args (fuel + 1) state =
      (widthLoop memory format addressCount (flag memory format state.look) 0).bind fun r =>
        (directive memory format args r.1 r.2).bind fun state =>
          printfLoop memory format args fuel state.advance := by
    rw [printfLoop]
    simp only [hlook]
    rw [if_neg (by decide), if_pos trivial]
    rfl
  by_cases hzero : charAt memory format state.look.advance.look.pos = 0x30
  · refine ⟨addressCount + 1, Nat.le_succ _, ?_⟩
    rw [hloop, resume, flag, if_pos hzero, widthLoop]
    simp only [hzero]
    rfl
  · refine ⟨addressCount, Nat.le_refl _, ?_⟩
    rw [hloop, resume, flag, if_neg hzero, widthLoop_look]

theorem resume_digit {passes : Nat} (hchar : charAt memory format state.pos = c)
    (hdigit : isDigit c = true) :
    resume memory format args (some width) (passes + 1) fuel state =
      resume memory format args (some (pushDigit width c)) passes fuel state.look.advance := by
  have hlook : charAt memory format state.look.pos = c := hchar
  rw [resume, resume, widthLoop]
  simp only [hlook, if_pos hdigit]

theorem resume_conversion {passes : Nat} (hchar : charAt memory format state.pos = c)
    (hdigit : ¬ isDigit c = true) :
    resume memory format args (some width) (passes + 1) fuel state =
      (directive memory format args state.look width).bind fun state =>
        printfLoop memory format args fuel state.advance := by
  have hlook : charAt memory format state.look.pos = c := hchar
  rw [resume, widthLoop]
  simp only [hlook, if_neg hdigit]
  rfl

/-! ### How far it reads -/

theorem widthLoop_furthest {passes : Nat} {width' : Word}
    (h : widthLoop memory format passes state width = some (state', width')) :
    max state.furthest state.pos ≤ state'.furthest ∧ state.pos ≤ state'.pos := by
  induction passes generalizing state width with
  | zero => cases h
  | succ passes ih =>
    rw [widthLoop] at h
    split at h
    · obtain ⟨hfurthest, hpos⟩ := ih h
      refine ⟨?_, Nat.le_of_succ_le hpos⟩
      exact Nat.le_trans (Nat.le_max_left _ _) hfurthest
    · obtain ⟨rfl, -⟩ := Prod.mk.inj (Option.some.inj h)
      exact ⟨Nat.le_refl _, Nat.le_refl _⟩

/-- What has been read stays read, and the character at hand is read first. -/
theorem furthest_of_printfLoop (h : printfLoop memory format args fuel state = some state') :
    max state.furthest state.pos ≤ state'.furthest := by
  induction fuel generalizing state with
  | zero => cases h
  | succ fuel ih =>
    rw [printfLoop] at h
    simp only at h
    split at h
    · obtain rfl := Option.some.inj h
      exact Nat.le_refl _
    · split at h
      · obtain ⟨⟨middle, width⟩, hwidth, h⟩ := Option.bind_eq_some_iff.mp h
        obtain ⟨state'', hdirective, h⟩ := Option.bind_eq_some_iff.mp h
        have hlast := Nat.le_trans (Nat.le_max_left _ _) (ih h)
        have hmiddle : max middle.furthest middle.pos ≤ state'.furthest :=
          Nat.le_trans (Nat.le_of_eq (directive_sound rfl hdirective).2.2.1.symm) hlast
        have hfirst := (widthLoop_furthest hwidth).1
        have hflag : state.look.furthest ≤ (flag memory format state.look).furthest := by
          unfold flag
          simp only
          split
          · exact Nat.le_max_left _ _
          · exact Nat.le_max_left _ _
        have hlook : state.look.furthest = max state.furthest state.pos := rfl
        omega
      · exact Nat.le_trans (Nat.le_max_left _ _) (ih h)

/-- The number of octal directives. -/
def octalCount (list : List Item) : Nat := (list.map Item.octal).sum

theorem argCount_cons (item : Item) (list : List Item) :
    argCount (item :: list) = item.takes + argCount list := by
  rw [argCount, List.map_cons, List.sum_cons]
  rfl

theorem octalCount_cons (item : Item) (list : List Item) :
    octalCount (item :: list) = item.octal + octalCount list := by
  rw [octalCount, List.map_cons, List.sum_cons]
  rfl

/-- **What a run has done that stays in front of the NUL.**  The induction is on what is left
of the format, from in front of a character and inside of a width alike. -/
theorem resume_sound {chars : List (BitVec 8)} {mode : Option Word} {passes : Nat}
    (htext : TextFrom (charAt memory format) (· + 1) state.pos chars)
    (hshort : chars.length < addressCount) (hpasses : chars.length < passes)
    (h : resume memory format args mode passes fuel state = some state')
    (hfurthest : state'.furthest ≤ state.pos + chars.length) :
    (∀ item ∈ items mode chars, item.WidthFits) ∧
      state'.consumed = state.consumed + argCount (items mode chars) +
        octalCount (items mode chars) := by
  induction chars generalizing mode passes fuel state with
  | nil =>
    have hchar : charAt memory format state.pos = 0 := htext
    cases mode with
    | none =>
      obtain _ | fuel := fuel
      · cases h
      · rw [resume, printfLoop_nul hchar] at h
        obtain rfl := Option.some.inj h
        exact ⟨fun item hitem => absurd hitem List.not_mem_nil, rfl⟩
    | some width =>
      -- the format pointer is moved over the NUL
      obtain ⟨passes, rfl⟩ := Nat.exists_eq_succ_of_ne_zero (Nat.ne_of_gt hpasses)
      rw [resume_conversion hchar (by decide)] at h
      obtain ⟨middle, hdirective, h⟩ := Option.bind_eq_some_iff.mp h
      have hpos : middle.pos = state.pos := (directive_sound rfl hdirective).2.1
      have hover := Nat.le_trans (Nat.le_max_right _ _) (furthest_of_printfLoop h)
      have hadvance : middle.advance.pos = middle.pos + 1 := rfl
      rw [List.length_nil] at hfurthest
      omega
  | cons c chars ih =>
    obtain ⟨hchar, hnul, hrest⟩ := htext
    rw [List.length_cons] at hshort hpasses hfurthest
    have hnext : TextFrom (charAt memory format) (· + 1) state.look.advance.pos chars := hrest
    have hfurthest' : state'.furthest ≤ state.look.advance.pos + chars.length := by
      have hadvance : state.look.advance.pos = state.pos + 1 := rfl
      omega
    cases mode with
    | none =>
      obtain _ | fuel := fuel
      · cases h
      rw [resume] at h
      by_cases hpercent : c = 0x25
      · rw [items, if_pos hpercent]
        subst hpercent
        obtain ⟨passes', hmany, hloop⟩ := printfLoop_percent hchar
        rw [hloop] at h
        have hrun := ih hnext (by omega) (by omega) h hfurthest'
        exact hrun
      · rw [printfLoop_literal hchar hnul hpercent] at h
        replace hnext : TextFrom (charAt memory format) (· + 1) (state.look.put [c]).advance.pos
          chars := hrest
        replace h : resume memory format args none addressCount fuel
          (state.look.put [c]).advance = some state' := h
        obtain ⟨hfits, hconsumed⟩ := ih hnext (by omega) (by omega) h hfurthest'
        rw [items, if_neg hpercent, argCount_cons, octalCount_cons]
        refine ⟨?_, ?_⟩
        · rintro item (_ | ⟨_, hitem⟩)
          · trivial
          · exact hfits item hitem
        · rw [hconsumed]
          show state.consumed + _ + _ = state.consumed + (0 + _) + (0 + _)
          omega
    | some width =>
      obtain ⟨passes, rfl⟩ := Nat.exists_eq_succ_of_ne_zero (Nat.ne_of_gt (Nat.zero_lt_of_lt hpasses))
      by_cases hdigit : isDigit c = true
      · rw [items, if_pos hdigit]
        rw [resume_digit hchar hdigit] at h
        have hrun := ih hnext (by omega) (by omega) h hfurthest'
        exact hrun
      · rw [resume_conversion hchar hdigit] at h
        obtain ⟨middle, hdirective, h⟩ := Option.bind_eq_some_iff.mp h
        replace hchar : charAt memory format state.look.pos = c := hchar
        obtain ⟨hwidth, hpos, -, htaken⟩ := directive_sound hchar hdirective
        have hadvance : middle.advance.pos = state.pos + 1 := congrArg (· + 1) hpos
        replace h : resume memory format args none addressCount fuel middle.advance =
          some state' := h
        obtain ⟨hfits, hconsumed⟩ := ih (by rw [hadvance]; exact hrest) (by omega) (by omega) h
          (by rw [hadvance]; omega)
        rw [items, if_neg hdigit, argCount_cons, octalCount_cons]
        refine ⟨?_, ?_⟩
        · rintro item (_ | ⟨_, hitem⟩)
          · exact hwidth
          · exact hfits item hitem
        · rw [hconsumed]
          show middle.consumed + _ + _ = _
          rw [htaken]
          show state.consumed + _ + _ + _ + _ = _
          omega

/-- **A format whose items fit is printed as it is meant.** -/
theorem resume_complete {text : Word → List (BitVec 8)} {chars : List (BitVec 8)}
    {mode : Option Word} {passes : Nat}
    (htext : TextFrom (charAt memory format) (· + 1) state.pos chars)
    (hshort : chars.length < addressCount) (hpasses : chars.length < passes)
    (hfuel : chars.length < fuel) (hfits : ∀ item ∈ items mode chars, item.Fits)
    (hargs : ArgsFit memory args text (items mode chars) state.consumed) :
    ∃ state', resume memory format args mode passes fuel state = some state' ∧
      state'.furthest ≤ max state.furthest (state.pos + chars.length) ∧
      state'.consumed = state.consumed + argCount (items mode chars) ∧
      state'.output = state.output ++ render args text (items mode chars) state.consumed := by
  induction chars generalizing mode passes fuel state with
  | nil =>
    obtain ⟨fuel, rfl⟩ := Nat.exists_eq_succ_of_ne_zero (Nat.ne_of_gt hfuel)
    cases mode with
    | none =>
      refine ⟨state.look, printfLoop_nul htext, Nat.le_refl _, rfl, ?_⟩
      exact (List.append_nil _).symm
    | some width => exact absurd (hfits .unfinished List.mem_cons_self) id
  | cons c chars ih =>
    obtain ⟨hchar, hnul, hrest⟩ := htext
    rw [List.length_cons] at hshort hpasses hfuel
    have hnext : TextFrom (charAt memory format) (· + 1) state.look.advance.pos chars := hrest
    have hreach : ∀ n, n ≤ max state.look.furthest (state.pos + 1 + chars.length) →
        n ≤ max state.furthest (state.pos + (chars.length + 1)) := by
      intro n hn
      have hlook : state.look.furthest = max state.furthest state.pos := rfl
      omega
    cases mode with
    | none =>
      obtain ⟨fuel, rfl⟩ := Nat.exists_eq_succ_of_ne_zero (Nat.ne_of_gt (Nat.zero_lt_of_lt hfuel))
      by_cases hpercent : c = 0x25
      · rw [items, if_pos hpercent] at hfits hargs ⊢
        subst hpercent
        obtain ⟨passes', hmany, hloop⟩ := printfLoop_percent hchar
        rw [resume, hloop]
        have hpasses' : chars.length < passes' := by omega
        have hfuel' : chars.length < fuel := by omega
        obtain ⟨state', hrun, hfurthest, hconsumed, houtput⟩ :=
          ih hnext (by omega) hpasses' hfuel' hfits hargs
        exact ⟨state', hrun, hreach _ hfurthest, hconsumed, houtput⟩
      · rw [items, if_neg hpercent] at hfits hargs ⊢
        replace hnext : TextFrom (charAt memory format) (· + 1) (state.look.put [c]).advance.pos
          chars := hrest
        have hpasses' : chars.length < addressCount := by omega
        have hfuel' : chars.length < fuel := by omega
        obtain ⟨state', hrun, hfurthest, hconsumed, houtput⟩ :=
          ih hnext hpasses' hpasses' hfuel'
            (fun item hitem => hfits item (List.mem_cons_of_mem _ hitem)) hargs.2
        refine ⟨state', ?_, hreach _ hfurthest, ?_, ?_⟩
        · rw [resume, printfLoop_literal hchar hnul hpercent]
          exact hrun
        · rw [hconsumed, argCount_cons]
          show state.consumed + _ = state.consumed + (0 + _)
          omega
        · rw [houtput]
          exact List.append_assoc ..
    | some width =>
      obtain ⟨passes, rfl⟩ := Nat.exists_eq_succ_of_ne_zero (Nat.ne_of_gt (Nat.zero_lt_of_lt hpasses))
      by_cases hdigit : isDigit c = true
      · rw [items, if_pos hdigit] at hfits hargs ⊢
        rw [resume_digit hchar hdigit]
        have hpasses' : chars.length < passes := by omega
        have hfuel' : chars.length < fuel := by omega
        obtain ⟨state', hrun, hfurthest, hconsumed, houtput⟩ :=
          ih hnext (by omega) hpasses' hfuel' hfits hargs
        exact ⟨state', hrun, hreach _ hfurthest, hconsumed, houtput⟩
      · rw [items, if_neg hdigit] at hfits hargs ⊢
        have hlook : charAt memory format state.look.pos = c := hchar
        have hitem : (Item.conversion width c).Fits := hfits _ List.mem_cons_self
        obtain ⟨middle, hdirective, hprinted⟩ := directive_complete hlook hitem (by
          rintro rfl
          exact hargs.1 width rfl)
        obtain ⟨-, hpos, hseen, htaken⟩ := directive_sound hlook hdirective
        rw [show (Item.conversion width c).octal = 0 from if_neg hitem.1, Nat.add_zero] at htaken
        have hadvance : middle.advance.pos = state.pos + 1 := congrArg (· + 1) hpos
        have hargs' : ArgsFit memory args text (items none chars) middle.advance.consumed := by
          show ArgsFit memory args text (items none chars) middle.consumed
          rw [htaken]
          exact hargs.2
        have hpasses' : chars.length < addressCount := by omega
        have hfuel' : chars.length < fuel := by omega
        obtain ⟨state', hrun, hfurthest, hconsumed, houtput⟩ :=
          ih (by rw [hadvance]; exact hrest) hpasses' hpasses' hfuel'
            (fun item hmem => hfits item (List.mem_cons_of_mem _ hmem)) hargs'
        rw [resume_conversion hchar hdigit, hdirective]
        refine ⟨state', hrun, hreach _ ?_, ?_, ?_⟩
        · have hmiddle : middle.advance.furthest = state.look.furthest := by
            show middle.furthest = _
            rw [hseen]
            exact Nat.max_eq_left (Nat.le_max_right _ _)
          rw [hadvance, hmiddle] at hfurthest
          exact hfurthest
        · rw [hconsumed, argCount_cons]
          show middle.consumed + _ = _
          rw [htaken]
          exact Nat.add_assoc ..
        · rw [houtput]
          show middle.output ++ render args text _ middle.consumed = _
          rw [hprinted, htaken]
          exact List.append_assoc ..

end

/-! ### The whole of a format -/

/-- The format is a string in an address space. -/
def FormatString (memory : Bytes) (format : Word) (chars : List (BitVec 8)) : Prop :=
  TextFrom (charAt memory format) (· + 1) 0 chars ∧ chars.length < addressCount

/-- No directive for octal, none that the format ends in, and no width above 64 for a
number. -/
def FormatFits (chars : List (BitVec 8)) : Prop := ∀ item ∈ items none chars, item.Fits

section
variable {memory : Bytes} {format : Word} {args : Nat → Word} {text : Word → List (BitVec 8)}
variable {buffer : Int → BitVec 8} {chars : List (BitVec 8)}

/-- An item that is got through with, and takes no argument too many, fits. -/
theorem Item.fits_of_octal {item : Item} (hwidth : item.WidthFits) (hoctal : item.octal = 0) :
    item.Fits := by
  cases item with
  | literal c => trivial
  | conversion width c =>
    refine ⟨?_, hwidth⟩
    rintro rfl
    rw [Item.octal, if_pos rfl] at hoctal
    exact absurd hoctal Nat.one_ne_zero
  | unfinished => exact hwidth

theorem formatFits_of_correct (hformat : FormatString memory format chars)
    (h : PrintfCorrect memory format args text buffer chars) : FormatFits chars := by
  obtain ⟨fuel, state, hrun, hfurthest, hconsumed, -⟩ := h
  replace hrun : resume memory format args none addressCount fuel
    { pos := 0, furthest := 0, consumed := 0, output := [], buffer } = some state := hrun
  obtain ⟨hwidths, htaken⟩ := resume_sound hformat.1 hformat.2 hformat.2 hrun
    (by rw [Nat.zero_add]; exact hfurthest)
  rw [hconsumed, Nat.zero_add] at htaken
  have hnone : octalCount (items none chars) = 0 := by omega
  intro item hitem
  apply Item.fits_of_octal (hwidths item hitem)
  exact List.sum_eq_zero_iff_forall_eq_nat.mp hnone _ (List.mem_map_of_mem hitem)

theorem correct_of_formatFits (hformat : FormatString memory format chars)
    (hargs : ArgsFit memory args text (items none chars) 0) (h : FormatFits chars) :
    PrintfCorrect memory format args text buffer chars := by
  have htext : TextFrom (charAt memory format) (· + 1) (State.mk 0 0 0 [] buffer).pos chars :=
    hformat.1
  obtain ⟨state, hrun, hfurthest, hconsumed, houtput⟩ :=
    resume_complete htext hformat.2 hformat.2 (Nat.lt_succ_self _) h hargs
  refine ⟨_, state, hrun, ?_, ?_, houtput⟩
  · have hle : state.furthest ≤ max 0 (0 + chars.length) := hfurthest
    omega
  · exact hconsumed.trans (Nat.zero_add _)

end

/-- **`printf` prints what a format means just if its items fit.** -/
theorem printf_correct_iff (memory : Bytes) (format : Word) (args : Nat → Word)
    (text : Word → List (BitVec 8)) (buffer : Int → BitVec 8) (chars : List (BitVec 8))
    (hformat : FormatString memory format chars)
    (hargs : ArgsFit memory args text (items none chars) 0) :
    PrintfCorrect memory format args text buffer chars ↔ FormatFits chars :=
  ⟨formatFits_of_correct hformat, correct_of_formatFits hformat hargs⟩

/-- The characters at an address, and NULs. -/
def charsAt (addr : Word) (chars : List (BitVec 8)) : Bytes := fun x => chars.getD (x - addr).toNat 0

/-- `"%s=%3i"`, and `"ab"` behind it. -/
def assignment : Bytes := charsAt 0x1000 [0x25, 0x73, 0x3D, 0x25, 0x33, 0x69, 0, 0x61, 0x62]

/-- `printf("%s=%3i", "ab", -7)` prints `ab=-007`. -/
theorem printf_correct_assignment :
    PrintfCorrect assignment 0x1000 (fun k => [0x1007, -7].getD k 0) (fun _ => [0x61, 0x62])
      (fun _ => 0) [0x25, 0x73, 0x3D, 0x25, 0x33, 0x69] ∧
    render (fun k => [0x1007, -7].getD k 0) (fun _ => [0x61, 0x62])
      (items none [0x25, 0x73, 0x3D, 0x25, 0x33, 0x69]) 0 =
        [0x61, 0x62, 0x3D, 0x2D, 0x30, 0x30, 0x37] := by
  constructor
  · apply (printf_correct_iff _ _ _ _ _ _ _ _).mpr
    · intro item hitem
      have hcases : item = .conversion 0 0x73 ∨ item = .literal 0x3D ∨
          item = .conversion 3 0x69 := by
        simpa [items, isDigit, pushDigit] using hitem
      obtain rfl | rfl | rfl := hcases
      · exact ⟨by decide, by decide⟩
      · trivial
      · exact ⟨by decide, fun _ => by decide⟩
    · exact ⟨⟨rfl, by decide, rfl, by decide, rfl, by decide, rfl, by decide, rfl, by decide, rfl,
        by decide, rfl⟩, by decide⟩
    · refine ⟨fun width _ => ⟨⟨rfl, by decide, rfl, by decide, rfl⟩, by decide⟩, ?_, ?_, trivial⟩
      · intro width h
        cases h
      · intro width h
        exact absurd (Item.conversion.inj h).2 (by decide)
  · decide +kernel

/-- `printf("%o", 7)` takes a second argument, and prints it as well. -/
theorem printf_octal : ¬ ∀ (memory : Bytes) (format : Word) (args : Nat → Word)
    (text : Word → List (BitVec 8)) (buffer : Int → BitVec 8) (chars : List (BitVec 8)),
    FormatString memory format chars → ArgsFit memory args text (items none chars) 0 →
      PrintfCorrect memory format args text buffer chars := by
  intro hcorrect
  have hformat : FormatString (charsAt 0x1000 [0x25, 0x6F]) 0x1000 [0x25, 0x6F] :=
    ⟨⟨rfl, by decide, rfl, by decide, rfl⟩, by decide⟩
  have hargs : ArgsFit (charsAt 0x1000 [0x25, 0x6F]) (fun _ => 7) (fun _ => [])
      (items none [0x25, 0x6F]) 0 :=
    ⟨fun width h => absurd (Item.conversion.inj h).2 (by decide), trivial⟩
  have hfits := formatFits_of_correct hformat (hcorrect _ _ _ _ (fun _ => 0) _ hformat hargs)
  exact (hfits (.conversion 0 0x6F) List.mem_cons_self).1 rfl

end Printf
end QuarkKernel
