import Mathlib.Data.BitVec
import Mathlib.Logic.Function.Basic
import QuarkKernel.Status

/-! # `x86/putc.c`

The console writes at a cursor that only `putchar` moves.  A carriage return computes
the start of the line by going back 79 columns and then on to the next multiple of 80,
which is wrong in the last column, and on the first line wraps around below 0.  As long
as none is given there the cursor stays on the screen (`putchar_run_iff`). -/
namespace QuarkKernel
namespace Console

/-- `struct cell_t` -/
structure Cell where
  c : BitVec 8
  fg : BitVec 4
  bg : BitVec 4
deriving DecidableEq, Repr

/-- `tab_width` -/
def tabWidth : Nat := 4

/-- `line_width` -/
def lineWidth : Nat := 80

/-- `line_count` -/
def lineCount : Nat := 25

/-- The number of cells that `screen` has room for, of two bytes each. -/
def screenSize : Nat := 4096 / 2

/-- The cells of `screen`, by their indices. -/
abbrev Screen := Nat → Cell

/-- What the console keeps: the cursor, the screen, and what has been sent to COM1. -/
structure State where
  cursor : Word
  screen : Screen
  com1 : List (BitVec 8)

/-- The state at boot.  The screen is the memory of the video card, with anything in it. -/
def boot (screen : Screen) : State := { cursor := 0, screen, com1 := [] }

/-- `outb(COM1, c)`, after the wait for the port. -/
def outb (state : State) (c : Word) : State :=
  { state with com1 := state.com1 ++ [c.setWidth 8] }

/-- `screen[cursor].c = c`; `none` outside of the array. -/
def setChar (screen : Screen) (cursor c : Word) : Option Screen :=
  if cursor.toNat < screenSize then
    some (Function.update screen cursor.toNat { screen cursor.toNat with c := c.setWidth 8 })
  else none

/-- The screen after `count` passes of the loop that scrolls. -/
def scrollLoop (screen : Screen) : Nat → Screen
  | 0 => screen
  | i + 1 =>
      let screen := scrollLoop screen i
      if i < (lineCount - 1) * lineWidth then
        Function.update screen i (screen (i + lineWidth))
      else
        Function.update screen i { screen i with c := 0x20 }

/-- What the case for `'\r'` makes of the cursor. -/
def carriageReturn (cursor : Word) : Word :=
  let cursor := cursor - BitVec.ofNat 32 (lineWidth - 1)
  cursor + (BitVec.ofNat 32 lineWidth - cursor % BitVec.ofNat 32 lineWidth)

/-- The `switch` of `putchar`. -/
def putcharSwitch (state : State) (c : Word) : Option State :=
  if c = 10 then
    let cursor := state.cursor + BitVec.ofNat 32 lineWidth
    some (outb { state with cursor := cursor - cursor % BitVec.ofNat 32 lineWidth } 13)
  else if c = 9 then
    let cursor := state.cursor + BitVec.ofNat 32 tabWidth
    some { state with cursor := cursor - cursor % BitVec.ofNat 32 tabWidth }
  else if c = 13 then
    some { state with cursor := carriageReturn state.cursor }
  else do
    let screen ← setChar state.screen state.cursor c
    some { state with screen, cursor := state.cursor + 1 }

/-- `putchar`; `none` is an access outside of `screen`. -/
def putchar (state : State) (c : Word) : Option State := do
  let state ← putcharSwitch (outb state c) c
  if lineCount * lineWidth ≤ state.cursor.toNat then
    some { state with
      screen := scrollLoop state.screen (lineCount * lineWidth)
      cursor := state.cursor - BitVec.ofNat 32 lineWidth }
  else some state

/-! ### What the cursor is to do -/

/-- Every line has moved up by one, and the last one has been blanked. -/
def Scrolled (screen screen' : Screen) : Prop :=
  (∀ i, i < (lineCount - 1) * lineWidth → screen' i = screen (i + lineWidth)) ∧
    (∀ i, (lineCount - 1) * lineWidth ≤ i → i < lineCount * lineWidth →
      screen' i = { screen i with c := 0x20 }) ∧
    ∀ i, lineCount * lineWidth ≤ i → screen' i = screen i

/-- Where a character should bring the cursor, if the screen had no end. -/
def destination (cursor : Nat) (c : Word) : Nat :=
  if c = 10 then (cursor / lineWidth + 1) * lineWidth
  else if c = 9 then (cursor / tabWidth + 1) * tabWidth
  else if c = 13 then cursor / lineWidth * lineWidth
  else cursor + 1

/-- What a character should leave on the screen before it scrolls. -/
def written (screen : Screen) (cursor : Nat) (c : Word) : Screen :=
  if c = 10 ∨ c = 9 ∨ c = 13 then screen
  else Function.update screen cursor { screen cursor with c := c.setWidth 8 }

/-- The loop that scrolls is entered. -/
def Scrolls (state : State) (c : Word) : Prop :=
  ∃ state', putcharSwitch (outb state c) c = some state' ∧
    lineCount * lineWidth ≤ state'.cursor.toNat

/-- The character has brought the cursor to its destination, and scrolls just if that is
below the screen. -/
def Follows (state : State) (c : Word) (state' : State) : Prop :=
  (Scrolls state c ↔ lineCount * lineWidth ≤ destination state.cursor.toNat c) ∧
  if destination state.cursor.toNat c < lineCount * lineWidth then
    state'.cursor.toNat = destination state.cursor.toNat c ∧
      state'.screen = written state.screen state.cursor.toNat c
  else
    state'.cursor.toNat + lineWidth = destination state.cursor.toNat c ∧
      Scrolled (written state.screen state.cursor.toNat c) state'.screen

/-- The cursor is on the screen before each character, and each does what it should. -/
def RunCorrect : State → List Word → Prop
  | _, [] => True
  | state, c :: chars =>
      state.cursor.toNat < lineCount * lineWidth ∧
        ∃ state', putchar state c = some state' ∧ Follows state c state' ∧ RunCorrect state' chars

/-- No carriage return is given on the first line or in the last column. -/
def ReturnsFit : State → List Word → Prop
  | _, [] => True
  | state, c :: chars =>
      (c = 13 → lineWidth ≤ state.cursor.toNat ∧
        state.cursor.toNat % lineWidth ≠ lineWidth - 1) ∧
      ∀ state', putchar state c = some state' → ReturnsFit state' chars

/-! ### Scrolling -/

theorem scrollLoop_apply (screen : Screen) {count : Nat} (hcount : count ≤ lineCount * lineWidth)
    (i : Nat) : scrollLoop screen count i =
      if i < count then
        if i < (lineCount - 1) * lineWidth then screen (i + lineWidth)
        else { screen i with c := 0x20 }
      else screen i := by
  induction count generalizing i with
  | zero => rw [scrollLoop, if_neg (Nat.not_lt_zero i)]
  | succ count ih =>
    -- what the pass reads has not been written to yet
    have hahead : scrollLoop screen count (count + lineWidth) = screen (count + lineWidth) := by
      rw [ih (by omega), if_neg (by omega)]
    have hhere : scrollLoop screen count count = screen count := by
      rw [ih (by omega), if_neg (Nat.lt_irrefl count)]
    rw [scrollLoop]
    simp only [hahead, hhere]
    by_cases hi : i = count
    · subst hi
      rw [if_pos (Nat.lt_succ_self i)]
      split
      · exact Function.update_self ..
      · exact Function.update_self ..
    · have hother : scrollLoop screen count i = if i < count + 1 then
          if i < (lineCount - 1) * lineWidth then screen (i + lineWidth)
          else { screen i with c := 0x20 }
        else screen i := by
        rw [ih (by omega)]
        simp only [show i < count ↔ i < count + 1 by omega]
      split
      · rw [Function.update_of_ne hi, hother]
      · rw [Function.update_of_ne hi, hother]

/-- **The loop scrolls.** -/
theorem scrolled_scrollLoop (screen : Screen) :
    Scrolled screen (scrollLoop screen (lineCount * lineWidth)) := by
  have hlines : (lineCount - 1) * lineWidth ≤ lineCount * lineWidth := by decide
  refine ⟨fun i hi => ?_, fun i hlow hhigh => ?_, fun i hi => ?_⟩
  · rw [scrollLoop_apply screen (Nat.le_refl _), if_pos (by omega), if_pos hi]
  · rw [scrollLoop_apply screen (Nat.le_refl _), if_pos hhigh, if_neg (by omega)]
  · rw [scrollLoop_apply screen (Nat.le_refl _), if_neg (by omega)]

/-! ### The cursor -/

section
variable {state : State} {c : Word}

/-- `x -= x % width` -/
theorem toNat_sub_umod (x : Word) {width : Nat} (hwidth : width < 2 ^ 32) :
    (x - x % BitVec.ofNat 32 width).toNat = x.toNat / width * width := by
  have hmod : (x % BitVec.ofNat 32 width).toNat = x.toNat % width := by
    rw [BitVec.toNat_umod, BitVec.toNat_ofNat, Nat.mod_eq_of_lt hwidth]
  have hle : x % BitVec.ofNat 32 width ≤ x := by
    rw [BitVec.le_def, hmod]
    exact Nat.mod_le ..
  rw [BitVec.toNat_sub_of_le hle, hmod]
  have hsplit := Nat.div_add_mod' x.toNat width
  omega

/-- What a newline and a tab make of the cursor: the next multiple of `width`. -/
theorem toNat_forward {cursor : Word} {width : Nat} (hwidth : 0 < width)
    (hroom : cursor.toNat + width < 2 ^ 32) :
    (cursor + BitVec.ofNat 32 width -
      (cursor + BitVec.ofNat 32 width) % BitVec.ofNat 32 width).toNat =
      (cursor.toNat / width + 1) * width := by
  have hadd : (cursor + BitVec.ofNat 32 width).toNat = cursor.toNat + width := by
    rw [BitVec.toNat_add, BitVec.toNat_ofNat, Nat.add_mod_mod, Nat.mod_eq_of_lt hroom]
  rw [toNat_sub_umod _ (by omega), hadd, Nat.add_div_right _ hwidth]

/-- What a carriage return makes of the cursor. -/
theorem toNat_carriageReturn (cursor : Word) : (carriageReturn cursor).toNat =
    ((cursor.toNat + (2 ^ 32 - 79)) % 2 ^ 32 +
      (80 - (cursor.toNat + (2 ^ 32 - 79)) % 2 ^ 32 % 80)) % 2 ^ 32 := by
  have hback : (cursor - 79#32).toNat = (cursor.toNat + (2 ^ 32 - 79)) % 2 ^ 32 := by
    rw [BitVec.toNat_sub, Nat.add_comm]
    rfl
  have hmod : ((cursor - 79#32) % 80#32).toNat =
      (cursor.toNat + (2 ^ 32 - 79)) % 2 ^ 32 % 80 := by
    rw [BitVec.toNat_umod, hback]
    rfl
  have hle : (cursor - 79#32) % 80#32 ≤ 80#32 := by
    rw [BitVec.le_def, hmod]
    exact Nat.le_of_lt (Nat.mod_lt _ (by decide))
  show (cursor - 79#32 + (80#32 - (cursor - 79#32) % 80#32)).toNat = _
  rw [BitVec.toNat_add, BitVec.toNat_sub_of_le hle, hback, hmod]
  rfl

/-- The condition on a carriage return, for one character. -/
def ReturnFits (state : State) (c : Word) : Prop :=
  c = 13 → lineWidth ≤ state.cursor.toNat ∧ state.cursor.toNat % lineWidth ≠ lineWidth - 1

/-- The `switch` brings the cursor to its destination. -/
theorem putcharSwitch_spec (hcursor : state.cursor.toNat < lineCount * lineWidth)
    (hfits : ReturnFits state c) :
    ∃ state', putcharSwitch (outb state c) c = some state' ∧
      state'.cursor.toNat = destination state.cursor.toNat c ∧
      state'.screen = written state.screen state.cursor.toNat c := by
  have hsmall : state.cursor.toNat < 2000 := hcursor
  unfold putcharSwitch destination written
  by_cases hnewline : c = 10
  · rw [if_pos hnewline, if_pos hnewline, if_pos (Or.inl hnewline)]
    have hroom : state.cursor.toNat + lineWidth < 2 ^ 32 := by
      rw [lineWidth]
      omega
    exact ⟨_, rfl, toNat_forward (by decide) hroom, rfl⟩
  rw [if_neg hnewline, if_neg hnewline]
  by_cases htab : c = 9
  · rw [if_pos htab, if_pos htab, if_pos (Or.inr (Or.inl htab))]
    have hroom : state.cursor.toNat + tabWidth < 2 ^ 32 := by
      rw [tabWidth]
      omega
    exact ⟨_, rfl, toNat_forward (by decide) hroom, rfl⟩
  rw [if_neg htab, if_neg htab]
  by_cases hreturn : c = 13
  · rw [if_pos hreturn, if_pos hreturn, if_pos (Or.inr (Or.inr hreturn))]
    refine ⟨_, rfl, (toNat_carriageReturn state.cursor).trans ?_, rfl⟩
    obtain ⟨hline, hcolumn⟩ := hfits hreturn
    simp only [lineWidth] at hline hcolumn ⊢
    omega
  · have hother : ¬ (c = 10 ∨ c = 9 ∨ c = 13) := by
      rintro (h | h | h)
      · exact hnewline h
      · exact htab h
      · exact hreturn h
    have hroom : (outb state c).cursor.toNat < screenSize := Nat.lt_trans hsmall (by decide)
    rw [if_neg hreturn, if_neg hreturn, if_neg hother, setChar, if_pos hroom]
    refine ⟨_, rfl, ?_, rfl⟩
    show (state.cursor + 1).toNat = state.cursor.toNat + 1
    rw [BitVec.toNat_add]
    exact Nat.mod_eq_of_lt (by show state.cursor.toNat + 1 < 2 ^ 32; omega)

/-- No destination is more than a line below the screen. -/
theorem destination_lt (hcursor : state.cursor.toNat < lineCount * lineWidth) :
    destination state.cursor.toNat c < lineCount * lineWidth + lineWidth := by
  unfold destination
  simp only [lineCount, lineWidth, tabWidth] at hcursor ⊢
  split
  · omega
  · split
    · omega
    · split
      · omega
      · omega

/-- **A character that fits** does what it should, and leaves the cursor on the screen. -/
theorem putchar_follows (hcursor : state.cursor.toNat < lineCount * lineWidth)
    (hfits : ReturnFits state c) :
    ∃ state', putchar state c = some state' ∧ Follows state c state' ∧
      state'.cursor.toNat < lineCount * lineWidth := by
  obtain ⟨middle, hswitch, hplace, hscreen⟩ := putcharSwitch_spec hcursor hfits
  have hscrolls : Scrolls state c ↔
      lineCount * lineWidth ≤ destination state.cursor.toNat c := by
    rw [← hplace]
    constructor
    · rintro ⟨middle', hswitch', hle⟩
      rw [Option.some.inj (hswitch.symm.trans hswitch')]
      exact hle
    · intro hle
      exact ⟨middle, hswitch, hle⟩
  rw [putchar, hswitch, Option.bind_eq_bind, Option.bind_some]
  unfold Follows
  by_cases hbelow : lineCount * lineWidth ≤ destination state.cursor.toNat c
  · have hlt := destination_lt (c := c) hcursor
    have hsub : (middle.cursor - BitVec.ofNat 32 lineWidth).toNat + lineWidth =
        destination state.cursor.toNat c := by
      rw [← hplace] at hbelow ⊢
      have hwidth : (BitVec.ofNat 32 lineWidth).toNat = lineWidth := rfl
      have hle : lineWidth ≤ middle.cursor.toNat :=
        Nat.le_trans (by decide : lineWidth ≤ lineCount * lineWidth) hbelow
      rw [BitVec.toNat_sub_of_le (by rw [BitVec.le_def, hwidth]; exact hle), hwidth]
      exact Nat.sub_add_cancel hle
    rw [if_pos (by rw [hplace]; exact hbelow)]
    refine ⟨_, rfl, ⟨hscrolls, ?_⟩, ?_⟩
    · rw [if_neg (Nat.not_lt_of_le hbelow)]
      exact ⟨hsub, hscreen ▸ scrolled_scrollLoop middle.screen⟩
    · show (middle.cursor - BitVec.ofNat 32 lineWidth).toNat < lineCount * lineWidth
      omega
  · rw [if_neg (by rw [hplace]; exact hbelow)]
    refine ⟨_, rfl, ⟨hscrolls, ?_⟩, ?_⟩
    · rw [if_pos (Nat.lt_of_not_le hbelow)]
      exact ⟨hplace, hscreen⟩
    · rw [hplace]
      exact Nat.lt_of_not_le hbelow

/-- Without scrolling, `putchar` leaves what the `switch` has left. -/
theorem putchar_of_not_scrolls {middle : State}
    (hswitch : putcharSwitch (outb state c) c = some middle) (h : ¬ Scrolls state c) :
    putchar state c = some middle := by
  have hbelow : ¬ lineCount * lineWidth ≤ middle.cursor.toNat := fun hle =>
    h ⟨middle, hswitch, hle⟩
  rw [putchar, hswitch, Option.bind_eq_bind, Option.bind_some, if_neg hbelow]

/-- On the first line going back wraps around, to `2 ^ 32 - 79`, which is 17 modulo 80. -/
theorem carriageReturn_first_line {n : Nat} (hn : n < 79) :
    (n + 4294967217 + (80 - (n + 4294967217) % 80)) % 2 ^ 32 ≠ n / 80 * 80 := by
  have hmod : (n + 4294967217) % 80 = (n + 17) % 80 := by
    rw [Nat.add_mod, show 4294967217 % 80 = 17 from rfl, Nat.mod_add_mod]
  rw [hmod, Nat.div_eq_of_lt (by omega)]
  rcases Nat.lt_or_ge (n + 17) 80 with hlt | hge
  · rw [Nat.mod_eq_of_lt hlt, show n + 4294967217 + (80 - (n + 17)) = 4294967280 by omega]
    decide
  · rw [show n + 4294967217 + (80 - (n + 17) % 80) = 64 + 2 ^ 32 by omega]
    decide

/-- Only where it fits does a carriage return go to the start of the line. -/
theorem fits_of_carriageReturn {cursor : Word} (hcursor : cursor.toNat < 2000)
    (h : (carriageReturn cursor).toNat = cursor.toNat / 80 * 80) :
    80 ≤ cursor.toNat ∧ cursor.toNat % 80 ≠ 79 := by
  rw [toNat_carriageReturn] at h
  rcases Nat.lt_or_ge cursor.toNat 79 with hlt | hge
  · have hback : (cursor.toNat + (2 ^ 32 - 79)) % 2 ^ 32 = cursor.toNat + 4294967217 :=
      Nat.mod_eq_of_lt (by omega)
    rw [hback] at h
    exact absurd h (carriageReturn_first_line hlt)
  · have hback : (cursor.toNat + (2 ^ 32 - 79)) % 2 ^ 32 = cursor.toNat - 79 := by omega
    have hlt : cursor.toNat - 79 + (80 - (cursor.toNat - 79) % 80) < 2 ^ 32 := by omega
    rw [hback, Nat.mod_eq_of_lt hlt] at h
    omega

/-- A carriage return that does what it should fits. -/
theorem returnFits_of_follows {state' : State} (hcursor : state.cursor.toNat < lineCount * lineWidth)
    (hputchar : putchar state c = some state') (h : Follows state c state') :
    ReturnFits state c := by
  rintro rfl
  obtain ⟨hscrolls, hfollows⟩ := h
  have hswitch : putcharSwitch (outb state 13) 13 =
      some { outb state 13 with cursor := carriageReturn state.cursor } := rfl
  have hdest : destination state.cursor.toNat 13 = state.cursor.toNat / lineWidth * lineWidth := rfl
  have hstay : destination state.cursor.toNat 13 < lineCount * lineWidth :=
    hdest ▸ Nat.lt_of_le_of_lt (Nat.div_mul_le_self _ _) hcursor
  rw [putchar_of_not_scrolls hswitch fun hs => Nat.not_lt_of_le (hscrolls.mp hs) hstay] at hputchar
  obtain rfl := Option.some.inj hputchar
  rw [if_pos hstay, hdest] at hfollows
  exact fits_of_carriageReturn hcursor hfollows.1

/-- **A run is right** just if its carriage returns fit. -/
theorem runCorrect_iff {chars : List Word} (hcursor : state.cursor.toNat < lineCount * lineWidth) :
    RunCorrect state chars ↔ ReturnsFit state chars := by
  induction chars generalizing state with
  | nil => exact Iff.rfl
  | cons c chars ih =>
    constructor
    · rintro ⟨-, state', hputchar, hfollows, hrest⟩
      have hfits := returnFits_of_follows hcursor hputchar hfollows
      obtain ⟨state'', hputchar', -, hcursor'⟩ := putchar_follows hcursor hfits
      obtain rfl := Option.some.inj (hputchar.symm.trans hputchar')
      refine ⟨hfits, fun other hother => ?_⟩
      obtain rfl := Option.some.inj (hputchar.symm.trans hother)
      exact (ih hcursor').mp hrest
    · rintro ⟨hfits, hrest⟩
      obtain ⟨state', hputchar, hfollows, hcursor'⟩ := putchar_follows hcursor hfits
      exact ⟨hcursor, state', hputchar, hfollows, (ih hcursor').mpr (hrest state' hputchar)⟩

end

/-- **The console is right on every run** that gives no carriage return on the first line or
in the last column, and on no other. -/
theorem putchar_run_iff (screen : Screen) (chars : List Word) :
    RunCorrect (boot screen) chars ↔ ReturnsFit (boot screen) chars := by
  have hcursor : (boot screen).cursor.toNat < lineCount * lineWidth :=
    (by decide : 0 < lineCount * lineWidth)
  exact runCorrect_iff hcursor

/-- A carriage return as the first character brings the cursor far below the screen. -/
theorem putchar_return_at_boot : ¬ ∀ (screen : Screen) (chars : List Word),
    RunCorrect (boot screen) chars := by
  intro hcorrect
  have hcursor : (boot fun _ => ⟨0x20, 7, 0⟩).cursor.toNat < lineCount * lineWidth := by decide
  have hfits := (runCorrect_iff hcursor).mp (hcorrect (fun _ => ⟨0x20, 7, 0⟩) [13])
  exact absurd (hfits.1 rfl).1 (by decide)

end Console
end QuarkKernel
