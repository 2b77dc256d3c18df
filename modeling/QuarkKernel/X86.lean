import QuarkKernel.ByteMemory

/-! # A fragment of the i386 instruction set

The instructions that save and restore registers, in AT&T order: source first.
Code runs on one stack; an access that faults ends the run with `none`.  No
instruction here reads the arithmetic flags, so they are not modelled; of the
kernel's own flags only the interrupt flag is.

An interrupt takes the registers of a user program away from the processor and
`iret` gives them back.  `UserRegisters` are the values registers can have in user
mode.  The rules at the end (`wp_push`, `wp_mov`, …) run code on a stack of known
words. -/
namespace X86

open ByteMemory

/-- A 32-bit register, address or operand. -/
abbrev Word := BitVec 32

/-- The general registers. -/
inductive Reg where
  | eax | ebx | ecx | edx | esi | edi | ebp | esp
deriving DecidableEq, Repr

/-- The data segment registers. -/
inductive DataSeg where
  | ds | es | fs | gs
deriving DecidableEq, Repr

/-- The values of the general registers. -/
structure Registers where
  eax : Word
  ebx : Word
  ecx : Word
  edx : Word
  esi : Word
  edi : Word
  ebp : Word
  esp : Word
deriving DecidableEq, Repr

namespace Registers

def get (r : Registers) : Reg → Word
  | .eax => r.eax
  | .ebx => r.ebx
  | .ecx => r.ecx
  | .edx => r.edx
  | .esi => r.esi
  | .edi => r.edi
  | .ebp => r.ebp
  | .esp => r.esp

def set (r : Registers) (w : Word) : Reg → Registers
  | .eax => { r with eax := w }
  | .ebx => { r with ebx := w }
  | .ecx => { r with ecx := w }
  | .edx => { r with edx := w }
  | .esi => { r with esi := w }
  | .edi => { r with edi := w }
  | .ebp => { r with ebp := w }
  | .esp => { r with esp := w }

end Registers

/-- Where an instruction takes a word from. -/
inductive Operand where
  | reg (r : Reg)
  | imm (w : Word)
  | mem (disp : Word) (base : Reg)
deriving DecidableEq, Repr

inductive Instr where
  | cli
  | push (src : Operand)
  | pop (dst : Reg)
  | mov (src : Operand) (dst : Reg)
  | mov16 (src : Operand) (dst : Reg)
  | movSeg (src : Reg) (dst : DataSeg)
  | add (src : Operand) (dst : Reg)
deriving DecidableEq, Repr

/-- The processor in kernel mode, and the memory it sees. -/
structure State where
  gpr : Registers
  seg : DataSeg → BitVec 16
  interruptFlag : Bool
  memory : Memory

namespace State

def read (s : State) (addr : Word) : Option Word :=
  (loadWords s.memory addr 1).map fun words => words.getD 0 0

/-- The two bytes at `addr`. -/
def read16 (s : State) (addr : Word) : Option (BitVec 16) :=
  if Present s.memory addr 2 then some ((loadWord s.memory addr).setWidth 16) else none

def write (s : State) (addr w : Word) : Option State :=
  (storeWords s.memory addr [w]).map fun memory => { s with memory }

def setReg (s : State) (w : Word) (r : Reg) : State := { s with gpr := s.gpr.set w r }

def operand (s : State) : Operand → Option Word
  | .reg r => some (s.gpr.get r)
  | .imm w => some w
  | .mem disp base => s.read (s.gpr.get base + disp)

def operand16 (s : State) : Operand → Option (BitVec 16)
  | .reg r => some ((s.gpr.get r).setWidth 16)
  | .imm w => some (w.setWidth 16)
  | .mem disp base => s.read16 (s.gpr.get base + disp)

def pushWord (s : State) (w : Word) : Option State :=
  (s.setReg (s.gpr.esp - 4) .esp).write (s.gpr.esp - 4) w

def popWord (s : State) : Option (Word × State) :=
  (s.read s.gpr.esp).map fun w => (w, s.setReg (s.gpr.esp + 4) .esp)

/-- One instruction.  What is pushed is read before the stack pointer moves. -/
def exec (s : State) : Instr → Option State
  | .cli => some { s with interruptFlag := false }
  | .push src => do s.pushWord (← s.operand src)
  | .pop dst => do
      let (w, s) ← s.popWord
      some (s.setReg w dst)
  | .mov src dst => do some (s.setReg (← s.operand src) dst)
  | .mov16 src dst => do
      let w ← s.operand16 src
      some (s.setReg ((s.gpr.get dst).extractLsb' 16 16 ++ w) dst)
  | .movSeg src dst =>
      some { s with
        seg := fun seg => if seg = dst then (s.gpr.get src).setWidth 16 else s.seg seg }
  | .add src dst => do some (s.setReg (s.gpr.get dst + (← s.operand src)) dst)

/-- A piece of code without jumps. -/
def run (s : State) : List Instr → Option State
  | [] => some s
  | i :: code => do (← s.exec i).run code

/-- The code runs, and leads to a state with `Q`. -/
def wp (s : State) (code : List Instr) (Q : State → Prop) : Prop :=
  ∃ t, s.run code = some t ∧ Q t

end State

/-! ### Interrupts -/

/-- The virtual-8086 flag. -/
def vmFlag : Nat := 17

/-- The interrupt flag. -/
def ifFlag : Nat := 9

/-- A selector of user mode: the requested privilege level is 3. -/
def IsUserSelector (selector : BitVec 16) : Prop := selector &&& 3 = 3

instance (selector : BitVec 16) : Decidable (IsUserSelector selector) :=
  inferInstanceAs (Decidable (_ = _))

/-- The registers of a program in user mode.  A program in virtual-8086 mode is
not in user mode. -/
structure UserRegisters where
  gpr : Registers
  eip : Word
  eflags : Word
  cs : BitVec 16
  ss : BitVec 16
  user_cs : IsUserSelector cs
  protected_mode : eflags.getLsbD vmFlag = false
deriving DecidableEq

/-- The words the processor pushes, in memory order.  A selector takes a word. -/
def UserRegisters.frame (u : UserRegisters) : List Word :=
  [u.eip, u.cs.setWidth 32, u.eflags, u.gpr.esp, u.ss.setWidth 32]

/-- An interrupt in user mode through an interrupt gate: the processor takes the
kernel's stack, whose top is `top`, and pushes the frame on it. -/
def interrupt (u : UserRegisters) (seg : DataSeg → BitVec 16) (memory : Memory) (top : Word) :
    Option State := do
  let s : State := ⟨u.gpr.set top .esp, seg, false, memory⟩
  let s ← s.pushWord (u.ss.setWidth 32)
  let s ← s.pushWord u.gpr.esp
  let s ← s.pushWord u.eflags
  let s ← s.pushWord (u.cs.setWidth 32)
  s.pushWord u.eip

/-- `iret` to user mode; `none` where it faults or leads elsewhere. -/
def iret (s : State) : Option UserRegisters := do
  let (eip, s) ← s.popWord
  let (cs, s) ← s.popWord
  let (eflags, s) ← s.popWord
  let (esp, s) ← s.popWord
  let (ss, s) ← s.popWord
  if h : IsUserSelector (cs.setWidth 16) ∧ eflags.getLsbD vmFlag = false then
    some ⟨s.gpr.set esp .esp, eip, eflags, cs.setWidth 16, ss.setWidth 16, h.1, h.2⟩
  else none

/-! ### Running code on a stack of known words

`wp` has one rule for each instruction.

`onStack memory top s words` is the state `s` on a stack on which `words` are, the
last pushed first, below `top`.  `memory` is what there was before, and there has
to be room for `n` words in it. -/

/-- The address of the `n`-th word below `top`. -/
def below (top : Word) (n : Nat) : Word := top - BitVec.ofNat 32 (4 * n)

/-- The state with its stack set. -/
def onStack (memory : Memory) (top : Word) (s : State) (words : List Word) : State :=
  { s with
    gpr := s.gpr.set (below top words.length) .esp
    memory := writeWords memory (below top words.length) words }

/-- `n` words can be pushed below `top`. -/
def Room (memory : Memory) (top : Word) (n : Nat) : Prop :=
  4 * n < 2 ^ 32 ∧ Present memory (below top n) (4 * n)

theorem addrAt_below (top : Word) {i n : Nat} (h : i ≤ n) :
    addrAt (below top n) (4 * i) = below top (n - i) := by
  rw [addrAt, below, below, show 4 * n = 4 * (n - i) + 4 * i by omega, BitVec.ofNat_add]
  bv_omega

theorem below_succ (top : Word) (n : Nat) : below top n - 4 = below top (n + 1) := by
  rw [below, below, Nat.mul_add, BitVec.ofNat_add]
  bv_omega

theorem Room.word {memory : Memory} {top : Word} {n i : Nat} (h : Room memory top n)
    (hi : i < n) : Present memory (below top (i + 1)) 4 := by
  have hpart := h.2
  rw [show 4 * n = 4 * (n - (i + 1)) + (4 + 4 * i) by omega, present_append,
    addrAt_below top (by omega), present_append] at hpart
  rw [show i + 1 = n - (n - (i + 1)) by omega]
  exact hpart.2.1

theorem write_below (memory : Memory) (top : Word) {words : List Word} (w : Word)
    (hlen : 4 * words.length < 2 ^ 32 - 4) :
    writeWords memory (below top (words.length + 1)) (w :: words) =
      writeWords (writeWords memory (below top words.length) words)
        (below top (words.length + 1)) [w] := by
  have happend := writeWords_append memory (below top (words.length + 1)) (l := [w]) (r := words)
    (by simp)
  rw [List.singleton_append, List.length_singleton, addrAt_below top (by omega),
    Nat.add_sub_cancel] at happend
  exact happend

variable {memory : Memory} {top : Word} {n : Nat} {s : State} {words : List Word}

theorem pushWord_onStack (hroom : Room memory top n) (hlen : words.length < n) (w : Word) :
    (onStack memory top s words).pushWord w = some (onStack memory top s (w :: words)) := by
  have hsmall := hroom.1
  have hesp : (onStack memory top s words).gpr.esp - 4 = below top (words.length + 1) :=
    below_succ top words.length
  have hpres : Present (writeWords memory (below top words.length) words)
      (below top (words.length + 1)) 4 := by
    refine (present_congr fun i hi => ?_).mpr (hroom.word hlen)
    apply writeWords_of_le
    rw [← below_succ, addrAt]
    bv_omega
  have hstore : storeWords (writeWords memory (below top words.length) words)
      (below top (words.length + 1)) [w] =
        some (writeWords memory (below top (words.length + 1)) (w :: words)) := by
    rw [storeWords, List.length_singleton, Nat.mul_one, if_pos hpres, write_below _ _ _ (by omega)]
  rw [State.pushWord, hesp, State.write]
  exact congrArg (Option.map _) hstore

/-- The words on the stack, from the last pushed on. -/
theorem loadWords_stack (memory : Memory) (top : Word) (s : State) {words : List Word}
    (hlen : 4 * words.length ≤ 2 ^ 32) (i j : Nat) (h : i + j ≤ words.length) :
    loadWords (onStack memory top s words).memory (below top (words.length - i)) j =
      some ((words.drop i).take j) := by
  have hall := loadWords_writeWords memory (below top words.length) hlen
  nth_rewrite 3 [show words.length = i + (j + (words.length - i - j)) by omega] at hall
  have hpart := loadWords_take j _ (loadWords_drop i _ hall)
  rw [addrAt_below top (by omega)] at hpart
  exact hpart

/-- A word on the stack is read at its place, counted from `top`. -/
theorem read_onStack (hlen : 4 * words.length ≤ 2 ^ 32) {i : Nat} (hi : 0 < i)
    (hle : i ≤ words.length) :
    (onStack memory top s words).read (below top i) = some (words.getD (words.length - i) 0) := by
  have hword := loadWords_stack memory top s hlen (words.length - i) 1 (by omega)
  rw [show words.length - (words.length - i) = i by omega] at hword
  rw [State.read, hword, Option.map_some, List.getD_eq_getElem?_getD,
    List.getElem?_take_of_lt (by omega), List.getElem?_drop, Nat.add_zero,
    List.getD_eq_getElem?_getD]

/-- The block is not among the `n` words below `top`. -/
def Apart (addr : Word) (size : Nat) (top : Word) (n : Nat) : Prop :=
  ∀ i, i < size → 4 * n ≤ (addrAt addr i - below top n).toNat

theorem Apart.mono {addr : Word} {size n' : Nat} (h : Apart addr size top n) (hn : n' ≤ n) :
    Apart addr size top n' := by
  intro i hi
  have hfar := h i hi
  rw [below] at hfar ⊢
  generalize addrAt addr i = x at hfar ⊢
  rw [BitVec.toNat_sub, BitVec.toNat_sub, BitVec.toNat_ofNat] at hfar ⊢
  omega

/-- Pushing leaves the rest of the memory alone. -/
theorem loadWords_onStack {addr : Word} {count : Nat} (h : Apart addr (4 * count) top n)
    (hlen : words.length ≤ n) :
    loadWords (onStack memory top s words).memory addr count = loadWords memory addr count := by
  have hapart := h.mono hlen
  apply loadWords_congr
  intro i hi
  exact writeWords_of_le (hapart i hi)

/-- Every state is on a stack on which nothing has been pushed yet. -/
theorem onStack_nil (s : State) : onStack s.memory s.gpr.esp s [] = s := by
  have htop : below s.gpr.esp 0 = s.gpr.esp := BitVec.sub_zero _
  have hmem : writeWords s.memory s.gpr.esp [] = s.memory := by
    funext x
    exact writeWords_of_le (Nat.zero_le _)
  rw [onStack, List.length_nil, htop, hmem]
  rfl

theorem get_onStack {r : Reg} (hr : r ≠ .esp) :
    (onStack memory top s words).gpr.get r = s.gpr.get r := by
  cases r <;> first | rfl | exact absurd rfl hr

theorem setReg_onStack {r : Reg} (hr : r ≠ .esp) (w : Word) :
    (onStack memory top s words).setReg w r = onStack memory top (s.setReg w r) words := by
  cases r <;> first | rfl | exact absurd rfl hr

theorem operand_onStack {r : Reg} (hr : r ≠ .esp) :
    (onStack memory top s words).operand (.reg r) = some (s.gpr.get r) := by
  rw [State.operand, get_onStack hr]

/-- A word on the stack as an operand. -/
theorem operand_mem_onStack {base : Reg} {disp : Word} (hbase : base ≠ .esp)
    (hlen : 4 * words.length ≤ 2 ^ 32) (i : Nat) (hi : 0 < i) (hle : i ≤ words.length)
    (haddr : s.gpr.get base + disp = below top i) :
    (onStack memory top s words).operand (.mem disp base) =
      some (words.getD (words.length - i) 0) := by
  rw [State.operand, get_onStack hbase, haddr, read_onStack hlen hi hle]

/-- Where a word can be read, its lower half can. -/
theorem operand16_of_operand {src : Operand} {w : Word} (h : s.operand src = some w) :
    ∃ w', s.operand16 src = some w' := by
  cases src with
  | reg r => exact ⟨_, rfl⟩
  | imm w => exact ⟨_, rfl⟩
  | mem disp base =>
    obtain ⟨words, hload, -⟩ := Option.map_eq_some_iff.mp h
    have hpres := present_of_loadWords hload
    have hhalf : Present s.memory (s.gpr.get base + disp) 2 :=
      (present_append.mp (show Present s.memory _ (2 + 2) from hpres)).1
    exact ⟨_, if_pos hhalf⟩

theorem popWord_of_loadWords (s : State) (w : Word) (words : List Word)
    (h : loadWords s.memory s.gpr.esp (words.length + 1) = some (w :: words)) :
    s.popWord = some (w, s.setReg (s.gpr.esp + 4) .esp) ∧
      loadWords s.memory (s.gpr.esp + 4) words.length = some words := by
  rw [Nat.add_comm] at h
  constructor
  · rw [State.popWord, State.read, loadWords_take 1 words.length h]
    rfl
  · exact loadWords_drop 1 words.length h

variable {code : List Instr} {Q : State → Prop}

theorem wp_nil (h : Q s) : s.wp [] Q := ⟨s, rfl, h⟩

theorem wp_cons {s s' : State} {i : Instr} (hexec : s.exec i = some s') (h : s'.wp code Q) :
    s.wp (i :: code) Q := by
  obtain ⟨t, hrun, hQ⟩ := h
  refine ⟨t, ?_, hQ⟩
  rw [State.run, hexec]
  exact hrun

theorem wp_push (hroom : Room memory top n) (hlen : words.length < n) {src : Operand} {w : Word}
    (hsrc : (onStack memory top s words).operand src = some w)
    (h : (onStack memory top s (w :: words)).wp code Q) :
    (onStack memory top s words).wp (.push src :: code) Q := by
  refine wp_cons ?_ h
  rw [State.exec, hsrc]
  exact pushWord_onStack hroom hlen w

theorem wp_mov {src : Operand} {dst : Reg} {w : Word} (hdst : dst ≠ .esp)
    (hsrc : (onStack memory top s words).operand src = some w)
    (h : (onStack memory top (s.setReg w dst) words).wp code Q) :
    (onStack memory top s words).wp (.mov src dst :: code) Q := by
  refine wp_cons ?_ h
  rw [State.exec, hsrc, ← setReg_onStack hdst]
  rfl

theorem wp_mov16 {src : Operand} {dst : Reg} {w : Word} (hdst : dst ≠ .esp)
    (hsrc : (onStack memory top s words).operand src = some w)
    (h : ∀ w', (onStack memory top (s.setReg w' dst) words).wp code Q) :
    (onStack memory top s words).wp (.mov16 src dst :: code) Q := by
  obtain ⟨half, hhalf⟩ := operand16_of_operand hsrc
  refine wp_cons ?_ (h ((s.gpr.get dst).extractLsb' 16 16 ++ half))
  rw [State.exec, hhalf, ← setReg_onStack hdst, get_onStack hdst]
  rfl

theorem wp_movSeg {src : Reg} {dst : DataSeg}
    (h : ∀ seg, (onStack memory top { s with seg } words).wp code Q) :
    (onStack memory top s words).wp (.movSeg src dst :: code) Q :=
  wp_cons rfl (h fun seg =>
    if seg = dst then ((onStack memory top s words).gpr.get src).setWidth 16 else s.seg seg)

theorem wp_add {dst : Reg} (hdst : dst ≠ .esp) {w : Word}
    (h : (onStack memory top (s.setReg (s.gpr.get dst + w) dst) words).wp code Q) :
    (onStack memory top s words).wp (.add (.imm w) dst :: code) Q := by
  refine wp_cons ?_ h
  rw [State.exec, get_onStack hdst, ← setReg_onStack hdst]
  rfl

theorem wp_pop {dst : Reg} (hdst : dst ≠ .esp) {w : Word}
    (hlen : 4 * (words.length + 1) ≤ 2 ^ 32)
    (h : ({ onStack memory top s (w :: words) with
      gpr := (s.gpr.set w dst).set (below top words.length) .esp } : State).wp code Q) :
    (onStack memory top s (w :: words)).wp (.pop dst :: code) Q := by
  have hesp : below top (words.length + 1) + 4 = below top words.length := by
    rw [← below_succ, BitVec.sub_add_cancel]
  have hall : loadWords (onStack memory top s (w :: words)).memory
      (below top (words.length + 1)) (words.length + 1) = some (w :: words) :=
    loadWords_writeWords memory _ hlen
  refine wp_cons ?_ h
  rw [State.exec, (popWord_of_loadWords (onStack memory top s (w :: words)) w words hall).1]
  rw [show (onStack memory top s (w :: words)).gpr.esp + 4 = below top words.length from hesp]
  cases dst <;> first | rfl | exact absurd rfl hdst

/-- The stack an interrupt leaves. -/
theorem interrupt_eq (u : UserRegisters) (seg : DataSeg → BitVec 16) (hroom : Room memory top n)
    (hn : 5 ≤ n) :
    interrupt u seg memory top = some (onStack memory top ⟨u.gpr, seg, false, memory⟩ u.frame) := by
  have hempty : (⟨u.gpr.set top .esp, seg, false, memory⟩ : State) =
      onStack memory top ⟨u.gpr, seg, false, memory⟩ [] := (onStack_nil _).symm
  have hpush : ∀ words : List Word, words.length < 5 → ∀ w,
      (onStack memory top ⟨u.gpr, seg, false, memory⟩ words).pushWord w =
        some (onStack memory top ⟨u.gpr, seg, false, memory⟩ (w :: words)) :=
    fun words hlen w => pushWord_onStack hroom (by omega) w
  rw [interrupt, hempty, hpush _ (by decide)]
  simp only [Option.bind_eq_bind, Option.bind_some]
  rw [hpush _ (by simp), Option.bind_some, hpush _ (by simp), Option.bind_some,
    hpush _ (by simp), Option.bind_some, hpush _ (by simp)]
  rfl

theorem loadWord_of_loadWords {addr : Word} {count : Nat}
    (h : loadWords memory addr count = some words) {i : Nat} (hi : i < count) :
    loadWords memory (addrAt addr (4 * i)) 1 = some [words.getD i 0] := by
  rw [show count = i + (1 + (count - i - 1)) by omega] at h
  have hword := loadWords_take 1 _ (loadWords_drop i _ h)
  have hlen := length_of_loadWords h
  rw [hword, List.take_one, List.head?_drop, List.getD_eq_getElem _ _ (by omega),
    List.getElem?_eq_getElem (by omega)]
  rfl

/-- A word of a block apart from the stack as an operand. -/
theorem operand_block {block : Word} {count : Nat} {base : Reg} {contents : List Word}
    (hblock : loadWords memory block count = some contents)
    (hapart : Apart block (4 * count) top n) (hbase : base ≠ .esp) (hreg : s.gpr.get base = block)
    (hlen : words.length ≤ n) (i : Nat) (hi : i < count) :
    (onStack memory top s words).operand (.mem (BitVec.ofNat 32 (4 * i)) base) =
      some (contents.getD i 0) := by
  rw [← loadWords_onStack (s := s) hapart hlen] at hblock
  rw [State.operand, get_onStack hbase, hreg, State.read]
  exact congrArg (Option.map _) (loadWord_of_loadWords hblock hi)

theorem setReg_set_esp (s : State) (w w' : Word) :
    (s.setReg w .esp).gpr.set w' .esp = s.gpr.set w' .esp := rfl

/-- **`iret` enters the program whose frame it finds.** -/
theorem iret_of_frame {u : UserRegisters}
    (h : loadWords s.memory s.gpr.esp 5 = some u.frame) :
    iret s = some { u with gpr := s.gpr.set u.gpr.esp .esp } := by
  let s1 := s.setReg (s.gpr.esp + 4) .esp
  let s2 := s1.setReg (s1.gpr.esp + 4) .esp
  let s3 := s2.setReg (s2.gpr.esp + 4) .esp
  let s4 := s3.setReg (s3.gpr.esp + 4) .esp
  have hcs16 : (u.cs.setWidth 32).setWidth 16 = u.cs := by simp
  have hss16 : (u.ss.setWidth 32).setWidth 16 = u.ss := by simp
  obtain ⟨heip, h⟩ := popWord_of_loadWords s u.eip
    [u.cs.setWidth 32, u.eflags, u.gpr.esp, u.ss.setWidth 32] h
  obtain ⟨hcs, h⟩ := popWord_of_loadWords s1 (u.cs.setWidth 32)
    [u.eflags, u.gpr.esp, u.ss.setWidth 32] h
  obtain ⟨heflags, h⟩ := popWord_of_loadWords s2 u.eflags [u.gpr.esp, u.ss.setWidth 32] h
  obtain ⟨hesp, h⟩ := popWord_of_loadWords s3 u.gpr.esp [u.ss.setWidth 32] h
  obtain ⟨hss, -⟩ := popWord_of_loadWords s4 (u.ss.setWidth 32) [] h
  have hmode : IsUserSelector ((u.cs.setWidth 32).setWidth 16) ∧ u.eflags.getLsbD vmFlag = false := by
    rw [hcs16]
    exact ⟨u.user_cs, u.protected_mode⟩
  rw [iret, heip]
  simp only [Option.bind_eq_bind, Option.bind_some]
  rw [hcs, Option.bind_some, heflags, Option.bind_some, hesp, Option.bind_some, hss,
    Option.bind_some, dif_pos hmode]
  simp only [hcs16, hss16, s1, s2, s3, s4, setReg_set_esp]

end X86
