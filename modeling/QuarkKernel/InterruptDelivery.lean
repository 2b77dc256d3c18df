import QuarkKernel.X86

/-! # Descriptor tables and the delivery of interrupts

How a processor in protected mode gets from a program in user mode to a handler: it looks up
a gate in the interrupt descriptor table, the segment the gate names in the global
descriptor table, and the stack of that segment's level in the task state segment, and
checks all three on the way.  A check that fails is an exception (`Fault.exception`).

Segments are flat, gates and task state segments have 32 bits, and there is no local
descriptor table.  `Fault.other` stands for an access that faults, and for what is left
out.  That the processor marks a segment as accessed when it loads it is left out, too:
what it finds does not depend on the mark (`Descriptor.MayBecome`). -/
namespace X86

open ByteMemory

/-! ### Descriptors -/

/-- A segment descriptor or a gate. -/
abbrev Descriptor := BitVec 64

namespace Descriptor

def base (d : Descriptor) : Word := d.extractLsb' 56 8 ++ d.extractLsb' 16 24

def limit (d : Descriptor) : BitVec 20 := d.extractLsb' 48 4 ++ d.extractLsb' 0 16

/-- The type of a system segment or of a gate; the rights of a code or data segment. -/
def type (d : Descriptor) : BitVec 4 := d.extractLsb' 40 4

def bit (d : Descriptor) (i : Nat) : Bool := d.extractLsb' i 1 == 1

/-- A code or data segment, and not a system segment or a gate. -/
def isCodeOrData (d : Descriptor) : Bool := d.bit 44

/-- The privilege level. -/
def dpl (d : Descriptor) : BitVec 2 := d.extractLsb' 45 2

def present (d : Descriptor) : Bool := d.bit 47

/-- Operands, addresses and the stack have 32 bits. -/
def big (d : Descriptor) : Bool := d.bit 54

/-- The limit counts pages. -/
def granularity (d : Descriptor) : Bool := d.bit 55

/-- Where a gate leads to. -/
def offset (d : Descriptor) : Word := d.extractLsb' 48 16 ++ d.extractLsb' 0 16

def selector (d : Descriptor) : BitVec 16 := d.extractLsb' 16 16

def IsCode (d : Descriptor) : Prop := d.isCodeOrData = true ∧ d.type.getLsbD 3 = true

def conforming (d : Descriptor) : Bool := d.type.getLsbD 2

def IsWritable (d : Descriptor) : Prop :=
  d.isCodeOrData = true ∧ d.type.getLsbD 3 = false ∧ d.type.getLsbD 1 = true

/-- The segment is the whole of memory.  (Its data do not expand down.) -/
def IsFlat (d : Descriptor) : Prop :=
  d.base = 0 ∧ d.limit = 0xFFFFF ∧ d.granularity = true ∧ d.big = true ∧ d.conforming = false

instance (d : Descriptor) : Decidable d.IsCode := inferInstanceAs (Decidable (_ ∧ _))

instance (d : Descriptor) : Decidable d.IsWritable := inferInstanceAs (Decidable (_ ∧ _))

instance (d : Descriptor) : Decidable d.IsFlat := inferInstanceAs (Decidable (_ ∧ _))

end Descriptor

def taskGate : BitVec 4 := 5

def interruptGate : BitVec 4 := 14

def trapGate : BitVec 4 := 15

/-- A task state segment that no task uses. -/
def availableTss : BitVec 4 := 9

/-- The bit that makes it one that is in use. -/
def busyBit : Nat := 41

def Descriptor.IsGate (d : Descriptor) : Prop :=
  d.isCodeOrData = false ∧ (d.type = taskGate ∨ d.type = interruptGate ∨ d.type = trapGate)

instance (d : Descriptor) : Decidable d.IsGate := inferInstanceAs (Decidable (_ ∧ _))

/-- The bit of a code or data segment that says that it has been loaded. -/
def accessedBit : Nat := 40

/-- A code or data segment may be marked as accessed, or not; nothing else changes. -/
def Descriptor.MayBecome (d e : Descriptor) : Prop :=
  e = d ∨ d.isCodeOrData = true ∧ ∀ i, i ≠ accessedBit → e.getLsbD i = d.getLsbD i

namespace Descriptor.MayBecome
variable {d e f : Descriptor}

theorem getLsbD (h : d.MayBecome e) {i : Nat} (hi : i ≠ accessedBit) :
    e.getLsbD i = d.getLsbD i := by
  obtain rfl | ⟨-, hbits⟩ := h
  · rfl
  · exact hbits i hi

/-- Everything but the mark can be read off. -/
theorem extract (h : d.MayBecome e) {i n : Nat} (hi : i + n ≤ accessedBit ∨ accessedBit < i) :
    e.extractLsb' i n = d.extractLsb' i n := by
  refine BitVec.eq_of_getLsbD_eq fun j hj => ?_
  rw [BitVec.getLsbD_extractLsb', BitVec.getLsbD_extractLsb', h.getLsbD (by omega)]

theorem type_getLsbD (h : d.MayBecome e) {i : Nat} (hi : 0 < i) :
    e.type.getLsbD i = d.type.getLsbD i := by
  rw [type, type, BitVec.getLsbD_extractLsb', BitVec.getLsbD_extractLsb',
    h.getLsbD (by rw [accessedBit]; omega)]

theorem bit (h : d.MayBecome e) {i : Nat} (hi : accessedBit < i) : e.bit i = d.bit i := by
  rw [Descriptor.bit, Descriptor.bit, h.extract (.inr hi)]

theorem isCodeOrData (h : d.MayBecome e) : e.isCodeOrData = d.isCodeOrData := h.bit (by decide)

theorem present (h : d.MayBecome e) : e.present = d.present := h.bit (by decide)

theorem dpl (h : d.MayBecome e) : e.dpl = d.dpl := h.extract (.inr (by decide))

theorem conforming (h : d.MayBecome e) : e.conforming = d.conforming := h.type_getLsbD (by decide)

theorem isCode (h : d.MayBecome e) : e.IsCode ↔ d.IsCode := by
  rw [IsCode, IsCode, h.isCodeOrData, h.type_getLsbD (by decide)]

theorem isWritable (h : d.MayBecome e) : e.IsWritable ↔ d.IsWritable := by
  rw [IsWritable, IsWritable, h.isCodeOrData, h.type_getLsbD (i := 3) (by decide),
    h.type_getLsbD (i := 1) (by decide)]

theorem isFlat (h : d.MayBecome e) : e.IsFlat ↔ d.IsFlat := by
  have hbase : e.base = d.base := by
    rw [base, base, h.extract (.inr (by decide)), h.extract (.inl (by decide))]
  have hlimit : e.limit = d.limit := by
    rw [limit, limit, h.extract (.inr (by decide)), h.extract (.inl (by decide))]
  have hgranularity : e.granularity = d.granularity := h.bit (by decide)
  have hbig : e.big = d.big := h.bit (by decide)
  rw [IsFlat, IsFlat, hbase, hlimit, hgranularity, hbig, h.conforming]

/-- What is no code or data segment stays as it is. -/
theorem eq_of_system (h : d.MayBecome e) (hsystem : d.isCodeOrData = false) : e = d := by
  obtain rfl | ⟨hcode, -⟩ := h
  · rfl
  · rw [hsystem] at hcode
    cases hcode

theorem trans (h : d.MayBecome e) (h' : e.MayBecome f) : d.MayBecome f := by
  obtain rfl | ⟨hcode, hbits⟩ := h
  · exact h'
  · exact .inr ⟨hcode, fun i hi => (h'.getLsbD hi).trans (hbits i hi)⟩

end Descriptor.MayBecome

/-! ### Selectors -/

/-- The place of a selector's descriptor in its table. -/
def selectorIndex (selector : BitVec 16) : Nat := selector.toNat / 8

def IsNullSelector (selector : BitVec 16) : Prop := selector.toNat < 4

/-- The selector is one of the local table. -/
def IsLocalSelector (selector : BitVec 16) : Prop := selector.getLsbD 2 = true

/-- The requested privilege level. -/
def selectorLevel (selector : BitVec 16) : BitVec 2 := selector.extractLsb' 0 2

instance (selector : BitVec 16) : Decidable (IsNullSelector selector) :=
  inferInstanceAs (Decidable (_ < _))

instance (selector : BitVec 16) : Decidable (IsLocalSelector selector) :=
  inferInstanceAs (Decidable (_ = _))

theorem selectorLevel_eq (selector : BitVec 16) :
    (selectorLevel selector).toNat = selector.toNat % 4 := by
  rw [selectorLevel, BitVec.extractLsb'_toNat, Nat.shiftRight_zero]

theorem isLocalSelector_iff (selector : BitVec 16) :
    IsLocalSelector selector ↔ selector.toNat / 4 % 2 = 1 := by
  rw [IsLocalSelector, BitVec.getLsbD, Nat.testBit_eq_decide_div_mod_eq, decide_eq_true_iff]

theorem isUserSelector_iff (selector : BitVec 16) :
    IsUserSelector selector ↔ selectorLevel selector = 3 := by
  rw [IsUserSelector, BitVec.toNat_eq, BitVec.toNat_and, BitVec.toNat_eq, selectorLevel_eq]
  exact Iff.of_eq (congrArg (· = 3) (Nat.and_two_pow_sub_one_eq_mod selector.toNat 2))

/-! ### Registers and tables -/

/-- Where a table is, and the offset of its last byte. -/
structure TableRegister where
  base : Word
  limit : BitVec 16
deriving DecidableEq, Repr

namespace TableRegister

/-- Place `i` is in the table. -/
def Holds (t : TableRegister) (i : Nat) : Prop := 8 * i + 7 ≤ t.limit.toNat

instance (t : TableRegister) (i : Nat) : Decidable (t.Holds i) :=
  inferInstanceAs (Decidable (_ ≤ _))

def fetch (t : TableRegister) (memory : Memory) (i : Nat) : Option Descriptor :=
  (loadWords memory (addrAt t.base (8 * i)) 2).map fun words => words.getD 1 0 ++ words.getD 0 0

end TableRegister

/-- The task register, with what it keeps of the descriptor. -/
structure TaskRegister where
  selector : BitVec 16
  base : Word
  limit : Word
deriving DecidableEq, Repr

structure SystemRegisters where
  gdtr : TableRegister
  idtr : TableRegister
  tr : TaskRegister
deriving DecidableEq, Repr

/-- What a task state segment gives a task. -/
structure Task where
  cr3 : Word
  eip : Word
  eflags : Word
  gpr : Registers
  es : BitVec 16
  cs : BitVec 16
  ss : BitVec 16
  ds : BitVec 16
  fs : BitVec 16
  gs : BitVec 16
deriving DecidableEq, Repr

/-- The task in the words of a task state segment. -/
def Task.ofWords (words : List Word) : Task :=
  let word := fun i => words.getD i 0
  let selector := fun i => (words.getD i 0).setWidth 16
  { cr3 := word 7
    eip := word 8
    eflags := word 9
    gpr := ⟨word 10, word 13, word 11, word 12, word 16, word 17, word 15, word 14⟩
    es := selector 18
    cs := selector 19
    ss := selector 20
    ds := selector 21
    fs := selector 22
    gs := selector 23 }

/-! ### Tables in memory -/

/-- The words of a table. -/
def tableWords (table : List Descriptor) : List Word :=
  table.flatMap fun d => [d.extractLsb' 0 32, d.extractLsb' 32 32]

@[simp] theorem length_tableWords (table : List Descriptor) :
    (tableWords table).length = 2 * table.length := by
  simp [tableWords, Nat.mul_comm]

/-- A table is read entry by entry. -/
theorem loadWords_entry {memory : Memory} {base : Word} {table : List Descriptor}
    (h : loadWords memory base (2 * table.length) = some (tableWords table)) {i : Nat}
    (hi : i < table.length) :
    loadWords memory (addrAt base (8 * i)) 2 =
      some [(table.getD i 0).extractLsb' 0 32, (table.getD i 0).extractLsb' 32 32] := by
  induction table generalizing base i with
  | nil => simp at hi
  | cons d table ih =>
    rw [List.length_cons, Nat.mul_add, Nat.add_comm] at h
    cases i with
    | zero =>
      rw [Nat.mul_zero, addrAt, BitVec.add_zero]
      exact loadWords_take 2 _ h
    | succ i =>
      have hrest := ih (loadWords_drop 2 _ h) (Nat.lt_of_succ_lt_succ hi)
      rw [addrAt_addrAt, show 4 * 2 + 8 * i = 8 * (i + 1) by omega] at hrest
      exact hrest

namespace TableRegister
variable {t : TableRegister} {memory : Memory} {table : List Descriptor} {i : Nat}

/-- Bit `j` of an entry is in byte `j / 8` of its place. -/
theorem fetch_eq_some {d : Descriptor} : t.fetch memory i = some d ↔
    Present memory (addrAt t.base (8 * i)) 8 ∧ ∀ j, j < 64 →
      d.getLsbD j = ((memory (addrAt t.base (8 * i + j / 8))).getD 0).getLsbD (j % 8) := by
  have hbits : ∀ j, j < 64 → (loadWord memory (addrAt (addrAt t.base (8 * i)) (4 * 1)) ++
      loadWord memory (addrAt (addrAt t.base (8 * i)) (4 * 0))).getLsbD j =
        ((memory (addrAt t.base (8 * i + j / 8))).getD 0).getLsbD (j % 8) := by
    intro j hj
    rw [BitVec.getLsbD_append]
    split
    · rename_i hlow
      rw [getLsbD_loadWord _ _ hlow, addrAt_addrAt, addrAt_addrAt,
        show 8 * i + (4 * 0 + j / 8) = 8 * i + j / 8 by omega]
    · rename_i hhigh
      rw [getLsbD_loadWord _ _ (by omega), addrAt_addrAt, addrAt_addrAt,
        show 8 * i + (4 * 1 + (j - 32) / 8) = 8 * i + j / 8 by omega,
        show (j - 32) % 8 = j % 8 by omega]
  rw [fetch, loadWords]
  constructor
  · intro h
    split at h
    · rename_i hpresent
      obtain rfl := Option.some.inj h
      exact ⟨hpresent, hbits⟩
    · cases h
  · rintro ⟨hpresent, hd⟩
    rw [if_pos hpresent]
    refine congrArg some (BitVec.eq_of_getLsbD_eq fun j hj => ?_)
    rw [hd j hj]
    exact hbits j hj

theorem exists_fetch (h : Present memory (addrAt t.base (8 * i)) 8) :
    ∃ d, t.fetch memory i = some d := by
  rw [fetch, loadWords, if_pos h]
  exact ⟨_, rfl⟩

theorem fetch_of_loadWords
    (h : loadWords memory t.base (2 * table.length) = some (tableWords table))
    (hi : i < table.length) : t.fetch memory i = some (table.getD i 0) := by
  rw [fetch, loadWords_entry h hi, Option.map_some]
  exact congrArg some BitVec.extractLsb'_append_extractLsb'

end TableRegister

/-- Part of a block is replaced. -/
theorem loadWords_replace {memory : Memory} {base : Word} {pre mid mid' post : List Word}
    (h : loadWords memory base (pre.length + (mid.length + post.length)) =
      some (pre ++ (mid ++ post)))
    (hsame : mid'.length = mid.length) (hlen : 4 * (pre.length + mid.length) < 2 ^ 32)
    (hpost : 4 * (pre.length + (mid.length + post.length)) ≤ 2 ^ 32) :
    loadWords (writeWords memory (addrAt base (4 * pre.length)) mid') base
      (pre.length + (mid.length + post.length)) = some (pre ++ (mid' ++ post)) := by
  have hpre : loadWords (writeWords memory (addrAt base (4 * pre.length)) mid') base pre.length =
      some pre := by
    have hold := loadWords_take pre.length _ h
    rw [List.take_left] at hold
    rw [← hold]
    refine loadWords_congr fun i hi => writeWords_of_le ?_
    rw [sub_addrAt base _ (by omega), addrAt_sub base (by omega), if_neg (by omega)]
    omega
  have hrest := loadWords_drop pre.length _ h
  rw [List.drop_left] at hrest
  have hmid : loadWords (writeWords memory (addrAt base (4 * pre.length)) mid')
      (addrAt base (4 * pre.length)) mid.length = some mid' := by
    rw [← hsame]
    exact loadWords_writeWords memory _ (by omega)
  have hlast : loadWords (writeWords memory (addrAt base (4 * pre.length)) mid')
      (addrAt (addrAt base (4 * pre.length)) (4 * mid.length)) post.length = some post := by
    have hold := loadWords_drop mid.length _ hrest
    rw [List.drop_left] at hold
    rw [← hold]
    refine loadWords_congr fun i hi => writeWords_of_le ?_
    rw [addrAt_addrAt, addrAt_sub _ (by omega)]
    omega
  rw [loadWords_append, hpre, Option.bind_some, loadWords_append, hmid, Option.bind_some, hlast]
  rfl

/-- An entry of a table is replaced. -/
theorem loadWords_setEntry {memory : Memory} {base : Word} {table : List Descriptor} {i : Nat}
    (h : loadWords memory base (2 * table.length) = some (tableWords table))
    (hi : i < table.length) (hlen : 8 * table.length < 2 ^ 32) (d : Descriptor) :
    loadWords (writeWords memory (addrAt base (8 * i)) (tableWords [d])) base (2 * table.length) =
      some (tableWords (table.set i d)) := by
  have hsplit : ∀ d' : Descriptor, tableWords (table.take i ++ d' :: table.drop (i + 1)) =
      tableWords (table.take i) ++ (tableWords [d'] ++ tableWords (table.drop (i + 1))) := by
    intro d'
    simp [tableWords]
  have hlength : (tableWords (table.take i)).length +
      ((tableWords [table[i]]).length + (tableWords (table.drop (i + 1))).length) =
        2 * table.length := by
    simp
    omega
  have hpre : 4 * (tableWords (table.take i)).length = 8 * i := by
    simp
    omega
  rw [List.set_eq_take_append_cons_drop, if_pos hi, hsplit, ← hlength, ← hpre]
  refine loadWords_replace ?_ (by simp) ?_ ?_
  · rw [hlength, h, ← hsplit, List.getElem_cons_drop hi, List.take_append_drop]
  · simp
    omega
  · omega

/-- The `n` bytes from `a` on are not among the `m` bytes from `b` on. -/
def Separate (a : Word) (n : Nat) (b : Word) (m : Nat) : Prop :=
  ∀ i, i < n → m ≤ (addrAt a i - b).toNat

theorem loadWords_storeWords_of_separate {memory memory' : Memory} {a b : Word} {n : Nat}
    {words : List Word} (h : storeWords memory b words = some memory')
    (hapart : Separate a (4 * n) b (4 * words.length)) :
    loadWords memory' a n = loadWords memory a n := by
  rw [storeWords] at h
  split at h
  · obtain rfl := Option.some.inj h
    exact loadWords_congr fun i hi => writeWords_of_le (hapart i hi)
  · cases h

theorem separate_of_le {a b : Word} {n m : Nat} (ha : a.toNat + n ≤ 2 ^ 32)
    (hb : b.toNat + m ≤ 2 ^ 32) (h : a.toNat + n ≤ b.toNat ∨ b.toNat + m ≤ a.toNat) :
    Separate a n b m := by
  intro i hi
  rw [addrAt, BitVec.toNat_sub, BitVec.toNat_add, BitVec.toNat_ofNat]
  omega

/-- Bytes that can be written are written, and none goes. -/
theorem exists_storeWords {memory : Memory} {a : Word} {words : List Word}
    (h : Present memory a (4 * words.length)) :
    ∃ memory', storeWords memory a words = some memory' ∧
      ∀ x, (memory x).isSome → (memory' x).isSome :=
  ⟨_, if_pos h, fun _ hx => isSome_writeWords hx a words⟩

/-! ### Checks -/

inductive Fault where
  | exception (vector : BitVec 8) (code : Word)
  | other
deriving DecidableEq, Repr

/-- An exception unless `c`. -/
def check (c : Prop) [Decidable c] (vector : BitVec 8) (code : Word) : Except Fault Unit :=
  if c then .ok () else .error (.exception vector code)

/-- What is left out unless `c`. -/
def require (c : Prop) [Decidable c] : Except Fault Unit := if c then .ok () else .error .other

def access {α : Type} : Option α → Except Fault α
  | some a => .ok a
  | none => .error .other

section
variable {c : Prop} [Decidable c] {vector : BitVec 8} {code : Word} {α : Type}

@[simp] theorem check_of (h : c) : check c vector code = .ok () := if_pos h

@[simp] theorem check_of_not (h : ¬ c) :
    check c vector code = .error (.exception vector code) := if_neg h

@[simp] theorem require_of (h : c) : require c = .ok () := if_pos h

@[simp] theorem ok_bind {β : Type} (a : α) (f : α → Except Fault β) : (.ok a >>= f) = f a := rfl

@[simp] theorem pure_eq_ok (a : α) : (pure a : Except Fault α) = .ok a := rfl

@[simp] theorem access_some (a : α) : access (some a) = .ok a := rfl

theorem check_eq_ok {a : Unit} : check c vector code = .ok a ↔ c := by
  by_cases h : c <;> simp [h]

theorem require_eq_ok {a : Unit} : require c = .ok a ↔ c := by
  by_cases h : c <;> simp [require, h]

theorem access_eq_ok {o : Option α} {a : α} : access o = .ok a ↔ o = some a := by
  cases o <;> simp [access]

theorem bind_eq_ok {β : Type} {x : Except Fault α} {f : α → Except Fault β} {b : β} :
    (x >>= f) = .ok b ↔ ∃ a, x = .ok a ∧ f a = .ok b := by
  cases x with
  | error e => exact ⟨nofun, nofun⟩
  | ok a => simp

end

/-! ### Delivery -/

/-- An `int` instruction, or anything else, which may come with an error code. -/
inductive Cause where
  | software
  | hardware (error : Option Word)
deriving DecidableEq, Repr

namespace Cause

/-- The bit of an error code that says that no instruction asked for the interrupt. -/
def external : Cause → Word
  | .software => 0
  | .hardware _ => 1

def error : Cause → Option Word
  | .software => none
  | .hardware error => error

end Cause

/-- The error code that names a gate. -/
def gateCode (vector : BitVec 8) (cause : Cause) : Word :=
  8 * vector.setWidth 32 + 2 + cause.external

/-- The error code that names a selector. -/
def selectorCode (selector : BitVec 16) (cause : Cause) : Word :=
  (selector &&& 0xFFFC).setWidth 32 + cause.external

/-- A handler is entered. -/
structure Handler where
  eip : Word
  cs : BitVec 16
  ss : BitVec 16
  state : State

inductive Entry where
  | handler (h : Handler)
  | task (t : Task)

namespace SystemRegisters
variable (r : SystemRegisters) (memory : Memory)

/-- The gate of a vector.  Programs may not use all of them. -/
def gate (vector : BitVec 8) (cause : Cause) : Except Fault Descriptor := do
  check (r.idtr.Holds vector.toNat) 13 (gateCode vector cause)
  let gate ← access (r.idtr.fetch memory vector.toNat)
  check gate.IsGate 13 (gateCode vector cause)
  check (cause = .software → gate.dpl = 3) 13 (gateCode vector cause)
  check (gate.present = true) 11 (gateCode vector cause)
  return gate

/-- The descriptor of a selector; `vector` is the exception if there is none. -/
def segment (selector : BitVec 16) (vector : BitVec 8) (cause : Cause) :
    Except Fault Descriptor := do
  check (¬ IsNullSelector selector) vector cause.external
  require (¬ IsLocalSelector selector)
  check (r.gdtr.Holds (selectorIndex selector)) vector (selectorCode selector cause)
  access (r.gdtr.fetch memory (selectorIndex selector))

/-- The stack of a privilege level: its selector and its top. -/
def stack (level : BitVec 2) (cause : Cause) : Except Fault (BitVec 16 × Word) := do
  check (8 * level.toNat + 9 ≤ r.tr.limit.toNat) 10 (selectorCode r.tr.selector cause)
  let words ← access (loadWords memory (addrAt r.tr.base (8 * level.toNat + 4)) 2)
  let selector := (words.getD 1 0).setWidth 16
  let stack ← r.segment memory selector 10 cause
  check (selectorLevel selector = level ∧ stack.dpl = level ∧ stack.IsWritable) 10
    (selectorCode selector cause)
  check (stack.present = true) 12 (selectorCode selector cause)
  require stack.IsFlat
  return (selector, words.getD 0 0)

/-- The task of a task gate, before the selectors in it are looked up. -/
def task (selector : BitVec 16) (cause : Cause) : Except Fault Task := do
  check (¬ IsLocalSelector selector) 13 (selectorCode selector cause)
  check (r.gdtr.Holds (selectorIndex selector)) 13 (selectorCode selector cause)
  let tss ← access (r.gdtr.fetch memory (selectorIndex selector))
  check (tss.isCodeOrData = false ∧ tss.type = availableTss) 13 (selectorCode selector cause)
  check (tss.present = true) 11 (selectorCode selector cause)
  require (tss.granularity = false)
  check (103 ≤ tss.limit.toNat) 10 (selectorCode selector cause)
  return Task.ofWords (← access (loadWords memory tss.base 26))

/-- Enter the handler of an interrupt gate or a trap gate. -/
def enter (gate : Descriptor) (u : UserRegisters) (seg : DataSeg → BitVec 16) (cause : Cause) :
    Except Fault Handler := do
  let code ← r.segment memory gate.selector 13 cause
  check code.IsCode 13 (selectorCode gate.selector cause)
  check (code.present = true) 11 (selectorCode gate.selector cause)
  require (code.IsFlat ∧ code.dpl ≠ 3)
  let (ss, top) ← r.stack memory code.dpl cause
  let s ← access (interrupt u seg memory top)
  let s := if gate.type = trapGate then { s with interruptFlag := u.eflags.getLsbD ifFlag } else s
  let s ← access (cause.error.elim (some s) s.pushWord)
  return ⟨gate.offset, gate.selector.extractLsb' 2 14 ++ code.dpl, ss, s⟩

/-- An interrupt while a program runs. -/
def deliver (u : UserRegisters) (seg : DataSeg → BitVec 16) (vector : BitVec 8) (cause : Cause) :
    Except Fault Entry := do
  let gate ← r.gate memory vector cause
  if gate.type = taskGate then .task <$> r.task memory gate.selector cause
  else .handler <$> r.enter memory gate u seg cause

/-- An interrupt that is an exception in turn is delivered as that exception. -/
def handle (u : UserRegisters) (seg : DataSeg → BitVec 16) (vector : BitVec 8) (cause : Cause) :
    Except Fault Entry :=
  match r.deliver memory u seg vector cause with
  | .error (.exception vector' code) => r.deliver memory u seg vector' (.hardware (some code))
  | result => result

/-- `ltr`, which marks the descriptor as one in use. -/
def loadTaskRegister (selector : BitVec 16) : Except Fault (SystemRegisters × Memory) := do
  let tss ← r.segment memory selector 13 .software
  check (tss.isCodeOrData = false ∧ tss.type = availableTss) 13 (selectorCode selector .software)
  check (tss.present = true) 11 (selectorCode selector .software)
  require (tss.granularity = false)
  let memory ← access (storeWords memory (addrAt r.gdtr.base (8 * selectorIndex selector))
    (tableWords [tss ||| (1 : Descriptor) <<< busyBit]))
  return ({ r with tr := ⟨selector, tss.base, tss.limit.setWidth 32⟩ }, memory)

/-- What `iret` asks of the selectors it returns to user mode with. -/
def checkReturn (cs ss : BitVec 16) : Except Fault Unit := do
  let code ← r.segment memory cs 13 .software
  check (code.IsCode ∧ code.dpl ≤ selectorLevel cs ∧
    (code.conforming = false → code.dpl = selectorLevel cs)) 13 (selectorCode cs .software)
  check (code.present = true) 11 (selectorCode cs .software)
  let stack ← r.segment memory ss 13 .software
  check (selectorLevel ss = selectorLevel cs ∧ stack.IsWritable ∧ stack.dpl = selectorLevel cs) 13
    (selectorCode ss .software)
  check (stack.present = true) 12 (selectorCode ss .software)

end SystemRegisters

/-! ### Entering a handler -/

theorem Room.mono {memory : Memory} {top : Word} {n m : Nat} (h : Room memory top n)
    (hm : m ≤ n) : Room memory top m := by
  have hsmall := h.1
  have hpart := h.2
  rw [show 4 * n = 4 * (n - m) + 4 * m by omega, present_append, addrAt_below top (by omega),
    Nat.sub_sub_self hm] at hpart
  exact ⟨by omega, hpart.2⟩

/-- The words on the kernel's stack when a handler is entered. -/
def entryWords (u : UserRegisters) (cause : Cause) : List Word := cause.error.toList ++ u.frame

/-- The state in which a handler is entered; a trap gate keeps the interrupt flag. -/
def entryState (trap : Bool) (u : UserRegisters) (seg : DataSeg → BitVec 16) (memory : Memory)
    (top : Word) (cause : Cause) : State :=
  onStack memory top ⟨u.gpr, seg, trap && u.eflags.getLsbD ifFlag, memory⟩ (entryWords u cause)

namespace SystemRegisters
variable {r : SystemRegisters} {memory : Memory} {selector cs ss : BitVec 16} {d gate : Descriptor}
  {top : Word} {vector : BitVec 8} {cause : Cause} {u : UserRegisters} {seg : DataSeg → BitVec 16}
  {trap : Bool}

/-- The descriptor of a selector of the global table. -/
structure Finds (r : SystemRegisters) (memory : Memory) (selector : BitVec 16) (d : Descriptor) :
    Prop where
  notNull : ¬ IsNullSelector selector
  notLocal : ¬ IsLocalSelector selector
  holds : r.gdtr.Holds (selectorIndex selector)
  fetch : r.gdtr.fetch memory (selectorIndex selector) = some d

theorem segment_eq_ok :
    r.segment memory selector vector cause = .ok d ↔ r.Finds memory selector d := by
  simp only [SystemRegisters.segment, bind_eq_ok, check_eq_ok, require_eq_ok, access_eq_ok]
  constructor
  · rintro ⟨-, hnull, -, hlocal, -, hholds, hfetch⟩
    exact ⟨hnull, hlocal, hholds, hfetch⟩
  · rintro ⟨hnull, hlocal, hholds, hfetch⟩
    exact ⟨(), hnull, (), hlocal, (), hholds, hfetch⟩

theorem checkReturn_eq_ok : r.checkReturn memory cs ss = .ok () ↔
    (∃ d, r.Finds memory cs d ∧ d.IsCode ∧ d.dpl ≤ selectorLevel cs ∧
      (d.conforming = false → d.dpl = selectorLevel cs) ∧ d.present = true) ∧
    ∃ d, r.Finds memory ss d ∧ selectorLevel ss = selectorLevel cs ∧ d.IsWritable ∧
      d.dpl = selectorLevel cs ∧ d.present = true := by
  simp only [checkReturn, bind_eq_ok, check_eq_ok, segment_eq_ok]
  constructor
  · rintro ⟨d, hcs, -, ⟨hcode, hle, hlevel⟩, -, hpresent, d', hss, -, ⟨hsame, hw, hdpl⟩, hp⟩
    exact ⟨⟨d, hcs, hcode, hle, hlevel, hpresent⟩, d', hss, hsame, hw, hdpl, hp⟩
  · rintro ⟨⟨d, hcs, hcode, hle, hlevel, hpresent⟩, d', hss, hsame, hw, hdpl, hp⟩
    exact ⟨d, hcs, (), ⟨hcode, hle, hlevel⟩, (), hpresent, d', hss, (), ⟨hsame, hw, hdpl⟩, hp⟩

theorem Finds.loadTaskRegister_eq (h : r.Finds memory selector d)
    (htss : d.isCodeOrData = false ∧ d.type = availableTss) (hpresent : d.present = true)
    (hbytes : d.granularity = false) : r.loadTaskRegister memory selector = (do
      let memory ← access (storeWords memory (addrAt r.gdtr.base (8 * selectorIndex selector))
        (tableWords [d ||| (1 : Descriptor) <<< busyBit]))
      return ({ r with tr := ⟨selector, d.base, d.limit.setWidth 32⟩ }, memory)) := by
  rw [SystemRegisters.loadTaskRegister, segment_eq_ok.mpr h]
  simp only [ok_bind, check_of htss, check_of hpresent, require_of hbytes]

/-- The tables say how level 0 is entered: the segment of its code, and its stack. -/
structure EntersKernel (r : SystemRegisters) (memory : Memory) (cs ss : BitVec 16) (top : Word) :
    Prop where
  code : ∃ d, r.Finds memory cs d ∧ d.IsCode ∧ d.present = true ∧ d.IsFlat ∧ d.dpl = 0
  stack : ∃ d, r.Finds memory ss d ∧ d.IsWritable ∧ d.present = true ∧ d.IsFlat ∧ d.dpl = 0
  level : selectorLevel cs = 0 ∧ selectorLevel ss = 0
  limit : 9 ≤ r.tr.limit.toNat
  top : ∃ upper : BitVec 16, loadWords memory (addrAt r.tr.base 4) 2 = some [top, upper ++ ss]

theorem EntersKernel.stack_eq (h : r.EntersKernel memory cs ss top) :
    r.stack memory 0 cause = .ok (ss, top) := by
  obtain ⟨d, hfinds, hwritable, hpresent, hflat, hdpl⟩ := h.stack
  obtain ⟨upper, hwords⟩ := h.top
  have hss : (upper ++ ss).setWidth 16 = ss := BitVec.setWidth_append_eq_right
  have hlimit : 8 * (0 : BitVec 2).toNat + 9 ≤ r.tr.limit.toNat := h.limit
  have hload : loadWords memory (addrAt r.tr.base (8 * (0 : BitVec 2).toNat + 4)) 2 =
      some [top, upper ++ ss] := hwords
  rw [SystemRegisters.stack, check_of hlimit, hload]
  simp only [access_some, ok_bind, List.getD_cons_succ, List.getD_cons_zero, hss,
    segment_eq_ok.mpr hfinds, check_of hpresent, require_of hflat,
    check_of (⟨h.level.2, hdpl, hwritable⟩ : selectorLevel ss = 0 ∧ d.dpl = 0 ∧ d.IsWritable)]
  rfl

/-- The error code comes last. -/
theorem pushError (u : UserRegisters) (hroom : Room memory top 6) (s : State) (cause : Cause) :
    cause.error.elim (some (onStack memory top s u.frame)) (onStack memory top s u.frame).pushWord =
      some (onStack memory top s (entryWords u cause)) := by
  rw [entryWords]
  cases cause.error with
  | none => rfl
  | some code => exact pushWord_onStack hroom (show u.frame.length < 6 from Nat.lt_succ_self 5) code

theorem EntersKernel.enter_eq (h : r.EntersKernel memory cs ss top) (hgate : gate.selector = cs)
    (hroom : Room memory top 6) : r.enter memory gate u seg cause =
      .ok ⟨gate.offset, cs, ss, entryState (gate.type == trapGate) u seg memory top cause⟩ := by
  obtain ⟨d, hfinds, hcode, hpresent, hflat, hdpl⟩ := h.code
  have hflag : (if gate.type = trapGate then
      { onStack memory top ⟨u.gpr, seg, false, memory⟩ u.frame with
        interruptFlag := u.eflags.getLsbD ifFlag }
      else onStack memory top ⟨u.gpr, seg, false, memory⟩ u.frame) =
      onStack memory top ⟨u.gpr, seg, gate.type == trapGate && u.eflags.getLsbD ifFlag, memory⟩
        u.frame := by
    by_cases htrap : gate.type = trapGate
    · rw [if_pos htrap, beq_iff_eq.mpr htrap, Bool.true_and]
      rfl
    · rw [if_neg htrap, beq_eq_false_iff_ne.mpr htrap, Bool.false_and]
  have hcs : (cs.extractLsb' 2 14 ++ (0 : BitVec 2) : BitVec 16) = cs := by
    rw [← h.level.1]
    exact BitVec.extractLsb'_append_extractLsb'
  rw [SystemRegisters.enter, hgate, segment_eq_ok.mpr hfinds]
  simp only [ok_bind, check_of hcode, check_of hpresent, hdpl, h.stack_eq,
    require_of (⟨hflat, by decide⟩ : d.IsFlat ∧ (0 : BitVec 2) ≠ 3),
    interrupt_eq u seg hroom (by decide), access_some, hflag, pushError u hroom, hcs]
  rfl

/-- The gate of a vector, as it is in its table. -/
structure Gates (r : SystemRegisters) (memory : Memory) (vector : BitVec 8) (gate : Descriptor) :
    Prop where
  holds : r.idtr.Holds vector.toNat
  fetch : r.idtr.fetch memory vector.toNat = some gate
  isGate : gate.IsGate
  present : gate.present = true

theorem Gates.gate_eq (h : r.Gates memory vector gate) (hcause : cause = .software → gate.dpl = 3) :
    r.gate memory vector cause = .ok gate := by
  rw [SystemRegisters.gate, check_of h.holds, h.fetch]
  simp only [ok_bind, access_some, check_of h.isGate, check_of hcause, check_of h.present]
  rfl

/-- **Delivery.**  Through an interrupt gate or a trap gate to level 0. -/
theorem Gates.deliver_eq (h : r.Gates memory vector gate) (htype : gate.type ≠ taskGate)
    (hcause : cause = .software → gate.dpl = 3) (hkernel : r.EntersKernel memory cs ss top)
    (hgate : gate.selector = cs) (hroom : Room memory top 6) :
    r.deliver memory u seg vector cause =
      .ok (.handler ⟨gate.offset, cs, ss,
        entryState (gate.type == trapGate) u seg memory top cause⟩) := by
  rw [SystemRegisters.deliver, h.gate_eq hcause, ok_bind, if_neg htype,
    hkernel.enter_eq hgate hroom]
  rfl

/-- An `int` instruction may not use the gate. -/
theorem Gates.deliver_software (h : r.Gates memory vector gate) (hdpl : gate.dpl ≠ 3) :
    r.deliver memory u seg vector .software =
      .error (.exception 13 (gateCode vector .software)) := by
  have hdenied : ¬ (True → gate.dpl = 3) := fun hc => hdpl (hc trivial)
  rw [SystemRegisters.deliver, SystemRegisters.gate, check_of h.holds, h.fetch]
  simp only [ok_bind, access_some, check_of h.isGate]
  rw [check_of_not hdenied]
  rfl

/-- Through a task gate. -/
theorem Gates.deliver_task (h : r.Gates memory vector gate) (htype : gate.type = taskGate)
    (hcause : cause = .software → gate.dpl = 3) (hfinds : r.Finds memory gate.selector d)
    (htss : d.isCodeOrData = false ∧ d.type = availableTss) (hpresent : d.present = true)
    (hbytes : d.granularity = false) (hlimit : 103 ≤ d.limit.toNat) {words : List Word}
    (hwords : loadWords memory d.base 26 = some words) :
    r.deliver memory u seg vector cause = .ok (.task (Task.ofWords words)) := by
  rw [SystemRegisters.deliver, h.gate_eq hcause, ok_bind, if_pos htype, SystemRegisters.task,
    check_of hfinds.notLocal, check_of hfinds.holds, hfinds.fetch]
  simp only [ok_bind, access_some, check_of htss, check_of hpresent, require_of hbytes,
    check_of hlimit, hwords]
  rfl

/-- The stack of a handler. -/
theorem loadWords_entryState (trap : Bool) (u : UserRegisters) (seg : DataSeg → BitVec 16)
    (memory : Memory) (top : Word) (cause : Cause) :
    loadWords (entryState trap u seg memory top cause).memory
      (entryState trap u seg memory top cause).gpr.esp (entryWords u cause).length =
        some (entryWords u cause) := by
  refine loadWords_writeWords memory _ ?_
  rw [entryWords, List.length_append, show u.frame.length = 5 from rfl]
  have herror : cause.error.toList.length ≤ 1 := by cases cause.error <;> simp
  omega

/-- **A handler that returns.**  Entered without an error code, it returns to where the program
was, if it leaves the registers as they are. -/
theorem iret_entryState (hnone : cause.error = none) :
    iret (entryState trap u seg memory top cause) = some u := by
  have hwords := loadWords_entryState trap u seg memory top cause
  rw [entryWords, hnone] at hwords
  rw [iret_of_frame hwords]
  rfl

/-- `iret` with any five words on the stack. -/
theorem iret_eq {s : State} {w0 w1 w2 w3 w4 : Word}
    (h : loadWords s.memory s.gpr.esp 5 = some [w0, w1, w2, w3, w4]) :
    iret s = if h : IsUserSelector (w1.setWidth 16) ∧ w2.getLsbD vmFlag = false then
        some ⟨s.gpr.set w3 .esp, w0, w2, w1.setWidth 16, w4.setWidth 16, h.1, h.2⟩
      else none := by
  let s1 := s.setReg (s.gpr.esp + 4) .esp
  let s2 := s1.setReg (s1.gpr.esp + 4) .esp
  let s3 := s2.setReg (s2.gpr.esp + 4) .esp
  let s4 := s3.setReg (s3.gpr.esp + 4) .esp
  obtain ⟨h0, h⟩ := popWord_of_loadWords s w0 [w1, w2, w3, w4] h
  obtain ⟨h1, h⟩ := popWord_of_loadWords s1 w1 [w2, w3, w4] h
  obtain ⟨h2, h⟩ := popWord_of_loadWords s2 w2 [w3, w4] h
  obtain ⟨h3, h⟩ := popWord_of_loadWords s3 w3 [w4] h
  obtain ⟨h4, -⟩ := popWord_of_loadWords s4 w4 [] h
  rw [iret, h0]
  simp only [Option.bind_eq_bind, Option.bind_some]
  rw [h1, Option.bind_some, h2, Option.bind_some, h3, Option.bind_some, h4, Option.bind_some]
  simp only [s1, s2, s3, s4, setReg_set_esp]

/-- **A handler that returns with an error code on its stack** takes the code for the address,
the address for the selector and the selector for the flags. -/
theorem iret_entryState_error {code : Word} (herror : cause.error = some code) :
    iret (entryState trap u seg memory top cause) =
      if h : IsUserSelector (u.eip.setWidth 16) then
        some ⟨u.gpr.set u.eflags .esp, code, u.cs.setWidth 32, u.eip.setWidth 16,
          u.gpr.esp.setWidth 16, h, by simp [vmFlag]⟩
      else none := by
  have hwords := loadWords_entryState trap u seg memory top cause
  rw [entryWords, herror] at hwords
  have hfive := loadWords_take 5 1 hwords
  have hflags : (u.cs.setWidth 32).getLsbD vmFlag = false := by simp [vmFlag]
  rw [iret_eq hfive]
  by_cases huser : IsUserSelector (u.eip.setWidth 16)
  · rw [dif_pos huser, dif_pos ⟨huser, hflags⟩]
    rfl
  · rw [dif_neg huser, dif_neg fun h => huser h.1]

end SystemRegisters

end X86
