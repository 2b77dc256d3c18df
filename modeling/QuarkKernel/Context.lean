import QuarkKernel.ByteMemory
import QuarkKernel.Status

/-! # `x86/context.c`

The saved registers of a process, and the calls that build frames on its stack.
The stack is written in the address space that is loaded at the time; `none` is a
page fault in the kernel. -/
namespace QuarkKernel

open ByteMemory (Memory loadWords storeWords)

/-- `struct process_context_t` on i386. -/
structure ProcessContext where
  gpRegisters : Vector Word 8
  ss : Word
  cs : Word
  eip : Word
  flags : Word
deriving DecidableEq, Repr

namespace ProcessContext

/-- The words of the struct, in memory order. -/
def toWords (context : ProcessContext) : List Word :=
  context.gpRegisters.toList ++ [context.ss, context.cs, context.eip, context.flags]

/-- The struct that consists of the given words. -/
def ofWords (words : List Word) : ProcessContext where
  gpRegisters := Vector.ofFn fun i => words.getD i 0
  ss := words.getD 8 0
  cs := words.getD 9 0
  eip := words.getD 10 0
  flags := words.getD 11 0

/-- `sizeof(struct process_context_t)`, in words. -/
def sizeInWords : Nat := 12

/-- The context `memset` leaves. -/
def zero : ProcessContext := ofWords []

/-- `get_context_stack` -/
def getContextStack (context : ProcessContext) : Word := context.gpRegisters[7]

/-- An assignment to `gp_registers[7]`. -/
def setStackPointer (context : ProcessContext) (stack : Word) : ProcessContext :=
  { context with gpRegisters := context.gpRegisters.set 7 stack }

/-- `set_context_pc` -/
def setContextPc (context : ProcessContext) (pc : Word) : ProcessContext :=
  { context with eip := pc, cs := 0x1B }

/-- `set_context_stack` -/
def setContextStack (context : ProcessContext) (stack : Word) : ProcessContext :=
  { context.setStackPointer stack with ss := 0x23 }

/-- `set_context_flags` -/
def setContextFlags (context : ProcessContext) (flags : Word) : ProcessContext :=
  { context with flags }

/-- `set_context_return` -/
def setContextReturn (context : ProcessContext) (value : Word) : ProcessContext :=
  { context with gpRegisters := context.gpRegisters.set 0 value }

/-- `context_stack_push` -/
def contextStackPush (context : ProcessContext) (memory : Memory) (value : Word) :
    Option (ProcessContext × Memory) := do
  let context := context.setStackPointer (context.getContextStack - 4)
  let memory ← storeWords memory context.getContextStack [value]
  some (context, memory)

/-- `context_stack_push_struct`.  The struct may be the context itself, so it is
read with the stack pointer already moved. -/
def contextStackPushStruct (context : ProcessContext) (memory : Memory)
    (data : ProcessContext → List Word) (size : Nat) : Option (ProcessContext × Memory) := do
  let context := context.setStackPointer (context.getContextStack - BitVec.ofNat 32 (4 * size))
  let memory ← storeWords memory context.getContextStack (data context)
  some (context, memory)

/-- `context_stack_pop`, with the value popped. -/
def contextStackPop (context : ProcessContext) (memory : Memory) :
    Option (ProcessContext × Word) := do
  let words ← loadWords memory context.getContextStack 1
  some (context.setStackPointer (context.getContextStack + 4), words.getD 0 0)

/-- `context_stack_pop_struct`, with the words popped. -/
def contextStackPopStruct (context : ProcessContext) (memory : Memory) (size : Nat) :
    Option (ProcessContext × List Word) := do
  let words ← loadWords memory context.getContextStack size
  some (context.setStackPointer (context.getContextStack + BitVec.ofNat 32 (4 * size)), words)

/-- The loop of `context_call_func`. -/
def pushArguments (context : ProcessContext) (memory : Memory) :
    List Word → Option (ProcessContext × Memory)
  | [] => some (context, memory)
  | argument :: arguments => do
      let (context, memory) ← context.contextStackPush memory argument
      pushArguments context memory arguments

/-- `context_call_func`; the arguments are pushed in the order they are given. -/
def contextCallFunc (context : ProcessContext) (memory : Memory) (funcPtr retPtr : Word)
    (arguments : List Word) : Option (ProcessContext × Memory) := do
  let context := { context with eip := funcPtr }
  let (context, memory) ← context.pushArguments memory arguments
  context.contextStackPush memory retPtr

/-- `context_cleanup_func`.  It moves the stack pointer down, not up. -/
def contextCleanupFunc (context : ProcessContext) (argc : Nat) : ProcessContext :=
  context.setStackPointer (context.getContextStack - BitVec.ofNat 32 (4 * argc))

/-! ### The words of a context -/

@[simp] theorem getContextStack_setStackPointer (context : ProcessContext) (stack : Word) :
    (context.setStackPointer stack).getContextStack = stack := by
  simp [getContextStack, setStackPointer]

@[simp] theorem setStackPointer_setStackPointer (context : ProcessContext) (stack stack' : Word) :
    (context.setStackPointer stack).setStackPointer stack' = context.setStackPointer stack' := by
  simp [setStackPointer]

@[simp] theorem length_toWords (context : ProcessContext) :
    context.toWords.length = sizeInWords := by
  simp [toWords, sizeInWords]

theorem exists_registers (context : ProcessContext) :
    ∃ a b c d e f g h, context.gpRegisters = #v[a, b, c, d, e, f, g, h] := by
  obtain ⟨⟨⟨l⟩, hl⟩, ss, cs, eip, flags⟩ := context
  match l, hl with
  | [a, b, c, d, e, f, g, h], _ => exact ⟨a, b, c, d, e, f, g, h, rfl⟩

/-- A context copied to memory reads back. -/
theorem ofWords_toWords (context : ProcessContext) : ofWords context.toWords = context := by
  obtain ⟨a, b, c, d, e, f, g, h, hgp⟩ := context.exists_registers
  obtain ⟨gpRegisters, ss, cs, eip, flags⟩ := context
  subst hgp
  rfl

theorem toWords_ofWords {words : List Word} (h : words.length = sizeInWords) :
    (ofWords words).toWords = words := by
  match words, h with
  | [_, _, _, _, _, _, _, _, _, _, _, _], _ => rfl

theorem ofWords_eq_iff {words : List Word} (h : words.length = sizeInWords)
    (context : ProcessContext) : ofWords words = context ↔ words = context.toWords := by
  constructor
  · rintro rfl
    exact (toWords_ofWords h).symm
  · rintro rfl
    exact ofWords_toWords context

end ProcessContext
end QuarkKernel
