import QuarkKernel.SignalFrame

/-! # The frame of a C call

`context_call_func` builds the frame for a call in the i386 C convention, and
`context_cleanup_func` takes the arguments away after it.  The arguments are pushed
in the order they are given, so the callee finds the last one first, and the clean-up
moves the stack pointer away from its old place (`cdeclCall_iff`). -/
namespace QuarkKernel

open ByteMemory

namespace ProcessContext

/-- Pushed one after the other, the arguments lie in memory the last one first. -/
theorem pushArguments_setStackPointer (context : ProcessContext) (memory : Memory) (stack : Word)
    {arguments : List Word} (hroom : 4 * arguments.length ≤ 2 ^ 32) :
    (context.setStackPointer stack).pushArguments memory arguments =
      context.pushed memory (stack - BitVec.ofNat 32 (4 * arguments.length))
        arguments.reverse := by
  induction arguments generalizing memory stack with
  | nil =>
    have hpresent : Present memory stack (4 * ([] : List Word).length) :=
      fun i hi => absurd hi (Nat.not_lt_zero i)
    have hempty : storeWords memory stack [] = some memory := by
      rw [storeWords, if_pos hpresent]
      rfl
    have hzero : stack - BitVec.ofNat 32 (4 * ([] : List Word).length) = stack :=
      BitVec.sub_zero stack
    rw [hzero, pushArguments, pushed, List.reverse_nil, hempty]
    rfl
  | cons argument arguments ih =>
    rw [List.length_cons] at hroom
    have hbelow : stack - 4 - BitVec.ofNat 32 (4 * arguments.length) =
        stack - BitVec.ofNat 32 (4 * (arguments.length + 1)) := by
      rw [sub_sub, Nat.mul_add, BitVec.ofNat_add, BitVec.add_comm]
      rfl
    have hback : addrAt (stack - BitVec.ofNat 32 (4 * (arguments.length + 1)))
        (4 * arguments.reverse.length) = stack - 4 := by
      rw [List.length_reverse, ← hbelow, addrAt, BitVec.sub_add_cancel]
    have happend := storeWords_append memory
      (stack - BitVec.ofNat 32 (4 * (arguments.length + 1))) (l := arguments.reverse)
      (r := [argument]) (by rw [List.length_reverse, List.length_singleton]; omega)
      (by rw [List.length_reverse]; omega)
    rw [hback] at happend
    rw [pushArguments, contextStackPush_setStackPointer, Option.bind_eq_bind, pushed_bind,
      List.length_cons, List.reverse_cons, pushed, happend, Option.map_bind]
    congr 1
    funext memory'
    show (context.setStackPointer (stack - 4)).pushArguments memory' arguments = _
    rw [ih memory' (stack - 4) (by omega), hbelow]
    rfl

/-- **The frame in memory**: the return address, and the arguments above it from the last
to the first. -/
theorem contextCallFunc_eq (context : ProcessContext) (memory : Memory) (funcPtr retPtr : Word)
    {arguments : List Word} (hroom : 4 * (arguments.length + 1) ≤ 2 ^ 32) :
    context.contextCallFunc memory funcPtr retPtr arguments =
      ({ context with eip := funcPtr } : ProcessContext).pushed memory
        (context.getContextStack - BitVec.ofNat 32 (4 * (arguments.length + 1)))
        (retPtr :: arguments.reverse) := by
  have hbelow : context.getContextStack - BitVec.ofNat 32 (4 * (arguments.length + 1)) =
      context.getContextStack - BitVec.ofNat 32 (4 * arguments.length) - 4 := by
    rw [sub_sub, Nat.mul_add, BitVec.ofNat_add]
    rfl
  have hstack : ({ context with eip := funcPtr } : ProcessContext) =
      ({ context with eip := funcPtr } : ProcessContext).setStackPointer
        context.getContextStack :=
    (setStackPointer_getContextStack { context with eip := funcPtr }).symm
  have hlen : 4 * (arguments.reverse.length + 1) ≤ 2 ^ 32 := by
    rw [List.length_reverse]
    exact hroom
  have hstore := Kernel.storeWords_sub_four memory
    (context.getContextStack - BitVec.ofNat 32 (4 * arguments.length)) retPtr hlen
  unfold contextCallFunc
  simp only
  rw [hstack, pushArguments_setStackPointer _ _ _ (by omega), Option.bind_eq_bind, pushed_bind,
    ← hstack, pushed, hbelow, hstore, Option.map_bind]
  congr 1
  funext memory'
  exact contextStackPush_setStackPointer _ memory' _ retPtr

end ProcessContext

/-- What a call should do.  At the new stack pointer are the return address and the
arguments from the first to the last; once the callee has popped the return address, the
clean-up brings the stack pointer back. -/
def CdeclCall (context : ProcessContext) (memory : Memory) (funcPtr retPtr : Word)
    (arguments : List Word) : Prop :=
  ∃ called memory',
    context.contextCallFunc memory funcPtr retPtr arguments = some (called, memory') ∧
    loadWord memory' called.getContextStack = retPtr ∧
    (∀ i (hi : i < arguments.length),
      loadWord memory' (addrAt called.getContextStack (4 * (i + 1))) = arguments[i]) ∧
    ((called.setStackPointer (called.getContextStack + 4)).contextCleanupFunc
      arguments.length).getContextStack = context.getContextStack

/-- Below the stack pointer there is room for the frame. -/
def RoomForCall (context : ProcessContext) (memory : Memory) (argc : Nat) : Prop :=
  4 * (argc + 1) ≤ 2 ^ 32 ∧
    Present memory (context.getContextStack - BitVec.ofNat 32 (4 * (argc + 1))) (4 * (argc + 1))

/-- The words of the frame that a call leaves. -/
theorem loadWord_frame (memory : Memory) (stack retPtr : Word) {arguments : List Word}
    (hroom : 4 * (arguments.length + 1) ≤ 2 ^ 32) :
    loadWord (writeWords memory stack (retPtr :: arguments.reverse)) stack = retPtr ∧
      ∀ i, i < arguments.length →
        loadWord (writeWords memory stack (retPtr :: arguments.reverse))
          (addrAt stack (4 * (i + 1))) = arguments.reverse.getD i 0 := by
  have hlen : (retPtr :: arguments.reverse).length = arguments.length + 1 := by
    rw [List.length_cons, List.length_reverse]
  have hsize : 4 * (retPtr :: arguments.reverse).length ≤ 2 ^ 32 := by
    rw [hlen]
    exact hroom
  constructor
  · have hzero : 0 < (retPtr :: arguments.reverse).length := by omega
    have hfirst := loadWord_writeWords memory stack hsize hzero
    rw [Nat.mul_zero, addrAt, BitVec.add_zero] at hfirst
    exact hfirst
  · intro i hi
    have hsucc : i + 1 < (retPtr :: arguments.reverse).length := by omega
    exact loadWord_writeWords memory stack hsize hsucc

/-- The clean-up goes down by what the call has gone down. -/
theorem cleanup_eq_iff (stack : Word) (argc : Nat) :
    stack - BitVec.ofNat 32 (4 * (argc + 1)) + 4 - BitVec.ofNat 32 (4 * argc) = stack ↔
      2 ^ 29 ∣ argc := by
  have hsum : stack - BitVec.ofNat 32 (4 * (argc + 1)) + 4 - BitVec.ofNat 32 (4 * argc) =
      stack - BitVec.ofNat 32 (8 * argc) := by
    rw [show 8 * argc = 4 * argc + 4 * argc by omega, Nat.mul_add, BitVec.ofNat_add,
      BitVec.ofNat_add]
    show stack - (BitVec.ofNat 32 (4 * argc) + 4) + 4 - BitVec.ofNat 32 (4 * argc) = _
    rw [← sub_sub, BitVec.sub_add_cancel, sub_sub]
  rw [hsum, sub_eq_self]
  constructor
  · intro h
    have hmod := congrArg BitVec.toNat h
    rw [BitVec.toNat_ofNat] at hmod
    replace hmod : 8 * argc % 2 ^ 32 = 0 := hmod
    omega
  · rintro ⟨k, rfl⟩
    apply BitVec.eq_of_toNat_eq
    rw [BitVec.toNat_ofNat]
    show 8 * (2 ^ 29 * k) % 2 ^ 32 = 0
    omega

theorem getD_reverse_iff {arguments : List Word} :
    (∀ i (hi : i < arguments.length), arguments.reverse.getD i 0 = arguments[i]) ↔
      arguments.reverse = arguments := by
  constructor
  · intro h
    apply List.ext_getElem (List.length_reverse ..)
    intro i hi hi'
    rw [← h i hi', List.getD_eq_getElem _ _ hi]
  · intro h i hi
    have hget : (arguments.reverse.getD i 0) = arguments.getD i 0 := by rw [h]
    rw [hget, List.getD_eq_getElem _ _ hi]

section
variable {context : ProcessContext} {memory : Memory} {arguments : List Word}

/-- The frame holds the arguments in the other order, and the clean-up is what remains. -/
theorem cdeclCall_iff_words (funcPtr retPtr : Word)
    (hroom : RoomForCall context memory arguments.length) :
    CdeclCall context memory funcPtr retPtr arguments ↔
      (∀ i (hi : i < arguments.length), arguments.reverse.getD i 0 = arguments[i]) ∧
        context.getContextStack - BitVec.ofNat 32 (4 * (arguments.length + 1)) + 4 -
          BitVec.ofNat 32 (4 * arguments.length) = context.getContextStack := by
  obtain ⟨hsize, hpresent⟩ := hroom
  have hlen : (retPtr :: arguments.reverse).length = arguments.length + 1 := by
    rw [List.length_cons, List.length_reverse]
  have hcall := context.contextCallFunc_eq memory funcPtr retPtr hsize
  rw [ProcessContext.pushed, storeWords, hlen, if_pos hpresent, Option.map_some] at hcall
  obtain ⟨hret, hargs⟩ := loadWord_frame memory
    (context.getContextStack - BitVec.ofNat 32 (4 * (arguments.length + 1))) retPtr hsize
  constructor
  · rintro ⟨called, memory', hsome, -, hwords, hback⟩
    obtain ⟨rfl, rfl⟩ := Prod.mk.inj (Option.some.inj (hcall.symm.trans hsome))
    rw [ProcessContext.contextCleanupFunc] at hback
    simp only [ProcessContext.getContextStack_setStackPointer] at hwords hback
    refine ⟨fun i hi => ?_, hback⟩
    rw [← hargs i hi, hwords i hi]
  · rintro ⟨hwords, hback⟩
    refine ⟨_, _, hcall, ?_, ?_, ?_⟩
    · rw [ProcessContext.getContextStack_setStackPointer, hret]
    · intro i hi
      rw [ProcessContext.getContextStack_setStackPointer, hargs i hi, hwords i hi]
    · rw [ProcessContext.contextCleanupFunc]
      simp only [ProcessContext.getContextStack_setStackPointer]
      exact hback

end

/-- **A call is right only if its arguments read the same backwards** and their number
vanishes in the clean-up. -/
theorem cdeclCall_iff (context : ProcessContext) (memory : Memory) (funcPtr retPtr : Word)
    (arguments : List Word) (hroom : RoomForCall context memory arguments.length) :
    CdeclCall context memory funcPtr retPtr arguments ↔
      arguments.reverse = arguments ∧ 2 ^ 29 ∣ arguments.length := by
  rw [cdeclCall_iff_words funcPtr retPtr hroom, cleanup_eq_iff, getD_reverse_iff]

/-- A stack everywhere in memory. -/
theorem roomForCall_of_present {context : ProcessContext} {memory : Memory} {argc : Nat}
    (hsize : 4 * (argc + 1) ≤ 2 ^ 32) (hmemory : ∀ addr, (memory addr).isSome) :
    RoomForCall context memory argc :=
  ⟨hsize, fun _ _ => hmemory _⟩

/-- A call without arguments is right; one with two is not, even if they are the same. -/
theorem cdeclCall_iff_twoLists :
    CdeclCall (ProcessContext.zero.setStackPointer 0x8000) (fun _ => some 0) 0x1000 0x2000 [] ∧
      ¬ CdeclCall (ProcessContext.zero.setStackPointer 0x8000) (fun _ => some 0) 0x1000 0x2000
        [5, 5] := by
  constructor
  · exact (cdeclCall_iff _ _ _ _ [] (roomForCall_of_present (by decide) fun _ => rfl)).mpr
      ⟨rfl, Nat.dvd_zero _⟩
  · intro hcall
    have hroom : RoomForCall (ProcessContext.zero.setStackPointer 0x8000) (fun _ => some 0)
        [(5 : Word), 5].length := roomForCall_of_present (by decide) fun _ => rfl
    exact absurd ((cdeclCall_iff _ _ _ _ [5, 5] hroom).mp hcall).2 (by decide)

/-- The handler of a signal gets its two arguments in the wrong order. -/
theorem cdeclCall_handler : ¬ ∀ (context : ProcessContext) (memory : Memory)
    (funcPtr retPtr : Word) (arguments : List Word),
    RoomForCall context memory arguments.length →
      CdeclCall context memory funcPtr retPtr arguments := by
  intro hcdecl
  have hroom : RoomForCall (ProcessContext.zero.setStackPointer 0x8000) (fun _ => some 0)
      [(1 : Word), 2].length := roomForCall_of_present (by decide) fun _ => rfl
  have hwords := ((cdeclCall_iff_words 0x1000 0x2000 hroom).mp (hcdecl _ _ _ _ _ hroom)).1
  exact absurd (hwords 0 (by decide)) (by decide)

end QuarkKernel
