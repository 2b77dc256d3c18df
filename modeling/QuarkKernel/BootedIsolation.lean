import QuarkKernel.BootedProcesses

/-! # What happens to a process while others run

From the moment a process is left until it is entered again, others run and call the
kernel.  If no two modules share an address space, all that such a run can do to the
process is to queue messages for it and, if it waits in a receive, to write one message
into the buffer that it named, with the pid of the sender in it, and 0 into EAX
(`isolated_of_reachable`).  The rest of its memory and of its registers is what it left.

What `mmap` and `munmap` do to a process's own pages is its own business; that they
reach no other address space is a condition on the run here.  So is it that no program
hands `receive`, `mmap` or `munmap` an address of the kernel's part, where the contexts
of all processes are. -/
namespace QuarkKernel
namespace SyscallKernel
open Kernel
open ByteMemory (Memory)

variable {modules : List BootModule}

/-- No two modules are in the same address space. -/
def SpacesApart (modules : List BootModule) : Prop :=
  (modules.map fun module => module.addressSpace).Nodup

instance (modules : List BootModule) : Decidable (SpacesApart modules) :=
  inferInstanceAs (Decidable (List.Nodup _))

/-- Processes that are not the same are in different address spaces. -/
theorem Resident.pageTable_ne {k : Kernel} (h : Resident modules k) (hapart : SpacesApart modules)
    {p q : Ptr} {P Q : Process} (hP : k.processes p = some P) (hQ : k.processes q = some Q)
    (hne : p ≠ q) : P.pageTable ≠ Q.pageTable := by
  obtain ⟨i, hi, hp⟩ := h.module p P hP
  obtain ⟨j, hj, hq⟩ := h.module q Q hQ
  obtain ⟨p', P', hp', hP', hbelongs⟩ := h.process i hi
  obtain ⟨q', Q', hq', hQ', hbelongs'⟩ := h.process j hj
  obtain rfl := Option.some.inj (hp.symm.trans hp')
  obtain rfl := Option.some.inj (hP.symm.trans hP')
  obtain rfl := Option.some.inj (hq.symm.trans hq')
  obtain rfl := Option.some.inj (hQ.symm.trans hQ')
  rw [hbelongs.pageTable, hbelongs'.pageTable]
  intro heq
  have hij : i = j := by
    have hi' : i < (modules.map fun module => module.addressSpace).length := by simpa using hi
    have hj' : j < (modules.map fun module => module.addressSpace).length := by simpa using hj
    have heq' : (modules.map fun module => module.addressSpace)[i] =
        (modules.map fun module => module.addressSpace)[j] := by simpa using heq
    exact hapart.getElem_inj_iff.mp heq'
  subst hij
  rw [hp] at hq
  exact hne (Option.some.inj hq)

/-- What may have become of a process since it was `Q0`, in memory `memory0`: nothing but
messages queued, or besides a message received into its buffer. -/
inductive Kept (q : Ptr) (Q0 : Process) (memory0 : Memory) (k : Kernel) : Prop
  | undisturbed (queue : List Message)
      (hQ : k.processes q = some { Q0 with messageQueue := Q0.messageQueue ++ queue })
      (hmemory : k.memory Q0.pageTable = memory0)
  | received (message : Message) (memory : Memory) (queue : List Message) (p : Ptr)
      (hwait : waiting Q0 = true) (hne : p ≠ q) (hsender : k.lookup message.sender = some p)
      (hstore : Message.store memory0 Q0.messageBuffer message = some memory)
      (hQ : k.processes q =
        some { delivered Q0 with messageQueue := Q0.messageQueue ++ queue })
      (hmemory : k.memory Q0.pageTable = memory)

namespace Kept
variable {q : Ptr} {Q0 : Process} {memory0 : Memory} {k k' : Kernel}

theorem process (h : Kept q Q0 memory0 k) :
    ∃ Q, k.processes q = some Q ∧ Q.pageTable = Q0.pageTable := by
  cases h with
  | undisturbed queue hQ => exact ⟨_, hQ, rfl⟩
  | received message memory queue p _ _ _ _ hQ => exact ⟨_, hQ, rfl⟩

/-- A call that is about other processes. -/
theorem congr (h : Kept q Q0 memory0 k) (hproc : k'.processes q = k.processes q)
    (htable : k'.processTable = k.processTable)
    (hmemory : k'.memory Q0.pageTable = k.memory Q0.pageTable) : Kept q Q0 memory0 k' := by
  cases h with
  | undisturbed queue hQ hm => exact .undisturbed queue (hproc.trans hQ) (hmemory.trans hm)
  | received message memory queue p hwait hne hsender hstore hQ hm =>
    refine .received message memory queue p hwait hne ?_ hstore (hproc.trans hQ)
      (hmemory.trans hm)
    rw [lookup, htable]
    exact hsender

/-- A message is queued for the process. -/
theorem queued (h : Kept q Q0 memory0 k) {Q : Process} (hQ' : k.processes q = some Q)
    (message : Message) :
    Kept q Q0 memory0 (k.setProcess q { Q with messageQueue := Q.messageQueue ++ [message] }) := by
  cases h with
  | undisturbed queue hQ hm =>
    obtain rfl := Option.some.inj (hQ.symm.trans hQ')
    refine .undisturbed (queue ++ [message]) ?_ hm
    rw [setProcess_self, List.append_assoc]
  | received m memory queue p hwait hne hsender hstore hQ hm =>
    obtain rfl := Option.some.inj (hQ.symm.trans hQ')
    refine .received m memory (queue ++ [message]) p hwait hne hsender hstore ?_ hm
    rw [setProcess_self, List.append_assoc]

end Kept

/-! ### One call, by a process that is not `q` -/

section
variable {q : Ptr} {Q0 : Process} {memory0 : Memory} {k k' : Kernel}
  (hsettled : Settled modules k) (hapart : SpacesApart modules)
  {a : Ptr} {A : Process} (ha : k.active = some (a, A)) (hne : a ≠ q)
  (h : Kept q Q0 memory0 k)
include hsettled hapart ha hne h

theorem kept_sendMessage {recipient message : Word} {r : Status}
    (hsend : k.kernelSendMessage recipient message = some (r, k')) : Kept q Q0 memory0 k' := by
  obtain ⟨-, -, rfl⟩ | ⟨-, -, -, -, -, -, rfl⟩ |
    ⟨d, D, b, B, m, memory, -, -, hD, hwait, hb, -, hstore, rfl⟩ := sendMessage_cases hsend
  · exact h
  · exact h
  · obtain ⟨rfl, rfl⟩ := Prod.mk.inj (Option.some.inj (ha.symm.trans hb))
    by_cases hdq : d = q
    · subst hdq
      have hsender : k.lookup A.pid = some a :=
        hsettled.sound.registered.entry a A (active_eq_some.mp ha).2
      cases h with
      | undisturbed queue hQ hm =>
        obtain rfl := Option.some.inj (hQ.symm.trans hD)
        refine .received { m with sender := A.pid } memory queue a hwait hne hsender ?_
          (Function.update_self ..) (Function.update_self ..)
        rw [← hm]
        exact hstore
      | received _ _ _ _ _ _ _ _ hQ =>
        obtain rfl := Option.some.inj (hQ.symm.trans hD)
        simp [waiting, delivered] at hwait
    · obtain ⟨Q, hQ, htable⟩ := h.process
      have hspaces := hsettled.resident.pageTable_ne hapart hD hQ hdq
      refine h.congr (Function.update_of_ne (Ne.symm hdq) ..) rfl ?_
      exact Function.update_of_ne (htable ▸ hspaces.symm) ..

theorem kept_send {recipient message flags : Word} {alloc : QueueAlloc} {r : Status}
    (hsend : k.send recipient message flags alloc = some (r, k')) : Kept q Q0 memory0 k' := by
  obtain ⟨-, rfl⟩ | ⟨-, -, hs⟩ | ⟨-, -, hq⟩ := send_cases hsend
  · exact h
  · exact kept_sendMessage hsettled hapart ha hne h hs
  · obtain ⟨-, -, rfl⟩ | ⟨-, -, rfl⟩ | ⟨-, -, -, -, -, -, -, -, -, rfl⟩ |
      ⟨d, D, b, B, m, -, -, -, hD, -, -, rfl⟩ := queueMessage_cases hq
    · exact h
    · exact h
    · exact h
    · by_cases hdq : d = q
      · subst hdq
        exact h.queued hD m
      · exact h.congr (Function.update_of_ne (Ne.symm hdq) ..) rfl rfl

theorem kept_receive {buffer flags : Word} {r : Option Status}
    (hreceive : k.receive buffer flags = some (r, k')) : Kept q Q0 memory0 k' := by
  obtain ⟨b, B, hb, hcases⟩ := receive_cases hreceive
  obtain ⟨rfl, rfl⟩ := Prod.mk.inj (Option.some.inj (ha.symm.trans hb))
  obtain ⟨m, queue, memory, -, -, -, rfl⟩ | ⟨-, -, -, rfl⟩ | ⟨-, -, -, hadv⟩ := hcases
  · obtain ⟨Q, hQ, htable⟩ := h.process
    have hspaces := hsettled.resident.pageTable_ne hapart (active_eq_some.mp ha).2 hQ hne
    rw [← hsettled.loaded a A ha] at hspaces
    refine h.congr (Function.update_of_ne (Ne.symm hne) ..) rfl ?_
    exact Function.update_of_ne (htable ▸ hspaces.symm) ..
  · exact h
  · obtain ⟨p, P, priorityQueue, -, rfl, -⟩ := advance_cases hadv
    exact h.congr (Function.update_of_ne (Ne.symm hne) ..) rfl rfl

theorem kept_callBuiltin {answers : Answers} {funcPtr : SyscallFunction} {arguments : List Word}
    (hself : funcPtr = .mmap ∨ funcPtr = .munmap →
      ∀ space, space ≠ k.cr3 → answers.memory space = k.memory space)
    {result : Option Word} (hcall : k.callBuiltin answers funcPtr arguments = some (result, k')) :
    Kept q Q0 memory0 k' := by
  have hmap : (∀ space, space ≠ k.cr3 → answers.memory space = k.memory space) →
      Kept q Q0 memory0 { k with memory := answers.memory } := by
    intro hother
    obtain ⟨Q, hQ, htable⟩ := h.process
    have hspaces := hsettled.resident.pageTable_ne hapart (active_eq_some.mp ha).2 hQ hne
    rw [← hsettled.loaded a A ha, htable] at hspaces
    exact h.congr rfl rfl (hother _ hspaces.symm)
  unfold callBuiltin at hcall
  split at hcall
  · split at hcall <;> cases hcall
    exact h
  · cases hcall
    exact hmap (hself (.inl rfl))
  · cases hcall
    exact hmap (hself (.inr rfl))
  · obtain ⟨⟨status, k1⟩, hk, hcall⟩ := Option.bind_eq_some_iff.mp hcall
    cases hcall
    exact kept_send hsettled hapart ha hne h hk
  · obtain ⟨⟨status, k1⟩, hk, hcall⟩ := Option.bind_eq_some_iff.mp hcall
    cases hcall
    exact kept_receive hsettled hapart ha hne h hk
  · obtain ⟨⟨status, k1⟩, hk, hcall⟩ := Option.bind_eq_some_iff.mp hcall
    cases hcall
    obtain rfl | ⟨b, B, t, -, -, -, rfl⟩ := createPort_cases hk
    · exact h
    · exact h.congr rfl rfl rfl
  · obtain ⟨⟨status, k1⟩, hk, hcall⟩ := Option.bind_eq_some_iff.mp hcall
    cases hcall
    obtain rfl | ⟨port, b, B, t, -, -, -, -, rfl⟩ := removePort_cases hk
    · exact h
    · exact h.congr rfl rfl rfl
  · cases hcall

end

/-- A call of `mmap` or `munmap` changes no memory but that of the address space that is
loaded. -/
def Event.keepsToItself (k : Kernel) : Event → Prop
  | .systemCall call _ answers => ∀ funcPtr argCount,
      builtin call.id.toNat = some (funcPtr, argCount) → funcPtr = .mmap ∨ funcPtr = .munmap →
        ∀ space, space ≠ k.cr3 → answers.memory space = k.memory space
  | _ => True

theorem kept_next {s s' : SyscallKernel} (hmodules : modules.length ≤ Multiboot.moduleLimit)
    (hapart : SpacesApart modules) (hsettled : Settled modules s.kernel)
    (htable : s.syscallTable = builtinTable) (hnone : s.inProgress = none) {event : Event}
    (horderly : event.orderly = true) (hself : event.keepsToItself s.kernel) {q : Ptr}
    {Q0 : Process} {memory0 : Memory} (hq : s.kernel.activeProcess ≠ some q)
    (h : Kept q Q0 memory0 s.kernel) (hnext : s.next event = some s') :
    Kept q Q0 memory0 s'.kernel := by
  obtain ⟨a, A, ha⟩ := hsettled.active
  have hactive := (active_eq_some.mp ha).1
  have hne : a ≠ q := by
    rintro rfl
    exact hq hactive
  cases event with
  | program memory =>
    cases hnext
    obtain ⟨Q, hQ, hsame⟩ := h.process
    have hspaces := hsettled.resident.pageTable_ne hapart (active_eq_some.mp ha).2 hQ hne
    rw [← hsettled.loaded a A ha, hsame] at hspaces
    exact h.congr rfl rfl (Function.update_of_ne hspaces.symm ..)
  | preempt context =>
    obtain ⟨⟨status, k1⟩, hk1, hnext⟩ := Option.bind_eq_some_iff.mp hnext
    obtain ⟨k2, hk2, hnext⟩ := Option.bind_eq_some_iff.mp hnext
    cases hnext
    obtain rfl | ⟨b, B, hb, rfl⟩ := storeContext_cases hk1
    · obtain ⟨p, P, queue, -, rfl, -⟩ := advance_cases hk2
      exact h.congr rfl rfl rfl
    · obtain ⟨rfl, rfl⟩ := Prod.mk.inj (Option.some.inj (ha.symm.trans hb))
      obtain ⟨p, P, queue, -, rfl, -⟩ := advance_cases hk2
      exact h.congr (Function.update_of_ne (Ne.symm hne) ..) rfl rfl
  | systemCall call beyond answers =>
    obtain ⟨⟨result, s1⟩, hcall, rfl⟩ := Option.map_eq_some_iff.mp hnext
    have hid : call.id.toNat ≠ maxSyscallId :=
      of_decide_eq_true (staysInTable_of_orderly horderly)
    rcases hbuiltin : builtin call.id.toNat with _ | ⟨funcPtr, argCount⟩
    · rw [systemCall_of_none htable hid hbuiltin] at hcall
      cases hcall
      exact h
    · rw [systemCall_of_some htable hnone hbuiltin ha] at hcall
      obtain ⟨⟨result', k'⟩, hk', heq⟩ := Option.map_eq_some_iff.mp hcall
      cases heq
      have hstored := step_storeContext ha (callContext A call).ctx
      have hsettled' := hsettled.builtin hmodules rfl rfl hstored
      have ha' : (s.kernel.setProcess a (callContext A call)).active =
          some (a, callContext A call) := active_eq_some.mpr ⟨hactive, setProcess_self ..⟩
      have h' : Kept q Q0 memory0 (s.kernel.setProcess a (callContext A call)) :=
        h.congr (Function.update_of_ne (Ne.symm hne) ..) rfl rfl
      exact kept_callBuiltin hsettled' hapart ha' hne h' (hself funcPtr argCount hbuiltin) hk'

/-! ### Until the process is entered again -/

/-- Runs from a given state on. -/
def since (s : SyscallKernel) : Transition.System SyscallKernel Event := .ofStep (· = s) next

/-- The process is not the one that runs, and whoever does keeps to its own pages. -/
def away (q : Ptr) (s : SyscallKernel) (event : Event) : Prop :=
  s.kernel.activeProcess ≠ some q ∧ event.orderly = true ∧ event.keepsToItself s.kernel

/-- **A process is left alone.**  Take any state of a booted kernel whose modules have
address spaces of their own, and any run from there up to the moment when process `q` is
entered, with receives and mappings below the kernel only.  Then `q` is what it was, with
the same registers and the same memory, but for messages queued behind those it had; or it
waited in a receive and has got one message into its buffer, under the pid of another
process, with `ENONE` in EAX and nothing else changed. -/
theorem isolated_of_reachable {s0 s : SyscallKernel} (hapart : SpacesApart modules)
    (h0 : (booted modules).Reachable (fun _ event => event.orderly = true) s0)
    {q : Ptr} {Q0 : Process} (hQ0 : s0.kernel.processes q = some Q0)
    (h : (since s0).Reachable (away q) s) :
    Kept q Q0 (s0.kernel.memory Q0.pageTable) s.kernel := by
  obtain ⟨hmodules, hinv⟩ := settled_of_reachable h0
  have hrun : (Settled modules s.kernel ∧ s.syscallTable = builtinTable ∧
      s.inProgress = none) ∧ Kept q Q0 (s0.kernel.memory Q0.pageTable) s.kernel := by
    induction h with
    | init heq =>
      obtain rfl : _ = s0 := heq
      refine ⟨hinv, .undisturbed [] ?_ rfl⟩
      rw [List.append_nil]
      exact hQ0
    | step _ hok hst ih =>
      obtain ⟨⟨hsettled, htable, hnone⟩, hkept⟩ := ih
      obtain ⟨hq, horderly, hself⟩ := hok
      exact ⟨next_keeps
        (fun k op k' hk hmakes hst => hk.builtin hmodules hmakes.builtin hmakes.spares hst)
        (fun k hk => hk.active) htable hnone horderly hsettled hst,
        kept_next hmodules hapart hsettled htable hnone horderly hself hq hkept hst⟩
  exact hrun.2

/-- The event is not a call of `mmap` or `munmap`. -/
def Event.leavesPages : Event → Bool
  | .systemCall call _ _ => call.id ≠ 2 && call.id ≠ 3
  | _ => true

theorem keepsToItself_of_leavesPages {k : Kernel} {event : Event}
    (h : event.leavesPages = true) : event.keepsToItself k := by
  cases event with
  | systemCall call beyond answers =>
    obtain ⟨htwo, hthree⟩ := Bool.and_eq_true_iff.mp h
    have htwo : call.id ≠ 2 := of_decide_eq_true htwo
    have hthree : call.id ≠ 3 := of_decide_eq_true hthree
    intro funcPtr argCount hbuiltin hmap
    unfold builtin at hbuiltin
    split at hbuiltin <;> cases hbuiltin
    · simp at hmap
    · rename_i hid
      exact absurd (BitVec.eq_of_toNat_eq hid) htwo
    · rename_i hid
      exact absurd (BitVec.eq_of_toNat_eq hid) hthree
    all_goals simp at hmap
  | _ => trivial

/-- The runs of `portRun`, cut where process 1 waits. -/
theorem runs_portRun :
    ((boot twoModules).bind fun s => Transition.System.runFrom
      (fun _ event => event.orderly = true) next s (portRun.take 2)).any (fun s =>
        (s.kernel.processes 1).isSome ∧
        (Transition.System.runFrom (fun s event => s.kernel.activeProcess ≠ some 1 ∧
          event.orderly = true ∧ event.leavesPages = true) next s (portRun.drop 2)).any
            fun s => s.kernel.activeProcess = some 1) = true := by
  decide +kernel

/-- Process 1 waits; process 2 sends to it, and it is entered again. -/
theorem isolated_portRun :
    ∃ (s0 s : SyscallKernel) (Q0 : Process), s0.kernel.processes 1 = some Q0 ∧
      s.kernel.activeProcess = some 1 ∧
      Kept 1 Q0 (s0.kernel.memory Q0.pageTable) s.kernel := by
  obtain ⟨s0, hs0, hruns⟩ := (Option.any_eq_true _ _).mp runs_portRun
  obtain ⟨hsome, hany⟩ := of_decide_eq_true hruns
  obtain ⟨Q0, hQ0⟩ := Option.isSome_iff_exists.mp hsome
  obtain ⟨s, hs, hactive⟩ := (Option.any_eq_true _ _).mp hany
  obtain ⟨start, hstart, hrun⟩ := Option.bind_eq_some_iff.mp hs0
  have hstarts : (booted twoModules).Init start := ⟨by decide, _, _, _, hstart⟩
  have hinit : (since s0).Init s0 := rfl
  have haway : (since s0).Reachable (away 1) s :=
    (Transition.System.Reachable.runFrom _ _ (.init hinit) hs).mono fun _ _ hok =>
      ⟨hok.1, hok.2.1, keepsToItself_of_leavesPages hok.2.2⟩
  exact ⟨s0, s, Q0, hQ0, of_decide_eq_true hactive, isolated_of_reachable (by decide)
    (.runFrom _ _ (.init hstarts) hrun) hQ0 haway⟩

end SyscallKernel
end QuarkKernel
