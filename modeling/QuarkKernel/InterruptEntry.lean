import QuarkKernel.DescriptorTables
import QuarkKernel.Preemption

/-! # Interrupts from a program

`initialize_gdt` and `initialize_idt` fill the tables and load the processor's registers.
From then on, and for as long as nothing is written to the tables but the marks of
segments that have been loaded, an `int` instruction of a program leads to `isr_preempt`
or to `isr_syscall`, on the kernel's stack and with interrupts off; any other is a general
protection fault (`handle_software`).  What is not asked for by the program leads to the
handler of its vector (`handle_hardware`).

A program has another way in, which is not an interrupt and not described here: the
descriptors of the task state segments have level 3, and so a far jump or a far call to
the selector `0x30` switches to the task of `double_fault_tss` from user mode. -/
namespace QuarkKernel

open ByteMemory X86
open SyscallKernel (someRegisters)

/-! ### Initialization -/

/-- `load_gdt`, but for the segment registers. -/
def loadGdt (r : SystemRegisters) (gdt : Word) : SystemRegisters :=
  { r with gdtr := ⟨gdt, 8 * 7 - 1⟩ }

/-- `load_idt` -/
def loadIdt (r : SystemRegisters) (idt : Word) : SystemRegisters :=
  { r with idtr := ⟨idt, 8 * 256 - 1⟩ }

/-- `load_tr` -/
def loadTr (r : SystemRegisters) (memory : Memory) (gdtOffset : BitVec 16) :
    Except Fault (SystemRegisters × Memory) :=
  r.loadTaskRegister memory (gdtOffset ||| 3)

namespace KernelImage
variable (l : KernelImage)

def gdtBits : List Descriptor := l.gdtEntries.map GdtEntry.toBits

def idtBits : List Descriptor := l.idtEntries.map InterruptDescriptor.toBits

/-- `initialize_gdt` -/
def initializeGdt (r : SystemRegisters) (memory : Memory) :
    Except Fault (SystemRegisters × Memory) := do
  let memory ← access (storeWords memory l.gdt (tableWords l.gdtBits))
  let memory ← access (storeWords memory l.tss l.tssEntry.toWords)
  let memory ← access (storeWords memory l.doubleFaultTss l.doubleFaultEntry.toWords)
  loadTr (loadGdt r l.gdt) memory (5 * 8)

/-- `initialize_idt` -/
def initializeIdt (r : SystemRegisters) (memory : Memory) :
    Except Fault (SystemRegisters × Memory) := do
  let memory ← access (storeWords memory l.idt (tableWords l.idtBits))
  return (loadIdt r l.idt, memory)

/-- The beginning of `x86_startup`. -/
def initializeTables (r : SystemRegisters) (memory : Memory) :
    Except Fault (SystemRegisters × Memory) := do
  let (r, memory) ← l.initializeGdt r memory
  l.initializeIdt r memory

/-- The tables do not overlap. -/
structure TablesApart : Prop where
  gdt_tss : Separate l.gdt 56 l.tss 104
  gdt_doubleFaultTss : Separate l.gdt 56 l.doubleFaultTss 104
  gdt_idt : Separate l.gdt 56 l.idt 2048
  tss_doubleFaultTss : Separate l.tss 104 l.doubleFaultTss 104
  tss_gdt : Separate l.tss 104 (addrAt l.gdt 40) 8
  tss_idt : Separate l.tss 104 l.idt 2048
  doubleFaultTss_gdt : Separate l.doubleFaultTss 104 (addrAt l.gdt 40) 8
  doubleFaultTss_idt : Separate l.doubleFaultTss 104 l.idt 2048

/-- An address in a task state segment or the interrupt table. -/
def InTables (x : Word) : Prop :=
  (x - l.tss).toNat < 104 ∨ (x - l.doubleFaultTss).toNat < 104 ∨ (x - l.idt).toNat < 2048

/-- The byte of the global table with the mark of a code or data segment. -/
def HasAccessedBit (i : Nat) : Prop := i % 8 = 5 ∧ 0 < i / 8 ∧ i / 8 < 5

/-- The tables have stayed as they were, but for the marks of the segments of code and
data, which the processor makes when it loads them. -/
structure TablesKept (memory0 memory : Memory) : Prop where
  gdt : ∀ i, i < 56 → memory (addrAt l.gdt i) = memory0 (addrAt l.gdt i) ∨
    HasAccessedBit i ∧ (memory (addrAt l.gdt i)).map (· ||| 1) =
      (memory0 (addrAt l.gdt i)).map (· ||| 1)
  others : ∀ x, l.InTables x → memory x = memory0 x

/-- The global table with the task in use. -/
def busyGdtBits : List Descriptor :=
  l.gdtBits.set 5 (l.gdtBits.getD 5 0 ||| (1 : Descriptor) <<< busyBit)

/-- The tables are in memory, and the processor's registers refer to them. -/
structure Installed (r : SystemRegisters) (memory : Memory) : Prop where
  gdtr : r.gdtr = ⟨l.gdt, 55⟩
  idtr : r.idtr = ⟨l.idt, 2047⟩
  tr : r.tr = ⟨0x2B, l.tss, 103⟩
  gdt : ∀ i, i < 7 → ∃ d, r.gdtr.fetch memory i = some d ∧ (l.busyGdtBits.getD i 0).MayBecome d
  tss : loadWords memory l.tss 26 = some l.tssEntry.toWords
  doubleFaultTss : loadWords memory l.doubleFaultTss 26 = some l.doubleFaultEntry.toWords
  idt : loadWords memory l.idt 512 = some (tableWords l.idtBits)

variable {l : KernelImage} {r r0 : SystemRegisters} {memory memory0 memory1 : Memory}

theorem length_gdtBits : l.gdtBits.length = 7 := by simp [gdtBits, gdtEntries]

theorem length_busyGdtBits : l.busyGdtBits.length = 7 := by
  rw [busyGdtBits, List.length_set, length_gdtBits]

theorem length_idtBits : l.idtBits.length = 256 := by
  rw [idtBits, List.length_map, length_idtEntries]

theorem TablesKept.refl : l.TablesKept memory memory := ⟨fun _ _ => .inl rfl, fun _ _ => rfl⟩

/-- The four segments of code and data. -/
theorem isCodeOrData_busyGdtBits {i : Nat} (hi : 0 < i ∧ i < 5) :
    (l.busyGdtBits.getD i 0).isCodeOrData = true := by
  have hentries : i = 1 ∨ i = 2 ∨ i = 3 ∨ i = 4 := by omega
  rcases hentries with rfl | rfl | rfl | rfl
  · exact ((isCode_createSegmentDescriptor .zero 0 0xFFFFF .kernelCode).mpr (.inl rfl)).1
  · exact ((isWritable_createSegmentDescriptor .zero 0 0xFFFFF .kernelData).mpr (.inl rfl)).1
  · exact ((isCode_createSegmentDescriptor .zero 0 0xFFFFF .userCode).mpr (.inr rfl)).1
  · exact ((isWritable_createSegmentDescriptor .zero 0 0xFFFFF .userData).mpr (.inr rfl)).1

section
variable (h : l.TablesKept memory0 memory)
include h

/-- A byte of the global table, but for the mark. -/
theorem TablesKept.getLsbD {i j : Nat} (hi : i < 56)
    (hj : HasAccessedBit i → 0 < j) :
    ((memory (addrAt l.gdt i)).getD 0).getLsbD j =
      ((memory0 (addrAt l.gdt i)).getD 0).getLsbD j := by
  rcases h.gdt i hi with heq | ⟨haccessed, hmarked⟩
  · rw [heq]
  · have hbit : ∀ b : BitVec 8, (b ||| 1).getLsbD j = b.getLsbD j := by
      intro b
      have hone : (1 : BitVec 8).getLsbD j = false := by
        have hpos := hj haccessed
        simp [BitVec.getLsbD_one]
        omega
      rw [BitVec.getLsbD_or, hone, Bool.or_false]
    have hmarked' := congrArg (fun byte : Option (BitVec 8) => (byte.getD 0).getLsbD j) hmarked
    cases hx : memory (addrAt l.gdt i) with
    | none =>
      rw [hx] at hmarked
      rw [Option.map_eq_none_iff.mp hmarked.symm]
    | some b =>
      rw [hx] at hmarked
      obtain ⟨b0, hb0, hmark⟩ := Option.map_eq_some_iff.mp hmarked.symm
      rw [hb0]
      show b.getLsbD j = b0.getLsbD j
      rw [← hbit b, ← hbit b0, hmark]

theorem TablesKept.isSome {i : Nat} (hi : i < 56) :
    (memory (addrAt l.gdt i)).isSome = (memory0 (addrAt l.gdt i)).isSome := by
  rcases h.gdt i hi with heq | ⟨-, hmarked⟩
  · rw [heq]
  · have hsome := congrArg Option.isSome hmarked
    rwa [Option.isSome_map, Option.isSome_map] at hsome

/-- An entry of the global table. -/
theorem TablesKept.entry {i : Nat} (hi : i < 7) {limit : BitVec 16} {d d0 : Descriptor}
    (hcode : 0 < i ∧ i < 5 → d.isCodeOrData = true)
    (hfetch : (TableRegister.mk l.gdt limit).fetch memory0 i = some d0) (hd : d.MayBecome d0) :
    ∃ e, (TableRegister.mk l.gdt limit).fetch memory i = some e ∧ d.MayBecome e := by
  obtain ⟨hpresent, hbits0⟩ := TableRegister.fetch_eq_some.mp hfetch
  have hpresent' : Present memory (addrAt l.gdt (8 * i)) 8 := by
    intro j hj
    have hsome := hpresent j hj
    rw [addrAt_addrAt] at hsome ⊢
    rwa [h.isSome (by omega)]
  obtain ⟨e, he⟩ := TableRegister.exists_fetch (t := ⟨l.gdt, limit⟩) hpresent'
  obtain ⟨-, hbits⟩ := TableRegister.fetch_eq_some.mp he
  have hsame : ∀ j, j < 64 → (0 < i ∧ i < 5 → j ≠ accessedBit) → e.getLsbD j = d0.getLsbD j := by
    intro j hj hne
    rw [hbits j hj, hbits0 j hj]
    refine h.getLsbD (by omega) fun haccessed => ?_
    obtain ⟨hplace, hpos, hlt⟩ := haccessed
    have hj40 := hne (by omega)
    rw [accessedBit] at hj40
    omega
  refine ⟨e, he, hd.trans ?_⟩
  by_cases hsegment : 0 < i ∧ i < 5
  · refine .inr ⟨hd.isCodeOrData.trans (hcode hsegment), fun j hj => ?_⟩
    by_cases hlt : j < 64
    · exact hsame j hlt fun _ => hj
    · rw [BitVec.getLsbD_of_ge _ _ (by omega), BitVec.getLsbD_of_ge _ _ (by omega)]
  · exact .inl (BitVec.eq_of_getLsbD_eq fun j hj => hsame j hj fun hs => absurd hs hsegment)

end

/-- The tables are still the ones that were installed. -/
theorem Installed.of_kept (h : l.Installed r memory0) (hkept : l.TablesKept memory0 memory) :
    l.Installed r memory := by
  refine ⟨h.gdtr, h.idtr, h.tr, ?_, ?_, ?_, ?_⟩
  · intro i hi
    obtain ⟨d0, hfetch, hd⟩ := h.gdt i hi
    rw [h.gdtr] at hfetch ⊢
    exact hkept.entry hi isCodeOrData_busyGdtBits hfetch hd
  · rw [← h.tss]
    refine loadWords_congr fun i hi => hkept.others _ (.inl ?_)
    rw [addrAt_sub _ (by omega)]
    omega
  · rw [← h.doubleFaultTss]
    refine loadWords_congr fun i hi => hkept.others _ (.inr (.inl ?_))
    rw [addrAt_sub _ (by omega)]
    omega
  · rw [← h.idt]
    refine loadWords_congr fun i hi => hkept.others _ (.inr (.inr ?_))
    rw [addrAt_sub _ (by omega)]
    omega

/-- `load_tr` finds the descriptor of `tss`. -/
theorem loadTr_eq (hgdt : loadWords memory l.gdt 14 = some (tableWords l.gdtBits)) :
    loadTr (loadGdt r l.gdt) memory (5 * 8) = (do
      let memory ← access (storeWords memory (addrAt l.gdt 40)
        (tableWords [l.gdtBits.getD 5 0 ||| (1 : Descriptor) <<< busyBit]))
      return ({ loadGdt r l.gdt with tr := ⟨0x2B, l.tss, 103⟩ }, memory)) := by
  have hd : l.gdtBits.getD 5 0 = (createSegmentDescriptor .zero l.tss 103 .tss).toBits := rfl
  have hfetch : (loadGdt r l.gdt).gdtr.fetch memory 5 = some (l.gdtBits.getD 5 0) := by
    refine TableRegister.fetch_of_loadWords ?_ (by rw [length_gdtBits]; decide)
    rw [length_gdtBits]
    exact hgdt
  have hfinds : (loadGdt r l.gdt).Finds memory 0x2B (l.gdtBits.getD 5 0) :=
    ⟨by decide, by decide, show 8 * 5 + 7 ≤ 55 by decide, hfetch⟩
  obtain ⟨hsystem, htype, hbytes⟩ := isTss_createSegmentDescriptor .zero l.tss 103
  rw [loadTr, show (5 * 8 ||| 3 : BitVec 16) = 0x2B from rfl,
    hfinds.loadTaskRegister_eq (hd ▸ ⟨hsystem, htype⟩)
      (hd ▸ present_createSegmentDescriptor .zero l.tss 103 .tss) (hd ▸ hbytes),
    show (l.gdtBits.getD 5 0).base = l.tss from base_createSegmentDescriptor .zero l.tss 103 .tss,
    show (l.gdtBits.getD 5 0).limit = 103 from limit_createSegmentDescriptor .zero l.tss 103 .tss]
  rfl

theorem loadWords_toWords {m m' : Memory} {a : Word} {t : TssEntry}
    (h : access (storeWords m a t.toWords) = .ok m') : loadWords m' a 26 = some t.toWords := by
  have hlen : 4 * t.toWords.length ≤ 2 ^ 32 := show 4 * 26 ≤ 2 ^ 32 by decide
  exact loadWords_storeWords hlen (access_eq_ok.mp h)

/-- **Initialization.** -/
theorem installed_of_initializeTables (hapart : l.TablesApart)
    (h : l.initializeTables r0 memory0 = .ok (r, memory)) : l.Installed r memory := by
  rw [initializeTables, initializeGdt] at h
  obtain ⟨⟨r4, m4⟩, hgdt, hidt⟩ := bind_eq_ok.mp h
  obtain ⟨m1, h1, hgdt⟩ := bind_eq_ok.mp hgdt
  obtain ⟨m2, h2, hgdt⟩ := bind_eq_ok.mp hgdt
  obtain ⟨m3, h3, hgdt⟩ := bind_eq_ok.mp hgdt
  have hstored := loadWords_storeWords (by rw [length_tableWords, length_gdtBits]; decide)
    (access_eq_ok.mp h1)
  have hgdt1 : loadWords m1 l.gdt 14 = some (tableWords l.gdtBits) := by
    rwa [length_tableWords, length_gdtBits] at hstored
  have hgdt3 : loadWords m3 l.gdt 14 = some (tableWords l.gdtBits) := by
    rw [loadWords_storeWords_of_separate (access_eq_ok.mp h3) hapart.gdt_doubleFaultTss,
      loadWords_storeWords_of_separate (access_eq_ok.mp h2) hapart.gdt_tss, hgdt1]
  rw [loadTr_eq hgdt3] at hgdt
  obtain ⟨m4', h4, hgdt⟩ := bind_eq_ok.mp hgdt
  obtain ⟨rfl, rfl⟩ := Prod.mk.inj (Except.ok.inj hgdt)
  obtain ⟨m5, h5, hidt⟩ := bind_eq_ok.mp hidt
  obtain ⟨rfl, rfl⟩ := Prod.mk.inj (Except.ok.inj hidt)
  have hidt5 := loadWords_storeWords (by rw [length_tableWords, length_idtBits]; decide)
    (access_eq_ok.mp h5)
  have hidtLength : (tableWords l.idtBits).length = 512 := by
    rw [length_tableWords, length_idtBits]
  have hgdtIdt : Separate l.gdt 56 l.idt (4 * (tableWords l.idtBits).length) := by
    rw [hidtLength]
    exact hapart.gdt_idt
  have htssIdt : Separate l.tss 104 l.idt (4 * (tableWords l.idtBits).length) := by
    rw [hidtLength]
    exact hapart.tss_idt
  have hfaultIdt : Separate l.doubleFaultTss 104 l.idt (4 * (tableWords l.idtBits).length) := by
    rw [hidtLength]
    exact hapart.doubleFaultTss_idt
  have hgdt5 : loadWords m5 l.gdt (2 * l.busyGdtBits.length) = some (tableWords l.busyGdtBits) := by
    rw [length_busyGdtBits, loadWords_storeWords_of_separate (access_eq_ok.mp h5) hgdtIdt]
    have hbusy := loadWords_setEntry (i := 5) (by rw [length_gdtBits]; exact hgdt3)
      (by rw [length_gdtBits]; decide) (by rw [length_gdtBits]; decide)
      (l.gdtBits.getD 5 0 ||| (1 : Descriptor) <<< busyBit)
    rw [length_gdtBits] at hbusy
    have hstored := access_eq_ok.mp h4
    rw [storeWords] at hstored
    split at hstored
    · obtain rfl := Option.some.inj hstored
      exact hbusy
    · cases hstored
  refine ⟨rfl, rfl, rfl, ?_, ?_, ?_, ?_⟩
  · intro i hi
    exact ⟨_, TableRegister.fetch_of_loadWords hgdt5 (by rwa [length_busyGdtBits]), .inl rfl⟩
  · rw [loadWords_storeWords_of_separate (access_eq_ok.mp h5) htssIdt,
      loadWords_storeWords_of_separate (access_eq_ok.mp h4) hapart.tss_gdt,
      loadWords_storeWords_of_separate (access_eq_ok.mp h3) hapart.tss_doubleFaultTss]
    exact loadWords_toWords h2
  · rw [loadWords_storeWords_of_separate (access_eq_ok.mp h5) hfaultIdt,
      loadWords_storeWords_of_separate (access_eq_ok.mp h4) hapart.doubleFaultTss_gdt]
    exact loadWords_toWords h3
  · rw [hidtLength] at hidt5
    exact hidt5

/-- The bytes of the tables can be written. -/
structure TablesPresent (l : KernelImage) (memory : Memory) : Prop where
  gdt : Present memory l.gdt 56
  tss : Present memory l.tss 104
  doubleFaultTss : Present memory l.doubleFaultTss 104
  idt : Present memory l.idt 2048

/-- Initialization does not fault. -/
theorem exists_initializeTables (hapart : l.TablesApart) (r0 : SystemRegisters)
    (hpresent : l.TablesPresent memory0) :
    ∃ r memory1, l.initializeTables r0 memory0 = .ok (r, memory1) ∧
      ∀ x, (memory0 x).isSome → (memory1 x).isSome := by
  have hgdtLength : (tableWords l.gdtBits).length = 14 := by rw [length_tableWords, length_gdtBits]
  have hidtLength : (tableWords l.idtBits).length = 512 := by
    rw [length_tableWords, length_idtBits]
  obtain ⟨m1, h1, hall1⟩ := exists_storeWords (show Present memory0 l.gdt
    (4 * (tableWords l.gdtBits).length) by rw [hgdtLength]; exact hpresent.gdt)
  have htssLength : ∀ t : TssEntry, t.toWords.length = 26 := fun _ => rfl
  obtain ⟨m2, h2, hall2⟩ := exists_storeWords (show Present m1 l.tss
    (4 * l.tssEntry.toWords.length) by
      rw [htssLength]
      exact fun i hi => hall1 _ (hpresent.tss i hi))
  obtain ⟨m3, h3, hall3⟩ := exists_storeWords (show Present m2 l.doubleFaultTss
    (4 * l.doubleFaultEntry.toWords.length) by
      rw [htssLength]
      exact fun i hi => hall2 _ (hall1 _ (hpresent.doubleFaultTss i hi)))
  have hgdt1 := loadWords_storeWords (by rw [hgdtLength]; decide) h1
  rw [hgdtLength] at hgdt1
  have hgdt3 : loadWords m3 l.gdt 14 = some (tableWords l.gdtBits) := by
    rw [loadWords_storeWords_of_separate h3 hapart.gdt_doubleFaultTss,
      loadWords_storeWords_of_separate h2 hapart.gdt_tss, hgdt1]
  have hentry : Present m3 (addrAt l.gdt 40) 8 := by
    intro i hi
    rw [addrAt_addrAt]
    exact hall3 _ (hall2 _ (hall1 _ (hpresent.gdt (40 + i) (by omega))))
  obtain ⟨m4, h4, hall4⟩ := exists_storeWords (show Present m3 (addrAt l.gdt 40)
    (4 * (tableWords [l.gdtBits.getD 5 0 ||| (1 : Descriptor) <<< busyBit]).length) from hentry)
  have hall : ∀ x, (memory0 x).isSome → (m4 x).isSome := fun x hx =>
    hall4 x (hall3 x (hall2 x (hall1 x hx)))
  obtain ⟨m5, h5, hall5⟩ := exists_storeWords (show Present m4 l.idt
    (4 * (tableWords l.idtBits).length) by
      rw [hidtLength]
      exact fun i hi => hall _ (hpresent.idt i hi))
  refine ⟨loadIdt { loadGdt r0 l.gdt with tr := ⟨0x2B, l.tss, 103⟩ } l.idt, m5, ?_,
    fun x hx => hall5 x (hall x hx)⟩
  have hgdt : l.initializeGdt r0 memory0 =
      .ok ({ loadGdt r0 l.gdt with tr := ⟨0x2B, l.tss, 103⟩ }, m4) := by
    rw [initializeGdt, h1, access_some, ok_bind, h2, access_some, ok_bind, h3, access_some, ok_bind,
      loadTr_eq hgdt3, h4, access_some, ok_bind, pure_eq_ok]
  have hidt : ∀ r : SystemRegisters, l.initializeIdt r m4 = .ok (loadIdt r l.idt, m5) := by
    intro r
    rw [initializeIdt, h5, access_some, ok_bind, pure_eq_ok]
  rw [initializeTables, hgdt, ok_bind]
  exact hidt _

/-! ### The tables at some addresses -/

/-- The tables one after the other. -/
def kernelImage : KernelImage where
  gdt := 0xFF410000
  tss := 0xFF410040
  doubleFaultTss := 0xFF4100C0
  idt := 0xFF410800
  stackTop := 0xFF414000
  defaultPageDir := 0xFF415000
  kernelStart := 0xFF400000
  kernelPstart := 0x100000
  isrGeneric := 0xFF401000
  isrDivisionByZero := 0xFF401100
  isrSegmentNotPresent := 0xFF401200
  isrGpFault := 0xFF401300
  isrPageFault := 0xFF401400
  isrDoubleFault := 0xFF401500
  isrTimer := 0xFF401600
  isrPreempt := 0xFF401700
  isrSyscall := 0xFF401800

/-- The processor before its registers are loaded. -/
def unloaded : SystemRegisters := ⟨⟨0, 0⟩, ⟨0, 0⟩, ⟨0, 0, 0⟩⟩

theorem tablesApart_kernelImage : kernelImage.TablesApart := by
  constructor <;> exact separate_of_le (by decide) (by decide) (by decide)

theorem exists_kernelImage : ∃ r memory,
    kernelImage.initializeTables unloaded (fun _ => some 0) =
    .ok (r, memory) ∧ ∀ n, 4 * n < 2 ^ 32 → Room memory kernelImage.stackTop n := by
  have hpresent : kernelImage.TablesPresent fun _ => some 0 :=
    ⟨fun _ _ => rfl, fun _ _ => rfl, fun _ _ => rfl, fun _ _ => rfl⟩
  obtain ⟨r, memory, hinit, hall⟩ :=
    exists_initializeTables tablesApart_kernelImage unloaded hpresent
  exact ⟨r, memory, hinit, fun n hn => ⟨hn, fun i _ => hall _ rfl⟩⟩

/-! ### What the processor finds -/

theorem Installed.finds (h : l.Installed r memory) (selector : BitVec 16) {i : Nat}
    (hselector : selectorIndex selector = i) (hi : 0 < i ∧ i < 7)
    (hlocal : ¬ IsLocalSelector selector) :
    ∃ d, r.Finds memory selector d ∧ (l.busyGdtBits.getD i 0).MayBecome d := by
  have hnull : ¬ IsNullSelector selector := by
    rw [selectorIndex] at hselector
    rw [IsNullSelector]
    omega
  obtain ⟨d, hfetch, hd⟩ := h.gdt i hi.2
  refine ⟨d, ⟨hnull, hlocal, ?_, ?_⟩, hd⟩
  · rw [TableRegister.Holds, h.gdtr, hselector, show (55 : BitVec 16).toNat = 55 from rfl]
    omega
  · rw [hselector]
    exact hfetch

theorem Installed.entersKernel (h : l.Installed r memory) :
    r.EntersKernel memory 8 0x10 l.stackTop where
  code := by
    obtain ⟨d, hfinds, hd⟩ := h.finds 8 (i := 1) rfl (by decide) (by decide)
    refine ⟨d, hfinds, hd.isCode.mpr ?_, hd.present.trans ?_, hd.isFlat.mpr ?_, hd.dpl.trans ?_⟩
    · exact (isCode_createSegmentDescriptor ..).mpr (.inl rfl)
    · exact present_createSegmentDescriptor ..
    · exact isFlat_createSegmentDescriptor _ _ nofun
    · exact dpl_createSegmentDescriptor ..
  stack := by
    obtain ⟨d, hfinds, hd⟩ := h.finds 0x10 (i := 2) rfl (by decide) (by decide)
    refine ⟨d, hfinds, hd.isWritable.mpr ?_, hd.present.trans ?_, hd.isFlat.mpr ?_,
      hd.dpl.trans ?_⟩
    · exact (isWritable_createSegmentDescriptor ..).mpr (.inl rfl)
    · exact present_createSegmentDescriptor ..
    · exact isFlat_createSegmentDescriptor _ _ nofun
    · exact dpl_createSegmentDescriptor ..
  level := by decide
  limit := by
    rw [h.tr]
    exact show 9 ≤ (103 : Word).toNat by decide
  top := by
    refine ⟨0, ?_⟩
    rw [h.tr]
    exact loadWords_take 2 _ (loadWords_drop 1 _ (show loadWords _ _ (1 + (2 + 23)) = _ from h.tss))

/-- What the gate of a vector says. -/
structure GateOf (l : KernelImage) (vector : Nat) (gate : Descriptor) : Prop where
  offset : vector ≠ 8 → gate.offset = l.handlerOf vector
  selector : gate.selector = if vector = 8 then 0x30 else 8
  type : gate.type = (gateTypeOf vector).code
  dpl : gate.dpl = if IsOpen vector then 3 else 0

theorem Installed.gates (h : l.Installed r memory) (vector : BitVec 8) :
    ∃ gate, r.Gates memory vector gate ∧ l.GateOf vector.toNat gate := by
  have hlt : vector.toNat < 256 := vector.isLt
  obtain ⟨d, hd⟩ := l.hasGate_idtEntries hlt
  have hfetch : r.idtr.fetch memory vector.toNat = some (l.idtBits.getD vector.toNat 0) := by
    refine TableRegister.fetch_of_loadWords ?_ (by rwa [length_idtBits])
    rw [length_idtBits, h.idtr]
    exact h.idt
  have hempty : InterruptDescriptor.empty.toBits = 0 := by decide
  have hgate : l.idtBits.getD vector.toNat 0 = (l.idtEntries.getD vector.toNat .empty).toBits := by
    rw [← hempty, idtBits, List.getD_map]
  have htype : gateTypeOf vector.toNat ≠ .trap16 ∧ gateTypeOf vector.toNat ≠ .int16 := by
    rw [gateTypeOf]
    split
    · decide
    · split <;> decide
  rw [hgate, hd] at hfetch
  refine ⟨_, ⟨?_, hfetch, isGate_createInterruptDescriptor _ _ _ _ _ htype,
    present_createInterruptDescriptor ..⟩, ?_, ?_, type_createInterruptDescriptor .., ?_⟩
  · rw [TableRegister.Holds, h.idtr, show (2047 : BitVec 16).toNat = 2047 from rfl]
    omega
  · intro h8
    refine offset_createInterruptDescriptor _ _ _ _ _ ?_
    rw [gateTypeOf, if_neg h8]
    split <;> decide
  · rw [selector_createInterruptDescriptor]
    split <;> rfl
  · rw [dpl_createInterruptDescriptor]
    split <;> rfl

/-- The vectors that leave interrupts as they are. -/
def IsTrap (vector : Nat) : Prop := vector = 11 ∨ vector = 13 ∨ vector = 14

instance (vector : Nat) : Decidable (IsTrap vector) := inferInstanceAs (Decidable (_ ∨ _ ∨ _))

section
variable {u : UserRegisters} {seg : DataSeg → BitVec 16} {vector : BitVec 8} {cause : Cause}

/-- Every vector but one leads to its handler, if it may be used. -/
theorem Installed.deliver (h : l.Installed r memory) (hroom : Room memory l.stackTop 6)
    (h8 : vector.toNat ≠ 8) (hcause : cause = .software → IsOpen vector.toNat) :
    r.deliver memory u seg vector cause = .ok (.handler ⟨l.handlerOf vector.toNat, 8, 0x10,
      entryState (IsTrap vector.toNat) u seg memory l.stackTop cause⟩) := by
  obtain ⟨gate, hgates, hgate⟩ := h.gates vector
  have htype : gate.type = if IsTrap vector.toNat then trapGate else interruptGate := by
    rw [hgate.type, gateTypeOf, if_neg h8]
    split
    · rw [if_pos ‹_›]
      rfl
    · rw [if_neg ‹_›]
      rfl
  have htrap : (gate.type == trapGate) = decide (IsTrap vector.toNat) := by
    rw [htype]
    split
    · simp [*]
    · simp [*, trapGate, interruptGate]
  rw [hgates.deliver_eq ?_ ?_ h.entersKernel ?_ hroom, hgate.offset h8, htrap]
  · rw [htype]
    split <;> decide
  · intro hsoftware
    rw [hgate.dpl, if_pos (hcause hsoftware)]
  · rw [hgate.selector, if_neg h8]

/-- The task of a double fault. -/
def doubleFaultTask (l : KernelImage) : Task where
  cr3 := l.defaultPageDir - l.kernelStart + l.kernelPstart
  eip := l.isrDoubleFault
  eflags := 0
  gpr := ⟨0, 0, 0, 0, 0, 0, 0, l.stackTop⟩
  es := 0
  cs := 0x08
  ss := 0x10
  ds := 0x10
  fs := 0x10
  gs := 0x10

theorem Installed.deliver_doubleFault (h : l.Installed r memory) (error : Option Word) :
    r.deliver memory u seg 8 (.hardware error) = .ok (.task l.doubleFaultTask) := by
  obtain ⟨gate, hgates, hgate⟩ := h.gates 8
  have hselector : gate.selector = 0x30 := hgate.selector
  obtain ⟨hsystem, htype, hbytes⟩ := isTss_createSegmentDescriptor .zero l.doubleFaultTss 103
  obtain ⟨d, hfinds, hd⟩ := h.finds 0x30 (i := 6) rfl (by decide) (by decide)
  obtain rfl := hd.eq_of_system hsystem
  have hlimit : (l.busyGdtBits.getD 6 0).limit = 103 :=
    limit_createSegmentDescriptor .zero l.doubleFaultTss 103 .tss
  have hbase : (l.busyGdtBits.getD 6 0).base = l.doubleFaultTss :=
    base_createSegmentDescriptor .zero l.doubleFaultTss 103 .tss
  have hcause : Cause.hardware error = .software → gate.dpl = 3 := nofun
  rw [hgates.deliver_task (d := l.busyGdtBits.getD 6 0) hgate.type hcause (by rwa [hselector])
    ⟨hsystem, htype⟩ (present_createSegmentDescriptor ..) hbytes
    (by rw [hlimit]; decide) (by rw [hbase]; exact h.doubleFaultTss)]
  rfl

/-- **What programs may ask for.**  An `int` instruction gets into the kernel through
`isr_preempt` or `isr_syscall`, with interrupts off; any other is a general protection fault.
Either way the kernel's stack has nothing on it but the frame of the program, and the code that
says which gate was not open. -/
theorem handle_software (hapart : l.TablesApart)
    (hinit : l.initializeTables r0 memory0 = .ok (r, memory1))
    (hkept : l.TablesKept memory1 memory) (hroom : Room memory l.stackTop 6)
    (u : UserRegisters) (seg : DataSeg → BitVec 16) (vector : BitVec 8) :
    interrupt u seg memory l.stackTop =
        some (entryState false u seg memory l.stackTop .software) ∧
      r.handle memory u seg vector .software = .ok (.handler (
        if vector = 65 then
          ⟨l.isrPreempt, 8, 0x10, entryState false u seg memory l.stackTop .software⟩
        else if vector = 128 then
          ⟨l.isrSyscall, 8, 0x10, entryState false u seg memory l.stackTop .software⟩
        else ⟨l.isrGpFault, 8, 0x10, entryState true u seg memory l.stackTop
          (.hardware (some (8 * vector.setWidth 32 + 2)))⟩)) := by
  have h := (installed_of_initializeTables hapart hinit).of_kept hkept
  refine ⟨interrupt_eq u seg hroom (by decide), ?_⟩
  by_cases hopen : IsOpen vector.toNat
  · rw [SystemRegisters.handle, h.deliver hroom ?_ fun _ => hopen]
    · obtain hv | hv := hopen
      · obtain rfl : vector = 65 := BitVec.eq_of_toNat_eq hv
        rfl
      · obtain rfl : vector = 128 := BitVec.eq_of_toNat_eq hv
        rfl
    · rintro h8
      rw [h8] at hopen
      exact absurd hopen (by decide)
  · obtain ⟨gate, hgates, hgate⟩ := h.gates vector
    have hdenied : gate.dpl ≠ 3 := by
      rw [hgate.dpl, if_neg hopen]
      decide
    have h65 : vector ≠ 65 := fun hv => hopen (.inl (congrArg BitVec.toNat hv))
    have h128 : vector ≠ 128 := fun hv => hopen (.inr (congrArg BitVec.toNat hv))
    have hfault : r.deliver memory u seg 13 (.hardware (some (gateCode vector .software))) = _ :=
      h.deliver hroom (by decide) nofun
    have hcode : gateCode vector .software = 8 * vector.setWidth 32 + 2 := BitVec.add_zero _
    rw [SystemRegisters.handle, hgates.deliver_software hdenied, if_neg h65, if_neg h128]
    dsimp only
    rw [hfault, hcode]
    rfl

/-- A breakpoint instruction is a general protection fault. -/
theorem handle_software_kernelImage : ∃ (r : SystemRegisters) (memory : Memory),
    r.handle memory someRegisters (fun _ => 0x23) 3 .software =
      .ok (.handler ⟨0xFF401300, 8, 0x10, entryState true someRegisters (fun _ => 0x23) memory
        0xFF414000 (.hardware (some 26))⟩) := by
  obtain ⟨r, memory, hinit, hroom⟩ := exists_kernelImage
  exact ⟨r, memory, (handle_software tablesApart_kernelImage hinit .refl
    (hroom 6 (by decide)) someRegisters (fun _ => 0x23) 3).2⟩

/-- **What programs do not ask for.**  A double fault switches to a task of its own; anything else
leads to the handler of its vector.  A handler that leaves the registers alone and was entered
without an error code returns to the program where it was; with an error code on its stack its
`iret` goes to the code, if it goes anywhere. -/
theorem handle_hardware (hapart : l.TablesApart)
    (hinit : l.initializeTables r0 memory0 = .ok (r, memory1))
    (hkept : l.TablesKept memory1 memory) (hroom : Room memory l.stackTop 6)
    (u : UserRegisters) (seg : DataSeg → BitVec 16) (vector : BitVec 8) (error : Option Word) :
    r.handle memory u seg vector (.hardware error) = .ok (
      if vector = 8 then .task l.doubleFaultTask
      else .handler ⟨l.handlerOf vector.toNat, 8, 0x10,
        entryState (IsTrap vector.toNat) u seg memory l.stackTop (.hardware error)⟩) ∧
    iret (entryState (IsTrap vector.toNat) u seg memory l.stackTop (.hardware error)) =
      match error with
      | none => some u
      | some code =>
        if h : IsUserSelector (u.eip.setWidth 16) then
          some ⟨u.gpr.set u.eflags .esp, code, u.cs.setWidth 32, u.eip.setWidth 16,
            u.gpr.esp.setWidth 16, h, by simp [vmFlag]⟩
        else none := by
  have h := (installed_of_initializeTables hapart hinit).of_kept hkept
  constructor
  · by_cases h8 : vector = 8
    · subst h8
      rw [SystemRegisters.handle, h.deliver_doubleFault]
      rfl
    · have hne : vector.toNat ≠ 8 := fun hv => h8 (BitVec.eq_of_toNat_eq hv)
      have hcause : Cause.hardware error = .software → IsOpen vector.toNat := nofun
      rw [SystemRegisters.handle, h.deliver hroom hne hcause, if_neg h8]
  · cases error with
    | none => exact SystemRegisters.iret_entryState rfl
    | some code => exact SystemRegisters.iret_entryState_error rfl

/-- An exception with a code and no handler of its own does not return to the program. -/
theorem handle_hardware_kernelImage : ∃ (r : SystemRegisters) (memory : Memory),
    r.handle memory someRegisters (fun _ => 0x23) 17 (.hardware (some 0)) =
      .ok (.handler ⟨0xFF401000, 8, 0x10, entryState false someRegisters (fun _ => 0x23) memory
        0xFF414000 (.hardware (some 0))⟩) ∧
    iret (entryState false someRegisters (fun _ => 0x23) memory 0xFF414000 (.hardware (some 0))) =
      none := by
  obtain ⟨r, memory, hinit, hroom⟩ := exists_kernelImage
  exact ⟨r, memory, handle_hardware tablesApart_kernelImage hinit .refl
    (hroom 6 (by decide)) someRegisters (fun _ => 0x23) 17 (some 0)⟩

end

/-! ### Selectors of programs -/

/-- A selector of level 3 that is found is that of an entry. -/
theorem Installed.entry_of_finds (h : l.Installed r memory) {selector : BitVec 16} {d : Descriptor}
    (hfinds : r.Finds memory selector d) (hlevel : selectorLevel selector = 3) :
    ∃ i, 0 < i ∧ i < 7 ∧ selector.toNat = 8 * i + 3 ∧ (l.busyGdtBits.getD i 0).MayBecome d := by
  have hnull := hfinds.notNull
  have hlocal := hfinds.notLocal
  have hholds := hfinds.holds
  have hthree : (selectorLevel selector).toNat = 3 := congrArg BitVec.toNat hlevel
  rw [selectorLevel_eq] at hthree
  rw [isLocalSelector_iff] at hlocal
  rw [IsNullSelector] at hnull
  rw [TableRegister.Holds, h.gdtr, selectorIndex,
    show (55 : BitVec 16).toNat = 55 from rfl] at hholds
  have hpos : 0 < selector.toNat / 8 := by omega
  refine ⟨selector.toNat / 8, hpos, by omega, by omega, ?_⟩
  obtain ⟨e, hentry, he⟩ :=
    h.finds selector rfl ⟨hpos, by rw [selectorIndex]; omega⟩ hfinds.notLocal
  obtain rfl := Option.some.inj (hfinds.fetch.symm.trans hentry.fetch)
  exact he

theorem isCodeOrData_busy (d : Descriptor) :
    (d ||| (1 : Descriptor) <<< busyBit).isCodeOrData = d.isCodeOrData := by
  have hbit : ((1 : Descriptor) <<< busyBit).extractLsb' 44 1 = 0#1 := by decide
  rw [Descriptor.isCodeOrData, Descriptor.bit, BitVec.extractLsb'_or, hbit, BitVec.or_zero]
  rfl

/-- The entries for code and those for data. -/
theorem entry_cases {i : Nat} (hi : 0 < i ∧ i < 7) :
    ((l.busyGdtBits.getD i 0).IsCode → i = 1 ∨ i = 3) ∧
      ((l.busyGdtBits.getD i 0).IsWritable → i = 2 ∨ i = 4) := by
  have hcreated : ∀ base limit type, (type = .kernelCode ∨ type = .userCode ↔ i = 1 ∨ i = 3) →
      (type = .kernelData ∨ type = .userData ↔ i = 2 ∨ i = 4) →
      l.busyGdtBits.getD i 0 = (createSegmentDescriptor .zero base limit type).toBits →
      ((l.busyGdtBits.getD i 0).IsCode → i = 1 ∨ i = 3) ∧
        ((l.busyGdtBits.getD i 0).IsWritable → i = 2 ∨ i = 4) := by
    intro base limit type hcode hdata hd
    rw [hd, isCode_createSegmentDescriptor, isWritable_createSegmentDescriptor, hcode, hdata]
    exact ⟨id, id⟩
  have hentries : i = 1 ∨ i = 2 ∨ i = 3 ∨ i = 4 ∨ i = 5 ∨ i = 6 := by omega
  rcases hentries with rfl | rfl | rfl | rfl | rfl | rfl
  · exact hcreated 0 0xFFFFF .kernelCode (by decide) (by decide) rfl
  · exact hcreated 0 0xFFFFF .kernelData (by decide) (by decide) rfl
  · exact hcreated 0 0xFFFFF .userCode (by decide) (by decide) rfl
  · exact hcreated 0 0xFFFFF .userData (by decide) (by decide) rfl
  · -- the task state segment, in use
    have hsystem : (l.busyGdtBits.getD 5 0).isCodeOrData = false :=
      (isCodeOrData_busy _).trans (isTss_createSegmentDescriptor .zero l.tss 103).1
    constructor
    · rintro ⟨hcode, -⟩
      rw [hsystem] at hcode
      cases hcode
    · rintro ⟨hdata, -⟩
      rw [hsystem] at hdata
      cases hdata
  · exact hcreated l.doubleFaultTss 103 .tss (by decide) (by decide) rfl

/-- **The selectors of programs.**  `iret` enters user mode with the code segment and the data
segment of programs, and with no others. -/
theorem checkReturn_iff (hapart : l.TablesApart)
    (hinit : l.initializeTables r0 memory0 = .ok (r, memory1))
    (hkept : l.TablesKept memory1 memory) {cs ss : BitVec 16}
    (huser : IsUserSelector cs) :
    r.checkReturn memory cs ss = .ok () ↔ cs = 0x1B ∧ ss = 0x23 := by
  have h := (installed_of_initializeTables hapart hinit).of_kept hkept
  rw [isUserSelector_iff] at huser
  rw [SystemRegisters.checkReturn_eq_ok, huser]
  constructor
  · rintro ⟨⟨d, hcs, hcode, -, hlevel, -⟩, d', hss, hlevel', hwritable, hdpl, -⟩
    obtain ⟨i, hpos, hlt, hi, hd⟩ := h.entry_of_finds hcs huser
    obtain ⟨j, hjpos, hjlt, hj, hd'⟩ := h.entry_of_finds hss hlevel'
    constructor
    · rcases (entry_cases ⟨hpos, hlt⟩).1 (hd.isCode.mp hcode) with rfl | rfl
      · have hkernel : (l.busyGdtBits.getD 1 0).dpl = 0 := dpl_createSegmentDescriptor ..
        rw [hd.dpl, hkernel, hd.conforming] at hlevel
        exact absurd (hlevel (conforming_createSegmentDescriptor ..)) (by decide)
      · exact BitVec.eq_of_toNat_eq hi
    · rcases (entry_cases ⟨hjpos, hjlt⟩).2 (hd'.isWritable.mp hwritable) with rfl | rfl
      · have hkernel : (l.busyGdtBits.getD 2 0).dpl = 0 := dpl_createSegmentDescriptor ..
        rw [hd'.dpl, hkernel] at hdpl
        exact absurd hdpl (by decide)
      · exact BitVec.eq_of_toNat_eq hj
  · rintro ⟨rfl, rfl⟩
    have hcode : (l.busyGdtBits.getD 3 0).dpl = 3 := dpl_createSegmentDescriptor ..
    have hdata : (l.busyGdtBits.getD 4 0).dpl = 3 := dpl_createSegmentDescriptor ..
    obtain ⟨d, hcs, hd⟩ := h.finds 0x1B (i := 3) rfl (by decide) (by decide)
    obtain ⟨d', hss, hd'⟩ := h.finds 0x23 (i := 4) rfl (by decide) (by decide)
    refine ⟨⟨d, hcs, hd.isCode.mpr ?_, ?_, fun _ => hd.dpl.trans hcode, hd.present.trans ?_⟩,
      d', hss, rfl, hd'.isWritable.mpr ?_, hd'.dpl.trans hdata, hd'.present.trans ?_⟩
    · exact (isCode_createSegmentDescriptor ..).mpr (.inr rfl)
    · rw [hd.dpl, hcode]
      decide
    · exact present_createSegmentDescriptor ..
    · exact (isWritable_createSegmentDescriptor ..).mpr (.inr rfl)
    · exact present_createSegmentDescriptor ..

/-- A process starts with these selectors. -/
theorem checkReturn_iff_kernelImage : ∃ (r : SystemRegisters) (memory : Memory),
    r.checkReturn memory 0x1B 0x23 = .ok () := by
  obtain ⟨r, memory, hinit, -⟩ := exists_kernelImage
  exact ⟨r, memory, (checkReturn_iff tablesApart_kernelImage hinit .refl
    (by decide)).mpr ⟨rfl, rfl⟩⟩

end KernelImage
end QuarkKernel
