import QuarkKernel.BitFields
import QuarkKernel.InterruptDelivery
import QuarkKernel.Status

/-! # The descriptor tables

`x86/idt.c`: the global descriptor table, the two task state segments and the interrupt
descriptor table. -/
namespace QuarkKernel

open BitFields ByteMemory X86

/-! ### Segment descriptors -/

/-- `enum segment_type_t` -/
inductive SegmentType where
  | kernelCode | kernelData | userCode | userData | tss
deriving DecidableEq, Repr

/-- `struct gdt_entry_t` -/
structure GdtEntry where
  limitLow : BitVec 16
  baseLow : BitVec 24
  accessed : BitVec 1
  readWrite : BitVec 1
  conformingExpandDown : BitVec 1
  code : BitVec 1
  codeDataSegment : BitVec 1
  dpl : BitVec 2
  present : BitVec 1
  limitHigh : BitVec 4
  available : BitVec 1
  longMode : BitVec 1
  big : BitVec 1
  granularity : BitVec 1
  baseHigh : BitVec 8
deriving DecidableEq, Repr

namespace GdtEntry

def zero : GdtEntry := ⟨0, 0, 0, 0, 0, 0, 0, 0, 0, 0, 0, 0, 0, 0, 0⟩

/-- The structure is packed. -/
def fields (e : GdtEntry) : List BitField :=
  [field e.limitLow, field e.baseLow, field e.accessed, field e.readWrite,
    field e.conformingExpandDown, field e.code, field e.codeDataSegment, field e.dpl,
    field e.present, field e.limitHigh, field e.available, field e.longMode, field e.big,
    field e.granularity, field e.baseHigh]

def toBits (e : GdtEntry) : Descriptor := packed 64 e.fields

end GdtEntry

/-- `create_segment_descriptor` -/
def createSegmentDescriptor (descriptor : GdtEntry) (base limit : Word) (type : SegmentType) :
    GdtEntry :=
  let descriptor := { descriptor with
    limitLow := limit.setWidth 16
    limitHigh := ((limit &&& (0xF#32 <<< 16)) >>> 16).setWidth 4
    baseLow := base.setWidth 24
    baseHigh := ((base &&& (0xFF#32 <<< 24)) >>> 24).setWidth 8
    present := 1 }
  match type with
  | .kernelCode => { descriptor with
      accessed := 0, readWrite := 1, conformingExpandDown := 0, code := 1, codeDataSegment := 1,
      dpl := 0, available := 0, longMode := 0, big := 1, granularity := 1 }
  | .kernelData => { descriptor with
      accessed := 0, readWrite := 1, conformingExpandDown := 0, code := 0, codeDataSegment := 1,
      dpl := 0, available := 0, longMode := 0, big := 1, granularity := 1 }
  | .userCode => { descriptor with
      accessed := 0, readWrite := 1, conformingExpandDown := 0, code := 1, codeDataSegment := 1,
      dpl := 3, available := 0, longMode := 0, big := 1, granularity := 1 }
  | .userData => { descriptor with
      accessed := 0, readWrite := 1, conformingExpandDown := 0, code := 0, codeDataSegment := 1,
      dpl := 3, available := 0, longMode := 0, big := 1, granularity := 1 }
  | .tss => { descriptor with
      accessed := 1, readWrite := 0, conformingExpandDown := 0, code := 1, codeDataSegment := 0,
      dpl := 3, available := 0, longMode := 0, big := 0, granularity := 0 }

namespace GdtEntry
variable (e : GdtEntry)

theorem totalWidth_fields : totalWidth e.fields = 64 := by simp [fields]

/-- A field of the entry, by its number and its place. -/
theorem extract_toBits {i place : Nat} {f : BitField} (hf : e.fields[i]? = some f)
    (hplace : totalWidth (e.fields.take i) = place) :
    e.toBits.extractLsb' place f.width = f.value :=
  extract_field e.totalWidth_fields.le hf hplace

theorem base_toBits : e.toBits.base = e.baseHigh ++ e.baseLow := by
  have hhigh : e.toBits.extractLsb' 56 8 = e.baseHigh :=
    e.extract_toBits (i := 14) (f := field e.baseHigh) rfl (by simp [fields])
  have hlow : e.toBits.extractLsb' 16 24 = e.baseLow :=
    e.extract_toBits (i := 1) (f := field e.baseLow) rfl (by simp [fields])
  rw [Descriptor.base, hhigh, hlow]

theorem limit_toBits : e.toBits.limit = e.limitHigh ++ e.limitLow := by
  have hhigh : e.toBits.extractLsb' 48 4 = e.limitHigh :=
    e.extract_toBits (i := 9) (f := field e.limitHigh) rfl (by simp [fields])
  have hlow : e.toBits.extractLsb' 0 16 = e.limitLow :=
    e.extract_toBits (i := 0) (f := field e.limitLow) rfl (by simp [fields])
  rw [Descriptor.limit, hhigh, hlow]

theorem type_toBits : e.toBits.type =
    packed 4 [field e.accessed, field e.readWrite, field e.conformingExpandDown, field e.code] := by
  have hrun := extract_packed e.totalWidth_fields.le 2 4
  have hplace : totalWidth (e.fields.take 2) = 40 := by simp [fields]
  rw [hplace] at hrun
  exact hrun

theorem dpl_toBits : e.toBits.dpl = e.dpl := by
  have hfield : e.toBits.extractLsb' 45 2 = e.dpl :=
    e.extract_toBits (i := 7) (f := field e.dpl) rfl (by simp [fields])
  exact hfield

theorem isCodeOrData_toBits : e.toBits.isCodeOrData = (e.codeDataSegment == 1) := by
  have hfield : e.toBits.extractLsb' 44 1 = e.codeDataSegment :=
    e.extract_toBits (i := 6) (f := field e.codeDataSegment) rfl (by simp [fields])
  rw [Descriptor.isCodeOrData, Descriptor.bit, hfield]

theorem present_toBits : e.toBits.present = (e.present == 1) := by
  have hfield : e.toBits.extractLsb' 47 1 = e.present :=
    e.extract_toBits (i := 8) (f := field e.present) rfl (by simp [fields])
  rw [Descriptor.present, Descriptor.bit, hfield]

theorem big_toBits : e.toBits.big = (e.big == 1) := by
  have hfield : e.toBits.extractLsb' 54 1 = e.big :=
    e.extract_toBits (i := 12) (f := field e.big) rfl (by simp [fields])
  rw [Descriptor.big, Descriptor.bit, hfield]

theorem granularity_toBits : e.toBits.granularity = (e.granularity == 1) := by
  have hfield : e.toBits.extractLsb' 55 1 = e.granularity :=
    e.extract_toBits (i := 13) (f := field e.granularity) rfl (by simp [fields])
  rw [Descriptor.granularity, Descriptor.bit, hfield]

end GdtEntry

section
variable (d : GdtEntry) (base limit : Word) (type : SegmentType)

/-- The processor finds the base that is given, and twenty bits of the limit. -/
theorem base_createSegmentDescriptor :
    (createSegmentDescriptor d base limit type).toBits.base = base := by
  have hhigh : (createSegmentDescriptor d base limit type).baseHigh = base.extractLsb' 24 8 := by
    have hmasked := setWidth_masked base (n := 8) (i := 24) (by decide)
    cases type <;> exact hmasked
  have hlow : (createSegmentDescriptor d base limit type).baseLow = base.setWidth 24 := by
    cases type <;> rfl
  rw [GdtEntry.base_toBits, hhigh, hlow, extract_append_setWidth base (by decide)]
  exact BitVec.setWidth_eq base

theorem limit_createSegmentDescriptor :
    (createSegmentDescriptor d base limit type).toBits.limit = limit.setWidth 20 := by
  have hhigh : (createSegmentDescriptor d base limit type).limitHigh = limit.extractLsb' 16 4 := by
    have hmasked := setWidth_masked limit (n := 4) (i := 16) (by decide)
    cases type <;> exact hmasked
  have hlow : (createSegmentDescriptor d base limit type).limitLow = limit.setWidth 16 := by
    cases type <;> rfl
  rw [GdtEntry.limit_toBits, hhigh, hlow, extract_append_setWidth limit (by decide)]

theorem present_createSegmentDescriptor :
    (createSegmentDescriptor d base limit type).toBits.present = true := by
  rw [GdtEntry.present_toBits]
  cases type <;> rfl

theorem dpl_createSegmentDescriptor : (createSegmentDescriptor d base limit type).toBits.dpl =
    if type = .kernelCode ∨ type = .kernelData then 0 else 3 := by
  rw [GdtEntry.dpl_toBits]
  cases type <;> rfl

theorem isCode_createSegmentDescriptor :
    (createSegmentDescriptor d base limit type).toBits.IsCode ↔
      type = .kernelCode ∨ type = .userCode := by
  rw [Descriptor.IsCode, GdtEntry.isCodeOrData_toBits, GdtEntry.type_toBits]
  cases type <;> simp [createSegmentDescriptor, packed, pack]

theorem isWritable_createSegmentDescriptor :
    (createSegmentDescriptor d base limit type).toBits.IsWritable ↔
      type = .kernelData ∨ type = .userData := by
  rw [Descriptor.IsWritable, GdtEntry.isCodeOrData_toBits, GdtEntry.type_toBits]
  cases type <;> simp [createSegmentDescriptor, packed, pack]

theorem conforming_createSegmentDescriptor :
    (createSegmentDescriptor d base limit type).toBits.conforming = false := by
  rw [Descriptor.conforming, GdtEntry.type_toBits]
  cases type <;> simp [createSegmentDescriptor, packed, pack]

theorem isFlat_createSegmentDescriptor (htype : type ≠ .tss) :
    (createSegmentDescriptor d 0 0xFFFFF type).toBits.IsFlat := by
  rw [Descriptor.IsFlat, base_createSegmentDescriptor, limit_createSegmentDescriptor,
    GdtEntry.granularity_toBits, GdtEntry.big_toBits, conforming_createSegmentDescriptor]
  cases type <;> first | exact absurd rfl htype | simp [createSegmentDescriptor]

theorem isTss_createSegmentDescriptor :
    (createSegmentDescriptor d base limit .tss).toBits.isCodeOrData = false ∧
      (createSegmentDescriptor d base limit .tss).toBits.type = availableTss ∧
      (createSegmentDescriptor d base limit .tss).toBits.granularity = false := by
  rw [GdtEntry.isCodeOrData_toBits, GdtEntry.type_toBits, GdtEntry.granularity_toBits]
  exact ⟨rfl, rfl, rfl⟩

end

/-! ### Gates -/

/-- `enum isr_type_t` -/
inductive IsrType where
  | task32 | trap32 | int32 | trap16 | int16
deriving DecidableEq, Repr

def IsrType.code : IsrType → BitVec 4
  | .task32 => 5
  | .trap32 => 15
  | .int32 => 14
  | .trap16 => 7
  | .int16 => 6

/-- `struct interrupt_descriptor_t` -/
structure InterruptDescriptor where
  offset1 : BitVec 16
  selector : BitVec 16
  zero : BitVec 8
  type : BitVec 4
  storage : BitVec 1
  dpl : BitVec 2
  present : BitVec 1
  offset2 : BitVec 16
deriving DecidableEq, Repr

namespace InterruptDescriptor

def empty : InterruptDescriptor := ⟨0, 0, 0, 0, 0, 0, 0, 0⟩

/-- The structure is packed. -/
def fields (d : InterruptDescriptor) : List BitField :=
  [field d.offset1, field d.selector, field d.zero, field d.type, field d.storage, field d.dpl,
    field d.present, field d.offset2]

def toBits (d : InterruptDescriptor) : Descriptor := packed 64 d.fields

end InterruptDescriptor

/-- `create_interrupt_descriptor`.  A task gate keeps the offset that was there. -/
def createInterruptDescriptor (descriptor : InterruptDescriptor) (isr : Word) (type : IsrType)
    (privilage selector : Word) : InterruptDescriptor :=
  let descriptor := if type ≠ .task32 then
      { descriptor with
        offset1 := (isr &&& 0xFFFF).setWidth 16
        offset2 := (isr >>> 16).setWidth 16 }
    else descriptor
  { descriptor with
    selector := selector.setWidth 16
    zero := 0
    type := type.code
    storage := 0
    dpl := privilage.setWidth 2
    present := 1 }

namespace InterruptDescriptor
variable (d : InterruptDescriptor)

theorem totalWidth_fields : totalWidth d.fields = 64 := by simp [fields]

theorem extract_toBits {i place : Nat} {f : BitField} (hf : d.fields[i]? = some f)
    (hplace : totalWidth (d.fields.take i) = place) :
    d.toBits.extractLsb' place f.width = f.value :=
  extract_field d.totalWidth_fields.le hf hplace

theorem offset_toBits : d.toBits.offset = d.offset2 ++ d.offset1 := by
  have hhigh : d.toBits.extractLsb' 48 16 = d.offset2 :=
    d.extract_toBits (i := 7) (f := field d.offset2) rfl (by simp [fields])
  have hlow : d.toBits.extractLsb' 0 16 = d.offset1 :=
    d.extract_toBits (i := 0) (f := field d.offset1) rfl (by simp [fields])
  rw [Descriptor.offset, hhigh, hlow]

theorem selector_toBits : d.toBits.selector = d.selector := by
  have hfield : d.toBits.extractLsb' 16 16 = d.selector :=
    d.extract_toBits (i := 1) (f := field d.selector) rfl (by simp [fields])
  exact hfield

theorem type_toBits : d.toBits.type = d.type := by
  have hfield : d.toBits.extractLsb' 40 4 = d.type :=
    d.extract_toBits (i := 3) (f := field d.type) rfl (by simp [fields])
  exact hfield

theorem isCodeOrData_toBits : d.toBits.isCodeOrData = (d.storage == 1) := by
  have hfield : d.toBits.extractLsb' 44 1 = d.storage :=
    d.extract_toBits (i := 4) (f := field d.storage) rfl (by simp [fields])
  rw [Descriptor.isCodeOrData, Descriptor.bit, hfield]

theorem dpl_toBits : d.toBits.dpl = d.dpl := by
  have hfield : d.toBits.extractLsb' 45 2 = d.dpl :=
    d.extract_toBits (i := 5) (f := field d.dpl) rfl (by simp [fields])
  exact hfield

theorem present_toBits : d.toBits.present = (d.present == 1) := by
  have hfield : d.toBits.extractLsb' 47 1 = d.present :=
    d.extract_toBits (i := 6) (f := field d.present) rfl (by simp [fields])
  rw [Descriptor.present, Descriptor.bit, hfield]

end InterruptDescriptor

section
variable (d : InterruptDescriptor) (isr : Word) (type : IsrType) (privilage selector : Word)

/-- The processor finds the address of the handler. -/
theorem offset_createInterruptDescriptor (htype : type ≠ .task32) :
    (createInterruptDescriptor d isr type privilage selector).toBits.offset = isr := by
  have hhigh : (createInterruptDescriptor d isr type privilage selector).offset2 =
      isr.extractLsb' 16 16 := by
    rw [createInterruptDescriptor, if_pos htype]
    rfl
  have hlow : (createInterruptDescriptor d isr type privilage selector).offset1 =
      isr.setWidth 16 := by
    rw [createInterruptDescriptor, if_pos htype]
    exact setWidth_masked isr (n := 16) (i := 0) (by decide)
  rw [InterruptDescriptor.offset_toBits, hhigh, hlow, extract_append_setWidth isr (by decide)]
  exact BitVec.setWidth_eq isr

theorem selector_createInterruptDescriptor :
    (createInterruptDescriptor d isr type privilage selector).toBits.selector =
      selector.setWidth 16 :=
  InterruptDescriptor.selector_toBits _

theorem type_createInterruptDescriptor :
    (createInterruptDescriptor d isr type privilage selector).toBits.type = type.code :=
  InterruptDescriptor.type_toBits _

theorem dpl_createInterruptDescriptor :
    (createInterruptDescriptor d isr type privilage selector).toBits.dpl =
      privilage.setWidth 2 :=
  InterruptDescriptor.dpl_toBits _

theorem present_createInterruptDescriptor :
    (createInterruptDescriptor d isr type privilage selector).toBits.present = true :=
  InterruptDescriptor.present_toBits _

/-- A gate of 32 bits. -/
theorem isGate_createInterruptDescriptor (htype : type ≠ .trap16 ∧ type ≠ .int16) :
    (createInterruptDescriptor d isr type privilage selector).toBits.IsGate := by
  refine ⟨InterruptDescriptor.isCodeOrData_toBits _, ?_⟩
  rw [type_createInterruptDescriptor]
  cases type with
  | task32 => exact .inl rfl
  | int32 => exact .inr (.inl rfl)
  | trap32 => exact .inr (.inr rfl)
  | trap16 => exact absurd rfl htype.1
  | int16 => exact absurd rfl htype.2

end

/-! ### The tables -/

/-- `struct tss_entry_t` -/
structure TssEntry where
  prevTss : Word
  esp0 : Word
  ss0 : Word
  esp1 : Word
  ss1 : Word
  esp2 : Word
  ss2 : Word
  cr3 : Word
  eip : Word
  eflags : Word
  eax : Word
  ecx : Word
  edx : Word
  ebx : Word
  esp : Word
  ebp : Word
  esi : Word
  edi : Word
  es : Word
  cs : Word
  ss : Word
  ds : Word
  fs : Word
  gs : Word
  ldt : Word
  trap : BitVec 16
  iomapBase : BitVec 16
deriving DecidableEq, Repr

namespace TssEntry

def zero : TssEntry :=
  ⟨0, 0, 0, 0, 0, 0, 0, 0, 0, 0, 0, 0, 0, 0, 0, 0, 0, 0, 0, 0, 0, 0, 0, 0, 0, 0, 0⟩

def toWords (t : TssEntry) : List Word :=
  [t.prevTss, t.esp0, t.ss0, t.esp1, t.ss1, t.esp2, t.ss2, t.cr3, t.eip, t.eflags, t.eax, t.ecx,
    t.edx, t.ebx, t.esp, t.ebp, t.esi, t.edi, t.es, t.cs, t.ss, t.ds, t.fs, t.gs, t.ldt,
    t.iomapBase ++ t.trap]

/-- `sizeof(struct tss_entry_t)` -/
def size : Nat := 104

end TssEntry

/-- Where the linker puts the tables, the stack, the page directory and the handlers. -/
structure KernelImage where
  gdt : Word
  tss : Word
  doubleFaultTss : Word
  idt : Word
  stackTop : Word
  defaultPageDir : Word
  kernelStart : Word
  kernelPstart : Word
  isrGeneric : Word
  isrDivisionByZero : Word
  isrSegmentNotPresent : Word
  isrGpFault : Word
  isrPageFault : Word
  isrDoubleFault : Word
  isrTimer : Word
  isrPreempt : Word
  isrSyscall : Word
deriving DecidableEq, Repr

namespace KernelImage
variable (l : KernelImage)

/-- The table `initialize_gdt` builds. -/
def gdtEntries : List GdtEntry :=
  let limit := BitVec.ofNat 32 (TssEntry.size - 1)
  [.zero, createSegmentDescriptor .zero 0 0xFFFFF .kernelCode,
    createSegmentDescriptor .zero 0 0xFFFFF .kernelData,
    createSegmentDescriptor .zero 0 0xFFFFF .userCode,
    createSegmentDescriptor .zero 0 0xFFFFF .userData,
    createSegmentDescriptor .zero l.tss limit .tss,
    createSegmentDescriptor .zero l.doubleFaultTss limit .tss]

/-- What `initialize_gdt` puts into `tss`. -/
def tssEntry : TssEntry := { TssEntry.zero with esp0 := l.stackTop, ss0 := 0x10 }

/-- What `initialize_gdt` puts into `double_fault_tss`. -/
def doubleFaultEntry : TssEntry :=
  { TssEntry.zero with
    esp0 := l.stackTop
    ss0 := 0x10
    esp := l.stackTop
    cs := 0x08
    ds := 0x10
    ss := 0x10
    fs := 0x10
    gs := 0x10
    cr3 := l.defaultPageDir - l.kernelStart + l.kernelPstart
    eip := l.isrDoubleFault }

end KernelImage

/-- `create_interrupt_descriptor(&idt[i], …)` -/
def setGate (idt : List InterruptDescriptor) (i : Nat) (isr : Word) (type : IsrType)
    (privilage selector : Word) : List InterruptDescriptor :=
  idt.set i (createInterruptDescriptor (idt.getD i .empty) isr type privilage selector)

/-- The loop of `initialize_idt`. -/
def genericGates (isr : Word) : Nat → List InterruptDescriptor → List InterruptDescriptor
  | 0, idt => idt
  | n + 1, idt => setGate (genericGates isr n idt) n isr .int32 0 8

/-- The table `initialize_idt` builds. -/
def KernelImage.idtEntries (l : KernelImage) : List InterruptDescriptor :=
  let idt := genericGates l.isrGeneric 256 (List.replicate 256 .empty)
  let idt := setGate idt 0 l.isrDivisionByZero .int32 0 8
  let idt := setGate idt 11 l.isrSegmentNotPresent .trap32 0 8
  let idt := setGate idt 13 l.isrGpFault .trap32 0 8
  let idt := setGate idt 14 l.isrPageFault .trap32 0 8
  let idt := setGate idt 8 0 .task32 0 (8 * 6)
  let idt := setGate idt 65 l.isrPreempt .int32 3 8
  let idt := setGate idt 64 l.isrTimer .int32 0 8
  setGate idt 128 l.isrSyscall .int32 3 8

/-! ### Gates of the table -/

/-- The gate at place `i`, but for what was there before. -/
def HasGate (idt : List InterruptDescriptor) (i : Nat) (isr : Word) (type : IsrType)
    (privilage selector : Word) : Prop :=
  ∃ d, idt.getD i .empty = createInterruptDescriptor d isr type privilage selector

section
variable {idt : List InterruptDescriptor} {i j n : Nat} {isr isr' privilage privilage' selector
  selector' : Word} {type type' : IsrType}

@[simp] theorem length_setGate :
    (setGate idt i isr type privilage selector).length = idt.length := by
  rw [setGate, List.length_set]

@[simp] theorem length_genericGates : (genericGates isr n idt).length = idt.length := by
  induction n with
  | zero => rfl
  | succ n ih => rw [genericGates, length_setGate, ih]

theorem hasGate_setGate (hi : i < idt.length) :
    HasGate (setGate idt i isr type privilage selector) i isr type privilage selector := by
  refine ⟨idt.getD i .empty, ?_⟩
  rw [setGate, List.getD_eq_getElem?_getD, List.getElem?_set_self hi]
  rfl

theorem HasGate.setGate (h : HasGate idt j isr type privilage selector) (hne : j ≠ i) :
    HasGate (setGate idt i isr' type' privilage' selector') j isr type privilage selector := by
  obtain ⟨d, hd⟩ := h
  refine ⟨d, ?_⟩
  rwa [QuarkKernel.setGate, List.getD_eq_getElem?_getD, List.getElem?_set_ne hne.symm,
    ← List.getD_eq_getElem?_getD]

theorem hasGate_genericGates (hn : n ≤ idt.length) (hj : j < n) :
    HasGate (genericGates isr n idt) j isr .int32 0 8 := by
  induction n with
  | zero => omega
  | succ n ih =>
    rw [genericGates]
    by_cases hjn : j = n
    · subst hjn
      exact hasGate_setGate (by rw [length_genericGates]; omega)
    · exact (ih (by omega) (by omega)).setGate hjn

end

namespace KernelImage
variable (l : KernelImage)

/-- The handler of a vector. -/
def handlerOf (vector : Nat) : Word :=
  if vector = 128 then l.isrSyscall
  else if vector = 64 then l.isrTimer
  else if vector = 65 then l.isrPreempt
  else if vector = 8 then 0
  else if vector = 14 then l.isrPageFault
  else if vector = 13 then l.isrGpFault
  else if vector = 11 then l.isrSegmentNotPresent
  else if vector = 0 then l.isrDivisionByZero
  else l.isrGeneric

/-- The kind of gate of a vector. -/
def gateTypeOf (vector : Nat) : IsrType :=
  if vector = 8 then .task32
  else if vector = 11 ∨ vector = 13 ∨ vector = 14 then .trap32
  else .int32

/-- The vectors that programs may use. -/
def IsOpen (vector : Nat) : Prop := vector = 65 ∨ vector = 128

instance (vector : Nat) : Decidable (IsOpen vector) := inferInstanceAs (Decidable (_ ∨ _))

theorem length_idtEntries : l.idtEntries.length = 256 := by
  simp only [idtEntries, length_setGate, length_genericGates, List.length_replicate]

/-- **The gate of each vector.** -/
theorem hasGate_idtEntries {vector : Nat} (hv : vector < 256) :
    HasGate l.idtEntries vector (l.handlerOf vector) (gateTypeOf vector)
      (if IsOpen vector then 3 else 0) (if vector = 8 then 8 * 6 else 8) := by
  have hlen : (List.replicate 256 InterruptDescriptor.empty).length = 256 := List.length_replicate
  rw [idtEntries]
  generalize List.replicate 256 InterruptDescriptor.empty = idt at hlen ⊢
  by_cases h128 : vector = 128
  · subst h128
    exact hasGate_setGate (by simp [hlen])
  by_cases h64 : vector = 64
  · subst h64
    exact (hasGate_setGate (by simp [hlen])).setGate h128
  by_cases h65 : vector = 65
  · subst h65
    exact ((hasGate_setGate (by simp [hlen])).setGate h64).setGate h128
  by_cases h8 : vector = 8
  · subst h8
    exact (((hasGate_setGate (by simp [hlen])).setGate h65).setGate h64).setGate h128
  -- the other gates were there before
  refine HasGate.setGate (HasGate.setGate (HasGate.setGate (HasGate.setGate ?_ h8) h65) h64) h128
  have hclosed : ¬ IsOpen vector := fun h => h.elim h65 h128
  rw [if_neg hclosed, if_neg h8, handlerOf, if_neg h128, if_neg h64, if_neg h65, if_neg h8,
    gateTypeOf, if_neg h8]
  by_cases h14 : vector = 14
  · subst h14
    exact hasGate_setGate (by simp [hlen])
  by_cases h13 : vector = 13
  · subst h13
    exact (hasGate_setGate (by simp [hlen])).setGate h14
  by_cases h11 : vector = 11
  · subst h11
    exact ((hasGate_setGate (by simp [hlen])).setGate h13).setGate h14
  refine HasGate.setGate (HasGate.setGate (HasGate.setGate ?_ h11) h13) h14
  have hint : ¬ (vector = 11 ∨ vector = 13 ∨ vector = 14) := by omega
  rw [if_neg h14, if_neg h13, if_neg h11, if_neg hint]
  by_cases h0 : vector = 0
  · subst h0
    exact hasGate_setGate (by simp [hlen])
  · rw [if_neg h0]
    exact (hasGate_genericGates (by rw [hlen]) hv).setGate h0

end KernelImage
end QuarkKernel
