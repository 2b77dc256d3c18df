import QuarkKernel.MemoryManager

/-! # `elf.c`

Loading a program from an ELF file that is mapped somewhere in the address space.
The headers are read through the page walk, and again each time the source reads
them: nothing keeps the loader from overwriting them. -/
namespace QuarkKernel

open ByteMemory (addrAt)
open CountedLoop (loop)

/-- `ELF_LOAD` -/
def elfLoad : Word := 1

/-- Read a `uint16_t`, least significant byte first. -/
def readHalf (m : PagedMemory) (addr : Word) : Option (BitVec 16) := do
  let b0 ← m.loadByte addr
  let b1 ← m.loadByte (addrAt addr 1)
  some (b1 ++ b0)

/-- Read a `uint32_t`. -/
def readWord (m : PagedMemory) (addr : Word) : Option Word := do
  let low ← readHalf m addr
  let high ← readHalf m (addrAt addr 2)
  some (high ++ low)

/-! ### `struct elf_file_header_t` and `struct elf_program_header_t` on i386 -/

def readPhoffset (m : PagedMemory) (elf : Word) : Option Word := readWord m (addrAt elf 28)
def readPhsize (m : PagedMemory) (elf : Word) : Option (BitVec 16) := readHalf m (addrAt elf 42)
def readPhcount (m : PagedMemory) (elf : Word) : Option (BitVec 16) := readHalf m (addrAt elf 44)

def readType (m : PagedMemory) (programHeader : Word) : Option Word := readWord m programHeader
def readOffset (m : PagedMemory) (programHeader : Word) : Option Word :=
  readWord m (addrAt programHeader 4)
def readVaddr (m : PagedMemory) (programHeader : Word) : Option Word :=
  readWord m (addrAt programHeader 8)
def readMemsize (m : PagedMemory) (programHeader : Word) : Option Word :=
  readWord m (addrAt programHeader 20)

/-- `memcpy` -/
def memcpy (m : PagedMemory) (destination source : Word) (num : Nat) : Option PagedMemory :=
  loop (fun i m => do
    let b ← m.loadByte (addrAt source i)
    m.storeByte (addrAt destination i) b) num m

namespace Machine

/-- How many bytes a pass copies, with `memsize` read twice as in the source. -/
def copyLength (m : PagedMemory) (programHeader n : Word) : Option Word := do
  let memsize ← readMemsize m programHeader
  if n + pageSize < memsize then
    some pageSize
  else
    let memsize ← readMemsize m programHeader
    some (memsize - n)

/-- One pass of the inner loop of `load_program`, with what `load_program` returns if it
stops there. -/
def loadPage (m : Machine) (programHeader d s n : Word) : Option (Status × Machine) := do
  let (page, pageMap) := m.pageMap.reservePage
  if page = Status.enomem.code then
    some (.enomem, { m with pageMap })
  else
    let (status, m) ← mapPage { m with pageMap } (d + n) page
      (pageRw ||| pageUsermode ||| pageExecutable)
    match status with
    | .enomem => some (.enomem, m)
    | .eoutofbounds => some (.eoutofbounds, m)
    | .enone =>
        let num ← copyLength m.memory programHeader n
        let memory ← memcpy m.memory (d + n) (s + n) num.toNat
        some (.enone, { m with memory })
    -- no other status has a case in the `switch`
    | _ => some (.enone, m)

/-! The inner loop ends because every pass takes a frame. -/

theorem reservePage_answers (pageMap : PageMap) :
    pageMap.reservePage.2.answers = pageMap.answers.tail ∧
      (pageMap.reservePage.1 ≠ Status.enomem.code → 0 < pageMap.answers.length) := by
  rcases Option.eq_none_or_eq_some pageMap.next with hnext | ⟨f, hnext⟩
  · rw [PageMap.reservePage_of_none hnext]
    exact ⟨rfl, fun h => absurd rfl h⟩
  · rw [PageMap.reservePage_of_some hnext]
    refine ⟨rfl, fun _ => ?_⟩
    apply List.length_pos_of_ne_nil
    intro hnil
    rw [PageMap.next, hnil] at hnext
    cases hnext

theorem mapLevel_answers {m m' : Machine} {page : Word} {level : Nat} {status : Status}
    (h : m.mapLevel page level = some (status, m')) :
    m'.pageMap.answers.length ≤ m.pageMap.answers.length := by
  have htail : m.pageMap.reservePage.2.answers.length ≤ m.pageMap.answers.length := by
    rw [(reservePage_answers _).1, List.length_tail]
    omega
  obtain ⟨type, -, h⟩ := Option.bind_eq_some_iff.mp h
  split at h
  · cases h
    exact le_refl _
  · dsimp only at h
    split at h
    · cases h
      exact htail
    · obtain ⟨⟨_, memory⟩, -, h⟩ := Option.bind_eq_some_iff.mp h
      obtain ⟨memory', -, h⟩ := Option.bind_eq_some_iff.mp h
      cases h
      exact htail

theorem mapPage_answers {m m' : Machine} {page frame flags : Word} {status : Status}
    (h : m.mapPage page frame flags = some (status, m')) :
    m'.pageMap.answers.length ≤ m.pageMap.answers.length := by
  rw [mapPage] at h
  split at h
  · cases h
    exact le_refl _
  · obtain ⟨⟨status1, m1⟩, hlevel, h⟩ := Option.bind_eq_some_iff.mp h
    have hle := mapLevel_answers hlevel
    dsimp only at h
    split at h
    · obtain ⟨⟨_, memory⟩, -, h⟩ := Option.bind_eq_some_iff.mp h
      cases h
      exact hle
    · cases h
      exact hle

theorem loadPage_answers {m m' : Machine} {programHeader d s n : Word}
    (h : m.loadPage programHeader d s n = some (.enone, m')) :
    m'.pageMap.answers.length < m.pageMap.answers.length := by
  obtain ⟨htail, hpos⟩ := reservePage_answers m.pageMap
  rw [loadPage] at h
  split at h
  rename_i page pageMap hreserve
  rw [hreserve] at htail hpos
  split at h
  · cases h
  · rename_i hne
    have hlt : pageMap.answers.length < m.pageMap.answers.length := by
      have := hpos hne
      rw [htail, List.length_tail]
      omega
    obtain ⟨⟨status, m1⟩, hmap, h⟩ := Option.bind_eq_some_iff.mp h
    have hle := mapPage_answers hmap
    have hle : m1.pageMap.answers.length ≤ pageMap.answers.length := hle
    dsimp only at h
    -- the cases of the `switch`
    split at h
    · cases h
    · cases h
    · obtain ⟨num, -, h⟩ := Option.bind_eq_some_iff.mp h
      obtain ⟨memory, -, h⟩ := Option.bind_eq_some_iff.mp h
      cases h
      exact Nat.lt_of_le_of_lt hle hlt
    · cases h
      exact Nat.lt_of_le_of_lt hle hlt

/-- The inner loop of `load_program`, from `n` on. -/
def loadPages (m : Machine) (programHeader d s n : Word) : Option (Status × Machine) :=
  match readMemsize m.memory programHeader with
  | none => none
  | some memsize =>
      if n < memsize then
        match _ : m.loadPage programHeader d s n with
        | some (.enone, m') => loadPages m' programHeader d s (n + pageSize)
        | result => result
      else some (.enone, m)
termination_by m.pageMap.answers.length
decreasing_by exact loadPage_answers (by assumption)

/-- The outer loop of `load_program`, with `count` headers left. -/
def loadSegments (elf : Word) : Nat → Word → Machine → Option (Status × Machine)
  | 0, _, m => some (.enone, m)
  | count + 1, programHeader, m => do
      let type ← readType m.memory programHeader
      let (status, m) ←
        if type = elfLoad then do
          let d ← readVaddr m.memory programHeader
          let offset ← readOffset m.memory programHeader
          m.loadPages programHeader d (elf + offset) 0
        else some (.enone, m)
      if status = .enone then
        let phsize ← readPhsize m.memory elf
        loadSegments elf count (programHeader + phsize.setWidth 32) m
      else
        some (status, m)

/-- `load_program` -/
def loadProgram (m : Machine) (elf : Word) : Option (Status × Machine) := do
  let phoffset ← readPhoffset m.memory elf
  let phcount ← readPhcount m.memory elf
  loadSegments elf phcount.toNat (elf + phoffset) m

end Machine
end QuarkKernel
