import UmbralOS.Kernel.Intel

/-!
This file gives the memory manager of `mm.c`.
-/

namespace UmbralOS

open Library

def pageSize : BitVec 64 := 0x1000#64
def charBit : BitVec 64 := 8#64

def patUc : BitVec 64 := 0x00#64
def patWc : BitVec 64 := 0x01#64
def patWt : BitVec 64 := 0x04#64
def patWp : BitVec 64 := 0x05#64
def patWb : BitVec 64 := 0x06#64
def patUcm : BitVec 64 := 0x07#64

def mNone : BitVec 32 := 0x0#32
def mW : BitVec 32 := 0x1#32
def mX : BitVec 32 := 0x2#32
def mU : BitVec 32 := 0x4#32
def mCacheWb : BitVec 32 := 0x0#32
def mCacheUc : BitVec 32 := 0x8#32
def mCacheWc : BitVec 32 := 0x10#32
def mCacheMask : BitVec 32 := 0x18#32

/-- The entry types of the boot memory map. -/
inductive MemmapType where
  | usable
  | reserved
  | acpiReclaimable
  | acpiNvs
  | badMemory
  | bootloaderReclaimable
  | executableAndModules
  | framebuffer
  | reservedMapped
  | unknown (code : BitVec 64)
  deriving DecidableEq

structure LimineMemmapEntry where
  base : Phy
  length : BitVec 64
  type : MemmapType
  deriving DecidableEq

inductive ElfSegmentType where
  | load
  | gnuRelro
  | other (code : BitVec 32)
  deriving DecidableEq

def pfX : BitVec 32 := 0x1#32
def pfW : BitVec 32 := 0x2#32

structure Elf64Phdr where
  pType : ElfSegmentType
  pFlags : BitVec 32
  pVaddr : BitVec 64
  pMemsz : BitVec 64
  deriving DecidableEq

/-- The executable response, with the program headers that stand at the virtual base. -/
structure LimineExecutableAddress where
  physicalBase : Phy
  virtualBase : Pointer
  elfPhdrs : List Elf64Phdr

structure PmmData where
  numPages : BitVec 64
  bitmap : Pointer

/-- The memory manager's variables, the physical memory, and the processor registers that it sets. -/
structure Mm where
  memory : Memory
  pmmData : PmmData
  pHHDM : Pointer
  pml4 : Pointer
  cr3 : BitVec 64
  msr : BitVec 32 → BitVec 64
  cpuid : BitVec 32 → BitVec 32 → CpuidResult

abbrev MmProgram (A : Type) := Program Stop Mm A

/-- The kernel reaches physical memory through the direct map at `pHHDM`. -/
def Mm.physical (mm : Mm) (pointer : Pointer) : Nat := (pointer - mm.pHHDM).toNat

def load8 (pointer : Pointer) : MmProgram (BitVec 8) := do
  let mm ← get
  pure (mm.memory (mm.physical pointer))

def store8 (pointer : Pointer) (byte : BitVec 8) : MmProgram Unit :=
  modify fun mm => { mm with memory := mm.memory.store (mm.physical pointer) 1 byte.toNat }

def load64 (pointer : Pointer) : MmProgram (BitVec 64) := do
  let mm ← get
  pure (BitVec.ofNat 64 (mm.memory.load (mm.physical pointer) 8))

def store64 (pointer : Pointer) (word : BitVec 64) : MmProgram Unit :=
  modify fun mm => { mm with memory := mm.memory.store (mm.physical pointer) 8 word.toNat }

/-- The byte loop of `memset` fills its range. -/
def memset (s : Pointer) (c : BitVec 8) (n : BitVec 64) : MmProgram Unit :=
  modify fun mm => { mm with memory := mm.memory.fill (mm.physical s) n.toNat c }

def memzero (s : Pointer) (n : BitVec 64) : MmProgram Unit := memset s 0 n

section Accesses

variable {mm mm' : Mm} {pointer : Pointer} {done : Unit}

@[simp] theorem returns_load8 {byte : BitVec 8} :
    Returns (load8 pointer) mm byte mm' ↔ mm.memory (mm.physical pointer) = byte ∧ mm = mm' :=
  returns_read _ _ _ _

@[simp] theorem returns_store8 {byte : BitVec 8} : Returns (store8 pointer byte) mm done mm' ↔
    { mm with memory := mm.memory.store (mm.physical pointer) 1 byte.toNat } = mm' :=
  returns_modify _ _ _ _

@[simp] theorem returns_load64 {word : BitVec 64} : Returns (load64 pointer) mm word mm' ↔
    BitVec.ofNat 64 (mm.memory.load (mm.physical pointer) 8) = word ∧ mm = mm' :=
  returns_read _ _ _ _

@[simp] theorem returns_store64 {word : BitVec 64} : Returns (store64 pointer word) mm done mm' ↔
    { mm with memory := mm.memory.store (mm.physical pointer) 8 word.toNat } = mm' :=
  returns_modify _ _ _ _

@[simp] theorem returns_memzero {size : BitVec 64} : Returns (memzero pointer size) mm done mm' ↔
    { mm with memory := mm.memory.fill (mm.physical pointer) size.toNat 0 } = mm' :=
  returns_modify _ _ _ _

end Accesses

def roundDown (value multiple : BitVec 64) : BitVec 64 :=
  if value % multiple ≠ 0 then value - value % multiple else value

def roundUp (value multiple : BitVec 64) : BitVec 64 :=
  if value % multiple ≠ 0 then roundDown value multiple + multiple else value

def elfToMemoryFlags (elfFlags : BitVec 32) : BitVec 32 :=
  (if elfFlags &&& pfW ≠ 0 then mW else mNone) ||| (if elfFlags &&& pfX ≠ 0 then mX else mNone)

def pmmAddrToBitmapLocation (page : Phy) : MmProgram (BitVec 64 × BitVec 8) := do
  panicIf (page % pageSize ≠ 0) "addr_to_bitmap_location: addr 0x%lx not aligned\n" [page]
  let pageIdx := page / pageSize
  let mm ← get
  panicIf (mm.pmmData.numPages ≤ pageIdx) "page_to_bitmap_location: page 0x%lx out of range\n" [page]
  let bitIndex := pageIdx % charBit
  pure (pageIdx / charBit, 1#8 <<< bitIndex.toNat)

def pmmMarkPage (page : Phy) (usable : Bool) : MmProgram Unit := do
  let (bitmapIndex, bitmapMask) ← pmmAddrToBitmapLocation page
  let mm ← get
  let byte ← load8 (mm.pmmData.bitmap + bitmapIndex)
  if usable then
    store8 (mm.pmmData.bitmap + bitmapIndex) (byte ||| bitmapMask)
  else
    store8 (mm.pmmData.bitmap + bitmapIndex) (byte &&& ~~~bitmapMask)

def pmmQueryPage (page : Phy) : MmProgram Bool := do
  let (bitmapIndex, bitmapMask) ← pmmAddrToBitmapLocation page
  let mm ← get
  let byte ← load8 (mm.pmmData.bitmap + bitmapIndex)
  pure (byte &&& bitmapMask != 0)

def pmmMarkRange (base : Phy) (len : BitVec 64) (usable : Bool) : MmProgram Unit := do
  panicIf (base % pageSize ≠ 0) "pmm_mark_range: base not aligned\n" []
  panicIf (len % pageSize ≠ 0) "pmm_mark_range: len not aligned\n" []
  -- The length is a multiple of the page size, so the byte counter takes whole pages.
  forRange (fun page _ => pmmMarkPage (base + BitVec.ofNat 64 page * pageSize) usable)
    (len / pageSize).toNat ()

/-- The inner loop asks every page of the window, even after a page that is not usable. -/
def pmmQueryWindow (i : Nat) (numPages : BitVec 64) : MmProgram Bool :=
  forRange (fun j usable => do
    let found ← pmmQueryPage ((BitVec.ofNat 64 i + BitVec.ofNat 64 j) * pageSize)
    pure (usable && found)) numPages.toNat true

def pmmTakeWindow (i : Nat) (numPages : BitVec 64) : MmProgram Unit :=
  forRange (fun j _ => pmmMarkPage ((BitVec.ofNat 64 i + BitVec.ofNat 64 j) * pageSize) false)
    numPages.toNat ()

/-- The outer loop tries each start page from `i` for the remaining number of pages. -/
def pmmSearch (numPages : BitVec 64) : Nat → Nat → MmProgram Phy
  | 0, _ => throw (.panic "pmm_alloc_pages: Could not find %lu contiguous pages" [numPages])
  | remaining + 1, i => do
      let usable ← pmmQueryWindow i numPages
      if usable then
        pmmTakeWindow i numPages
        pure (BitVec.ofNat 64 i * pageSize)
      else
        pmmSearch numPages remaining (i + 1)

def pmmAllocPages (numPages : BitVec 64) : MmProgram Phy := do
  let mm ← get
  pmmSearch numPages mm.pmmData.numPages.toNat 0

def pmmAllocPage : MmProgram Phy := pmmAllocPages 1

def pmmFreePages (paddr : Phy) (numPages : BitVec 64) : MmProgram Unit :=
  forRange (fun i _ => pmmMarkPage (paddr + BitVec.ofNat 64 i * pageSize) true) numPages.toNat ()

def pmmFreePage (paddr : Phy) : MmProgram Unit := pmmFreePages paddr 1

def phyToVirt (paddr : Phy) : MmProgram Pointer := do
  let mm ← get
  pure (mm.pHHDM + paddr)

@[simp] theorem returns_phyToVirt {mm mm' : Mm} {paddr : Phy} {pointer : Pointer} :
    Returns (phyToVirt paddr) mm pointer mm' ↔ mm.pHHDM + paddr = pointer ∧ mm = mm' :=
  returns_read _ _ _ _

@[simp] theorem stops_phyToVirt {mm mm' : Mm} {paddr : Phy} {reason : Stop} :
    ¬ Stops (phyToVirt paddr) mm reason mm' :=
  not_stops_read _ _ _ _

def kalloc (size : BitVec 64) : MmProgram Pointer := do
  let paddr ← pmmAllocPages (roundUp size pageSize / pageSize)
  phyToVirt paddr

def kfree (ptr : Pointer) (size : BitVec 64) : MmProgram Unit := do
  let mm ← get
  pmmFreePages (ptr - mm.pHHDM) (roundUp size pageSize / pageSize)

def highestAddr (memmap : List LimineMemmapEntry) : BitVec 64 :=
  memmap.foldl (fun highest entry =>
    let entryEnd := entry.base + entry.length
    if highest < entryEnd then entryEnd else highest) 0

/-- The first usable entry that is longer than the bitmap holds it. -/
def bitmapRegion (memmap : List LimineMemmapEntry) (bitmapSize : BitVec 64) : Phy :=
  match memmap.find? fun entry => entry.type = .usable ∧ bitmapSize < entry.length with
  | some entry => entry.base
  | none => 0

def bitmapSize (numPages : BitVec 64) : BitVec 64 := roundUp numPages charBit / charBit

def pmmInit (memmap : List LimineMemmapEntry) (phhdm : Pointer) : MmProgram Unit := do
  modify fun mm => { mm with pHHDM := phhdm }
  let numPages := roundUp (highestAddr memmap) pageSize / pageSize
  modify fun mm => { mm with pmmData := { mm.pmmData with numPages := numPages } }
  let size := bitmapSize numPages
  let bitmapPhy := bitmapRegion memmap size
  panicIf (bitmapPhy = 0)
    "Unable to locate usable memory region suitable for PMM bitmap. Needed 0x%lx bytes\n" [size]
  let bitmap ← phyToVirt bitmapPhy
  modify fun mm => { mm with pmmData := { mm.pmmData with bitmap := bitmap } }
  memzero bitmap size
  memmap.forM fun entry =>
    if entry.type = .usable then pmmMarkRange entry.base entry.length true else pure ()
  pmmMarkRange bitmapPhy (roundUp size pageSize) false

def pmmReclaim (memmap : List LimineMemmapEntry) (stackOrigin : Pointer) (stackSize : BitVec 64) :
    MmProgram Unit := do
  memmap.forM fun entry =>
    match entry.type with
    | .acpiReclaimable | .bootloaderReclaimable => pmmMarkRange entry.base entry.length true
    | _ => pure ()
  let stackTop := stackOrigin
  let stackBottom := stackTop - stackSize
  let mm ← get
  pmmMarkRange (stackBottom - mm.pHHDM) stackSize false

/-- The loop body of `pmm_zero`. -/
def pmmZeroPage (i : Nat) : MmProgram Unit := do
  let usable ← pmmQueryPage (BitVec.ofNat 64 i * pageSize)
  if usable then
    let page ← phyToVirt (BitVec.ofNat 64 i * pageSize)
    memzero page pageSize

def pmmZero : MmProgram Unit := do
  let mm ← get
  forRange (fun i _ => pmmZeroPage i) mm.pmmData.numPages.toNat ()

/-- The address of one entry of a table. -/
def entryAt (table : Pointer) (index : BitVec 16) : Pointer := table + index.setWidth 64 * 8#64

/-- The bits of an address that select the entry of one level. -/
def tableIndex (virt : Pointer) (shift : Nat) : BitVec 16 := ((virt >>> shift) &&& 0x1FF#64).setWidth 16

/-- A directory entry keeps its unused bits when it gets its next table. -/
def PageDirectoryEntrySubdirectory.linkTo (entry : PageDirectoryEntrySubdirectory) (page : Phy) :
    PageDirectoryEntrySubdirectory :=
  { entry with
    xd := false, addr := (page >>> 12).setWidth 40, ps := false, a := false, pcd := false,
    pwt := false, us := false, rw := true, p := true }

def vmmEnsurePresent (entry : Pointer) : MmProgram Pointer := do
  let before ← load64 entry
  if !(PageDirectoryEntrySubdirectory.ofWord before).p then
    let page ← pmmAllocPage
    let table ← phyToVirt page
    memzero table pageSize
    let old ← load64 entry
    store64 entry ((PageDirectoryEntrySubdirectory.ofWord old).linkTo page).toWord
  let word ← load64 entry
  phyToVirt ((PageDirectoryEntrySubdirectory.ofWord word).addr.setWidth 64 <<< 12)

/-- The three index bits of the attribute table for each caching mode. -/
def cachePat (flags : BitVec 32) : MmProgram (BitVec 8) :=
  if flags &&& mCacheMask = mCacheWb then pure 0b000#8
  else if flags &&& mCacheMask = mCacheUc then pure 0b010#8
  else if flags &&& mCacheMask = mCacheWc then pure 0b101#8
  else throw (.panic "Unknown memory caching mode %x" [(flags &&& mCacheMask).setWidth 64])

/-- A leaf keeps its unused bits when it gets its page. -/
def PageTableEntry.mapTo (entry : PageTableEntry) (what : Phy) (flags : BitVec 32) (pat : BitVec 8) :
    PageTableEntry :=
  { entry with
    xd := !(flags &&& mX != 0), pk := 0, addr := (what >>> 12).setWidth 40, g := false,
    pat := pat &&& 0b100#8 != 0, a := false, d := false, pcd := pat &&& 0b010#8 != 0,
    pwt := pat &&& 0b001#8 != 0, us := flags &&& mU != 0, rw := flags &&& mW != 0, p := true }

def vmmMapPage (what : Phy) (virt : Pointer) (flags : BitVec 32) : MmProgram Unit := do
  panicIf (what % pageSize ≠ 0) "vmm_map_page: what not aligned\n" []
  panicIf (virt % pageSize ≠ 0) "vmm_map_page: where not aligned\n" []
  panicIf (virt = 0) "vmm_map_page: Mapping a page at NULL is forbidden" []
  panicIf (flags &&& mW ≠ 0 ∧ flags &&& mX ≠ 0) "vmm_map_page: W|X memory is forbidden" []
  let pat ← cachePat flags
  let mm ← get
  let pdpt ← vmmEnsurePresent (entryAt mm.pml4 (tableIndex virt 39))
  let pd ← vmmEnsurePresent (entryAt pdpt (tableIndex virt 30))
  let pt ← vmmEnsurePresent (entryAt pd (tableIndex virt 21))
  let slot := entryAt pt (tableIndex virt 12)
  let old ← load64 slot
  store64 slot ((PageTableEntry.ofWord old).mapTo what flags pat).toWord

def vmmMap (what : Phy) (virt : Pointer) (size : BitVec 64) (flags : BitVec 32) : MmProgram Unit := do
  panicIf (what % pageSize ≠ 0) "vmm_map: what not aligned\n" []
  panicIf (virt % pageSize ≠ 0) "vmm_map: where not aligned\n" []
  panicIf (size % pageSize ≠ 0) "vmm_map: size not aligned\n" []
  -- The size is a multiple of the page size, so the byte counter takes whole pages.
  forRange (fun page _ => vmmMapPage (what + BitVec.ofNat 64 page * pageSize)
    (virt + BitVec.ofNat 64 page * pageSize) flags) (size / pageSize).toNat ()

def vmmMapUnaligned (what : Phy) (virt : Pointer) (size : BitVec 64) (flags : BitVec 32) :
    MmProgram Unit :=
  let alignedWhat := roundDown what pageSize
  let alignedWhere := roundDown virt pageSize
  let alignedEnd := roundUp (what + size) pageSize
  vmmMap alignedWhat alignedWhere (alignedEnd - alignedWhat) flags

/-- The attribute table that `vmm_init` writes. -/
def patValue : BitVec 64 :=
  patWb <<< 0 ||| patWt <<< 8 ||| patUcm <<< 16 ||| patUc <<< 24 ||| patWp <<< 32 ||| patWc <<< 40

def wrmsr (register : BitVec 32) (value : BitVec 64) : MmProgram Unit :=
  modify fun mm => { mm with msr := fun found => if found = register then value else mm.msr found }

def vmmMapEntry (entry : LimineMemmapEntry) : MmProgram Unit := do
  let virt ← phyToVirt entry.base
  match entry.type with
  | .usable | .acpiReclaimable | .bootloaderReclaimable => vmmMap entry.base virt entry.length mW
  | .framebuffer => vmmMap entry.base virt entry.length (mCacheWc ||| mW)
  | .reservedMapped => vmmMap entry.base virt entry.length mNone
  | _ => pure ()

/-- Both passes over the program headers map the headers of one type. -/
def vmmMapSegments (executable : LimineExecutableAddress) (pType : ElfSegmentType) : MmProgram Unit :=
  executable.elfPhdrs.forM fun phdr =>
    if phdr.pType = pType then
      vmmMapUnaligned (executable.physicalBase + phdr.pVaddr) (executable.virtualBase + phdr.pVaddr)
        phdr.pMemsz (elfToMemoryFlags phdr.pFlags)
    else pure ()

/-- The first part of `vmm_init` sets the attribute table and takes a zeroed page for the root table. -/
def vmmInitRoot : MmProgram Unit := do
  let mm ← get
  panicIf ((mm.cpuid 1 0).edx &&& cpuid1EdxPat = 0) "No PAT support" []
  wrmsr msrIa32Pat patValue
  let page ← pmmAllocPage
  let pml4 ← phyToVirt page
  modify fun mm => { mm with pml4 := pml4 }
  memzero pml4 pageSize

def vmmInit (memmap : List LimineMemmapEntry) (executable : LimineExecutableAddress) :
    MmProgram Unit := do
  vmmInitRoot
  memmap.forM vmmMapEntry
  vmmMapSegments executable .load
  vmmMapSegments executable .gnuRelro
  modify fun mm => { mm with cr3 := mm.pml4 - mm.pHHDM }

end UmbralOS
