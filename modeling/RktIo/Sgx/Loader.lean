import RktIo.Lib.Bytes
import RktIo.Sgx.ConfigCheck

/-!
# The enclave loader (`sgx/sgx.c`)

`process_pages` walks over the enclave library and hands every page of the enclave to a
function: to `measure_page` when the library is signed, to `add_page` when it is loaded.

The headers that the loader reads are kept apart from the bytes of the file. Numbers of type
`size_t` are natural numbers below `2 ^ 64`, and what is converted to an `int` is truncated. A
call does not return (`none`) where the code exits and where a copy runs over the end of the
page buffer.

## The architecture

* `Phdr`, `Shdr`, `ElfImage` — the library;
* `processPages` — all pages of the enclave, in a `Run`;
* `measurePage`, `addPage` — what is done with a page.
-/

namespace RktIo.Sgx

open Bytes

/-! ## Integers -/

def toSize (x : Int) : Nat := (x % 2 ^ 64).toNat

def toInt32 (x : Int) : Int := x.bmod (2 ^ 32)

/-! ## The library -/

inductive PhdrType where
  | load
  | phdr
  | tls
  | other
  deriving DecidableEq, Repr

structure Phdr where
  type : PhdrType
  flags : BitVec 32
  offset : Word
  vaddr : Word
  filesz : Word
  memsz : Word
  deriving DecidableEq, Repr

structure Shdr where
  offset : Word
  size : Word
  deriving DecidableEq, Repr

/-- The library file of `size` bytes: its program headers, the sections `.tdata` and
`.note.sigstruct`, the value of the symbol `entry`, and its bytes. -/
structure ElfImage where
  phdrs : List Phdr
  tdata : Option Shdr
  noteSigstruct : Option Shdr
  entry : Option Word
  file : Nat → BitVec 8
  size : Nat

def loadSegments (phdrs : List Phdr) : List Phdr := phdrs.filter (·.type = .load)

def ElfImage.loads (img : ElfImage) : List Phdr := loadSegments img.phdrs

def pageRead : Word := 1
def pageWrite : Word := 2
def pageExec : Word := 4
def pageTcs : Word := 8
def pageNoextend : Word := 0x10

abbrev Page := Fin pageSize → BitVec 8

/-- A call of `process_page`, without the base address, which is the same for all of them. -/
structure PageCall where
  offset : Nat
  prot : Word
  page : Page

/-- The page buffer after `memset(page, 0, PAGE_SIZE)` and a copy of `n` bytes of the file, from
`off` on, to `page + diff`. -/
def copied (file : Nat → BitVec 8) (diff off n : Nat) : Page := fun j =>
  if diff ≤ j.val ∧ j.val < diff + n then file (off + (j.val - diff)) else 0

def zeroPage : Page := fun _ => 0

def repeatPage (n pageoffset : Nat) (prot : Word) (page : Page) : List PageCall :=
  (List.range n).map fun i : Nat => ⟨toSize (pageoffset + pageSize * i), prot, page⟩

/-! ## A segment -/

structure SegState where
  pageoffset : Nat
  segoffset : Nat
  fileRead : Nat
  calls : List PageCall

section Segment

variable (file : Nat → BitVec 8) (libbase : Nat) (prot : Word) (h : Phdr)

def Phdr.start : Nat := h.vaddr.toNat / pageSize * pageSize

def Phdr.npages : Int :=
  toInt32 (toSize (h.vaddr.toNat - h.start + h.filesz.toNat) / pageSize : Nat)

def fullPage (k : Nat) (s : SegState) : SegState :=
  if k = 0 ∧ s.pageoffset ≠ h.vaddr.toNat then
    let diff := h.vaddr.toNat - s.pageoffset
    { pageoffset := toSize (s.pageoffset + pageSize)
      segoffset := s.segoffset + (pageSize - diff)
      fileRead := s.fileRead + (pageSize - diff)
      calls := s.calls ++ [⟨toSize (libbase + s.pageoffset), prot,
        copied file diff s.segoffset (pageSize - diff)⟩] }
  else
    { pageoffset := toSize (s.pageoffset + pageSize)
      segoffset := s.segoffset + pageSize
      fileRead := s.fileRead + pageSize
      calls := s.calls ++ [⟨toSize (libbase + s.pageoffset), prot,
        copied file 0 s.segoffset pageSize⟩] }

def fullPages (n : Nat) (s : SegState) : SegState :=
  (List.range n).foldl (fun s k => fullPage file libbase prot h k s) s

def partialPage (s : SegState) : Option (SegState × Nat) :=
  let remaining := toSize (h.filesz.toNat - s.fileRead)
  if 0 < remaining then
    let diff :=
      if h.npages = 0 ∧ s.pageoffset ≠ h.vaddr.toNat then h.vaddr.toNat - s.pageoffset else 0
    -- a longer copy runs over the end of the buffer
    if diff + remaining ≤ pageSize then
      some ({ pageoffset := toSize (s.pageoffset + pageSize)
              segoffset := s.segoffset
              fileRead := h.filesz.toNat
              calls := s.calls ++ [⟨toSize (libbase + s.pageoffset), prot,
                copied file diff s.segoffset remaining⟩] },
        pageSize - remaining)
    else none
  else some (s, 0)

def zeroPages (rest : Int) : Nat :=
  (if 0 < rest then (rest.tdiv pageSize).toNat else 0) +
    (if 0 < rest.tmod pageSize then 1 else 0)

def segment : Option (List PageCall × Nat) := do
  let s := fullPages file libbase prot h h.npages.toNat ⟨h.start, h.offset.toNat, 0, []⟩
  let (s, memRead) ← partialPage file libbase prot h s
  let rest := toInt32 (toSize (h.memsz.toNat - s.fileRead - memRead))
  let n := zeroPages rest
  return (s.calls ++ repeatPage n (libbase + s.pageoffset) prot zeroPage,
    toSize (s.pageoffset + pageSize * n))

def Phdr.addProt : Word :=
  let prot := if h.flags &&& 0x4 ≠ 0 then prot ||| pageRead else prot
  let prot := if h.flags &&& 0x2 ≠ 0 then prot ||| pageWrite else prot
  if h.flags &&& 0x1 ≠ 0 then prot ||| pageExec else prot

end Segment

/-- The loop over the program headers; `prot` and `pageoffset` are carried along. The calls are
listed with the segment that they are made for. -/
def segmentLoop (file : Nat → BitVec 8) (libbase : Nat) :
    List Phdr → Word → Nat → Option (List (Phdr × List PageCall) × Nat)
  | [], _, pageoffset => some ([], pageoffset)
  | h :: hs, prot, pageoffset =>
    if h.type = .load then do
      let (calls, pageoffset) ← segment file libbase (h.addProt prot) h
      let (segs, pageoffset) ← segmentLoop file libbase hs (h.addProt prot) pageoffset
      return ((h, calls) :: segs, pageoffset)
    else segmentLoop file libbase hs prot pageoffset

/-! ## What is read from the library -/

def getLoadableSize (img : ElfImage) : Int :=
  let maxAddr := img.phdrs.foldl (fun maxAddr h =>
    if h.type = .load ∨ h.type = .phdr then
      let top := toInt32 (toSize (h.vaddr.toNat + h.memsz.toNat))
      if maxAddr < top then top else maxAddr
    else maxAddr) 0
  toInt32 (maxAddr + (pageSize - 1)) / pageSize

structure TlsInfo where
  vaddr : Nat
  filesz : Nat
  memsz : Nat

def getTlsInfo (img : ElfImage) : TlsInfo :=
  img.phdrs.foldl (fun info h =>
    if h.type = .tls then ⟨h.vaddr.toNat, h.filesz.toNat, h.memsz.toNat⟩ else info) ⟨0, 0, 0⟩

def getSymbolAddress (img : ElfImage) : Option Nat :=
  img.entry.map fun value => toSize (toInt32 value.toNat)

def parmsMagic : Nat := 0xBAADF00DDEADBABE

def findMagic (file : Nat → BitVec 8) (off n : Nat) : Option Nat :=
  (List.range n).find? fun i => load file (off + 8 * i) 8 == parmsMagic

def getEnclaveSize (heap stack : Nat) (tcsp : Int) (ssaFrameSize nssa : Nat) (code : Int)
    (tls : Nat) : Nat :=
  toSize (1 + heap + tcsp * (1 + stack + ssaFrameSize * nssa + tls) + code)

/-! ## The threads -/

def schedTcbBaseSize : Nat := 56
def enclaveParmsSize : Nat := 368

def enclaveParmsWritten : Nat := 120

abbrev Field := Nat × Nat × Nat

def storeFields (buf : Nat → BitVec 8) (fields : List Field) : Nat → BitVec 8 :=
  fields.foldl (fun buf f => store buf f.1 f.2.1 f.2.2) buf

def toPage (buf : Nat → BitVec 8) : Page := fun j => buf j.val

structure ThreadPages where
  stack : List PageCall
  ossa : List PageCall
  tls : PageCall
  tcs : PageCall

def ThreadPages.calls (t : ThreadPages) : List PageCall := t.stack ++ t.ossa ++ [t.tls, t.tcs]

structure ThreadParms where
  stack : Nat
  nssa : Nat
  tcsp : Int
  heap : Nat
  heapOffset : Nat
  enclaveSize : Nat
  tlsInfo : TlsInfo
  parmsOffset : Nat
  entry : Nat

section Thread

variable (p : ThreadParms)

def ThreadParms.tlsFields (stackStart ossa tls : Nat) : List Field :=
  let enc := schedTcbBaseSize + p.parmsOffset
  [(0, 8, tls),
   (48, 8, tls + schedTcbBaseSize + enclaveParmsSize),
   (8, 8, tls + pageSize),
   (16, 8, tls + schedTcbBaseSize + p.parmsOffset),
   (enc, 8, 0),
   (enc + 8, 8, p.heapOffset),
   (enc + 16, 8, toSize (stackStart + p.stack * pageSize - 8)),
   (enc + 24, 8, ossa),
   (enc + 32, 8, toSize p.tcsp),
   (enc + 88, 8, tls),
   (enc + 40, 8, p.heap * pageSize),
   (enc + 80, 8, p.enclaveSize),
   (enc + 96, 8, p.tlsInfo.vaddr),
   (enc + 104, 8, p.tlsInfo.filesz),
   (enc + 112, 8, p.tlsInfo.memsz)]

def ThreadParms.tcsFields (ossa tls : Nat) : List Field :=
  [(16, 8, ossa), (28, 4, 2), (32, 8, p.entry), (48, 8, tls), (56, 8, tls), (64, 4, 0xfff),
   (68, 4, 0xfff)]

/-- The pages of a thread from `pageoffset` on. The page buffer is only cleared before the TCS is
written: the stack and the save area of a thread hold what the thread before left there. -/
def ThreadParms.threadPages (pageoffset : Nat) (buf : Nat → BitVec 8) :
    ThreadPages × (Nat → BitVec 8) :=
  let ossa := toSize (pageoffset + pageSize * p.stack)
  let tls := toSize (pageoffset + pageSize * (p.stack + p.nssa))
  let tlsBuf := storeFields buf (p.tlsFields pageoffset ossa tls)
  let tcsBuf := storeFields (fun _ => 0) (p.tcsFields ossa tls)
  ({ stack := repeatPage p.stack pageoffset (pageRead ||| pageWrite) (toPage buf)
     ossa := repeatPage p.nssa (pageoffset + pageSize * p.stack) (pageRead ||| pageWrite)
       (toPage buf)
     tls := ⟨tls, pageRead ||| pageWrite, toPage tlsBuf⟩
     tcs := ⟨toSize (tls + pageSize), pageTcs, toPage tcsBuf⟩ }, tcsBuf)

def ThreadParms.threadLoop : Nat → Nat → (Nat → BitVec 8) → List ThreadPages
  | 0, _, _ => []
  | n + 1, pageoffset, buf =>
    (p.threadPages pageoffset buf).1 ::
      threadLoop n (toSize (pageoffset + pageSize * (p.stack + p.nssa + 2)))
        (p.threadPages pageoffset buf).2

end Thread

/-! ## All pages -/

structure Run where
  nullPage : PageCall
  heapFirst : List PageCall
  segments : List (Phdr × List PageCall)
  heapLast : List PageCall
  threads : List ThreadPages
  parmsOffset : Nat

def Run.calls (r : Run) : List PageCall :=
  r.nullPage :: (r.heapFirst ++ r.segments.flatMap (·.2) ++ r.heapLast ++
    r.threads.flatMap ThreadPages.calls)

def heapProt : Word := pageRead ||| pageWrite ||| pageExec ||| pageNoextend

def libBase (heap : Nat) (mapHeapFirst : Bool) : Nat :=
  toSize (pageSize + if mapHeapFirst then pageSize * heap else 0)

section ProcessPages

variable (img : ElfImage) (heap stack : Nat) (tcsp : Int) (nssa : Nat) (mapHeapFirst : Bool)

def threadParms (codeEnd i entry : Nat) : ThreadParms :=
  { stack, nssa, tcsp, heap
    heapOffset :=
      if mapHeapFirst then pageSize else toSize (libBase heap mapHeapFirst + codeEnd)
    enclaveSize :=
      getEnclaveSize heap stack tcsp 1 nssa (toInt32 (codeEnd / pageSize : Nat)) 1
    tlsInfo := getTlsInfo img
    parmsOffset := 8 * i
    entry := libBase heap mapHeapFirst + entry }

def threadEntry : Option Nat := if tcsp ≤ 0 then some 0 else getSymbolAddress img

def processPages : Option Run := do
  let libbase := libBase heap mapHeapFirst
  let (segments, codeEnd) ← segmentLoop img.file libbase img.phdrs 0 libbase
  let heapFirst := if mapHeapFirst then heap else 0
  let heapLast := if mapHeapFirst then 0 else heap
  let pageoffset := libbase + codeEnd
  let tdata ← img.tdata
  let i ← findMagic img.file tdata.offset.toNat ((getTlsInfo img).filesz / 8)
  -- the parameters are written to the page buffer, behind `sched_tcb_base_t`
  guard (tcsp ≤ 0 ∨ schedTcbBaseSize + 8 * i + enclaveParmsWritten ≤ pageSize)
  let entry ← threadEntry img tcsp
  return {
    nullPage := ⟨0, pageNoextend, zeroPage⟩
    heapFirst := repeatPage heapFirst pageSize heapProt zeroPage
    segments
    heapLast := repeatPage heapLast pageoffset heapProt zeroPage
    threads := (threadParms img heap stack tcsp nssa mapHeapFirst codeEnd i entry).threadLoop
      tcsp.toNat (toSize (pageoffset + pageSize * heapLast)) fun _ => 0
    parmsOffset := 8 * i }

end ProcessPages

/-! ## What is done with a page -/

inductive PageType where
  | tcs
  | reg
  deriving DecidableEq, Repr

structure SecInfo where
  type : PageType
  r : Bool
  w : Bool
  x : Bool
  deriving DecidableEq, Repr

def secInfo (prot : Word) : SecInfo :=
  if prot &&& pageTcs = pageTcs then ⟨.tcs, false, false, false⟩
  else ⟨.reg, prot &&& pageRead = pageRead, prot &&& pageWrite = pageWrite,
    prot &&& pageExec = pageExec⟩

structure Measured where
  offset : Nat
  secinfo : SecInfo
  extend : Bool
  page : Page

def measurePage (c : PageCall) : Measured :=
  ⟨c.offset, secInfo c.prot, !(c.prot &&& pageNoextend = pageNoextend), c.page⟩

/-- `struct sgx_enclave_add_page`: the driver extends the measurement by the parts of the page
that `mrmask` selects. -/
structure AddPage where
  addr : Nat
  secinfo : SecInfo
  mrmask : BitVec 16
  src : Page

def addPage (base : Nat) (c : PageCall) : AddPage :=
  { addr := toSize (base + c.offset)
    secinfo := secInfo c.prot
    mrmask := if c.prot &&& pageNoextend = pageNoextend then 0 else 0xffff
    src := c.page }

/-! ## Signing and loading -/

def shiftPower : Nat → Nat → Nat → Nat
  | 0, _, power => power
  | fuel + 1, size, power =>
    if size / 2 = 0 then power else shiftPower fuel (size / 2) (toSize (2 * power))

def getNextPower2 (size : Nat) : Nat :=
  if (List.range 64).countP size.testBit = 1 then size else shiftPower 64 size 2

def parmsHeap : Nat := 8
def parmsStack : Nat := 16
def parmsOssa : Nat := 24
def parmsTcsn : Nat := 32
def parmsHeapSize : Nat := 40
def parmsStackSize : Nat := 72

def getEnclaveParms (img : ElfImage) : Option Nat := do
  let tdata ← img.tdata
  let i ← findMagic img.file tdata.offset.toNat ((img.size - tdata.offset.toNat) / 8)
  return tdata.offset.toNat + 8 * i

def Shdr.intOffset (s : Shdr) : Option Nat :=
  if 0 < toInt32 s.offset.toNat then some (toInt32 s.offset.toNat).toNat else none

def parmsFields (enc heap stack ossa tcsn heapSize stackSize : Nat) : List Field :=
  [(enc + parmsHeap, 8, heap), (enc + parmsStack, 8, stack), (enc + parmsOssa, 8, ossa),
   (enc + parmsTcsn, 8, tcsn), (enc + parmsHeapSize, 8, heapSize),
   (enc + parmsStackSize, 8, stackSize)]

def fillEnclaveParms (img : ElfImage) (heap stack ossa tcsn heapSize stackSize : Nat) :
    Option ElfImage := do
  let tdata ← img.tdata
  let offset ← tdata.intOffset
  let i ← findMagic img.file offset (tdata.size.toNat + 1)
  return { img with
    file := storeFields img.file
      (parmsFields (offset + 8 * i) heap stack ossa tcsn heapSize stackSize) }

def sigstructSize : Nat := 1808

def ElfImage.putSigstruct (img : ElfImage) (off : Nat) (sig : Nat → BitVec 8) : ElfImage :=
  { img with
    file := fun x => if off ≤ x ∧ x < off + sigstructSize then sig (x - off) else img.file x }

/-- What has been signed: the library afterwards, the size in the measurement of `ECREATE`, and
the pages in the measurement. -/
structure Signed where
  image : ElfImage
  size : Nat
  measured : List Measured

section Sign

variable (sig : Nat → List Measured → Nat → BitVec 8)

/-- The offsets of heap, state save area and stack go through an `int`, and are written to the
library with the sizes. -/
def fillParms (img : ElfImage) (heap stack : Nat) (tcsp : Int) (heapFirst : Bool) :
    Option ElfImage :=
  let libSize := toSize (getLoadableSize img)
  let heapOffset := toInt32 (if heapFirst then pageSize + libSize else pageSize)
  let ossaOffset := toInt32 (pageSize + heap * pageSize + libSize * pageSize)
  let stackOffset := toInt32 (ossaOffset + 2 * pageSize + stack * pageSize)
  fillEnclaveParms img (toSize heapOffset) (toSize stackOffset) (toSize ossaOffset) (toSize tcsp)
    (toSize (heap * pageSize)) (toSize (stack * pageSize))

def fillAndMeasure (img : ElfImage) (heap stack size : Nat) (tcsp : Int) (heapFirst : Bool) :
    Option Signed := do
  -- only `init_offset` depends on it, which is not written
  let _ ← getSymbolAddress img
  let filled ← fillParms img heap stack tcsp heapFirst
  let run ← processPages filled heap stack tcsp 2 heapFirst
  return ⟨filled, getNextPower2 (toSize (size * pageSize)), run.calls.map measurePage⟩

def enclaveSign (img : ElfImage) (heap stack : Nat) (tcsp : Int) (heapFirst : Bool) :
    Option Signed := do
  let libSize := toSize (getLoadableSize img)
  let size := getEnclaveSize heap stack tcsp 1 2 (toInt32 libSize) 1
  -- the size of the enclave page cache, if no heap size was given
  let newHeap :=
    if heap = 0 then if size < 0x5d7f then 0x5d7f - size else 32768 else heap
  let size := if heap = 0 then toSize (size + newHeap) else size
  let s ← fillAndMeasure img newHeap stack size tcsp heapFirst
  let offset ← s.image.noteSigstruct.bind Shdr.intOffset
  return { s with image := s.image.putSigstruct offset (sig s.size s.measured) }

def enclaveUpdateHeap (img : ElfImage) (newHeap : Nat) (mapHeapFirst : Bool) :
    Option Signed := do
  let enc ← getEnclaveParms img
  let tcsp := toInt32 (load img.file (enc + parmsTcsn) 8)
  let stack := load img.file (enc + parmsStackSize) 8 / pageSize
  let img := { img with file := store img.file (enc + parmsHeapSize) 8 newHeap }
  let heap := newHeap / pageSize
  let libSize := toSize (getLoadableSize img)
  let size := getEnclaveSize heap stack tcsp 1 2 (toInt32 libSize) 1
  let newHeap := if heap = 0 then toSize (0x5d7f - size) else heap
  let size := if heap = 0 then toSize (size + newHeap) else size
  let s ← fillAndMeasure img newHeap stack size tcsp mapHeapFirst
  let offset ← s.image.noteSigstruct
  return { s with
    image := s.image.putSigstruct offset.offset.toNat (sig s.size s.measured) }

end Sign

structure Loaded where
  size : Nat
  pages : List AddPage

def createEnclaveMem (img : ElfImage) (ubase : Nat) (baseZeroMax : Option Nat)
    (mapHeapFirst : Bool) : Option Loaded := do
  let _ ← img.noteSigstruct
  let enc ← getEnclaveParms img
  let tcsp := toInt32 (load img.file (enc + parmsTcsn) 8)
  let heap := load img.file (enc + parmsHeapSize) 8 / pageSize
  let stack := load img.file (enc + parmsStackSize) 8 / pageSize
  let size := getEnclaveSize heap stack tcsp 1 2 (getLoadableSize img) 1
  guard (∀ m ∈ baseZeroMax, toSize (size * pageSize) ≤ m)
  let run ← processPages img heap stack tcsp 2 mapHeapFirst
  return ⟨getNextPower2 (toSize (size * pageSize)), run.calls.map (addPage ubase)⟩

end RktIo.Sgx
