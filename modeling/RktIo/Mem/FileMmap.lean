import RktIo.Mem.RangeArith

/-!
# Mapping a file (`syscall_SYS_mmap` of `src/sgx/enclave_mem.c`)

A file is mapped by reading it into pages of the enclave. The loop around `read` keeps its result
in a `size_t`, so an error is a large count: the loop goes on behind it, and the branch that gives
the pages back is never taken. The test for an address is one for a positive pointer, which
`MAP_FAILED` passes, so the file is read even if there are no pages.
-/

namespace RktIo.Mem

open List

/-! ## The call -/

def mapFailed : Nat := 2 ^ 64 - 1

def mmapPtr : Except Errno Nat → Nat
  | .ok p => p
  | .error _ => mapFailed

def MAP_SHARED : BitVec 32 := 0x01
def MAP_PRIVATE : BitVec 32 := 0x02
def MAP_FIXED : BitVec 32 := 0x10
def MAP_ANONYMOUS : BitVec 32 := 0x20
def PROT_WRITE : BitVec 32 := 0x2

def enclaveMmapFlagsSupported (mmapFiles : Nat) (flags : BitVec 32) (fd : Int) : Bool :=
  let supportedFlags :=
    if mmapFiles = 2 then MAP_PRIVATE ||| MAP_SHARED
    else if mmapFiles = 1 then MAP_PRIVATE
    else 0
  (fd == -1 && flags &&& MAP_ANONYMOUS != 0) || supportedFlags &&& flags != 0

/-- A result of `read`: -1, or as many bytes as the list has, none at the end of the file. -/
inductive ReadResult where
  | error
  | data (bytes : List UInt8)
  deriving DecidableEq

def ReadResult.bytes : ReadResult → List UInt8
  | .error => []
  | .data bytes => bytes

def ReadResult.ret : ReadResult → Nat
  | .error => u64 (-1)
  | .data bytes => bytes.length

structure ReadCall where
  buf : Nat
  count : Nat
  deriving DecidableEq

def store (mem : Nat → UInt8) (addr : Nat) (bytes : List UInt8) : Nat → UInt8 :=
  fun a => (bytes[u64 ((a : Int) - addr)]?).getD (mem a)

structure LoopOut where
  ret : Nat
  mem : Nat → UInt8
  reads : List ReadCall

def readLoop (p length : Nat) : Nat → (Nat → UInt8) → List ReadResult → Option LoopOut
  | _, _, [] => none
  | readb, mem, r :: results =>
    let call : ReadCall := ⟨u64 (p + readb), u64 ((length : Int) - readb)⟩
    let mem := store mem call.buf r.bytes
    if r.ret > 0 then
      (readLoop p length (u64 (readb + r.ret)) mem results).map
        fun out => { out with reads := call :: out.reads }
    else some ⟨r.ret, mem, [call]⟩

structure MmapOut where
  ret : Nat
  state : Mman
  reads : List ReadCall

def syscallSYSMmap (m : Mman) (addr length : Nat) (prot flags : BitVec 32) (fd : Int)
    (results : List ReadResult) : Option MmapOut :=
  let fixed := flags &&& MAP_FIXED != 0
  if flags &&& MAP_SHARED ≠ 0 ∧ flags &&& MAP_PRIVATE ≠ 0 then some ⟨mapFailed, m, []⟩
  -- Anonymous mapping/allocation
  else if fd = -1 ∧ flags &&& MAP_ANONYMOUS ≠ 0 then do
    let (ret, m) ← enclaveMmap m addr length fixed
    match ret with
    | .error _ => some ⟨mapFailed, m, []⟩
    | .ok p =>
      let mem := if prot &&& PROT_WRITE ≠ 0 then store m.mem p (List.replicate length 0) else m.mem
      some ⟨p, { m with mem := mem }, []⟩
  -- File-backed mapping (if allowed)
  else if 0 ≤ fd ∧ enclaveMmapFlagsSupported m.mmapFiles flags fd then do
    let (ret, m) ← enclaveMmap m addr length fixed
    let mem := mmapPtr ret
    if mem > 0 then
      -- Read file into memory
      let out ← readLoop mem length 0 m.mem results
      let m := { m with mem := out.mem }
      if out.ret < 0 then
        let (_, m) ← enclaveMunmap m addr length
        some ⟨mapFailed, m, out.reads⟩
      else some ⟨mem, m, out.reads⟩
    else some ⟨mem, m, []⟩
  else some ⟨mapFailed, m, []⟩

/-! ## The loop -/

theorem store_nil (mem : Nat → UInt8) (addr : Nat) : store mem addr [] = mem := rfl

theorem store_store (mem : Nat → UInt8) (addr : Nat) (xs ys : List UInt8)
    (hlen : xs.length + ys.length ≤ 2 ^ 64) :
    store (store mem addr xs) (u64 (addr + xs.length)) ys = store mem addr (xs ++ ys) := by
  funext a
  rw [store, store, store]
  by_cases hin : u64 ((a : Int) - addr) < xs.length
  · have hout : ys.length ≤ u64 ((a : Int) - u64 (addr + xs.length)) := by
      unfold u64 at hin ⊢
      omega
    rw [getElem?_eq_none hout, Option.getD_none, getElem?_append_left hin]
  · have hbehind : u64 ((a : Int) - u64 (addr + xs.length))
        = u64 ((a : Int) - addr) - xs.length := by
      unfold u64 at hin ⊢
      omega
    rw [hbehind, getElem?_append_right (by omega)]
    rw [getElem?_eq_none (l := xs) (by omega), Option.getD_none]

theorem store_apply {mem : Nat → UInt8} {addr i : Nat} {bytes : List UInt8} {b : UInt8}
    (hlen : bytes.length ≤ 2 ^ 64) (hi : bytes[i]? = some b) :
    store mem addr bytes (u64 (addr + i)) = b := by
  have hlt : i < bytes.length := (List.getElem?_eq_some_iff.mp hi).1
  have hat : u64 ((u64 ((addr : Int) + i) : Int) - addr) = i := by
    unfold u64
    omega
  rw [store, hat, hi, Option.getD_some]

theorem readLoop_data {p length : Nat} (hlen : length < 2 ^ 64) (rest : List ReadResult) :
    ∀ (data : List (List UInt8)) (readb : Nat) (mem : Nat → UInt8), (∀ d ∈ data, d ≠ []) →
      readb + data.flatten.length ≤ length →
      ∃ reads, reads.length = data.length ∧
        readLoop p length readb mem (data.map .data ++ rest) =
          (readLoop p length (readb + data.flatten.length)
            (store mem (u64 (p + readb)) data.flatten) rest).map
              fun out => { out with reads := reads ++ out.reads } := by
  intro data
  induction data with
  | nil =>
    intro readb mem _ _
    refine ⟨[], rfl, ?_⟩
    simp [store_nil]
  | cons d data ih =>
    intro readb mem hne hroom
    obtain ⟨hd, hne⟩ := forall_mem_cons.mp hne
    rw [flatten_cons, length_append] at hroom
    have hpos : (ReadResult.data d).ret > 0 := length_pos_iff.mpr hd
    have hnext : u64 ((readb : Int) + (ReadResult.data d).ret) = readb + d.length := by
      rw [ReadResult.ret, u64]
      omega
    have haddr : u64 ((p : Int) + (readb + d.length : Nat))
        = u64 ((u64 ((p : Int) + readb) : Int) + d.length) := by
      unfold u64
      omega
    obtain ⟨reads, hlength, hloop⟩ := ih (readb + d.length)
      (store mem (u64 (p + readb)) d) hne (by omega)
    rw [haddr, store_store _ _ _ _ (by omega)] at hloop
    refine ⟨⟨u64 (p + readb), u64 ((length : Int) - readb)⟩ :: reads, congrArg (· + 1) hlength, ?_⟩
    rw [map_cons, cons_append, readLoop, if_pos hpos, hnext]
    dsimp only [ReadResult.bytes]
    rw [hloop, Option.map_map, flatten_cons, length_append, ← Nat.add_assoc]
    rfl

theorem reads_pos {p length readb : Nat} {mem : Nat → UInt8} {results : List ReadResult}
    {out : LoopOut} (h : readLoop p length readb mem results = some out) : 0 < out.reads.length := by
  cases results with
  | nil => cases h
  | cons r results =>
    rw [readLoop] at h
    dsimp only at h
    split at h
    · obtain ⟨out', -, rfl⟩ := Option.map_eq_some_iff.mp h
      exact Nat.succ_pos _
    · cases h
      exact Nat.one_pos

theorem readLoop_error {p length readb : Nat} {mem : Nat → UInt8} {results : List ReadResult}
    {out : LoopOut} (h : readLoop p length readb mem (.error :: results) = some out) :
    1 < out.reads.length := by
  rw [readLoop, if_pos (by decide)] at h
  obtain ⟨out', hout, rfl⟩ := Option.map_eq_some_iff.mp h
  exact Nat.succ_lt_succ (reads_pos hout)

/-! ## When there is memory -/

def MmapGives (m : Mman) (addr length : Nat) (mmapFixed : Bool) : Prop :=
  ∃ p m₁, p ≠ 0 ∧ enclaveMmap m addr length mmapFixed = some (.ok p, m₁)

/-! ## Failing cleanly -/

structure FileRequest (m : Mman) (flags : BitVec 32) (fd : Int) : Prop where
  one : ¬ (flags &&& MAP_SHARED ≠ 0 ∧ flags &&& MAP_PRIVATE ≠ 0)
  nonneg : 0 ≤ fd
  supported : enclaveMmapFlagsSupported m.mmapFiles flags fd = true

/-- Mapping a file fails as it should. `data` is what `read` gives before `stop`, its first error or
the end of the file, and `rest` is what it would give after that. Without memory nothing is read.
Otherwise `read` is not called again after `stop`; on an error the pages are as before, and on
success the mapping holds the data. -/
def FailsCleanly (m : Mman) (addr length : Nat) (prot flags : BitVec 32) (fd : Int)
    (data : List (List UInt8)) (stop : ReadResult) (rest : List ReadResult) : Prop :=
  ∃ out, syscallSYSMmap m addr length prot flags fd (data.map .data ++ stop :: rest) = some out ∧
    (¬ MmapGives m addr length (flags &&& MAP_FIXED != 0) →
      out.ret = mapFailed ∧ out.reads = []) ∧
    (MmapGives m addr length (flags &&& MAP_FIXED != 0) →
      out.reads.length = data.length + 1 ∧
      (stop = .error → out.ret = mapFailed ∧ out.state.mmapBitmap = m.mmapBitmap ∧
        out.state.usedPages = m.usedPages) ∧
      (stop ≠ .error →
        (∃ m₁, enclaveMmap m addr length (flags &&& MAP_FIXED != 0) = some (.ok out.ret, m₁)) ∧
        ∀ (i : Nat) (b : UInt8), data.flatten[i]? = some b → out.state.mem (u64 (out.ret + i)) = b))

section

variable {m m₁ : Mman} {addr length p : Nat} {prot flags : BitVec 32} {fd : Int}
  {results : List ReadResult} {ret : Except Errno Nat}

theorem syscallSYSMmap_file (hreq : FileRequest m flags fd) :
    syscallSYSMmap m addr length prot flags fd results =
      (enclaveMmap m addr length (flags &&& MAP_FIXED != 0)).bind fun r =>
        if mmapPtr r.1 > 0 then
          (readLoop (mmapPtr r.1) length 0 r.2.mem results).map
            fun out => ⟨mmapPtr r.1, { r.2 with mem := out.mem }, out.reads⟩
        else some ⟨mmapPtr r.1, r.2, []⟩ := by
  have hanon : ¬ (fd = -1 ∧ flags &&& MAP_ANONYMOUS ≠ 0) := fun h => by have := hreq.nonneg; omega
  rw [syscallSYSMmap, if_neg hreq.one, if_neg hanon, if_pos ⟨hreq.nonneg, hreq.supported⟩]
  refine bind_congr (m := Option) fun r => if_congr Iff.rfl ?_ rfl
  rw [Option.map_eq_bind]
  exact bind_congr (m := Option) fun out => if_neg (Nat.not_lt_zero _)

theorem syscallSYSMmap_of_ok (hreq : FileRequest m flags fd) (hp : p ≠ 0)
    (hmmap : enclaveMmap m addr length (flags &&& MAP_FIXED != 0) = some (.ok p, m₁)) :
    syscallSYSMmap m addr length prot flags fd results =
      (readLoop p length 0 m₁.mem results).map
        fun out => ⟨p, { m₁ with mem := out.mem }, out.reads⟩ := by
  rw [syscallSYSMmap_file hreq, hmmap, Option.bind_some]
  exact if_pos (Nat.pos_of_ne_zero hp)

theorem reads_of_failed (hreq : FileRequest m flags fd) {e : Errno} {out : MmapOut}
    (hmmap : enclaveMmap m addr length (flags &&& MAP_FIXED != 0) = some (.error e, m₁))
    (hout : syscallSYSMmap m addr length prot flags fd results = some out) : out.reads ≠ [] := by
  have hpos : mmapPtr (.error e) > 0 := show mapFailed > 0 by decide
  rw [syscallSYSMmap_file hreq, hmmap, Option.bind_some, if_pos hpos] at hout
  obtain ⟨loop, hloop, rfl⟩ := Option.map_eq_some_iff.mp hout
  exact length_pos_iff.mp (reads_pos hloop)

variable {data : List (List UInt8)} {stop : ReadResult} {rest : List ReadResult}

theorem FailsCleanly.mmapGives (hclean : FailsCleanly m addr length prot flags fd data stop rest)
    (hreq : FileRequest m flags fd) : MmapGives m addr length (flags &&& MAP_FIXED != 0) := by
  by_contra hgives
  obtain ⟨out, hout, hnone, -⟩ := hclean
  obtain ⟨hret, hreads⟩ := hnone hgives
  cases hmmap : enclaveMmap m addr length (flags &&& MAP_FIXED != 0) with
  | none =>
    rw [syscallSYSMmap_file hreq, hmmap] at hout
    cases hout
  | some r =>
    obtain ⟨ret, m₁⟩ := r
    cases ret with
    | error e => exact reads_of_failed hreq hmmap hout hreads
    | ok p =>
      -- the null pointer is returned as it is, and is not `MAP_FAILED`
      obtain rfl : p = 0 := by
        by_contra hp
        exact hgives ⟨p, m₁, hp, hmmap⟩
      have hnull : ¬ mmapPtr (.ok 0) > 0 := Nat.lt_irrefl 0
      rw [syscallSYSMmap_file hreq, hmmap, Option.bind_some, if_neg hnull] at hout
      cases hout
      cases hret

section

variable (hreq : FileRequest m flags fd) (hlen : length < 2 ^ 64) (hdata : ∀ d ∈ data, d ≠ [])
  (hroom : data.flatten.length ≤ length)
  (hgives : MmapGives m addr length (flags &&& MAP_FIXED != 0))

include hreq hlen hdata hroom hgives

theorem not_failsCleanly_error : ¬ FailsCleanly m addr length prot flags fd data .error rest := by
  rintro ⟨out, hout, -, hsome⟩
  obtain ⟨hreads, -⟩ := hsome hgives
  obtain ⟨p, m₁, hp, hmmap⟩ := hgives
  obtain ⟨reads, hlength, hloop⟩ := readLoop_data (p := p) hlen (.error :: rest) data 0 m₁.mem
    hdata (by omega)
  rw [syscallSYSMmap_of_ok hreq hp hmmap, hloop, Option.map_map] at hout
  obtain ⟨loop, herr, rfl⟩ := Option.map_eq_some_iff.mp hout
  have hagain := readLoop_error herr
  dsimp only [Function.comp] at hreads
  rw [length_append] at hreads
  omega

theorem failsCleanly_of_gives : FailsCleanly m addr length prot flags fd data (.data []) rest := by
  obtain ⟨p, m₁, hp, hmmap⟩ := hgives
  obtain ⟨reads, hlength, hloop⟩ := readLoop_data (p := p) hlen (.data [] :: rest) data 0 m₁.mem
    hdata (by omega)
  refine ⟨⟨p, { m₁ with mem := store m₁.mem (u64 (p + (0 : Nat))) data.flatten }, reads ++
    [⟨u64 (p + data.flatten.length), u64 ((length : Int) - data.flatten.length)⟩]⟩, ?_, ?_, ?_⟩
  · rw [syscallSYSMmap_of_ok hreq hp hmmap, hloop, readLoop, if_neg (by decide)]
    simp [store_nil, ReadResult.bytes]
  · exact fun hnone => absurd ⟨p, m₁, hp, hmmap⟩ hnone
  · intro _
    refine ⟨?_, nofun, fun _ => ⟨⟨m₁, hmmap⟩, fun i b hb => ?_⟩⟩
    · rw [length_append, hlength]
      rfl
    · have haddr : u64 ((p : Int) + i) = u64 ((u64 ((p : Int) + (0 : Nat)) : Int) + i) := by
        unfold u64
        omega
      dsimp only
      rw [haddr]
      exact store_apply (by omega) hb

end

end

/-- **Mapping a file fails cleanly** exactly if there is nothing to fail: there is memory for the
mapping, and the file is read to its end. -/
theorem file_mmap_fails_cleanly_iff (m : Mman) (addr length : Nat) (prot flags : BitVec 32) (fd : Int)
    (data : List (List UInt8)) (stop : ReadResult) (rest : List ReadResult)
    (hreq : FileRequest m flags fd) (hlen : length < 2 ^ 64) (hdata : ∀ d ∈ data, d ≠ [])
    (hroom : data.flatten.length ≤ length) (hstop : stop = .error ∨ stop = .data []) :
    FailsCleanly m addr length prot flags fd data stop rest ↔
      MmapGives m addr length (flags &&& MAP_FIXED != 0) ∧ stop = .data [] := by
  constructor
  · intro hclean
    have hgives := hclean.mmapGives hreq
    refine ⟨hgives, hstop.resolve_left fun herror => ?_⟩
    rw [herror] at hclean
    exact not_failsCleanly_error hreq hlen hdata hroom hgives hclean
  · rintro ⟨hgives, rfl⟩
    exact failsCleanly_of_gives hreq hlen hdata hroom hgives

theorem fileHeap_eval :
    ((enclaveMmanInit (fun _ => 0) (fun _ => 0) threePageHeap.base threePageHeap.numPages
      threePageHeap.topdown 1).bind fun m =>
        (enclaveMmap m 0 4096 false).map fun r => (m.mmapFiles, r.1)) = some (1, .ok 12288) := by
  decide +kernel

theorem fileHeap :
    ∃ m m₁, enclaveMmanInit (fun _ => 0) (fun _ => 0) threePageHeap.base threePageHeap.numPages
        threePageHeap.topdown 1 = some m
      ∧ FileRequest m MAP_PRIVATE 3
      ∧ enclaveMmap m 0 4096 (MAP_PRIVATE &&& MAP_FIXED != 0) = some (.ok 12288, m₁) := by
  obtain ⟨m, hinit, hmap⟩ := Option.bind_eq_some_iff.mp fileHeap_eval
  obtain ⟨⟨ret, m₁⟩, hmmap, heq⟩ := Option.map_eq_some_iff.mp hmap
  obtain ⟨hfiles, rfl⟩ := Prod.mk.inj heq
  refine ⟨m, m₁, hinit, ⟨by decide, by decide, ?_⟩, hmmap⟩
  rw [hfiles]
  decide

/-- A file of three bytes. -/
theorem file_mmap_fails_cleanly_iff_threeBytes :
    ∃ m, enclaveMmanInit (fun _ => 0) (fun _ => 0) threePageHeap.base threePageHeap.numPages
        threePageHeap.topdown 1 = some m
      ∧ FailsCleanly m 0 4096 0x1 MAP_PRIVATE 3 [[1, 2], [3]] (.data []) [] := by
  obtain ⟨m, m₁, hinit, hreq, hmmap⟩ := fileHeap
  refine ⟨m, hinit, ?_⟩
  exact (file_mmap_fails_cleanly_iff m 0 4096 0x1 MAP_PRIVATE 3 [[1, 2], [3]] (.data []) [] hreq
    (by omega) (by decide) (by decide) (.inr rfl)).mpr ⟨⟨12288, m₁, by decide, hmmap⟩, rfl⟩

/-- The first `read` fails and the next one is at the end of the file: the call returns the address
of its page, which stays reserved. -/
theorem read_error_is_success :
    ∃ m, enclaveMmanInit (fun _ => 0) (fun _ => 0) threePageHeap.base threePageHeap.numPages
        threePageHeap.topdown 1 = some m
      ∧ ((syscallSYSMmap m 0 4096 0x1 MAP_PRIVATE 3 [.error, .data []]).map
        fun out => (out.ret, out.reads.length)) = some (12288, 2)
      ∧ ¬ FailsCleanly m 0 4096 0x1 MAP_PRIVATE 3 [] .error [.data []] := by
  obtain ⟨m, m₁, hinit, hreq, hmmap⟩ := fileHeap
  refine ⟨m, hinit, ?_, ?_⟩
  · rw [syscallSYSMmap_of_ok hreq (by decide) hmmap]
    rfl
  · rintro ⟨out, hout, -, hsome⟩
    obtain ⟨hreads, -⟩ := hsome ⟨12288, m₁, by decide, hmmap⟩
    rw [syscallSYSMmap_of_ok hreq (by decide) hmmap] at hout
    obtain ⟨loop, hloop, rfl⟩ := Option.map_eq_some_iff.mp hout
    have := readLoop_error hloop
    rw [hreads] at this
    exact absurd this (by decide)

end RktIo.Mem
