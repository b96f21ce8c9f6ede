import RktIo.Host.Arena

/-!
# The host calls that read

`host_syscall_SYS_read` and `host_syscall_SYS_pread64` give the host room for `count` bytes in the
arena and copy all of it to the caller's buffer, whatever the host answers. `host_syscall_SYS_readv`
gives the host a vector of descriptors and copies each buffer back through its descriptor.
-/

namespace RktIo.Host

open SharedMem List

structure Request where
  syscallno : Nat
  args : List (BitVec 64)
deriving DecidableEq

structure ReadReply where
  retVal : BitVec 64
  shown : Memory

structure ReadOut where
  request : Request
  rc : Int
  mem : Memory
  arena : Arena

/-- The common body of the reads into one buffer; `args` are the arguments of the request, from the
address of the arena buffer. -/
def readInto (inside : BitVec 64 → Bool) (syscallno : Nat) (args : BitVec 64 → List (BitVec 64))
    (a : Arena) (newmem : BitVec 64) (m : Memory) (buf count : BitVec 64) (reply : ReadReply) :
    ReadOut :=
  let val2 := arenaAlloc (arenaEnsure a count newmem) count
  let bytes := fetch inside m (fun _ => reply.shown) val2.1 count.toNat
  { request := ⟨syscallno, args val2.1⟩
    rc := reply.retVal.toInt
    -- the answer does not count: as many bytes are copied as were asked for
    mem := if val2.1 ≠ 0#64 ∧ buf ≠ 0#64 then write m (cells buf bytes) else m
    arena := arenaFree val2.2 }

def hostSyscallRead (inside : BitVec 64 → Bool) (a : Arena) (newmem : BitVec 64) (m : Memory)
    (fd : BitVec 32) (buf count : BitVec 64) (reply : ReadReply) : ReadOut :=
  readInto inside 0 (fun val2 => [fd.signExtend 64, val2, count]) a newmem m buf count reply

def hostSyscallPread64 (inside : BitVec 64 → Bool) (a : Arena) (newmem : BitVec 64) (m : Memory)
    (fd : BitVec 32) (buf count offset : BitVec 64) (reply : ReadReply) : ReadOut :=
  readInto inside 17 (fun val2 => [fd.signExtend 64, val2, count, offset]) a newmem m buf count
    reply

/-- The host's answer to `readv`: the value in the slot, and what the host shows while each buffer
is copied back. -/
structure ReadvReply where
  retVal : BitVec 64
  copies : Nat → HostCopy

/-- What `readv` allocates: the arena it works in, the address of the descriptors, their values
when the host gets them, and the arena behind them. -/
structure ReadvSetup where
  arena : Arena
  val2 : BitVec 64
  descs : List Iovec
  after : Arena

def readvSetup (a : Arena) (newmem : BitVec 64) (iov : List Iovec) : ReadvSetup :=
  let len2 := iov.foldl (fun n d => n + deepsizeiovec d) 0#64
  let arena := arenaEnsure a len2 newmem
  let val2 := arenaAlloc arena (sizeofIovec * BitVec.ofNat 64 iov.length)
  let descs := deepinit val2.2 iov
  ⟨arena, val2.1, descs.1, descs.2⟩

def ReadvSetup.mem (s : ReadvSetup) (m : Memory) : Memory :=
  write m (cells s.val2 (s.descs.flatMap Iovec.bytes))

structure ReadvOut where
  request : Request
  /-- No value where a check fails: the code then crashes. -/
  rc : Option Int
  log : CopyLog
  mem : Memory
  arena : Arena

def hostSyscallReadv (inside : BitVec 64 → Bool) (a : Arena) (newmem : BitVec 64) (m : Memory)
    (fd : BitVec 32) (iov : List Iovec) (reply : ReadvReply) : ReadvOut :=
  let s := readvSetup a newmem iov
  let back := copyBack inside reply.copies (s.mem m) s.val2 iov
  { request := ⟨19, [fd.signExtend 64, s.val2, BitVec.ofNat 64 iov.length]⟩
    rc := if back.1.crashed then none else some reply.retVal.toInt
    log := back.1
    mem := back.2
    arena := arenaFree s.after }

def bufferAddrs (iov : List Iovec) : List (BitVec 64) := iov.flatMap Iovec.addrs

section Confined

variable {inside : BitVec 64 → Bool} {a : Arena} {newmem x : BitVec 64} {m m' : Memory}
  {fd : BitVec 32} {iov : List Iovec} {reply : ReadvReply}

theorem length_descs : (readvSetup a newmem iov).descs.length = iov.length := length_deepinit

theorem ReadvSetup.mem_of_notDesc
    (hx : x ∉ addrs (readvSetup a newmem iov).val2 (16 * iov.length)) :
    (readvSetup a newmem iov).mem m x = m x := by
  refine write_of_notMem ?_
  rwa [map_fst_cells, length_flatMap_bytes, length_descs]

def HostCopy.steady (shown : Memory) : HostCopy := ⟨shown, shown, shown, fun _ => shown, shown⟩

def lowInside (x : BitVec 64) : Bool := decide (x < 4096#64)

def smallArena : Arena := ⟨8192#64, 64#64, 0#64⟩

def secretMem : Memory := fun x => if x = 768#64 then 7#8 else 0#8

def oneDesc (low high : BitVec 8) : Memory := fun x =>
  if x = 8192#64 then low else if x = 8193#64 then high else if x = 8200#64 then 1#8 else 0#8

end Confined

/-! ## A host that leaves the descriptors alone -/

def Untampered (shown : Memory) (src : BitVec 64) : List Iovec → Prop
  | [] => True
  | own :: owns =>
    loadWord shown src = own.iovBase ∧ loadWord shown (src + 8#64) = own.iovLen ∧
      Untampered shown (src + sizeofIovec) owns

def placedBytes (shown : Memory) (owns : List Iovec) : List (BitVec 8) :=
  (bufferAddrs owns).map shown

section Untampered

variable {inside : BitVec 64 → Bool} {a : Arena} {newmem src x : BitVec 64} {m shown : Memory}
  {iov owns : List Iovec} {d own : Iovec}

theorem bufferAddrs_cons : bufferAddrs (d :: iov) = d.addrs ++ bufferAddrs iov := flatMap_cons

theorem placedBytes_cons :
    placedBytes shown (own :: owns) = own.addrs.map shown ++ placedBytes shown owns := by
  rw [placedBytes, bufferAddrs_cons, map_append, placedBytes]

theorem length_bufferAddrs (hlen : owns.map Iovec.iovLen = iov.map Iovec.iovLen) :
    (bufferAddrs owns).length = (bufferAddrs iov).length := by
  have haddrs : (fun d : Iovec => d.addrs.length) = BitVec.toNat ∘ Iovec.iovLen :=
    funext fun d => length_addrs
  rw [bufferAddrs, bufferAddrs, length_flatMap, length_flatMap, haddrs, ← map_map,
    hlen, map_map]

section

variable (hdesc : ∀ x, InDesc src x → inside x = false)

include hdesc

theorem readBase_untampered (hbase : loadWord shown src = own.iovBase) :
    readBase inside m shown src = own.iovBase :=
  (loadWord_outside fun x hx => hdesc x (InDesc.base hx)).trans hbase

theorem readLen_untampered (hlen : loadWord shown (src + 8#64) = own.iovLen) :
    readLen inside m shown src = own.iovLen :=
  (loadWord_outside fun x hx => hdesc x (InDesc.len hx)).trans hlen

theorem memcpySource_untampered (hbase : loadWord shown src = own.iovBase)
    (hlen : loadWord shown (src + 8#64) = own.iovLen) (hdata : ∀ x ∈ own.addrs, inside x = false) :
    memcpySource inside (.steady shown) m src = ⟨own.iovBase, own.addrs.map shown⟩ := by
  rw [memcpySource, HostCopy.steady, readBase_untampered hdesc hbase,
    readLen_untampered hdesc hlen]
  exact congrArg (Stored.mk own.iovBase) (fetch_outside hdata)

end

theorem copyBack_untampered (hlen : owns.map Iovec.iovLen = iov.map Iovec.iovLen)
    (hshown : Untampered shown src owns)
    (hdesc : ∀ x, Region.Mem src (16 * iov.length) x → inside x = false)
    (hdata : ∀ own ∈ owns, ∀ x ∈ own.addrs, inside x = false) :
    (copyBack inside (fun _ => .steady shown) m src iov).1.iov = iov ∧
    (copyBack inside (fun _ => .steady shown) m src iov).1.crashed = false ∧
    (copyBack inside (fun _ => .steady shown) m src iov).2 =
      write m ((bufferAddrs iov).zip (placedBytes shown owns)) := by
  induction iov generalizing m src owns with
  | nil => exact ⟨rfl, rfl, rfl⟩
  | cons d iov ih =>
    cases owns with
    | nil => cases hlen
    | cons own owns =>
      obtain ⟨hfirst, hrest⟩ := List.cons.inj hlen
      obtain ⟨hbase, hown, hshown⟩ := hshown
      obtain ⟨hin, hdescs⟩ := descs_cons hdesc
      have hread (m : Memory) : readLen inside m shown src = d.iovLen :=
        (readLen_untampered hin hown).trans hfirst
      have hsource := memcpySource_untampered (m := m) hin hbase hown
        (hdata own mem_cons_self)
      have hstep : afterCopy inside (.steady shown) m d src =
          write m (d.addrs.zip (own.addrs.map shown)) := by
        rw [afterCopy, hsource, cells, length_map, Iovec.addrs, Iovec.addrs, length_addrs,
          hfirst]
      obtain ⟨hiov, hcrashed, hmem⟩ := ih (m := afterCopy inside (.steady shown) m d src) hrest
        hshown hdescs (fun b hb => hdata b (mem_cons_of_mem _ hb))
      rw [copyBack_of_eq (hread m).symm]
      refine ⟨?_, hcrashed, ?_⟩
      · exact congrArg₂ List.cons (congrArg (Iovec.mk d.iovBase) (hread _)) hiov
      · show (copyBack inside (fun _ => .steady shown) (afterCopy inside (.steady shown) m d src)
          (src + sizeofIovec) iov).2 = _
        have hzip : d.addrs.length = (own.addrs.map shown).length := by
          rw [length_map, Iovec.addrs, Iovec.addrs, length_addrs, length_addrs, hfirst]
        rw [hmem, hstep, ← write_append, ← zip_append hzip, bufferAddrs_cons,
          placedBytes_cons]

end Untampered

/-! ## What a read leaves in the caller's buffers -/

section Exact

/-- After a read that returned `r`, the first `r` bytes of the buffer are the ones placed by the
host, and everything behind them and around the buffer is as before. -/
def ExactRead (inside : BitVec 64 → Bool) (m m' : Memory) (buf : List (BitVec 64))
    (placed : List (BitVec 8)) (r : Int) : Prop :=
  buf.map m' = placed.take r.toNat ++ (buf.map m).drop r.toNat ∧
  ∀ x, inside x = true → x ∉ buf → m' x = m x

variable {inside : BitVec 64 → Bool} {m : Memory} {buf : List (BitVec 64)}
  {placed : List (BitVec 8)} {r : Int}

theorem eq_take_append_drop_iff {l k : List (BitVec 8)} {n : Nat} :
    l = l.take n ++ k.drop n ↔ l.drop n = k.drop n := by
  constructor
  · intro h
    have hsplit := (take_append_drop n l).trans h
    exact append_cancel_left hsplit
  · intro h
    rw [← h, take_append_drop]

theorem write_frame (hlen : placed.length = buf.length) {x : BitVec 64} (hx : x ∉ buf) :
    write m (buf.zip placed) x = m x :=
  write_of_notMem (by rwa [map_fst_zip hlen.ge])

theorem exactRead_write_iff (hnodup : buf.Nodup) (hlen : placed.length = buf.length) :
    ExactRead inside m (write m (buf.zip placed)) buf placed r ↔
      placed.drop r.toNat = (buf.map m).drop r.toNat := by
  rw [ExactRead, map_write_zip hnodup hlen, eq_take_append_drop_iff]
  exact and_iff_left fun x _ hx => write_frame hlen hx

theorem exactRead_unchanged_iff :
    ExactRead inside m m buf placed r ↔ placed.take r.toNat = (buf.map m).take r.toNat := by
  rw [ExactRead]
  refine Iff.trans (and_iff_left fun x _ _ => rfl) ?_
  constructor
  · intro h
    have hsplit := (take_append_drop r.toNat (buf.map m)).trans h
    exact (append_cancel_right hsplit).symm
  · intro h
    rw [h, take_append_drop]

def lastPlaced (buf : List (BitVec 64)) (placed : List (BitVec 8)) (x : BitVec 64) :
    Option (BitVec 8) :=
  (buf.zip placed).reverse.lookup x

theorem map_eq_iff_zip {f : BitVec 64 → BitVec 8} {l : List (BitVec 64)} {k : List (BitVec 8)}
    (hlen : k.length = l.length) : l.map f = k ↔ ∀ p ∈ l.zip k, f p.1 = p.2 := by
  induction l generalizing k with
  | nil => rw [length_eq_zero_iff.mp hlen]; simp
  | cons x l ih =>
    cases k with
    | nil => cases hlen
    | cons b k => rw [map_cons, List.cons.injEq, ih (Nat.succ.inj hlen), zip_cons_cons,
        forall_mem_cons]

theorem exactRead_write_iff_last (hlen : placed.length = buf.length) :
    ExactRead inside m (write m (buf.zip placed)) buf placed r ↔
      ∀ p ∈ buf.zip (placed.take r.toNat ++ (buf.map m).drop r.toNat),
        lastPlaced buf placed p.1 = some p.2 := by
  have hexpected : (placed.take r.toNat ++ (buf.map m).drop r.toNat).length = buf.length := by
    rw [length_append, length_take, length_drop, length_map]
    omega
  rw [ExactRead, map_eq_iff_zip hexpected]
  refine Iff.trans (and_iff_left fun x _ hx => write_frame hlen hx) ?_
  refine forall₂_congr fun p hp => ?_
  have hmem : p.1 ∈ (buf.zip placed).map Prod.fst := by
    rw [map_fst_zip hlen.ge]
    exact (of_mem_zip hp).1
  obtain ⟨v, hv⟩ := lookup_isSome hmem
  rw [write_apply, lastPlaced, hv, Option.getD_some, Option.some.injEq]

end Exact

section Reads

variable {inside : BitVec 64 → Bool} {a : Arena} {newmem buf count : BitVec 64} {m shown : Memory}
  {reply : ReadReply} {syscallno : Nat} {args : BitVec 64 → List (BitVec 64)} {iov : List Iovec}

def arenaBytes (inside : BitVec 64 → Bool) (a : Arena) (newmem : BitVec 64) (m : Memory)
    (count : BitVec 64) (shown : Memory) : List (BitVec 8) :=
  let e := arenaEnsure a count newmem
  fetch inside m (fun _ => shown) (e.mem + e.allocated) count.toNat

def ReadExact (inside : BitVec 64 → Bool) (a : Arena) (newmem : BitVec 64) (m : Memory)
    (buf count : BitVec 64) (reply : ReadReply) (out : ReadOut) : Prop :=
  if buf = 0#64 then out.mem = m
  else ExactRead inside m out.mem (addrs buf count.toNat)
    (arenaBytes inside a newmem m count reply.shown) out.rc

/-- Behind the bytes that were read the arena happens to hold what the caller's buffer holds. An
arena that the host has moved to address 0 is taken for no buffer and nothing is copied, so there
it is the bytes that were read. -/
def NothingStale (inside : BitVec 64 → Bool) (a : Arena) (newmem : BitVec 64) (m : Memory)
    (buf count : BitVec 64) (reply : ReadReply) : Prop :=
  let e := arenaEnsure a count newmem
  let placed := arenaBytes inside a newmem m count reply.shown
  let old := (addrs buf count.toNat).map m
  let n := reply.retVal.toInt.toNat
  buf = 0#64 ∨
    if e.mem + e.allocated = 0#64 then placed.take n = old.take n else placed.drop n = old.drop n

instance : Decidable (NothingStale inside a newmem m buf count reply) := by
  unfold NothingStale
  infer_instance

theorem readInto_mem_of_null (hval : (arenaAlloc (arenaEnsure a count newmem) count).1 = 0#64) :
    (readInto inside syscallno args a newmem m buf count reply).mem = m :=
  if_neg fun h => h.1 hval

theorem readInto_exact_iff :
    ReadExact inside a newmem m buf count reply
        (readInto inside syscallno args a newmem m buf count reply) ↔
      NothingStale inside a newmem m buf count reply := by
  rw [ReadExact, NothingStale]
  by_cases hbuf : buf = 0#64
  · rw [if_pos hbuf]
    exact iff_of_true (if_neg fun h => h.2 hbuf) (.inl hbuf)
  rw [if_neg hbuf]
  refine Iff.trans ?_ (or_iff_right hbuf).symm
  by_cases hcount : count = 0#64
  · -- no bytes at all
    have halloc : (arenaAlloc (arenaEnsure a count newmem) count).1 = 0#64 := by
      rw [arenaAlloc, if_pos hcount]
    rw [readInto_mem_of_null halloc, exactRead_unchanged_iff, hcount]
    simp [arenaBytes, fetch, addrs]
  · have halloc : (arenaAlloc (arenaEnsure a count newmem) count).1 =
        (arenaEnsure a count newmem).mem + (arenaEnsure a count newmem).allocated := by
      rw [arenaAlloc, if_neg hcount]
    by_cases hval : (arenaEnsure a count newmem).mem + (arenaEnsure a count newmem).allocated = 0#64
    · rw [readInto_mem_of_null (halloc.trans hval), exactRead_unchanged_iff, if_pos hval]
      rfl
    · have hmem : (readInto inside syscallno args a newmem m buf count reply).mem =
          write m ((addrs buf count.toNat).zip
            (arenaBytes inside a newmem m count reply.shown)) := by
        refine (if_pos ⟨fun h => hval (halloc.symm.trans h), hbuf⟩).trans ?_
        rw [cells, length_fetch, halloc]
        rfl
      rw [hmem, exactRead_write_iff (nodup_addrs count.isLt.le), if_neg hval]
      · rfl
      · rw [arenaBytes, length_fetch, length_addrs]

/-- The setting of a `readv` between an enclave and a host that serves it: the arena memory of the
call is the host's and the buffers are the enclave's, and the host leaves the descriptors alone. -/
structure HostArena (inside : BitVec 64 → Bool) (s : ReadvSetup) (iov : List Iovec)
    (shown : Memory) : Prop where
  untampered : Untampered shown s.val2 s.descs
  descs : ∀ x ∈ addrs s.val2 (16 * iov.length), inside x = false
  data : ∀ own ∈ s.descs, ∀ x ∈ own.addrs, inside x = false
  buffers : ∀ x ∈ bufferAddrs iov, inside x = true

def ReadReply.steady (reply : ReadReply) : ReadvReply :=
  ⟨reply.retVal, fun _ => .steady reply.shown⟩

theorem readv_of_hostArena (fd : BitVec 32)
    (harena : HostArena inside (readvSetup a newmem iov) iov reply.shown) :
    (hostSyscallReadv inside a newmem m fd iov reply.steady).rc = some reply.retVal.toInt ∧
    (hostSyscallReadv inside a newmem m fd iov reply.steady).log.iov = iov ∧
    ∀ x, inside x = true → (hostSyscallReadv inside a newmem m fd iov reply.steady).mem x =
      write m
        ((bufferAddrs iov).zip (placedBytes reply.shown (readvSetup a newmem iov).descs)) x := by
  obtain ⟨hiov, hcrashed, hmem⟩ := copyBack_untampered (m := (readvSetup a newmem iov).mem m)
    deepinit_iovLen harena.untampered (fun x hx => harena.descs x (mem_addrs.mpr hx)) harena.data
  refine ⟨?_, hiov, fun x hin => ?_⟩
  · exact if_neg (by rw [ReadReply.steady, hcrashed]; decide)
  · refine (congrFun hmem x).trans (write_congr (ReadvSetup.mem_of_notDesc fun hx => ?_))
    rw [harena.descs x hx] at hin
    cases hin

theorem exactRead_readv_iff {fd : BitVec 32} {r : Int}
    (harena : HostArena inside (readvSetup a newmem iov) iov reply.shown) :
    ExactRead inside m (hostSyscallReadv inside a newmem m fd iov reply.steady).mem
        (bufferAddrs iov) (placedBytes reply.shown (readvSetup a newmem iov).descs) r ↔
      ExactRead inside m (write m ((bufferAddrs iov).zip
          (placedBytes reply.shown (readvSetup a newmem iov).descs)))
        (bufferAddrs iov) (placedBytes reply.shown (readvSetup a newmem iov).descs) r := by
  have hmem := (readv_of_hostArena (m := m) fd harena).2.2
  rw [ExactRead, ExactRead, map_congr_left fun x hx => hmem x (harena.buffers x hx)]
  exact and_congr_right fun _ => forall₂_congr fun x hin => by rw [hmem x hin]

theorem length_placedBytes :
    (placedBytes shown (readvSetup a newmem iov).descs).length = (bufferAddrs iov).length := by
  rw [placedBytes, length_map]
  exact length_bufferAddrs deepinit_iovLen

/-- A read leaves exactly what was read only where the rest of the arena buffer, which is whatever
an earlier call left there, is what the caller's buffer had: all that was asked for is copied. -/
theorem reads_exact_iff (inside : BitVec 64 → Bool) (a : Arena) (newmem : BitVec 64) (m : Memory)
    (fd : BitVec 32) (reply : ReadReply) :
    (∀ buf count, ReadExact inside a newmem m buf count reply
        (hostSyscallRead inside a newmem m fd buf count reply) ↔
      NothingStale inside a newmem m buf count reply) ∧
    (∀ buf count offset, ReadExact inside a newmem m buf count reply
        (hostSyscallPread64 inside a newmem m fd buf count offset reply) ↔
      NothingStale inside a newmem m buf count reply) ∧
    ∀ iov, HostArena inside (readvSetup a newmem iov) iov reply.shown →
      let out := hostSyscallReadv inside a newmem m fd iov reply.steady
      let buf := bufferAddrs iov
      let placed := placedBytes reply.shown (readvSetup a newmem iov).descs
      let n := reply.retVal.toInt.toNat
      out.rc = some reply.retVal.toInt ∧ out.log.iov = iov ∧
      (ExactRead inside m out.mem buf placed reply.retVal.toInt ↔
        ∀ p ∈ buf.zip (placed.take n ++ (buf.map m).drop n), lastPlaced buf placed p.1 = some p.2) ∧
      (buf.Nodup → (ExactRead inside m out.mem buf placed reply.retVal.toInt ↔
        placed.drop n = (buf.map m).drop n)) := by
  refine ⟨fun buf count => readInto_exact_iff, fun buf count offset => readInto_exact_iff, ?_⟩
  intro iov harena
  obtain ⟨hrc, hiov, -⟩ := readv_of_hostArena (m := m) fd harena
  refine ⟨hrc, hiov, ?_, fun hnodup => ?_⟩
  · exact (exactRead_readv_iff harena).trans (exactRead_write_iff_last length_placedBytes)
  · exact (exactRead_readv_iff harena).trans (exactRead_write_iff hnodup length_placedBytes)

theorem oneByte_hostArena :
    HostArena lowInside (readvSetup smallArena 0#64 [⟨256#64, 1#64⟩]) [⟨256#64, 1#64⟩]
      (oneDesc 16#8 32#8) := by
  have hval : (readvSetup smallArena 0#64 [⟨256#64, 1#64⟩]).val2 = 8192#64 := by decide
  have hdescs : (readvSetup smallArena 0#64 [⟨256#64, 1#64⟩]).descs = [⟨8208#64, 1#64⟩] := by decide
  have hall : (addrs 8192#64 17).all (fun x => !lowInside x) = true := by decide +kernel
  have hout {x : BitVec 64} (hx : x ∈ addrs 8192#64 17) : lowInside x = false :=
    (Bool.not_eq_true' _).mp (all_eq_true.mp hall x hx)
  refine ⟨?_, fun x hx => ?_, fun own hown x hx => ?_, fun x hx => ?_⟩
  · rw [hval, hdescs]
    exact ⟨by decide +kernel, by decide +kernel, trivial⟩
  · rw [hval] at hx
    exact hout (addrs_mono (by decide) hx)
  · rw [hdescs, mem_singleton] at hown
    subst hown
    have hx : x ∈ [8208#64] := hx
    rw [mem_singleton.mp hx]
    rfl
  · have hx : x ∈ [256#64] := hx
    rw [mem_singleton.mp hx]
    rfl

/-- A byte that was read, through an untouched descriptor. -/
theorem reads_exact_iff_oneByte :
    HostArena lowInside (readvSetup smallArena 0#64 [⟨256#64, 1#64⟩]) [⟨256#64, 1#64⟩]
      (oneDesc 16#8 32#8) ∧
    ExactRead lowInside secretMem
      (hostSyscallReadv lowInside smallArena 0#64 secretMem 3#32 [⟨256#64, 1#64⟩]
        (ReadReply.steady ⟨1#64, oneDesc 16#8 32#8⟩)).mem (bufferAddrs [⟨256#64, 1#64⟩])
      (placedBytes (oneDesc 16#8 32#8) (readvSetup smallArena 0#64 [⟨256#64, 1#64⟩]).descs)
      (1#64).toInt := by
  have hreads := reads_exact_iff lowInside smallArena 0#64 secretMem 3#32 ⟨1#64, oneDesc 16#8 32#8⟩
  have hnodup : (bufferAddrs [⟨256#64, 1#64⟩]).Nodup := by decide
  refine ⟨oneByte_hostArena, ?_⟩
  exact ((hreads.2.2 _ oneByte_hostArena).2.2.2 hnodup).mpr (by decide +kernel)

def twoBytes : Memory := fun x => if x = 8192#64 then 1#8 else if x = 8193#64 then 2#8 else 0#8

/-- A second read fails with `-EIO`, and the bytes of the first one are copied to its buffer. -/
theorem failed_read_copies_stale :
    let first := hostSyscallRead lowInside smallArena 0#64 (fun _ => 0#8) 3#32 256#64 2#64
      ⟨2#64, twoBytes⟩
    let second := hostSyscallRead lowInside first.arena 0#64 first.mem 4#32 512#64 2#64
      ⟨-5#64, twoBytes⟩
    first.rc = 2 ∧ second.rc = -5 ∧ (addrs 512#64 2).map first.mem = [0#8, 0#8] ∧
    (addrs 512#64 2).map second.mem = [1#8, 2#8] ∧
    ¬ ReadExact lowInside first.arena 0#64 first.mem 512#64 2#64 ⟨-5#64, twoBytes⟩ second := by
  refine ⟨by decide, by decide, by decide, by decide, fun hexact => ?_⟩
  exact absurd (readInto_exact_iff.mp hexact) (by decide)

end Reads

end RktIo.Host
