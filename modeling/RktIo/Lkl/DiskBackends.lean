import RktIo.Lib.Bytes
import RktIo.Lkl.HostIo

/-!
# The two disk back ends (`lkl/disk.c`, `lkl/disk_mem.c`)

A disk image is reached through a file descriptor with `pread64` and `pwrite64`, or through a
mapping with `memcpy`. Both back ends walk over the buffers of a request; here they are followed
with the contents of the image and of the memory.

The loop of `disk.c` moves the offset along with what has been transferred. That of `disk_mem.c`
does not, so each buffer is copied from or to the start of the range. The back ends agree on
requests with one buffer, and on no others (`backends_agree_iff`).

`do_plain_rw` is the function of `HostIo`, without the state word of the calling lthread and with
the contents.
-/

namespace RktIo.Lkl

open Bytes Sched List

/-! ## Contents -/

structure Contents where
  image : Nat → BitVec 8
  mem : Nat → BitVec 8

def RwFn.transfer (fn : RwFn) (addr len off : Nat) (c : Contents) : Contents :=
  match fn with
  | .pread64 => { c with mem := copy len c.image off c.mem addr }
  | .pwrite64 => { c with image := copy len c.mem addr c.image off }

def Iovec.intLen (b : Iovec) : Int := (b.len.setWidth 32).toInt

def LklBlkReq.off (req : LklBlkReq) : Nat := (req.sector * 512).toNat

inductive BlkType where
  | READ | WRITE | FLUSH | FLUSH_OUT | other
  deriving Repr, DecidableEq

inductive BlkStatus where
  | OK | IOERR | UNSUP
  deriving Repr, DecidableEq

/-- A request with its type; `syncRet` is what `msync` or `fdatasync` returns if it is called. -/
structure BlkCall where
  type : BlkType
  req : LklBlkReq
  syncRet : Int := 0
  deriving Repr, DecidableEq

def statusOf (err : Int) : BlkStatus := if err < 0 then .IOERR else .OK

/-! ## The mapping -/

namespace DiskMem

def EINVAL : Int := 22

/-- The loop of `do_read` and `do_write`. The length is passed on as a `size_t`, and no memory has
as many bytes as a negative one stands for. -/
def memcpyLoop (fn : RwFn) (off : Nat) (c : Contents) : List Iovec → Option Contents
  | [] => some c
  | b :: buf =>
    if b.intLen < 0 then none
    else memcpyLoop fn off (fn.transfer b.base.toNat b.intLen.toNat off c) buf

def doRw (fn : RwFn) (disks : List EnclaveDiskConfig) (fd : BitVec 32) (req : LklBlkReq)
    (c : Contents) : Option (Int × Contents) :=
  match getDiskConfig disks fd with
  | none => some (-1, c)
  | some _ => (memcpyLoop fn req.off c req.buf).map (fun c => (0, c))

def doRead := doRw .pread64
def doWrite := doRw .pwrite64

def blkRequest (disks : List EnclaveDiskConfig) (fd : BitVec 32) (c : Contents) (call : BlkCall) :
    Option (BlkStatus × Contents) :=
  match call.type with
  | .READ => (doRead disks fd call.req c).map (fun r => (statusOf r.1, r.2))
  | .WRITE => (doWrite disks fd call.req c).map (fun r => (statusOf r.1, r.2))
  | .FLUSH | .FLUSH_OUT =>
    match getDiskConfig disks fd with
    | some _ => some (statusOf call.syncRet, c)
    | none => some (statusOf (-EINVAL), c)
  | .other => some (.UNSUP, c)

def run (disks : List EnclaveDiskConfig) (fd : BitVec 32) :
    Contents → List BlkCall → Option (List (BlkStatus × Contents))
  | _, [] => some []
  | c, call :: calls => do
    let (status, c) ← blkRequest disks fd c call
    let results ← run disks fd c calls
    return (status, c) :: results

end DiskMem

/-! ## The file descriptor -/

namespace DiskFd

/-- A host that transfers something whenever something is asked for: `count k len` are the bytes
that its call number `k` transfers of `len`. -/
structure Host where
  count : Nat → Nat → Nat
  pos : ∀ k len, 0 < len → 0 < count k len
  le : ∀ k len, count k len ≤ len

def Host.full : Host where
  count _ len := len
  pos _ _ h := h
  le _ _ := le_rfl

/-- How the inner loop of `do_plain_rw` ends, with the number of host calls that have been made:
by the `return`, or with the buffer done and the offset behind it. -/
inductive RwLoop where
  | stopped (calls : Nat) (c : Contents)
  | finished (ret off calls : Nat) (c : Contents)

def rwLoop (host : Host) (fn : RwFn) (calls addr len off : Nat) (c : Contents) : RwLoop :=
  let ret := host.count calls len
  let c := fn.transfer addr ret off c
  if ret = 0 then .stopped (calls + 1) c
  else if 0 < len - ret then rwLoop host fn (calls + 1) (addr + ret) (len - ret) (off + ret) c
  else .finished ret (off + ret) (calls + 1) c
termination_by len

def doPlainRwLoop (host : Host) (fn : RwFn) (calls ret off : Nat) (c : Contents) :
    List Iovec → Option (Int × Nat × Contents)
  | [] => some (ret, calls, c)
  | b :: buf =>
    if b.intLen < 0 then none
    else
      match rwLoop host fn calls b.base.toNat b.intLen.toNat off c with
      | .stopped calls c => some (0, calls, c)
      | .finished ret off calls c => doPlainRwLoop host fn calls ret off c buf

def doPlainRw (host : Host) (fn : RwFn) (calls : Nat) (req : LklBlkReq) (c : Contents) :
    Option (Int × Nat × Contents) :=
  doPlainRwLoop host fn calls 0 req.off c req.buf

def blkRequest (host : Host) (calls : Nat) (c : Contents) (call : BlkCall) :
    Option (BlkStatus × Nat × Contents) :=
  match call.type with
  | .READ => (doPlainRw host .pread64 calls call.req c).map (fun r => (statusOf r.1, r.2))
  | .WRITE => (doPlainRw host .pwrite64 calls call.req c).map (fun r => (statusOf r.1, r.2))
  | .FLUSH | .FLUSH_OUT => some (statusOf call.syncRet, calls, c)
  | .other => some (.UNSUP, calls, c)

def run (host : Host) : Nat → Contents → List BlkCall → Option (List (BlkStatus × Contents))
  | _, _, [] => some []
  | calls, c, call :: rest => do
    let (status, calls, c) ← blkRequest host calls c call
    let results ← run host calls c rest
    return (status, c) :: results

end DiskFd

/-! ## The loops in closed form -/

variable {fn : RwFn} {c : Contents} {buf : List Iovec} {b : Iovec} {addr off len calls : Nat}

theorem transfer_transfer (fn : RwFn) (addr n m off : Nat) (c : Contents) :
    fn.transfer (addr + n) m (off + n) (fn.transfer addr n off c)
      = fn.transfer addr (n + m) off c := by
  cases fn <;> simp [RwFn.transfer, copy_copy]

def scatter (fn : RwFn) : Nat → Contents → List Iovec → Contents
  | _, c, [] => c
  | off, c, b :: buf =>
    scatter fn (off + b.intLen.toNat) (fn.transfer b.base.toNat b.intLen.toNat off c) buf

def overlay (fn : RwFn) (off : Nat) (c : Contents) (buf : List Iovec) : Contents :=
  buf.foldl (fun c b => fn.transfer b.base.toNat b.intLen.toNat off c) c

theorem memcpyLoop_eq (hbuf : ∀ b ∈ buf, 0 ≤ b.intLen) :
    DiskMem.memcpyLoop fn off c buf = some (overlay fn off c buf) := by
  induction buf generalizing c with
  | nil => rfl
  | cons b buf ih =>
    have hb : ¬ b.intLen < 0 := not_lt.mpr (hbuf b mem_cons_self)
    rw [DiskMem.memcpyLoop, if_neg hb, ih (fun b' hb' => hbuf b' (mem_cons_of_mem _ hb'))]
    rfl

theorem memcpyLoop_neg (hb : b ∈ buf) (hneg : b.intLen < 0) :
    DiskMem.memcpyLoop fn off c buf = none := by
  induction buf generalizing c with
  | nil => cases hb
  | cons b' buf ih =>
    unfold DiskMem.memcpyLoop
    split_ifs with hb'
    · rfl
    · rcases mem_cons.mp hb with rfl | hb
      · exact absurd hneg hb'
      · exact ih hb

theorem rwLoop_eq (host : DiskFd.Host) (fn : RwFn) (calls addr off : Nat) (c : Contents)
    (hlen : 0 < len) :
    ∃ ret calls', DiskFd.rwLoop host fn calls addr len off c
      = .finished ret (off + len) calls' (fn.transfer addr len off c) := by
  induction len using Nat.strongRecOn generalizing calls addr off c with
  | ind len ih =>
    have hpos := host.pos calls len hlen
    have hle := host.le calls len
    unfold DiskFd.rwLoop
    simp only [if_neg hpos.ne']
    by_cases hmore : 0 < len - host.count calls len
    · rw [if_pos hmore]
      obtain ⟨ret, calls', hrest⟩ := ih (len - host.count calls len) (by omega) _ _ _ _ hmore
      refine ⟨ret, calls', ?_⟩
      rw [hrest, transfer_transfer, Nat.add_sub_cancel' hle]
      rw [show off + host.count calls len + (len - host.count calls len) = off + len by omega]
    · rw [if_neg hmore, show host.count calls len = len by omega]
      exact ⟨_, _, rfl⟩

theorem doPlainRwLoop_eq (host : DiskFd.Host) {ret : Nat} (hbuf : ∀ b ∈ buf, 0 < b.intLen) :
    ∃ ret' calls' : Nat, DiskFd.doPlainRwLoop host fn calls ret off c buf
      = some ((ret' : Int), calls', scatter fn off c buf) := by
  induction buf generalizing calls ret off c with
  | nil => exact ⟨ret, calls, rfl⟩
  | cons b buf ih =>
    have hb := hbuf b mem_cons_self
    have hlen : 0 < b.intLen.toNat := by omega
    obtain ⟨ret₁, calls₁, hloop⟩ := rwLoop_eq host fn calls b.base.toNat off c hlen
    unfold DiskFd.doPlainRwLoop
    rw [if_neg (by omega), hloop]
    exact ih (fun b' hb' => hbuf b' (mem_cons_of_mem _ hb'))

/-! ## What the closed forms leave -/

theorem scatter_pread_image : (scatter .pread64 off c buf).image = c.image := by
  induction buf generalizing off c with
  | nil => rfl
  | cons b buf ih => exact ih

theorem scatter_pwrite_mem : (scatter .pwrite64 off c buf).mem = c.mem := by
  induction buf generalizing off c with
  | nil => rfl
  | cons b buf ih => exact ih

theorem overlay_pread_image : (overlay .pread64 off c buf).image = c.image := by
  induction buf generalizing c with
  | nil => rfl
  | cons b buf ih => exact ih

theorem overlay_pwrite_behind {x : Nat} (hx : ∀ b ∈ buf, off + b.intLen.toNat ≤ x) :
    (overlay .pwrite64 off c buf).image x = c.image x := by
  induction buf generalizing c with
  | nil => rfl
  | cons b buf ih =>
    have hb := hx b mem_cons_self
    refine (ih (fun b' hb' => hx b' (mem_cons_of_mem _ hb'))).trans ?_
    exact copy_of_notMem (by omega)

def total (buf : List Iovec) : Nat := (buf.map (fun b => b.intLen.toNat)).sum

theorem scatter_concat (fn : RwFn) (off : Nat) (c : Contents) (buf : List Iovec) (b : Iovec) :
    scatter fn off c (buf ++ [b])
      = fn.transfer b.base.toNat b.intLen.toNat (off + total buf) (scatter fn off c buf) := by
  induction buf generalizing off c with
  | nil => rfl
  | cons b' buf ih =>
    rw [cons_append, scatter, ih, scatter]
    simp [total, Nat.add_assoc]

theorem overlay_concat (fn : RwFn) (off : Nat) (c : Contents) (buf : List Iovec) (b : Iovec) :
    overlay fn off c (buf ++ [b])
      = fn.transfer b.base.toNat b.intLen.toNat off (overlay fn off c buf) := by
  simp [overlay]

theorem le_total (hb : b ∈ buf) : b.intLen.toNat ≤ total buf :=
  le_sum_of_mem (mem_map_of_mem hb)

/-- **More than one buffer makes a difference.** The last byte of the last buffer is read from
elsewhere, or written nowhere else. -/
theorem exists_scatter_ne_overlay (fn : RwFn) (off : Nat) (hbuf : ∀ b ∈ buf, 0 < b.intLen)
    (hlen : 1 < buf.length) : ∃ c, scatter fn off c buf ≠ overlay fn off c buf := by
  have hne : buf ≠ [] := by
    rintro rfl
    simp at hlen
  obtain ⟨init, last, rfl⟩ : ∃ init last, buf = init ++ [last] :=
    ⟨_, _, (dropLast_append_getLast hne).symm⟩
  have hlast : 0 < last.intLen := hbuf last (by simp)
  obtain ⟨first, hfirst⟩ : ∃ first, first ∈ init := by
    apply exists_mem_of_length_pos
    simpa using hlen
  have hpos : 0 < total init := by
    have := le_total hfirst
    have := hbuf first (mem_append_left _ hfirst)
    omega
  cases fn with
  | pread64 =>
    refine ⟨⟨fun x => if x = off + (last.intLen.toNat - 1) then 1 else 0, fun _ => 0⟩, ?_⟩
    intro heq
    rw [scatter_concat, overlay_concat] at heq
    have hbyte := congrFun (congrArg Contents.mem heq) (last.base.toNat + (last.intLen.toNat - 1))
    simp only [RwFn.transfer] at hbyte
    rw [copy_of_mem (by omega), copy_of_mem (by omega), scatter_pread_image,
      overlay_pread_image, Nat.add_sub_cancel_left] at hbyte
    dsimp only at hbyte
    rw [if_neg (by omega), if_pos rfl] at hbyte
    exact absurd hbyte (by decide)
  | pwrite64 =>
    refine ⟨⟨fun _ => 0, fun _ => 1⟩, ?_⟩
    intro heq
    have hbyte := congrFun (congrArg Contents.image heq)
      (off + total init + (last.intLen.toNat - 1))
    rw [overlay_pwrite_behind, scatter_concat] at hbyte
    · simp only [RwFn.transfer] at hbyte
      rw [copy_of_mem (by omega), scatter_pwrite_mem] at hbyte
      dsimp only at hbyte
      exact absurd hbyte (by decide)
    · intro b hb
      rcases mem_append.mp hb with hb | hb
      · have := le_total hb
        omega
      · obtain rfl := mem_singleton.mp hb
        omega

/-! ## The host calls of `do_plain_rw` -/

def transferred (n : Nat) : HostAnswer where
  retVal := BitVec.ofNat 64 n

theorem ret_transferred (n : Nat) : (transferred n).ret = BitVec.ofNat 32 n := by
  simp [transferred, HostAnswer.ret]

theorem toInt_ofNat_of_lt {n : Nat} (h : n < 2 ^ 31) : (BitVec.ofNat 32 n).toInt = n := by
  rw [BitVec.toInt_eq_toNat_of_lt]
  · rw [BitVec.toNat_ofNat, Nat.mod_eq_of_lt (by omega)]
  · rw [BitVec.toNat_ofNat, Nat.mod_eq_of_lt (by omega)]
    omega

theorem signExtend_ofNat_of_lt {n : Nat} (h : n < 2 ^ 31) :
    (BitVec.ofNat 32 n).signExtend 64 = BitVec.ofNat 64 n := by
  rw [BitVec.signExtend, toInt_ofNat_of_lt h]
  rfl

theorem rwLoop_transferred {alwaysSync : Bool} {fd : BitVec 32} {env : HostEnv} {n : Nat}
    (rest : List HostAnswer) (hlive : LtState.test env.state .cancelled = false) (hpos : 0 < n)
    (hle : n ≤ len) (hint : len < 2 ^ 31) :
    rwLoop alwaysSync fn fd (BitVec.ofNat 64 addr) (BitVec.ofNat 32 len) (BitVec.ofNat 64 off) env
        (transferred n :: rest)
      = if 0 < len - n then
          rwLoop alwaysSync fn fd (BitVec.ofNat 64 (addr + n)) (BitVec.ofNat 32 (len - n))
            (BitVec.ofNat 64 (off + n))
            { env with calls := env.calls
              ++ [.rw fn fd (BitVec.ofNat 64 addr) (BitVec.ofNat 32 len) (BitVec.ofNat 64 off)] }
            rest
        else
          some (.finished (BitVec.ofNat 32 n) (BitVec.ofNat 64 (off + n)),
            { env with calls := env.calls
              ++ [.rw fn fd (BitVec.ofNat 64 addr) (BitVec.ofNat 32 len) (BitVec.ofNat 64 off)] },
            rest) := by
  have hcall : ∀ call, env.hostCall alwaysSync call (transferred n)
      = some { env with calls := env.calls ++ [call] } := by
    intro call
    simp [HostEnv.hostCall, transferred, hlive]
  have hsub : BitVec.ofNat 32 len - BitVec.ofNat 32 n = BitVec.ofNat 32 (len - n) :=
    BitVec.ofNat_sub_ofNat_of_le len n (by omega) hle
  have hret : ¬ (BitVec.ofNat 32 n).toInt ≤ 0 := by
    rw [toInt_ofNat_of_lt (by omega)]
    omega
  have hmore : 0 < (BitVec.ofNat 32 (len - n)).toInt ↔ 0 < len - n := by
    rw [toInt_ofNat_of_lt (by omega)]
    omega
  rw [rwLoop, hcall]
  simp only [ret_transferred, hsub, signExtend_ofNat_of_lt (lt_of_le_of_lt hle hint), hmore,
    ← BitVec.ofNat_add, Option.bind_eq_bind, Option.bind_some, if_neg hret]
  rfl

theorem pin_cancelled (env : HostEnv) (waitOnIo : Bool) :
    LtState.test (env.pin waitOnIo).state .cancelled = LtState.test env.state .cancelled := by
  cases waitOnIo <;> simp [HostEnv.pin]

theorem pin_calls (env : HostEnv) (waitOnIo : Bool) : (env.pin waitOnIo).calls = env.calls := by
  cases waitOnIo <;> rfl

theorem pin_stderr (env : HostEnv) (waitOnIo : Bool) : (env.pin waitOnIo).stderr = env.stderr := by
  cases waitOnIo <;> rfl

/-! ## Agreement -/

def BlkType.fn? : BlkType → Option RwFn
  | .READ => some .pread64
  | .WRITE => some .pwrite64
  | _ => none

variable {disks : List EnclaveDiskConfig} {fd : BitVec 32} {call : BlkCall}

section

variable (hconf : (getDiskConfig disks fd).isSome = true) (hfn : call.type.fn? = some fn)

include hconf hfn

theorem memRequest_eq :
    DiskMem.blkRequest disks fd c call
      = (DiskMem.memcpyLoop fn call.req.off c call.req.buf).map (fun c => (.OK, c)) := by
  obtain ⟨config, hconf⟩ := Option.isSome_iff_exists.mp hconf
  unfold DiskMem.blkRequest
  cases htype : call.type <;> rw [htype] at hfn <;> cases hfn <;>
    simp [DiskMem.doRead, DiskMem.doWrite, DiskMem.doRw, hconf, statusOf, Function.comp_def]

theorem memRequest_overlay (hbuf : ∀ b ∈ call.req.buf, 0 ≤ b.intLen) :
    DiskMem.blkRequest disks fd c call = some (.OK, overlay fn call.req.off c call.req.buf) := by
  rw [memRequest_eq hconf hfn, memcpyLoop_eq hbuf]
  rfl

end

theorem fdRequest_eq (host : DiskFd.Host) (calls : Nat) (c : Contents)
    (hfn : call.type.fn? = some fn) (hbuf : ∀ b ∈ call.req.buf, 0 < b.intLen) :
    ∃ calls', DiskFd.blkRequest host calls c call
      = some (.OK, calls', scatter fn call.req.off c call.req.buf) := by
  obtain ⟨ret, calls', hloop⟩ := @doPlainRwLoop_eq fn c call.req.buf call.req.off calls host 0 hbuf
  refine ⟨calls', ?_⟩
  unfold DiskFd.blkRequest
  cases htype : call.type <;> rw [htype] at hfn <;> cases hfn <;>
    simp [DiskFd.doPlainRw, hloop, statusOf]

/-- A request that moves data between the image, which has `size` bytes, and buffers that are not
empty. -/
structure BlkCall.InImage (size : Nat) (call : BlkCall) : Prop where
  moves : call.type.fn?.isSome = true
  nonempty : ∀ b ∈ call.req.buf, b.len ≠ 0
  inside : call.req.off + (call.req.buf.map (fun b => b.len.toNat)).sum ≤ size

/-- The host is never asked for zero bytes, of which it could not transfer a positive number. The
length that it is asked for is an `int`, and that of a buffer of 4 GiB is zero. -/
def BlkCall.AsksForBytes (call : BlkCall) : Prop := ∀ b ∈ call.req.buf, b.intLen ≠ 0

def BlkCall.OneBuffer (call : BlkCall) : Prop :=
  call.req.buf.length ≤ 1 ∧ ∀ b ∈ call.req.buf, 0 < b.intLen

def BackendsAgree (disks : List EnclaveDiskConfig) (fd : BitVec 32) (host : DiskFd.Host)
    (c : Contents) (reqs : List BlkCall) : Prop :=
  ∃ results, DiskMem.run disks fd c reqs = some results ∧ DiskFd.run host 0 c reqs = some results

theorem scatter_eq_overlay (h : buf.length ≤ 1) : scatter fn off c buf = overlay fn off c buf := by
  cases buf with
  | nil => rfl
  | cons b buf =>
    cases buf with
    | nil => rfl
    | cons b' buf => simp at h

section

variable (hconf : (getDiskConfig disks fd).isSome = true) (host : DiskFd.Host)

include hconf host

theorem request_agree (calls : Nat) (c : Contents) (hmoves : call.type.fn?.isSome = true)
    (hone : call.OneBuffer) :
    ∃ calls' c', DiskMem.blkRequest disks fd c call = some (.OK, c')
      ∧ DiskFd.blkRequest host calls c call = some (.OK, calls', c') := by
  obtain ⟨fn, hfn⟩ := Option.isSome_iff_exists.mp hmoves
  obtain ⟨hlen, hbuf⟩ := hone
  obtain ⟨calls', hfd⟩ := fdRequest_eq host calls c hfn hbuf
  refine ⟨calls', _, ?_, hfd⟩
  rw [memRequest_overlay hconf hfn (fun b hb => (hbuf b hb).le), scatter_eq_overlay hlen]

theorem run_agree {reqs : List BlkCall} (hmoves : ∀ call ∈ reqs, call.type.fn?.isSome = true)
    (hone : ∀ call ∈ reqs, call.OneBuffer) (calls : Nat) (c : Contents) :
    ∃ results, DiskMem.run disks fd c reqs = some results
      ∧ DiskFd.run host calls c reqs = some results := by
  induction reqs generalizing calls c with
  | nil => exact ⟨[], rfl, rfl⟩
  | cons call reqs ih =>
    obtain ⟨calls', c', hmem, hfd⟩ := request_agree hconf host calls c
      (hmoves call mem_cons_self) (hone call mem_cons_self)
    obtain ⟨results, hmem', hfd'⟩ := ih
      (fun call hcall => hmoves call (mem_cons_of_mem _ hcall))
      (fun call hcall => hone call (mem_cons_of_mem _ hcall)) calls' c'
    refine ⟨(.OK, c') :: results, ?_, ?_⟩
    · simp [DiskMem.run, hmem, hmem']
    · simp [DiskFd.run, hfd, hfd']

theorem oneBuffer_of_agree (hmoves : call.type.fn?.isSome = true) (hasks : call.AsksForBytes)
    (hagree : ∀ c, BackendsAgree disks fd host c [call]) : call.OneBuffer := by
  obtain ⟨fn, hfn⟩ := Option.isSome_iff_exists.mp hmoves
  have hbuf : ∀ b ∈ call.req.buf, 0 < b.intLen := by
    intro b hb
    by_contra hle
    have hneg : b.intLen < 0 := lt_of_le_of_ne (not_lt.mp hle) (hasks b hb)
    obtain ⟨results, hmem, -⟩ := hagree ⟨fun _ => 0, fun _ => 0⟩
    simp [DiskMem.run, memRequest_eq hconf hfn, memcpyLoop_neg hb hneg] at hmem
  refine ⟨?_, hbuf⟩
  by_contra hlen
  obtain ⟨c, hne⟩ := exists_scatter_ne_overlay fn call.req.off hbuf (not_le.mp hlen)
  obtain ⟨results, hmem, hfd⟩ := hagree c
  obtain ⟨calls', hscatter⟩ := fdRequest_eq host 0 c hfn hbuf
  have hoverlay := memRequest_overlay (c := c) hconf hfn (fun b hb => (hbuf b hb).le)
  simp only [DiskMem.run, hoverlay] at hmem
  simp only [DiskFd.run, hscatter] at hfd
  exact hne (by simpa using hfd.trans hmem.symm)

end

/-- **The back ends agree on a class of requests exactly if each of them has one buffer.** -/
theorem backends_agree_iff (disks : List EnclaveDiskConfig) (fd : BitVec 32) (size : Nat)
    (allowed : BlkCall → Prop) (hconf : (getDiskConfig disks fd).isSome = true)
    (hin : ∀ call, allowed call → call.InImage size)
    (hasks : ∀ call, allowed call → call.AsksForBytes) :
    (∀ host c reqs, (∀ call ∈ reqs, allowed call) → BackendsAgree disks fd host c reqs)
      ↔ ∀ call, allowed call → call.OneBuffer := by
  constructor
  · intro hagree call hcall
    refine oneBuffer_of_agree hconf .full (hin call hcall).moves (hasks call hcall)
      fun c => hagree .full c [call] ?_
    simpa using hcall
  · intro hone host c reqs hreqs
    exact run_agree hconf host (fun call hcall => (hin call (hreqs call hcall)).moves)
      (fun call hcall => hone call (hreqs call hcall)) 0 c

def readAt (addrs : List (BitVec 64)) : BlkCall where
  type := .READ
  req := ⟨0, addrs.map (fun base => ⟨base, 512⟩)⟩

theorem backends_agree_iff_read :
    (getDiskConfig [⟨3, false⟩] 3).isSome = true ∧ (readAt [0x1000]).InImage 1024
      ∧ (readAt [0x1000]).AsksForBytes
      ∧ ∀ host c reqs, (∀ call ∈ reqs, call = readAt [0x1000]) →
        BackendsAgree [⟨3, false⟩] 3 host c reqs := by
  have hin : (readAt [0x1000]).InImage 1024 := ⟨by decide, by decide, by decide⟩
  have hasks : (readAt [0x1000]).AsksForBytes := by
    unfold BlkCall.AsksForBytes
    decide
  refine ⟨by decide, hin, hasks, ?_⟩
  refine (backends_agree_iff [⟨3, false⟩] 3 1024 (· = readAt [0x1000]) (by decide) ?_ ?_).mpr ?_
  · rintro call rfl
    exact hin
  · rintro call rfl
    exact hasks
  · rintro call rfl
    exact ⟨by decide, by decide⟩

def numbered : Contents where
  image x := BitVec.ofNat 8 (x / 512)
  mem _ := 0

/-- The second buffer is to hold sector 1, and the mapping puts sector 0 into it. -/
theorem second_buffer_differs :
    (readAt [0x1000, 0x2000]).InImage 1024
      ∧ (∃ c₁ c₂, DiskMem.run [⟨3, false⟩] 3 numbered [readAt [0x1000, 0x2000]] = some [(.OK, c₁)]
        ∧ DiskFd.run .full 0 numbered [readAt [0x1000, 0x2000]] = some [(.OK, c₂)]
        ∧ c₁.mem 0x2000 = 0 ∧ c₂.mem 0x2000 = 1)
      ∧ ¬ BackendsAgree [⟨3, false⟩] 3 .full numbered [readAt [0x1000, 0x2000]] := by
  obtain ⟨c₁, c₂, hmem, hfd, h₁, h₂⟩ : ∃ c₁ c₂,
      DiskMem.run [⟨3, false⟩] 3 numbered [readAt [0x1000, 0x2000]] = some [(.OK, c₁)]
        ∧ DiskFd.run .full 0 numbered [readAt [0x1000, 0x2000]] = some [(.OK, c₂)]
        ∧ c₁.mem 0x2000 = 0 ∧ c₂.mem 0x2000 = 1 := by
    obtain ⟨calls, hscatter⟩ := @fdRequest_eq .pread64 (readAt [0x1000, 0x2000]) .full 0 numbered
      rfl (by decide)
    have hoverlay := @memRequest_overlay .pread64 numbered [⟨3, false⟩] 3
      (readAt [0x1000, 0x2000]) rfl rfl (by decide)
    refine ⟨overlay .pread64 0 numbered (readAt [0x1000, 0x2000]).req.buf,
      scatter .pread64 0 numbered (readAt [0x1000, 0x2000]).req.buf, ?_, ?_, rfl, rfl⟩
    · rw [DiskMem.run, hoverlay]
      rfl
    · rw [DiskFd.run, hscatter]
      rfl
  refine ⟨⟨by decide, by decide, by decide⟩, ⟨c₁, c₂, hmem, hfd, h₁, h₂⟩, ?_⟩
  rintro ⟨results, hmem', hfd'⟩
  have heq : c₁ = c₂ := by
    have hresults := (hmem.symm.trans hmem').trans (hfd'.symm.trans hfd)
    simpa using hresults
  rw [heq, h₂] at h₁
  exact absurd h₁ (by decide)

end RktIo.Lkl
