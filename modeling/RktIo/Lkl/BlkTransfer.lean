import RktIo.Lkl.DiskBackends

/-!
# What the status of a block request says (`lkl/disk.c`)

`do_plain_rw` calls the host until a buffer is done, from the address and the offset that the
results so far have come to. It returns the first result that is not positive, and `blk_request`
looks at its sign. A result of 0, at the end of a truncated image for example, therefore ends the
request early and counts as success.
-/

namespace RktIo.Lkl

open Sched BitVec

def blkRequest (alwaysSync : Bool) (disks : List EnclaveDiskConfig) (fd : BitVec 32)
    (call : BlkCall) (env : HostEnv) (script : List HostAnswer) : Option (Returned BlkStatus) :=
  match call.type with
  | .READ => (doPlainRw alwaysSync disks .pread64 fd call.req env script).map
      (fun r => (statusOf r.1.toInt, r.2))
  | .WRITE => (doPlainRw alwaysSync disks .pwrite64 fd call.req env script).map
      (fun r => (statusOf r.1.toInt, r.2))
  | .FLUSH | .FLUSH_OUT => some (statusOf call.syncRet, env, script)
  | .other => some (.UNSUP, env, script)

variable {alwaysSync : Bool} {env : HostEnv}

theorem blkRequest_rw {disks : List EnclaveDiskConfig} {fd : BitVec 32} {call : BlkCall}
    {script : List HostAnswer} {fn : RwFn} (htype : call.type.fn? = some fn) :
    blkRequest alwaysSync disks fd call env script =
      (doPlainRw alwaysSync disks fn fd call.req env script).map
        (fun r => (statusOf r.1.toInt, r.2)) := by
  rw [blkRequest]
  cases hcall : call.type <;> rw [hcall] at htype <;> cases htype <;> rfl

/-! ## Bytes on their way -/

/-- A byte that a host call moves: in which direction, on which descriptor, from or to which
address, and at which offset of the disk. -/
structure Moved where
  fn : RwFn
  fd : BitVec 32
  addr : BitVec 64
  off : BitVec 64
  deriving DecidableEq

def segment (fn : RwFn) (fd : BitVec 32) (addr off : BitVec 64) (n : Nat) : List Moved :=
  (List.range n).map fun j => ⟨fn, fd, addr + BitVec.ofNat 64 j, off + BitVec.ofNat 64 j⟩

def HostSyscall.moves : HostSyscall → Int → List Moved
  | .rw fn fd addr _ off, v => segment fn fd addr off v.toNat
  | _, _ => []

def movedBy (calls : List HostSyscall) (results : List Int) : List Moved :=
  (List.zipWith HostSyscall.moves calls results).flatten

def wanted (fn : RwFn) (fd : BitVec 32) (off : BitVec 64) : List Iovec → List Moved
  | [] => []
  | b :: buf => segment fn fd b.base off b.len.toNat ++ wanted fn fd (off + b.len) buf

def result (v : Int) : HostAnswer where
  retVal := BitVec.ofInt 64 v

/-- Each result is an error, 0, or a count up to what the call asks for. `lens` are the lengths of
the buffers, the first as far as it is left. -/
def ResultsFit : List Nat → List Int → Prop
  | [], _ => True
  | _, [] => True
  | len :: lens, v :: results =>
    -4095 ≤ v ∧ v ≤ len ∧
      (0 < v → ResultsFit (if v.toNat < len then (len - v.toNat) :: lens else lens) results)

def ZeroBeforeEnd : Nat → List Int → Prop
  | _, [] => False
  | n, v :: results => 0 < n ∧ (v = 0 ∨ 0 < v ∧ ZeroBeforeEnd (n - v.toNat) results)

def Enough : Nat → List Int → Prop
  | n, [] => n = 0
  | n, v :: results => n = 0 ∨ v ≤ 0 ∨ Enough (n - v.toNat) results

def byteCount (buf : List Iovec) : Nat := (buf.map fun b => b.len.toNat).sum

def OkMeansTransferred (alwaysSync : Bool) (disks : List EnclaveDiskConfig) (fd : BitVec 32)
    (call : BlkCall) (fn : RwFn) (env : HostEnv) (results : List Int) : Prop :=
  ∃ status env' rest, blkRequest alwaysSync disks fd call env (results.map result) =
      some (status, env', rest) ∧
    (let moved := movedBy (env'.calls.drop env.calls.length) results
    let all := wanted fn fd (call.req.sector * 512) call.req.buf
    (status = .OK ↔ moved = all) ∧ (status = .IOERR ↔ moved ≠ all))

section

variable {fn : RwFn} {fd : BitVec 32} {addr off : BitVec 64} {n m k : Nat} {v : Int}
  {lens : List Nat} {results used rest : List Int} {made made' : List HostSyscall} {buf : List Iovec}

@[simp] theorem length_segment : (segment fn fd addr off n).length = n := by
  simp [segment]

theorem segment_add : segment fn fd addr off (n + m) = segment fn fd addr off n ++
    segment fn fd (addr + BitVec.ofNat 64 n) (off + BitVec.ofNat 64 n) m := by
  simp [segment, List.range_add, add_assoc, ofNat_add, Function.comp_def]

theorem length_wanted : (wanted fn fd off buf).length = byteCount buf := by
  induction buf generalizing off with
  | nil => rfl
  | cons b buf ih => simp [wanted, byteCount, ih]

theorem movedBy_cons {call : HostSyscall} :
    movedBy (call :: made) (v :: used) = call.moves v ++ movedBy made used := rfl

theorem movedBy_append (hlen : made.length = used.length) :
    movedBy (made ++ made') (used ++ rest) = movedBy made used ++ movedBy made' rest := by
  rw [movedBy, List.zipWith_append hlen, List.flatten_append]
  rfl

theorem movedBy_used (hlen : made.length = used.length) :
    movedBy made (used ++ rest) = movedBy made used := by
  have h : movedBy (made ++ []) (used ++ rest) = movedBy made used ++ [] := movedBy_append hlen
  rwa [List.append_nil, List.append_nil] at h

theorem ret_result_of_nonneg (hv : 0 ≤ v) : result v = transferred v.toNat := by
  obtain ⟨n, rfl⟩ := Int.eq_ofNat_of_zero_le hv
  simp [result, transferred, ofInt_natCast]

theorem toInt_ret_result (hlow : -4095 ≤ v) (hhigh : v ≤ 0) : (result v).ret.toInt = v := by
  rw [HostAnswer.ret, result, toInt_setWidth, toNat_ofInt]
  have hmod : ((v % ((2 ^ 64 : Nat) : Int)).toNat : Int) = v % 2 ^ 64 := by omega
  rw [hmod, Int.bmod_def]
  omega

/-! ## The inner loop -/

/-- How the inner loop ends on a buffer of `n` bytes, with `m` bytes behind it: `made` are its calls
and `used` their results. The buffer is done, or a result that is not positive has come before. -/
inductive LoopEnd (fn : RwFn) (fd : BitVec 32) (addr off : BitVec 64) (n m : Nat) (lens : List Nat)
    (results : List Int) (made : List HostSyscall) (used rest : List Int) : RwLoop → Prop where
  | finished {ret : BitVec 32} (pos : 0 < ret.toInt)
      (moved : movedBy made used = segment fn fd addr off n) (fits : ResultsFit lens rest)
      (enough : Enough m rest) (zero : ZeroBeforeEnd (n + m) results ↔ ZeroBeforeEnd m rest) :
      LoopEnd fn fd addr off n m lens results made used rest
        (.finished ret (off + BitVec.ofNat 64 n))
  | stopped {ret : BitVec 32} {k : Nat} (nonpos : ret.toInt ≤ 0) (short : k < n)
      (moved : movedBy made used = segment fn fd addr off k)
      (zero : ZeroBeforeEnd (n + m) results ↔ ret.toInt = 0) :
      LoopEnd fn fd addr off n m lens results made used rest (.stopped ret)

theorem LoopEnd.round {res : RwLoop} {len : BitVec 32} (hmore : v.toNat < n)
    (hzero : ZeroBeforeEnd (n + m) (v :: results) ↔ ZeroBeforeEnd (n - v.toNat + m) results)
    (hend : LoopEnd fn fd (addr + BitVec.ofNat 64 v.toNat) (off + BitVec.ofNat 64 v.toNat)
      (n - v.toNat) m lens results made used rest res) :
    LoopEnd fn fd addr off n m lens (v :: results) (.rw fn fd addr len off :: made) (v :: used)
      rest res := by
  have hsum : n = v.toNat + (n - v.toNat) := by omega
  cases hend with
  | finished pos moved fits enough zero =>
    have hoff : off + BitVec.ofNat 64 v.toNat + BitVec.ofNat 64 (n - v.toNat) =
        off + BitVec.ofNat 64 n := by
      rw [add_assoc, ← ofNat_add, ← hsum]
    rw [hoff]
    refine .finished pos ?_ fits enough (hzero.trans zero)
    rw [movedBy_cons, moved, HostSyscall.moves, ← segment_add, ← hsum]
  | @stopped ret k nonpos short moved zero =>
    refine .stopped (k := v.toNat + k) nonpos (by omega) ?_ (hzero.trans zero)
    rw [movedBy_cons, moved, HostSyscall.moves, ← segment_add]

section

variable (script : List HostAnswer) (hlive : LtState.test env.state .cancelled = false)

include script hlive

theorem rwLoop_nonpos {len : BitVec 32} (hlow : -4095 ≤ v) (hv : v ≤ 0) :
    rwLoop alwaysSync fn fd addr len off env (result v :: script) =
      some (.stopped (result v).ret,
        { env with calls := env.calls ++ [.rw fn fd addr len off] }, script) := by
  have hcall : env.hostCall alwaysSync (.rw fn fd addr len off) (result v)
      = some { env with calls := env.calls ++ [.rw fn fd addr len off] } := by
    simp [HostEnv.hostCall, result, hlive]
  have hret : (result v).ret.toInt ≤ 0 := by rwa [toInt_ret_result hlow hv]
  rw [rwLoop, hcall]
  simp only [Option.bind_eq_bind, Option.bind_some, if_pos hret]
  rfl

theorem rwLoop_pos (hv : 0 < v) (hle : v ≤ n) (hint : n < 2 ^ 31) :
    rwLoop alwaysSync fn fd addr (BitVec.ofNat 32 n) off env (result v :: script) =
      let env' := { env with calls := env.calls ++ [.rw fn fd addr (BitVec.ofNat 32 n) off] }
      let off' := off + BitVec.ofNat 64 v.toNat
      if v.toNat < n then
        rwLoop alwaysSync fn fd (addr + BitVec.ofNat 64 v.toNat) (BitVec.ofNat 32 (n - v.toNat))
          off' env' script
      else some (.finished (BitVec.ofNat 32 v.toNat) off', env', script) := by
  have h := @rwLoop_transferred fn addr.toNat off.toNat n alwaysSync fd env v.toNat script hlive
    (by omega) (by omega) hint
  simp only [ofNat_add, ofNat_toNat, setWidth_eq, Nat.sub_pos_iff_lt] at h
  rw [ret_result_of_nonneg hv.le]
  exact h

end

theorem rwLoop_end (alwaysSync : Bool) (fn : RwFn) (fd : BitVec 32) (addr off : BitVec 64)
    (env : HostEnv) (hlive : LtState.test env.state .cancelled = false) (hpos : 0 < n)
    (hint : n < 2 ^ 31) (hfit : ResultsFit (n :: lens) results) (henough : Enough (n + m) results) :
    ∃ res made used rest, rwLoop alwaysSync fn fd addr (BitVec.ofNat 32 n) off env
        (results.map result) = some (res, { env with calls := env.calls ++ made },
          rest.map result) ∧
      results = used ++ rest ∧ made.length = used.length ∧
      LoopEnd fn fd addr off n m lens results made used rest res := by
  induction results generalizing addr off n env with
  | nil =>
    -- the results do not run out before the buffer is done
    rw [Enough] at henough
    omega
  | cons v results ih =>
    obtain ⟨hlow, hhigh, hrest⟩ := hfit
    rw [List.map_cons]
    rcases Int.lt_or_le 0 v with hv | hv
    · rw [rwLoop_pos _ hlive hv hhigh hint]
      have hv' := hrest hv
      have hsub : n + m - v.toNat = n - v.toNat + m := by omega
      have hleft : Enough (n - v.toNat + m) results := by
        rw [Enough, hsub] at henough
        exact (henough.resolve_left (by omega)).resolve_left (by omega)
      have hzero : ZeroBeforeEnd (n + m) (v :: results) ↔
          ZeroBeforeEnd (n - v.toNat + m) results := by
        rw [ZeroBeforeEnd, hsub]
        constructor
        · exact fun h => (h.2.resolve_left hv.ne').2
        · exact fun h => ⟨by omega, .inr ⟨hv, h⟩⟩
      by_cases hmore : v.toNat < n
      · -- another round, from behind the bytes that have been moved
        rw [if_pos hmore] at hv'
        dsimp only
        rw [if_pos hmore]
        obtain ⟨res, made, used, rest, hloop, hsplit, hlen, hend⟩ := ih
          (addr + BitVec.ofNat 64 v.toNat) (off + BitVec.ofNat 64 v.toNat)
          { env with calls := env.calls ++ [.rw fn fd addr (BitVec.ofNat 32 n) off] } hlive
          (Nat.sub_pos_of_lt hmore) (by omega) hv' hleft
        refine ⟨res, .rw fn fd addr (BitVec.ofNat 32 n) off :: made, v :: used, rest, ?_,
          congrArg (v :: ·) hsplit, congrArg (· + 1) hlen, hend.round hmore hzero⟩
        rw [hloop, List.append_assoc, List.singleton_append]
      · -- the buffer is done
        rw [if_neg hmore] at hv'
        have hall : v.toNat = n := by omega
        dsimp only
        rw [if_neg hmore, hall]
        rw [hall, Nat.sub_self, Nat.zero_add] at hzero hleft
        refine ⟨_, [_], [v], results, rfl, rfl, rfl, .finished ?_ ?_ hv' hleft hzero⟩
        · rw [toInt_ofNat_of_lt hint]
          exact_mod_cast hpos
        · simp [movedBy, HostSyscall.moves, hall]
    · -- nothing is moved by this round, and the loop is left
      rw [rwLoop_nonpos _ hlive hlow hv]
      refine ⟨_, [_], [v], results, rfl, rfl, rfl, .stopped (k := 0) ?_ hpos ?_ ?_⟩
      · rwa [toInt_ret_result hlow hv]
      · have hnone : v.toNat = 0 := by omega
        simp [movedBy, HostSyscall.moves, hnone, segment]
      · rw [toInt_ret_result hlow hv, ZeroBeforeEnd]
        constructor
        · exact fun h => h.2.resolve_right fun hp => absurd hp.1 (by omega)
        · exact fun h => ⟨by omega, .inl h⟩

/-! ## The loop over the buffers -/

theorem doPlainRwLoop_end (alwaysSync : Bool) (disks : List EnclaveDiskConfig) (fn : RwFn)
    (fd : BitVec 32) {ret : BitVec 32} (off : BitVec 64) (env : HostEnv)
    (hlive : LtState.test env.state .cancelled = false) (hret : 0 ≤ ret.toInt)
    (hbuf : ∀ b ∈ buf, 0 < b.len.toNat ∧ b.len.toNat < 2 ^ 31)
    (hfit : ResultsFit (buf.map fun b => b.len.toNat) results)
    (henough : Enough (byteCount buf) results) :
    ∃ ret' made used rest, doPlainRwLoop alwaysSync disks fn fd ret off env (results.map result) buf
        = some (ret', { env with calls := env.calls ++ made }, rest.map result) ∧
      results = used ++ rest ∧ made.length = used.length ∧
      (0 ≤ ret'.toInt ∧ movedBy made used = wanted fn fd off buf ∧
          ¬ ZeroBeforeEnd (byteCount buf) results ∨
        ret'.toInt ≤ 0 ∧ movedBy made used ≠ wanted fn fd off buf ∧
          (ZeroBeforeEnd (byteCount buf) results ↔ ret'.toInt = 0)) := by
  induction buf generalizing off env ret results with
  | nil =>
    refine ⟨ret, [], [], results, ?_, rfl, rfl, .inl ⟨hret, rfl, ?_⟩⟩
    · rw [doPlainRwLoop, List.append_nil]
    · cases results <;> simp [byteCount, ZeroBeforeEnd]
  | cons b buf ih =>
    obtain ⟨⟨hpos, hint⟩, hbuf⟩ := List.forall_mem_cons.mp hbuf
    have hcount : byteCount (b :: buf) = b.len.toNat + byteCount buf := rfl
    have hwidth : b.len.setWidth 32 = BitVec.ofNat 32 b.len.toNat := by
      rw [BitVec.ofNat_toNat]
    obtain ⟨res, made, used, rest, hloop, rfl, hlen, hend⟩ := rwLoop_end (m := byteCount buf)
      alwaysSync fn fd b.base off (env.pin ((getDiskConfig disks fd).any (fun d => d.waitOnIo)))
      (by rw [pin_cancelled, hlive]) hpos hint hfit henough
    rw [doPlainRwLoop, hwidth]
    simp only [hloop, Option.bind_eq_bind, Option.bind_some, pin_calls, pin_stderr]
    cases hend with
    | finished pos moved fits enough zero =>
      obtain ⟨ret', made', used', rest', hrun, rfl, hlen', hend'⟩ := ih
        (off + BitVec.ofNat 64 b.len.toNat) { env with calls := env.calls ++ made } hlive pos.le hbuf
        fits enough
      refine ⟨ret', made ++ made', used ++ used', rest', ?_, ?_, ?_, ?_⟩
      · dsimp only
        rw [hrun, List.append_assoc]
      · rw [List.append_assoc]
      · rw [List.length_append, List.length_append, hlen, hlen']
      · rw [movedBy_append hlen, moved, hcount, zero, wanted, ne_eq, List.append_cancel_left_eq]
        rw [BitVec.ofNat_toNat, BitVec.setWidth_eq] at hend'
        exact hend'
    | @stopped ret' k nonpos short moved zero =>
      refine ⟨ret', made, used, rest, rfl, rfl, hlen, .inr ⟨nonpos, fun hall => ?_, ?_⟩⟩
      · -- what has been moved is too short
        have hlength := congrArg List.length hall
        rw [moved, length_segment, length_wanted, hcount] at hlength
        omega
      · rw [hcount]
        exact zero

end

/-- **What the status says.** For every request with buffers of less than `2 ^ 31` bytes and every
results of the host, `blk_request` returns `OK` exactly if every byte has been moved and `IOERR`
otherwise, if and only if the host does not give 0 before the request is done. -/
theorem ok_means_transferred_iff {fn : RwFn} {call : BlkCall} {env : HostEnv} {results : List Int}
    (alwaysSync : Bool) (disks : List EnclaveDiskConfig) (fd : BitVec 32)
    (htype : call.type.fn? = some fn) (hlive : LtState.test env.state .cancelled = false)
    (hbuf : ∀ b ∈ call.req.buf, 0 < b.len.toNat ∧ b.len.toNat < 2 ^ 31)
    (hfit : ResultsFit (call.req.buf.map fun b => b.len.toNat) results)
    (henough : Enough (byteCount call.req.buf) results) :
    OkMeansTransferred alwaysSync disks fd call fn env results ↔
      ¬ ZeroBeforeEnd (byteCount call.req.buf) results := by
  obtain ⟨ret, made, used, rest, hrun, rfl, hlen, hend⟩ := doPlainRwLoop_end alwaysSync disks fn fd
    (call.req.sector * 512) env hlive (show 0 ≤ (0 : BitVec 32).toInt from le_rfl) hbuf hfit henough
  have hreq : blkRequest alwaysSync disks fd call env ((used ++ rest).map result) =
      some (statusOf ret.toInt, { env with calls := env.calls ++ made }, rest.map result) := by
    rw [blkRequest_rw htype, doPlainRw, hrun]
    rfl
  have hmoved : movedBy ((env.calls ++ made).drop env.calls.length) (used ++ rest) =
      movedBy made used := by
    rw [List.drop_left, movedBy_used hlen]
  have hiff : OkMeansTransferred alwaysSync disks fd call fn env (used ++ rest) ↔
      (statusOf ret.toInt = .OK ↔
        movedBy made used = wanted fn fd (call.req.sector * 512) call.req.buf) ∧
      (statusOf ret.toInt = .IOERR ↔
        movedBy made used ≠ wanted fn fd (call.req.sector * 512) call.req.buf) := by
    rw [OkMeansTransferred, hreq, ← hmoved]
    constructor
    · rintro ⟨status, env', rest', heq, hstatus⟩
      cases heq
      exact hstatus
    · exact fun h => ⟨_, _, _, rfl, h⟩
  rw [hiff, statusOf]
  generalize wanted fn fd (call.req.sector * 512) call.req.buf = all at hend ⊢
  rcases hend with ⟨hret, hall, hzero⟩ | ⟨hret, hall, hzero⟩
  · rw [if_neg (by omega)]
    simp [hall, hzero]
  · -- an error is seen by its sign, and a 0 is not
    rw [hzero]
    by_cases hneg : ret.toInt < 0
    · simp [hneg, hall, hneg.ne]
    · simp [hall, show ret.toInt = 0 by omega]

def twoSectors : BlkCall where
  type := .READ
  req := ⟨1, [⟨0x1000, 512⟩, ⟨0x2000, 512⟩]⟩

/-- The first sector comes in two pieces, the second one with an error. -/
theorem ok_means_transferred_iff_eio :
    OkMeansTransferred false [] 3 twoSectors .pread64 ⟨0, [], []⟩ [100, 412, -5] := by
  refine (ok_means_transferred_iff false [] 3 rfl rfl (by decide) ?_ ?_).mpr ?_
  all_goals simp [twoSectors, ResultsFit, Enough, ZeroBeforeEnd, byteCount]

/-- The image ends after the first buffer: the host gives 0 for the second one, nothing of it is
read, and the status is `OK`. -/
theorem short_read_is_ok :
    ¬ OkMeansTransferred false [] 3 twoSectors .pread64 ⟨0, [], []⟩ [512, 0] := by
  have hrun : blkRequest false [] 3 twoSectors ⟨0, [], []⟩ ([512, 0].map result) =
      some (.OK, ⟨0, [.rw .pread64 3 0x1000 512 512, .rw .pread64 3 0x2000 512 1024], []⟩, []) := by
    decide
  rintro ⟨status, env', rest, heq, hok, -⟩
  cases hrun.symm.trans heq
  have hlength := congrArg List.length (hok.mp rfl)
  rw [length_wanted] at hlength
  simp [movedBy, HostSyscall.moves, byteCount, twoSectors] at hlength

end RktIo.Lkl
