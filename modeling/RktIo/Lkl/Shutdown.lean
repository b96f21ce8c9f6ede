import RktIo.Lkl.MountFlags

/-!
# Shutting down

`lkl_exit` walks the disks from the last to the first and unmounts those whose field `mounted` is
set. After each it removes the mount point, except for the first disk of the array, which it takes
for the root disk. `lkl_mount_disks` finds the root disk by its mount point `/`, wherever it
stands.

The SPDK devices are mounted and unmounted besides the array; of their mounts only the calls that
unmount them are here. The command servers, the measurement of the runtime and the verbose output
call nothing of LKL and are left out.
-/

set_option mvcgen.warning false

namespace RktIo.Lkl.Shutdown

open Std.Do Setup List

/-! ## The model -/

/-- The calls of LKL that `lkl_exit` makes. An unmount carries the entry of the disk that it is
for, and none for an SPDK device. -/
inductive ExitCall where
  | sysChdir (path : String)
  | umountTimeout (entry : Option Nat) (mnt : String)
  | sysRmdir (path : String)
  | sysHalt
deriving DecidableEq, Repr

structure ExitKernel where
  ret : List ExitCall → ExitCall → Int

structure ExitState where
  calls : List ExitCall := []
  stderr : List String := []
deriving DecidableEq, Repr

inductive Stop where
  | exit (code : Int)
  | nullPointer
deriving DecidableEq, Repr

abbrev ExitM := EStateM Stop ExitState

def call (k : ExitKernel) (c : ExitCall) : ExitM Int := do
  let st ← get
  set { st with calls := st.calls ++ [c] }
  return k.ret st.calls c

def fprintf (text : String) : ExitM Unit :=
  modify fun st => { st with stderr := st.stderr ++ [text] }

def lklSetWorkingDir (k : ExitKernel) (path : String) : ExitM Unit := do
  let ret ← call k (.sysChdir path)
  if ret ≠ 0 then
    fprintf "Error: lkl_sys_chdir(%s): %s\n"
    throw (.exit 1)

/-- `struct spdk_context`, with the devices that `lkl_start_spdk` has registered. -/
structure SpdkContext where
  skipUnmount : Bool
  devIds : List Int
deriving DecidableEq, Repr

def spdkMountpoint (devId : Int) : String := "/mnt/spdk" ++ toString devId

def lklStopSpdk (k : ExitKernel) : List Int → ExitM Unit
  | [] => pure ()
  | devId :: devIds => do
    let err ← call k (.umountTimeout none (spdkMountpoint devId))
    if err < 0 then
      fprintf "Error: lkl_mount_umount(%s)=%s (%d)\n"
    lklStopSpdk k devIds

def unmountDisks (k : ExitKernel) (disks : List DiskConfig) : Nat → ExitM Unit
  | 0 => pure ()
  | i + 1 => do
    match disks[i]? with
    | none => pure ()
    | some disk =>
      if disk.mounted then
        let mut res ← call k (.umountTimeout (some i) disk.mnt)
        if res < 0 then
          fprintf "Error: Could not unmount disk %d, %s\n"
        -- root disk, no need to remove mount point
        if i = 0 then
          return
        res ← call k (.sysRmdir disk.mnt)
        if res < 0 then
          fprintf "Error: Could not remove mount point %s\n"
        unmountDisks k disks i
      else unmountDisks k disks i

def lklExit (k : ExitKernel) (spdkContext : Option SpdkContext) (d : Disks) : ExitM Unit := do
  -- switch back to root so we can unmount all filesystems
  lklSetWorkingDir k "/"
  match spdkContext with
  | none => throw .nullPointer
  | some ctx =>
    if !ctx.skipUnmount then
      lklStopSpdk k ctx.devIds
    unmountDisks k d.disks d.numDisks
    let res ← call k .sysHalt
    if res < 0 then
      fprintf "Error: LKL halt, %s\n"
      throw (.exit res)

def exitCalls (k : ExitKernel) (spdkContext : Option SpdkContext) (d : Disks) : List ExitCall :=
  match (lklExit k spdkContext d).run {} with
  | .ok _ st => st.calls
  | .error _ st => st.calls

/-! ## The calls of a run -/

variable {k : ExitKernel}

def diskCalls (i : Nat) (disk : DiskConfig) : List ExitCall :=
  if disk.mounted then
    .umountTimeout (some i) disk.mnt :: if i = 0 then [] else [.sysRmdir disk.mnt]
  else []

def loopCalls (disks : List DiskConfig) : Nat → List ExitCall
  | 0 => []
  | i + 1 =>
    match disks[i]? with
    | none => []
    | some disk => diskCalls i disk ++ loopCalls disks i

def spdkCalls (ctx : SpdkContext) : List ExitCall :=
  if ctx.skipUnmount then []
  else ctx.devIds.map fun devId => .umountTimeout none (spdkMountpoint devId)

abbrev calling (calls more : List ExitCall) :
    PostCond Unit (.except Stop (.arg ExitState .pure)) :=
  post⟨fun _ st => ⌜st.calls = calls ++ more⌝, fun _ _ => ⌜False⌝⟩

@[spec]
theorem call_spec (c : ExitCall) (calls : List ExitCall) :
    ⦃fun st => ⌜st.calls = calls⌝⦄ call k c
      ⦃post⟨fun ret st => ⌜st.calls = calls ++ [c] ∧ ret = k.ret calls c⌝,
        fun _ _ => ⌜False⌝⟩⦄ := by
  mvcgen [call]
  grind

@[spec]
theorem fprintf_spec (text : String) (calls : List ExitCall) :
    ⦃fun st => ⌜st.calls = calls⌝⦄ fprintf text ⦃calling calls []⦄ := by
  mvcgen [fprintf]
  grind

@[spec]
theorem lklStopSpdk_spec (devIds : List Int) (calls : List ExitCall) :
    ⦃fun st => ⌜st.calls = calls⌝⦄ lklStopSpdk k devIds
      ⦃calling calls (devIds.map fun devId => .umountTimeout none (spdkMountpoint devId))⦄ := by
  induction devIds generalizing calls with
  | nil =>
    mvcgen [lklStopSpdk]
    simp_all
  | cons devId devIds ih =>
    mvcgen [lklStopSpdk, ih] <;> grind

@[spec]
theorem unmountDisks_spec (disks : List DiskConfig) (n : Nat) (calls : List ExitCall) :
    ⦃fun st => ⌜st.calls = calls⌝⦄ unmountDisks k disks n
      ⦃calling calls (loopCalls disks n)⦄ := by
  induction n generalizing calls with
  | zero =>
    mvcgen [unmountDisks]
    simp_all [loopCalls]
  | succ i ih =>
    mvcgen [unmountDisks, ih] <;> grind [loopCalls, diskCalls]

def Starts (k : ExitKernel) (spdkContext : Option SpdkContext) : Prop :=
  k.ret [] (.sysChdir "/") = 0 ∧ spdkContext ≠ none

def allCalls (ctx : SpdkContext) (d : Disks) : List ExitCall :=
  .sysChdir "/" :: (spdkCalls ctx ++ (loopCalls d.disks d.numDisks ++ [.sysHalt]))

def RunCalls (k : ExitKernel) (spdkContext : Option SpdkContext) (d : Disks)
    (calls : List ExitCall) : Prop :=
  (Starts k spdkContext ∧ ∃ ctx, spdkContext = some ctx ∧ calls = allCalls ctx d)
    ∨ (¬ Starts k spdkContext ∧ calls = [.sysChdir "/"])

theorem lklExit_spec (spdkContext : Option SpdkContext) (d : Disks) :
    ⦃fun st => ⌜st.calls = []⌝⦄ lklExit k spdkContext d
      ⦃post⟨fun _ st => ⌜RunCalls k spdkContext d st.calls⌝,
        fun _ st => ⌜RunCalls k spdkContext d st.calls⌝⟩⦄ := by
  mvcgen [lklExit, lklSetWorkingDir]
  all_goals grind [RunCalls, Starts, allCalls, spdkCalls]

theorem runCalls_exitCalls (k : ExitKernel) (spdkContext : Option SpdkContext) (d : Disks) :
    RunCalls k spdkContext d (exitCalls k spdkContext d) := by
  have hwp := lklExit_spec (k := k) spdkContext d {} rfl
  unfold exitCalls
  cases hrun : (lklExit k spdkContext d).run {} with
  | ok a st =>
    simp only [WP.wp, PredTrans.apply, hrun] at hwp
    exact hwp
  | error e st =>
    simp only [WP.wp, PredTrans.apply, hrun] at hwp
    exact hwp

/-! ## The calls for one disk -/

def ExitCall.unmounts (i : Nat) : ExitCall → Bool
  | .umountTimeout entry _ => entry = some i
  | _ => false

section Loop

variable {disks : List DiskConfig} {n i : Nat} {disk : DiskConfig}

theorem unmounts_of_mem_diskCalls {j : Nat} {c : ExitCall} (hmem : c ∈ diskCalls i disk)
    (h : c.unmounts j = true) : i = j := by
  unfold diskCalls at hmem
  split at hmem
  · rcases mem_cons.mp hmem with rfl | hmem
    · exact Option.some.inj (of_decide_eq_true h)
    · split at hmem
      · cases hmem
      · rw [mem_singleton.mp hmem] at h
        cases h
  · cases hmem

theorem diskCalls_filter (h : disk.mounted = true) :
    (diskCalls i disk).filter (·.unmounts i) = [.umountTimeout (some i) disk.mnt] := by
  unfold diskCalls
  rw [if_pos h]
  split <;> simp [ExitCall.unmounts]

theorem mem_loopCalls {c : ExitCall} (h : c ∈ loopCalls disks n) :
    ∃ i < n, ∃ disk, disks[i]? = some disk ∧ c ∈ diskCalls i disk := by
  induction n with
  | zero => cases h
  | succ m ih =>
    unfold loopCalls at h
    cases hdisk : disks[m]? with
    | none =>
      rw [hdisk] at h
      cases h
    | some disk =>
      rw [hdisk] at h
      rcases mem_append.mp h with hmem | hmem
      · exact ⟨m, Nat.lt_succ_self m, disk, hdisk, hmem⟩
      · obtain ⟨i, hi, hex⟩ := ih hmem
        exact ⟨i, Nat.lt_succ_of_lt hi, hex⟩

theorem loopCalls_filter_eq_nil (hi : n ≤ i) : (loopCalls disks n).filter (·.unmounts i) = [] := by
  refine filter_eq_nil_iff.mpr ?_
  intro c hmem h
  obtain ⟨j, hj, disk, -, hcall⟩ := mem_loopCalls hmem
  have heq := unmounts_of_mem_diskCalls hcall h
  omega

section

variable (hi : i < n) (hn : n ≤ disks.length) (hdisk : disks[i]? = some disk)

include hi hn hdisk

theorem loopCalls_split :
    ∃ above, loopCalls disks n = above ++ (diskCalls i disk ++ loopCalls disks i)
      ∧ above.filter (·.unmounts i) = [] := by
  induction n with
  | zero => omega
  | succ m ih =>
    rcases Nat.lt_succ_iff_lt_or_eq.mp hi with hlt | rfl
    · obtain ⟨above, hsplit, hnone⟩ := ih hlt (by omega)
      have hm : disks[m]? = some disks[m] := getElem?_eq_getElem (by omega)
      refine ⟨diskCalls m disks[m] ++ above, ?_, ?_⟩
      · rw [loopCalls, hm]
        show diskCalls m disks[m] ++ loopCalls disks m = _
        rw [hsplit, append_assoc]
      · rw [filter_append, hnone, append_nil]
        refine filter_eq_nil_iff.mpr ?_
        intro c hmem h
        have heq := unmounts_of_mem_diskCalls hmem h
        omega
    · refine ⟨[], ?_, rfl⟩
      rw [loopCalls, hdisk]
      rfl

theorem loopCalls_filter (hmounted : disk.mounted = true) :
    (loopCalls disks n).filter (·.unmounts i) = [.umountTimeout (some i) disk.mnt] := by
  obtain ⟨above, hsplit, hnone⟩ := loopCalls_split hi hn hdisk
  rw [hsplit, filter_append, filter_append, hnone, diskCalls_filter hmounted,
    loopCalls_filter_eq_nil (Nat.le_refl i)]
  rfl

theorem diskCalls_sublist : (diskCalls i disk).Sublist (loopCalls disks n) := by
  obtain ⟨above, hsplit, -⟩ := loopCalls_split hi hn hdisk
  rw [hsplit]
  exact (sublist_append_left _ _).trans (sublist_append_right _ _)

end

theorem umount_sublist_loopCalls {j : Nat} {disk' : DiskConfig} (hj : j < i) (hi : i < n)
    (hn : n ≤ disks.length) (hdisk : disks[i]? = some disk) (hmounted : disk.mounted = true)
    (hdisk' : disks[j]? = some disk') (hmounted' : disk'.mounted = true) :
    [.umountTimeout (some i) disk.mnt, .umountTimeout (some j) disk'.mnt].Sublist
      (loopCalls disks n) := by
  have hown : ∀ i (disk : DiskConfig), disk.mounted = true →
      .umountTimeout (some i) disk.mnt ∈ diskCalls i disk := by
    intro i disk h
    rw [diskCalls, if_pos h]
    exact mem_cons_self
  obtain ⟨above, hsplit, -⟩ := loopCalls_split hi hn hdisk
  have hfirst : [.umountTimeout (some i) disk.mnt].Sublist (diskCalls i disk) :=
    singleton_sublist.mpr (hown i disk hmounted)
  have hsecond : [.umountTimeout (some j) disk'.mnt].Sublist (loopCalls disks i) :=
    (singleton_sublist.mpr (hown j disk' hmounted')).trans
      (diskCalls_sublist hj (by omega) hdisk')
  rw [hsplit]
  exact (hfirst.append hsecond).trans (sublist_append_right _ _)

theorem of_rmdir_mem_loopCalls {path : String} (h : .sysRmdir path ∈ loopCalls disks n) :
    ∃ i < n, ∃ disk, disks[i]? = some disk ∧ 0 < i ∧ disk.mounted = true ∧ disk.mnt = path := by
  obtain ⟨i, hi, disk, hdisk, hmem⟩ := mem_loopCalls h
  unfold diskCalls at hmem
  split at hmem
  · rename_i hmounted
    simp only [mem_cons, reduceCtorEq, false_or] at hmem
    split at hmem
    · cases hmem
    · rename_i hne
      have heq := ExitCall.sysRmdir.inj (mem_singleton.mp hmem)
      exact ⟨i, hi, disk, hdisk, Nat.pos_of_ne_zero hne, hmounted, heq.symm⟩
  · cases hmem

end Loop

section AllCalls

variable {d : Disks} {ctx : SpdkContext}

theorem loopCalls_sublist_allCalls :
    (loopCalls d.disks d.numDisks).Sublist (allCalls ctx d) :=
  ((sublist_append_left _ _).trans (sublist_append_right _ _)).trans
    (sublist_cons_self _ _)

theorem allCalls_filter (i : Nat) : (allCalls ctx d).filter (·.unmounts i)
    = (loopCalls d.disks d.numDisks).filter (·.unmounts i) := by
  have hspdk : (spdkCalls ctx).filter (·.unmounts i) = [] := by
    unfold spdkCalls
    split
    · rfl
    · simp [filter_eq_nil_iff, ExitCall.unmounts]
  have hchdir : (ExitCall.sysChdir "/").unmounts i = false := rfl
  have hhalt : ExitCall.sysHalt.unmounts i = false := rfl
  simp [allCalls, hspdk, hchdir, hhalt]

theorem rmdir_mem_allCalls {path : String} (h : .sysRmdir path ∈ allCalls ctx d) :
    .sysRmdir path ∈ loopCalls d.disks d.numDisks := by
  have hspdk : .sysRmdir path ∉ spdkCalls ctx := by
    unfold spdkCalls
    split <;> simp
  simpa [allCalls, hspdk] using h

end AllCalls

/-! ## Every disk is unmounted, the root disk last -/

structure UnmountsAll (disks : List DiskConfig) (mounted : List Nat) (calls : List ExitCall) :
    Prop where
  once : ∀ i ∈ mounted, ∀ c, disks[i]? = some c →
    calls.filter (·.unmounts i) = [.umountTimeout (some i) c.mnt]
  rootLast : ∀ i ∈ mounted, i ≠ rootEntry disks → ∀ c, disks[i]? = some c →
    [.umountTimeout (some i) c.mnt, .umountTimeout (some (rootEntry disks)) "/"].Sublist calls
  removed : ∀ i ∈ mounted, i ≠ rootEntry disks → ∀ c, disks[i]? = some c →
    [.umountTimeout (some i) c.mnt, .sysRmdir c.mnt].Sublist calls
  rootKept : .sysRmdir "/" ∉ calls

section Returned

variable {m : Kernel} {disks : List DiskConfig} {cwd : Option String} {st : SetupState}
  {ctx : SpdkContext} {i : Nat} {c : DiskConfig}

theorem unmounted_of_flag (hrun : (lklMountDisks m disks cwd).run {} = .ok () st) (hi : i < 26)
    (hc : disks[i]? = some c) (hflag : c.mounted = true ∨ i ∈ mountEntries disks) :
    ∃ disk, i < st.core.numDisks ∧ st.core.disks[i]? = some disk ∧ disk.mnt = c.mnt
      ∧ disk.mounted = true := by
  obtain ⟨disk, hdisk, hmnt, hmounted⟩ := disk_of_returned hrun hc
  have hlt : i < disks.length := (List.getElem?_eq_some_iff.mp hc).1
  have hnum := numDisks_of_returned hrun
  exact ⟨disk, by omega, hdisk, hmnt, hmounted.mpr hflag⟩

theorem rmdir_mem_of_flag (ctx : SpdkContext)
    (hrun : (lklMountDisks m disks cwd).run {} = .ok () st) (hpos : 0 < i) (hi : i < 26)
    (hc : disks[i]? = some c) (hflag : c.mounted = true ∨ i ∈ mountEntries disks) :
    [.umountTimeout (some i) c.mnt, .sysRmdir c.mnt].Sublist (allCalls ctx st.core) := by
  obtain ⟨disk, hnum, hdisk, hmnt, hmounted⟩ := unmounted_of_flag hrun hi hc hflag
  have hcalls : diskCalls i disk = [.umountTimeout (some i) c.mnt, .sysRmdir c.mnt] := by
    rw [diskCalls, if_pos hmounted, if_neg (by omega), hmnt]
  rw [← hcalls]
  have hown := diskCalls_sublist hnum (numDisks_le_of_returned hrun) hdisk
  exact hown.trans loopCalls_sublist_allCalls

theorem mem_mountEntries (hc : disks[i]? = some c) (hne : i ≠ rootEntry disks) :
    i ∈ mountEntries disks ↔ i < 26 ∧ c.fd ≠ -1 := by
  simp [mountEntries, mem_others, hne, hc]

def RootFirst (disks : List DiskConfig) : Prop :=
  rootEntry disks = 0 ∧ ∀ i c, 0 < i → i < 26 → disks[i]? = some c →
    c.fd ≠ -1 ∨ c.mounted = true → c.mnt ≠ "/"

theorem rootFirst_of_unmountsAll (hrun : (lklMountDisks m disks cwd).run {} = .ok () st)
    (h : UnmountsAll disks (mountEntries disks) (allCalls ctx st.core)) : RootFirst disks := by
  obtain ⟨rootDisk, hroot, hslash⟩ := root_of_returned hrun
  have hrootMem : rootEntry disks ∈ mountEntries disks := mem_cons_self
  have hzero : rootEntry disks = 0 := by
    by_contra hne
    rcases Nat.lt_or_ge (rootEntry disks) 26 with hlt | hge
    · -- the root disk has a letter: its mount point is removed
      have hsub := rmdir_mem_of_flag ctx hrun (Nat.pos_of_ne_zero hne) hlt hroot
        (Or.inr hrootMem)
      rw [hslash] at hsub
      exact h.rootKept (hsub.subset (by simp))
    · -- it has none: it is not unmounted
      have honce := h.once _ hrootMem _ hroot
      have hnum := numDisks_of_returned hrun
      rw [allCalls_filter, loopCalls_filter_eq_nil (by omega)] at honce
      cases honce
  refine ⟨hzero, ?_⟩
  intro i c hpos hi hc hflag hmnt
  have hentry : c.fd ≠ -1 → i ∈ mountEntries disks := by
    intro hfd
    exact (mem_mountEntries hc (by omega)).mpr ⟨hi, hfd⟩
  have hsub := rmdir_mem_of_flag ctx hrun hpos hi hc (hflag.symm.imp_right hentry)
  rw [hmnt] at hsub
  exact h.rootKept (hsub.subset (by simp))

section

variable (h : RootFirst disks) (hrun : (lklMountDisks m disks cwd).run {} = .ok () st)

include h hrun

theorem RootFirst.rmdir_notMem : .sysRmdir "/" ∉ allCalls ctx st.core := by
  obtain ⟨hzero, hothers⟩ := h
  intro hmem
  obtain ⟨i, hi, disk, hdisk, hpos, hmounted, hmnt⟩ :=
    of_rmdir_mem_loopCalls (rmdir_mem_allCalls hmem)
  have hnum := numDisks_of_returned hrun
  have hc : disks[i]? = some disks[i] := getElem?_eq_getElem (by omega)
  obtain ⟨disk', hdisk', hmnt', hmounted'⟩ := disk_of_returned hrun hc
  obtain rfl : disk = disk' := Option.some.inj (hdisk.symm.trans hdisk')
  refine hothers i _ hpos (by omega) hc ?_ (hmnt'.symm.trans hmnt)
  refine (hmounted'.mp hmounted).symm.imp_left ?_
  intro hentry
  exact ((mem_mountEntries hc (by omega)).mp hentry).2

theorem RootFirst.unmountsAll : UnmountsAll disks (mountEntries disks) (allCalls ctx st.core) := by
  obtain ⟨rootDisk, hroot, hslash⟩ := root_of_returned hrun
  have hrootMem : rootEntry disks ∈ mountEntries disks := mem_cons_self
  have hzero : rootEntry disks = 0 := h.1
  have hbelow : ∀ i ∈ mountEntries disks, i < 26 := by
    intro i hi
    rcases mem_cons.mp hi with rfl | hmem
    · omega
    · exact (mem_others.mp hmem).2.1
  refine ⟨?_, ?_, ?_, h.rmdir_notMem hrun⟩
  · intro i hi c hc
    obtain ⟨disk, hnum, hdisk, hmnt, hmounted⟩ :=
      unmounted_of_flag hrun (hbelow i hi) hc (Or.inr hi)
    rw [allCalls_filter, loopCalls_filter hnum (numDisks_le_of_returned hrun) hdisk hmounted,
      hmnt]
  · intro i hi hne c hc
    obtain ⟨disk, hnum, hdisk, hmnt, hmounted⟩ :=
      unmounted_of_flag hrun (hbelow i hi) hc (Or.inr hi)
    obtain ⟨first, -, hfirst, hmntFirst, hmountedFirst⟩ :=
      unmounted_of_flag hrun (hbelow _ hrootMem) hroot (Or.inr hrootMem)
    -- the walk goes down, so the entries above the first come before it
    have hsub := umount_sublist_loopCalls (by omega) hnum (numDisks_le_of_returned hrun) hdisk
      hmounted hfirst hmountedFirst
    rw [hmnt, hmntFirst, hslash] at hsub
    exact hsub.trans loopCalls_sublist_allCalls
  · intro i hi hne c hc
    exact rmdir_mem_of_flag ctx hrun (by omega) (hbelow i hi) hc (Or.inr hi)

end

end Returned

/-- **Every mounted disk is unmounted once and the root disk last, if the root disk comes first.**
After every run of `lkl_mount_disks` that returns, `lkl_exit` unmounts every mounted disk exactly
once, the root disk after all others, removes the mount point of every other disk after that and
does not try to remove `/`, exactly if

* LKL lets the working directory be `/`, and there is an SPDK context,
* the root disk is the first of the array, and
* no other disk that has a letter and is mounted, or had the flag before, is at `/`. -/
theorem unmounts_all_iff (k : ExitKernel) (spdkContext : Option SpdkContext) (m : Kernel)
    (disks : List DiskConfig) (cwd : Option String) (st : SetupState)
    (hrun : (lklMountDisks m disks cwd).run {} = .ok () st) :
    UnmountsAll disks (st.core.mounts.map Mount.entry) (exitCalls k spdkContext st.core)
      ↔ Starts k spdkContext ∧ RootFirst disks := by
  rw [mounts_of_returned hrun]
  rcases runCalls_exitCalls k spdkContext st.core with ⟨hstarts, ctx, -, hcalls⟩ | ⟨hnot, hcalls⟩
  · rw [hcalls]
    constructor
    · intro h
      exact ⟨hstarts, rootFirst_of_unmountsAll hrun h⟩
    · rintro ⟨-, hfirst⟩
      exact hfirst.unmountsAll hrun
  · -- no disk is unmounted, and there is the root disk
    refine iff_of_false ?_ (fun h => hnot h.1)
    intro h
    obtain ⟨rootDisk, hroot, -⟩ := root_of_returned hrun
    have honce := h.once _ List.mem_cons_self _ hroot
    rw [hcalls] at honce
    cases honce

def quietKernel : ExitKernel := ⟨fun _ _ => 0⟩

def returned {ε σ α : Type} : EStateM.Result ε σ α → Bool
  | .ok _ _ => true
  | .error _ _ => false

theorem unmounts_all_iff_three :
    ∃ st, (lklMountDisks willingKernel threeDisks none).run {} = .ok () st
      ∧ UnmountsAll threeDisks (st.core.mounts.map Mount.entry)
        (exitCalls quietKernel (some ⟨true, []⟩) st.core) := by
  have hok : returned ((lklMountDisks willingKernel threeDisks none).run {}) = true := by
    decide +kernel
  cases hrun : (lklMountDisks willingKernel threeDisks none).run {} with
  | error e st =>
    rw [hrun] at hok
    cases hok
  | ok a st =>
    refine ⟨st, rfl, (unmounts_all_iff quietKernel (some ⟨true, []⟩) willingKernel threeDisks none
      st hrun).mpr ⟨⟨rfl, Option.some_ne_none _⟩, rfl, ?_⟩⟩
    intro i c hpos _ hc _
    rcases i with _ | _ | _ | i
    · cases hpos
    · cases hc
      decide
    · cases hc
      decide
    · cases hc

def rootSecond : List DiskConfig :=
  [⟨3, false, "/data", false, [], none, 0, false⟩, ⟨4, false, "/", false, [], none, 0, false⟩]

/-- `/` is unmounted before the other disk, there is an attempt to remove it, and the mount point of
the other disk stays. -/
theorem root_removed_and_unmounted_first :
    returned ((lklMountDisks willingKernel rootSecond none).run {}) = true
      ∧ exitCalls quietKernel (some ⟨true, []⟩) (disksAfter willingKernel rootSecond none)
        = [.sysChdir "/", .umountTimeout (some 1) "/", .sysRmdir "/",
            .umountTimeout (some 0) "/data", .sysHalt]
      ∧ ¬ UnmountsAll rootSecond ((disksAfter willingKernel rootSecond none).mounts.map Mount.entry)
        (exitCalls quietKernel (some ⟨true, []⟩) (disksAfter willingKernel rootSecond none)) := by
  have hcalls : exitCalls quietKernel (some ⟨true, []⟩) (disksAfter willingKernel rootSecond none)
      = [.sysChdir "/", .umountTimeout (some 1) "/", .sysRmdir "/",
          .umountTimeout (some 0) "/data", .sysHalt] := by
    decide +kernel
  refine ⟨by decide +kernel, hcalls, ?_⟩
  intro h
  exact h.rootKept (by simp [hcalls])

end RktIo.Lkl.Shutdown
