import Mathlib
import RktIo.Shared.Util

/-!
# Setting up the disks (`lkl/setup.c`)

`lkl_mount_disks` registers the disks with LKL, finds the root disk, mounts it through
dm-verity and dm-crypt as its configuration asks for, and mounts the other disks.

The functions call LKL and libcryptsetup, whose answers are an oracle (`Kernel`), and may
`exit`. They are programs in `EStateM`, whose state keeps what LKL holds: the registered disks,
the mappings of the device mapper and the mounts. LKL names the disks `/dev/vda`, `/dev/vdb`, …
in the order in which they are registered, and refuses a path that names no device.

A specification says what a program leaves behind, both when it returns and when it exits, and
that it exits only if the kernel is not willing or for a reason that it names.

Tracing, the SPDK devices (there are none: `spdk_context` is null) and the contents of `/dev`
are left out.
-/

set_option mvcgen.warning false

namespace RktIo.Lkl.Setup

open Std.Do Shared

/-! ## Disks -/

/-- `enclave_disk_config_t`; `key` stands with `key_len`, and an empty one is `NULL`. -/
structure DiskConfig where
  fd : Int
  enc : Bool := false
  mnt : String
  ro : Bool := false
  key : List UInt8 := []
  roothash : Option (List Char) := none
  roothashOffset : Nat := 0
  mounted : Bool := false
  deriving Repr, DecidableEq

/-- The path of a block device: `vd 0` is `/dev/vda`, `vd 25` is `/dev/vdz`, and `mapper name` is
`/dev/mapper/name`. -/
inductive DevPath where
  | vd (letter : Nat)
  | mapper (name : String)
  deriving Repr, DecidableEq

/-- What is read from a block device: a disk by its letter, or what the device mapper makes of
the device underneath. -/
inductive Volume where
  | disk (letter : Nat)
  | verity (roothash : List UInt8) (hashAreaOffset : Nat) (under : Volume)
  | crypt (key : List UInt8) (under : Volume)
  deriving Repr, DecidableEq

def Volume.base : Volume → Nat
  | disk letter => letter
  | verity _ _ under => under.base
  | crypt _ under => under.base

structure Mount where
  entry : Nat
  dev : DevPath
  volume : Volume
  mntPoint : String
  ro : Bool
  deriving Repr, DecidableEq

/-- The disk array (`disks`, `num_disks`) and what LKL holds; a registered disk is the entry it
comes from and its descriptor. -/
structure Disks where
  disks : List DiskConfig := []
  numDisks : Nat := 0
  registered : List (Nat × Int) := []
  mappings : String → Option Volume := fun _ => none
  mounts : List Mount := []

def Disks.resolve (d : Disks) : DevPath → Option Volume
  | .vd letter => if letter < d.registered.length then some (.disk letter) else none
  | .mapper name => d.mappings name

/-! ## The kernel -/

inductive LklCall where
  | diskAdd (fd : Int)
  | sysAccess (path : String)
  | sysMkdir (path : String) (perm : Nat)
  | sysRmdir (path : String)
  | sysMount (source target fstype : String) (data : Option String)
  | sysMountDev (dev : DevPath) (target fstype : String) (ro : Bool)
  | sysUmount (target : String)
  | sysChroot (path : String)
  | sysChdir (path : String)
  | copyBlkdevNodes (srcdir dstdir : String)
  | sysMmap (len : Nat)
  | sysMunmap (len : Nat)
  | cryptInit (dev : DevPath)
  | cryptLoadLuks
  | cryptLoadVerity (dev : DevPath) (hashAreaOffset dataSize : Nat)
  | cryptActivateByPassphrase (name : String) (key : List UInt8) (ro : Bool)
  | cryptActivateByVolumeKey (name : String) (key : List UInt8) (size : Nat) (ro : Bool)
  | pthreadCreate
  | pthreadJoin
  deriving Repr, DecidableEq

/-- The answers, which may depend on the calls made before. -/
structure Kernel where
  ret : List LklCall → LklCall → Int

def LklCall.success : LklCall → Int
  | .sysMmap _ => 4096
  | _ => 0

def Kernel.Willing (k : Kernel) : Prop := ∀ calls c, k.ret calls c = c.success

structure SetupState where
  core : Disks := {}
  calls : List LklCall := []
  stderr : List String := []

abbrev SetupM := EStateM Int SetupState

def ENOENT : Int := 2

def call (k : Kernel) (c : LklCall) : SetupM Int := do
  let st ← get
  set { st with calls := st.calls ++ [c] }
  return k.ret st.calls c

def fprintf (text : String) : SetupM Unit :=
  modify fun st => { st with stderr := st.stderr ++ [text] }

def exitWith {α : Type} (text : String) (code : Int) : SetupM α := do
  fprintf text
  throw code

def EXIT_FAILURE : Int := 1

/-! ## Virtual file systems -/

def lklPrepareRootfs (k : Kernel) (dirname : String) (perm : Nat) : SetupM Unit := do
  let mut err ← call k (.sysAccess dirname)
  if err < 0 then
    if err = -ENOENT then
      err ← call k (.sysMkdir dirname perm)
    if err < 0 then
      exitWith "Error: Unable to mkdir %s: %s\n" err

def mountVirtual (k : Kernel) (source target fstype : String) (data : Option String)
    (text : String) : SetupM Unit := do
  let err ← call k (.sysMount source target fstype data)
  if err ≠ 0 then
    exitWith text err

def lklMountDevtmpfs (k : Kernel) (mntpoint : String) : SetupM Unit :=
  mountVirtual k "devtmpfs" mntpoint "devtmpfs" none "Error: lkl_sys_mount(devtmpfs): %s\n"

def lklMountShmtmpfs (k : Kernel) : SetupM Unit :=
  mountVirtual k "tmpfs" "/dev/shm" "tmpfs" (some "rw,nodev")
    "Error: lkl_sys_mount(tmpfs) (/dev/shm): %s\n"

def lklMountTmpfs (k : Kernel) : SetupM Unit :=
  mountVirtual k "tmpfs" "/tmp" "tmpfs" (some "mode=0777") "Error: lkl_sys_mount(tmpfs): %s\n"

def lklMountMntfs (k : Kernel) : SetupM Unit :=
  mountVirtual k "tmpfs" "/mnt" "tmpfs" (some "mode=0777") "Error: lkl_sys_mount(tmpfs): %s\n"

def lklMountSysfs (k : Kernel) : SetupM Unit :=
  mountVirtual k "none" "/sys" "sysfs" none "Error: lkl_sys_mount(sysfs): %s\n"

def lklMountRunfs (k : Kernel) : SetupM Unit :=
  mountVirtual k "tmpfs" "/run" "tmpfs" (some "mode=0700") "Error: lkl_sys_mount(tmpfs): %s\n"

def lklMountProcfs (k : Kernel) : SetupM Unit :=
  mountVirtual k "proc" "/proc" "proc" none "Error: lkl_sys_mount(procfs): %s\n"

def lklCopyBlkdevNodes (k : Kernel) (srcdir dstdir : String) : SetupM Unit := do
  let err ← call k (.copyBlkdevNodes srcdir dstdir)
  if err ≠ 0 then
    exitWith "Error: unable to opendir(%s)\n" err

/-! ## Block devices -/

def sysMountDev (k : Kernel) (entry : Nat) (dev : DevPath) (mntPoint : String) (ro : Bool) :
    SetupM Int := do
  let st ← get
  let err ← call k (.sysMountDev dev mntPoint "ext4" ro)
  match st.core.resolve dev with
  | none => return -ENOENT
  | some volume =>
    if err < 0 then
      return err
    modify fun st =>
      { st with core.mounts := st.core.mounts ++ [⟨entry, dev, volume, mntPoint, ro⟩] }
    return err

def lklMountBlockdev (k : Kernel) (entry : Nat) (dev : DevPath) (mntPoint : String) (ro : Bool) :
    SetupM Int := do
  let mut err ← call k (.sysAccess "/mnt")
  if err < 0 then
    if err = -ENOENT then
      err ← call k (.sysMkdir "/mnt" 0o700)
    if err < 0 then
      return err
  err ← call k (.sysMkdir mntPoint 0o700)
  if err < 0 then
    return err
  err ← sysMountDev k entry dev mntPoint ro
  if err < 0 then
    let _ ← call k (.sysRmdir mntPoint)
  return err

/-! ## The device mapper -/

def activate (name : String) (dev : DevPath) (layer : Volume → Volume) : SetupM Unit :=
  modify fun st => { st with
    core.mappings := Function.update st.core.mappings name ((st.core.resolve dev).map layer) }

def cryptInit (k : Kernel) (dev : DevPath) : SetupM Unit := do
  let st ← get
  let ret ← call k (.cryptInit dev)
  let err := if st.core.resolve dev = none then -ENOENT else ret
  if err ≠ 0 then
    exitWith "Error: crypt_init(): %s (%d)\n" err

def setKey (entry : Nat) (key : List UInt8) : SetupM Unit :=
  modify fun st =>
    { st with core.disks := st.core.disks.modify entry (fun d => { d with key := key }) }

def lklActivateCryptoDiskThread (k : Kernel) (diskPath : DevPath) (cryptName : String)
    (readonly : Bool) (entry : Nat) (diskConfig : DiskConfig) : SetupM Unit := do
  cryptInit k diskPath
  let mut err ← call k .cryptLoadLuks
  if err ≠ 0 then
    exitWith "Error: crypt_load(): %s (%d)\n" err
  let addr ← call k (.sysMmap diskConfig.key.length)
  if addr ≤ 0 then
    exitWith "Error: Unable to allocate memory for disk encryption key inside the enclave: %s\n"
      EXIT_FAILURE
  err ← call k (.cryptActivateByPassphrase cryptName diskConfig.key readonly)
  if err = -1 then
    exitWith "Error: Unable to activate encrypted disk. Please ensure you have provided the correct passphrase/keyfile!\n"
      err
  else if err ≠ 0 then
    exitWith "Error: Unable to activate encrypted disk due to unknown error (error code: %d)\n" err
  activate cryptName diskPath (.crypt diskConfig.key)
  let munmapRet ← call k (.sysMunmap diskConfig.key.length)
  if munmapRet ≠ 0 then
    exitWith "Error: Unable to unmap memory for disk encryption key: %s\n" EXIT_FAILURE
  setKey entry []

def VOLUME_KEY_SIZE : Nat := 32

def lklActivateVerityDiskThread (k : Kernel) (diskPath : DevPath) (readonly : Bool)
    (roothash : List Char) (roothashOffset : Nat) : SetupM Unit := do
  cryptInit k diskPath
  let mut err ← call k (.cryptLoadVerity diskPath roothashOffset (roothashOffset / 512))
  if err ≠ 0 then
    exitWith "Error: crypt_load(): %s (%d)\n" err
  match hexToBytes roothash with
  | none => exitWith "Invalid root hash string specified!\n" 1
  | some volumeHashBytes =>
    if volumeHashBytes.length ≠ VOLUME_KEY_SIZE then
      exitWith "Invalid root hash string specified!\n" 1
    err ← call k (.cryptActivateByVolumeKey "verityroot" volumeHashBytes 32 readonly)
    if err ≠ 0 then
      exitWith "Error: crypt_activate_by_volume_key(): %s (%d)\n" err
    activate "verityroot" diskPath (.verity volumeHashBytes roothashOffset)

def lklRunInKernelStack (k : Kernel) (startRoutine : SetupM Unit) : SetupM Unit := do
  let addr ← call k (.sysMmap (32 * 1024))
  -- MAP_FAILED
  if addr = -1 then
    exitWith "Error: lkl_sys_mmap failed\n" 1
  let mut err ← call k .pthreadCreate
  if err < 0 then
    exitWith "Error: pthread_create()=%s (%d)\n" err
  if err = 0 then
    startRoutine
  err ← call k .pthreadJoin
  if err < 0 then
    exitWith "Error: pthread_join()=%s (%d)\n" err

/-! ## Mounting -/

def lklAddDisks (k : Kernel) (i : Nat) : List DiskConfig → SetupM Unit
  | [] => pure ()
  | d :: ds => do
    if d.fd ≠ -1 then
      let diskDevId ← call k (.diskAdd d.fd)
      if diskDevId < 0 then
        exitWith "Error: unable to register disk %d, %s\n" EXIT_FAILURE
      modify fun st => { st with core.registered := st.core.registered ++ [(i, d.fd)] }
    lklAddDisks k (i + 1) ds

def setMounted (entry : Nat) : SetupM Unit :=
  modify fun st =>
    { st with core.disks := st.core.disks.modify entry (fun d => { d with mounted := true }) }

def setReadonly (entry : Nat) : SetupM Unit :=
  modify fun st =>
    { st with core.disks := st.core.disks.modify entry (fun d => { d with ro := true }) }

def mapVerity (k : Kernel) (entry : Nat) (disk : DiskConfig) : SetupM (DevPath × Bool) := do
  match disk.roothash with
  | none => return (.vd 0, disk.ro)
  | some roothash =>
    lklRunInKernelStack k
      (lklActivateVerityDiskThread k (.vd 0) disk.ro roothash disk.roothashOffset)
    -- we now want to mount the verified volume, which is read only
    setReadonly entry
    return (.mapper "verityroot", true)

def mapCrypt (k : Kernel) (entry : Nat) (disk : DiskConfig) (dev : DevPath) (ro : Bool) :
    SetupM DevPath := do
  if disk.enc then
    lklRunInKernelStack k (lklActivateCryptoDiskThread k dev "cryptroot" ro entry disk)
    -- we now want to mount the decrypted volume
    return .mapper "cryptroot"
  else return dev

def pivotRoot (k : Kernel) : SetupM Unit := do
  -- set up /dev in the new root
  lklPrepareRootfs k "/mnt/vda/dev/" 0o700
  lklMountDevtmpfs k "/mnt/vda/dev/"
  lklCopyBlkdevNodes k "/dev/" "/mnt/vda/dev/"
  -- clean up
  let _ ← call k (.sysUmount "/proc")
  let _ ← call k (.sysUmount "/sys")
  let _ ← call k (.sysUmount "/run")
  let _ ← call k (.sysUmount "/dev")
  -- pivot
  let mut err ← call k (.sysChroot "/mnt/vda")
  if err ≠ 0 then
    exitWith "Error: lkl_sys_chroot(%s): %s\n" err
  err ← call k (.sysChdir "/")
  if err ≠ 0 then
    exitWith "Error: lkl_sys_chdir(%s): %s\n" err
  lklPrepareRootfs k "/dev" 0o700
  lklPrepareRootfs k "/dev/shm" 0o777
  lklPrepareRootfs k "/mnt" 0o700
  lklPrepareRootfs k "/tmp" 0o777
  lklPrepareRootfs k "/sys" 0o700
  lklPrepareRootfs k "/run" 0o700
  lklPrepareRootfs k "/proc" 0o700
  lklMountShmtmpfs k
  lklMountTmpfs k
  lklMountMntfs k
  lklMountSysfs k
  lklMountRunfs k
  lklMountProcfs k

def lklMountRootDisk (k : Kernel) (entry : Nat) (disk : DiskConfig) : SetupM Unit := do
  let (dev, ro) ← mapVerity k entry disk
  let dev ← mapCrypt k entry disk dev ro
  let err ← lklMountBlockdev k entry dev "/mnt/vda" ro
  if err < 0 then
    exitWith "Error: lkl_mount_blockdev()=%s (%d)\n" EXIT_FAILURE
  setMounted entry
  pivotRoot k

def devicePath (i : Nat) : SetupM Unit := do
  if 26 ≤ i then
    fprintf "Error: Too many disks (maximum is 26). Failed to mount disk %d at %s.\n"
    -- adjust number to number of mounted disks
    modify fun st => { st with core.numDisks := 26 }

def mountByLetter (k : Kernel) (i : Nat) (d : DiskConfig) : SetupM Unit := do
  let err ← lklMountBlockdev k i (.vd i) d.mnt d.ro
  if err < 0 then
    exitWith "Error: lkl_mount_blockdev()=%s (%d)\n" EXIT_FAILURE
  setMounted i

/-- The loop of `lkl_mount_disks` over the disks that are not the root disk, from entry `i` on;
`false` if it returns from the function. -/
def mountOthers (k : Kernel) (root i : Nat) : List DiskConfig → SetupM Bool
  | [] => pure true
  | d :: ds => do
    if i < (← get).core.numDisks then
      -- returns 1 and not a negative number if there is no letter
      devicePath i
      if root = i ∨ d.fd = -1 then
        mountOthers k root (i + 1) ds
      else if 26 ≤ i then
        fprintf "Error: Too many disks (maximum is 26). Failed to mount disk %d at %s.\n"
        modify fun st => { st with core.numDisks := 26 }
        return false
      else
        mountByLetter k i d
        mountOthers k root (i + 1) ds
    else return true

def lklSetWorkingDir (k : Kernel) (path : String) : SetupM Unit := do
  let ret ← call k (.sysChdir path)
  if ret ≠ 0 then
    exitWith "Error: lkl_sys_chdir(%s): %s\n" 1

def rootEntry (disks : List DiskConfig) : Nat := disks.findIdx (fun d => d.mnt = "/")

def mountFromRoot (k : Kernel) (disks : List DiskConfig) (rootDisk : DiskConfig)
    (cwd : Option String) : SetupM Unit := do
  lklMountRootDisk k (rootEntry disks) rootDisk
  if ← mountOthers k (rootEntry disks) 0 disks then
    if let some cwd := cwd then
      lklSetWorkingDir k cwd

def lklMountDisks (k : Kernel) (disks : List DiskConfig) (cwd : Option String) : SetupM Unit := do
  modify fun st => { st with core.numDisks := disks.length }
  if disks.length = 0 then
    exitWith "No root disk provided. Aborting...\n" EXIT_FAILURE
  modify fun st => { st with core.disks := disks }
  lklAddDisks k 0 disks
  match disks[rootEntry disks]? with
  | none => exitWith "No root disk (mount point '/') provided.\n" EXIT_FAILURE
  | some rootDisk => mountFromRoot k disks rootDisk cwd

end RktIo.Lkl.Setup
