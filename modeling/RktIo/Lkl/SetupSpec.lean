import RktIo.Lkl.Setup

/-!
# What setting up the disks does

A specification for every function of the setup, from the calls of LKL up to `lkl_mount_disks`.
Each says what the function leaves behind when it returns and when it exits; it exits only if
the kernel is not willing, or for a reason that the specification names.
-/

set_option mvcgen.warning false

namespace RktIo.Lkl.Setup

open Std.Do Shared List Disks

/-! ## Specifications: calls and virtual file systems -/

variable {k : Kernel}

abbrev leaves (k : Kernel) (d : Disks) : PostCond Unit (.except Int (.arg SetupState .pure)) :=
  post⟨fun _ st => ⌜st.core = d⌝, fun _ st => ⌜st.core = d ∧ ¬ k.Willing⌝⟩

attribute [grind =] LklCall.success

@[spec]
theorem call_spec (c : LklCall) (d : Disks) :
    ⦃fun st => ⌜st.core = d⌝⦄ call k c
      ⦃post⟨fun ret st => ⌜st.core = d ∧ (k.Willing → ret = c.success)⌝, fun _ _ => ⌜False⌝⟩⦄ := by
  mvcgen [call]
  exact ⟨‹_›, fun hk => hk _ _⟩

@[spec]
theorem exitWith_spec {α : Type} (text : String) (code : Int) (d : Disks) :
    ⦃fun st => ⌜st.core = d⌝⦄ (exitWith text code : SetupM α)
      ⦃post⟨fun _ _ => ⌜False⌝, fun _ st => ⌜st.core = d⌝⟩⦄ := by
  mvcgen [exitWith, fprintf]

@[spec]
theorem lklPrepareRootfs_spec (dirname : String) (perm : Nat) (d : Disks) :
    ⦃fun st => ⌜st.core = d⌝⦄ lklPrepareRootfs k dirname perm ⦃leaves k d⦄ := by
  mvcgen [lklPrepareRootfs] <;> grind

@[spec]
theorem mountVirtual_spec (source target fstype : String) (data : Option String) (text : String)
    (d : Disks) :
    ⦃fun st => ⌜st.core = d⌝⦄ mountVirtual k source target fstype data text ⦃leaves k d⦄ := by
  mvcgen [mountVirtual] <;> grind

@[spec]
theorem lklCopyBlkdevNodes_spec (srcdir dstdir : String) (d : Disks) :
    ⦃fun st => ⌜st.core = d⌝⦄ lklCopyBlkdevNodes k srcdir dstdir ⦃leaves k d⦄ := by
  mvcgen [lklCopyBlkdevNodes] <;> grind

@[spec]
theorem lklSetWorkingDir_spec (path : String) (d : Disks) :
    ⦃fun st => ⌜st.core = d⌝⦄ lklSetWorkingDir k path ⦃leaves k d⦄ := by
  mvcgen [lklSetWorkingDir] <;> grind

@[spec]
theorem pivotRoot_spec (d : Disks) :
    ⦃fun st => ⌜st.core = d⌝⦄ pivotRoot k ⦃leaves k d⦄ := by
  mvcgen [pivotRoot, lklMountDevtmpfs, lklMountShmtmpfs, lklMountTmpfs, lklMountMntfs,
    lklMountSysfs, lklMountRunfs, lklMountProcfs] <;> grind

/-! ## Specifications: block devices -/

/-- A mount that fails leaves the disks as they are, and fails only if the kernel is not willing or
there is no such device; one that succeeds is recorded. -/
def MountResult (k : Kernel) (entry : Nat) (dev : DevPath) (mntPoint : String) (ro : Bool)
    (d : Disks) (err : Int) (d' : Disks) : Prop :=
  (err < 0 ∧ d' = d ∧ (k.Willing → d.resolve dev = none))
    ∨ ∃ volume, d.resolve dev = some volume ∧ 0 ≤ err
      ∧ d' = { d with mounts := d.mounts ++ [⟨entry, dev, volume, mntPoint, ro⟩] }

@[spec]
theorem sysMountDev_spec (entry : Nat) (dev : DevPath) (mntPoint : String) (ro : Bool) (d : Disks) :
    ⦃fun st => ⌜st.core = d⌝⦄ sysMountDev k entry dev mntPoint ro
      ⦃post⟨fun err st => ⌜MountResult k entry dev mntPoint ro d err st.core⌝,
        fun _ _ => ⌜False⌝⟩⦄ := by
  mvcgen [sysMountDev] <;> grind [MountResult, ENOENT]

@[spec]
theorem lklMountBlockdev_spec (entry : Nat) (dev : DevPath) (mntPoint : String) (ro : Bool)
    (d : Disks) :
    ⦃fun st => ⌜st.core = d⌝⦄ lklMountBlockdev k entry dev mntPoint ro
      ⦃post⟨fun err st => ⌜MountResult k entry dev mntPoint ro d err st.core⌝,
        fun _ _ => ⌜False⌝⟩⦄ := by
  mvcgen [lklMountBlockdev] <;> grind [MountResult]

/-! ## Specifications: the device mapper -/

def Disks.seen (d : Disks) : Nat × List (Nat × Int) × List Mount :=
  (d.numDisks, d.registered, d.mounts)

def HashValid (roothash : List Char) : Prop :=
  (hexToBytes roothash).map List.length = some VOLUME_KEY_SIZE

@[spec]
theorem cryptInit_spec (dev : DevPath) (d : Disks) :
    ⦃fun st => ⌜st.core = d⌝⦄ cryptInit k dev
      ⦃post⟨fun _ st => ⌜st.core = d ∧ d.resolve dev ≠ none⌝,
        fun _ st => ⌜st.core = d ∧ (k.Willing → d.resolve dev = none)⌝⟩⦄ := by
  mvcgen [cryptInit] <;> grind [ENOENT]

def Disks.mapped (d : Disks) (name : String) (dev : DevPath) (layer : Volume → Volume) : Disks :=
  { d with mappings := Function.update d.mappings name ((d.resolve dev).map layer) }

@[spec]
theorem activate_spec (name : String) (dev : DevPath) (layer : Volume → Volume) (d : Disks) :
    ⦃fun st => ⌜st.core = d⌝⦄ activate name dev layer
      ⦃post⟨fun _ st => ⌜st.core = d.mapped name dev layer⌝, fun _ _ => ⌜False⌝⟩⦄ := by
  mvcgen [activate]
  grind [mapped]

/-- What the threads leave behind when they return and when they exit. -/
def VerityActive (dev : DevPath) (roothash : List Char) (roothashOffset : Nat) (d d' : Disks) : Prop :=
  HashValid roothash ∧ d.resolve dev ≠ none
    ∧ d' = d.mapped "verityroot" dev (.verity ((hexToBytes roothash).getD []) roothashOffset)

@[inherit_doc VerityActive]
def VerityFailed (k : Kernel) (dev : DevPath) (roothash : List Char) (d d' : Disks) : Prop :=
  d' = d ∧ (k.Willing → d.resolve dev = none ∨ ¬ HashValid roothash)

@[inherit_doc VerityActive]
def CryptActive (dev : DevPath) (name : String) (key : List UInt8) (d d' : Disks) : Prop :=
  d.resolve dev ≠ none ∧ d'.seen = d.seen ∧ d'.mappings = (d.mapped name dev (.crypt key)).mappings

@[inherit_doc VerityActive]
def CryptFailed (k : Kernel) (dev : DevPath) (d d' : Disks) : Prop :=
  d'.seen = d.seen ∧ (k.Willing → d.resolve dev = none)

theorem lklActivateVerityDiskThread_spec (dev : DevPath) (ro : Bool) (roothash : List Char)
    (roothashOffset : Nat) (d : Disks) :
    ⦃fun st => ⌜st.core = d⌝⦄ lklActivateVerityDiskThread k dev ro roothash roothashOffset
      ⦃post⟨fun _ st => ⌜VerityActive dev roothash roothashOffset d st.core⌝,
        fun _ st => ⌜VerityFailed k dev roothash d st.core⌝⟩⦄ := by
  mvcgen [lklActivateVerityDiskThread] <;> grind [HashValid, VerityActive, VerityFailed]

theorem lklActivateCryptoDiskThread_spec (dev : DevPath) (name : String) (ro : Bool) (entry : Nat)
    (disk : DiskConfig) (d : Disks) :
    ⦃fun st => ⌜st.core = d⌝⦄ lklActivateCryptoDiskThread k dev name ro entry disk
      ⦃post⟨fun _ st => ⌜CryptActive dev name disk.key d st.core⌝,
        fun _ st => ⌜CryptFailed k dev d st.core⌝⟩⦄ := by
  mvcgen [lklActivateCryptoDiskThread, setKey] <;> 
    grind [seen, mapped, CryptActive, CryptFailed]

variable {d : Disks}

theorem lklRunInKernelStack_spec {startRoutine : SetupM Unit} (Q E : Disks → Prop)
    (h : ⦃fun st => ⌜st.core = d⌝⦄ startRoutine
      ⦃post⟨fun _ st => ⌜Q st.core⌝, fun _ st => ⌜E st.core⌝⟩⦄) :
    ⦃fun st => ⌜st.core = d⌝⦄ lklRunInKernelStack k startRoutine
      ⦃post⟨fun _ st => ⌜Q st.core ∨ (¬ k.Willing ∧ st.core = d)⌝,
        fun _ st => ⌜E st.core ∨ (¬ k.Willing ∧ (st.core = d ∨ Q st.core))⌝⟩⦄ := by
  mvcgen [lklRunInKernelStack, h] <;> grind

def verityVolume (disk : DiskConfig) : Volume :=
  match disk.roothash with
  | some roothash => .verity ((hexToBytes roothash).getD []) disk.roothashOffset (.disk 0)
  | none => .disk 0

def rootVolume (disk : DiskConfig) : Volume :=
  if disk.enc then .crypt disk.key (verityVolume disk) else verityVolume disk

def RootReady (disk : DiskConfig) (d : Disks) : Prop :=
  d.registered ≠ [] ∧ ∀ roothash, disk.roothash = some roothash → HashValid roothash

/-- The device `dev` of `d'` is `volume`, unless it does not exist. -/
structure Maps (k : Kernel) (disk : DiskConfig) (volume : Volume) (d : Disks) (dev : DevPath)
    (d' : Disks) : Prop where
  seen : d'.seen = d.seen
  resolves : ∀ v, d'.resolve dev = some v → v = volume ∧ RootReady disk d
  exists_of_willing : k.Willing → d.registered ≠ [] → d'.resolve dev = some volume

theorem Disks.resolve_vd_zero (d : Disks) :
    d.resolve (.vd 0) = if d.registered ≠ [] then some (.disk 0) else none := by
  simp [resolve, length_pos_iff]

variable {disk : DiskConfig}

theorem Maps.raw (d : Disks) (hraw : disk.roothash = none) :
    Maps k disk (verityVolume disk) d (.vd 0) d where
  seen := rfl
  resolves := by
    intro v hv
    rw [resolve_vd_zero] at hv
    split at hv
    · rename_i hreg
      refine ⟨?_, hreg, ?_⟩
      · rw [verityVolume, hraw]
        exact (Option.some.inj hv).symm
      · intro roothash hsome
        rw [hraw] at hsome
        cases hsome
    · cases hv
  exists_of_willing := by
    intro _ hreg
    rw [resolve_vd_zero, if_pos hreg, verityVolume, hraw]

variable {d' d'' : Disks}

theorem Maps.verity {roothash : List Char}
    (hhash : disk.roothash = some roothash) (hnone : d.mappings = fun _ => none)
    (h : VerityActive (.vd 0) roothash disk.roothashOffset d d' ∨ (¬ k.Willing ∧ d' = d))
    (hseen : d''.seen = d'.seen) (hmap : d''.mappings = d'.mappings) :
    Maps k disk (verityVolume disk) d (.mapper "verityroot") d''
      ∧ d''.mappings "cryptroot" = none := by
  rcases h with ⟨hvalid, hex, rfl⟩ | ⟨hk, rfl⟩
  · have hreg : d.registered ≠ [] := by
      rw [resolve_vd_zero] at hex
      by_contra hnil
      exact hex (if_neg (not_not.mpr hnil))
    have hres : d''.resolve (.mapper "verityroot") = some (verityVolume disk) := by
      simp [resolve, hmap, mapped, verityVolume, hhash, hreg, length_pos_iff]
    refine ⟨⟨hseen, ?_, fun _ _ => hres⟩, ?_⟩
    · intro v hv
      rw [hres] at hv
      refine ⟨(Option.some.inj hv).symm, hreg, ?_⟩
      intro roothash' hsome
      rw [hhash] at hsome
      exact Option.some.inj hsome ▸ hvalid
    · simp [hmap, mapped, hnone]
  · have hres : d''.resolve (.mapper "verityroot") = none := by
      simp [resolve, hmap, hnone]
    refine ⟨⟨hseen, ?_, fun h => absurd h hk⟩, by simp [hmap, hnone]⟩
    intro v hv
    rw [hres] at hv
    cases hv

theorem Maps.crypt {dev : DevPath} (henc : disk.enc = true)
    (hmaps : Maps k disk (verityVolume disk) d dev d') (hnone : d'.mappings "cryptroot" = none)
    (h : CryptActive dev "cryptroot" disk.key d' d'' ∨ (¬ k.Willing ∧ d'' = d')) :
    Maps k disk (rootVolume disk) d (.mapper "cryptroot") d'' := by
  rcases h with ⟨hex, hseen, hmap⟩ | ⟨hk, rfl⟩
  · obtain ⟨v, hv⟩ := Option.ne_none_iff_exists'.mp hex
    obtain ⟨rfl, hready⟩ := hmaps.resolves v hv
    have hres : d''.resolve (.mapper "cryptroot") = some (rootVolume disk) := by
      have hupd : d''.mappings "cryptroot" = (d'.resolve dev).map (.crypt disk.key) := by
        simp [hmap, mapped]
      rw [resolve, hupd, hv, rootVolume, if_pos henc]
      rfl
    refine ⟨hseen.trans hmaps.seen, ?_, fun _ _ => hres⟩
    intro v hv
    rw [hres] at hv
    exact ⟨(Option.some.inj hv).symm, hready⟩
  · refine ⟨hmaps.seen, ?_, fun h => absurd h hk⟩
    intro v hv
    rw [resolve, hnone] at hv
    cases hv

theorem mapVerity_spec (entry : Nat) (disk : DiskConfig) (d : Disks)
    (hnone : d.mappings = fun _ => none) :
    ⦃fun st => ⌜st.core = d⌝⦄ mapVerity k entry disk
      ⦃post⟨fun (r : DevPath × Bool) st => ⌜Maps k disk (verityVolume disk) d r.1 st.core
          ∧ st.core.mappings "cryptroot" = none⌝,
        fun _ st => ⌜st.core.seen = d.seen ∧ (k.Willing → ¬ RootReady disk d)⌝⟩⦄ := by
  have hrun (roothash : List Char) := lklRunInKernelStack_spec (k := k)
    (VerityActive (.vd 0) roothash disk.roothashOffset d) (VerityFailed k (.vd 0) roothash d)
    (lklActivateVerityDiskThread_spec (.vd 0) disk.ro roothash disk.roothashOffset d)
  mvcgen [mapVerity, setReadonly, hrun]
  case vc1.h_1 hraw st hst =>
    subst hst
    exact ⟨Maps.raw _ hraw, congrFun hnone _⟩
  case vc3.h_2.post.success hash _ _ _ _ h _ => exact Maps.verity hash hnone h rfl rfl
  case vc4.h_2.post.except.handle hash _ _ _ _ =>
    grind [VerityActive, VerityFailed, RootReady, seen, mapped, resolve_vd_zero]

theorem mapCrypt_spec (entry : Nat) (disk : DiskConfig) (dev : DevPath) (ro : Bool) (d d' : Disks)
    (hmaps : Maps k disk (verityVolume disk) d dev d') (hnone : d'.mappings "cryptroot" = none) :
    ⦃fun st => ⌜st.core = d'⌝⦄ mapCrypt k entry disk dev ro
      ⦃post⟨fun dev st => ⌜Maps k disk (rootVolume disk) d dev st.core⌝,
        fun _ st => ⌜st.core.seen = d.seen ∧ (k.Willing → ¬ RootReady disk d)⌝⟩⦄ := by
  have hrun := lklRunInKernelStack_spec (k := k)
    (CryptActive dev "cryptroot" disk.key d') (CryptFailed k dev d')
    (lklActivateCryptoDiskThread_spec dev "cryptroot" ro entry disk d')
  mvcgen [mapCrypt, hrun]
  case vc2.isTrue.post.success henc _ _ _ _ h => exact Maps.crypt henc hmaps hnone h
  case vc3.isTrue.post.except.handle =>
    have hseen := hmaps.seen
    have hwilling := hmaps.exists_of_willing
    grind [CryptActive, CryptFailed, RootReady]
  case vc4.isFalse hplain st hst =>
    subst hst
    rw [rootVolume, if_neg hplain]
    exact hmaps

/-! ## Specifications: mounting -/

def Mount.key (m : Mount) : Nat × Volume := (m.entry, m.volume)

def RootMounted (entry : Nat) (disk : DiskConfig) (d d' : Disks) : Prop :=
  RootReady disk d ∧ ∃ m : Mount, m.key = (entry, rootVolume disk)
    ∧ d'.seen = (d.numDisks, d.registered, d.mounts ++ [m])

@[spec]
theorem setMounted_spec (entry : Nat) (d : Disks) :
    ⦃fun st => ⌜st.core = d⌝⦄ setMounted entry
      ⦃post⟨fun _ st => ⌜st.core.seen = d.seen⌝, fun _ _ => ⌜False⌝⟩⦄ := by
  mvcgen [setMounted]
  grind [seen]

theorem Maps.mount {entry : Nat} {dev : DevPath} {mntPoint : String} {ro : Bool}
    {err : Int} (hmaps : Maps k disk (rootVolume disk) d dev d')
    (h : MountResult k entry dev mntPoint ro d' err d'') :
    (err < 0 ∧ d''.seen = d.seen ∧ (k.Willing → ¬ RootReady disk d))
      ∨ (0 ≤ err ∧ RootMounted entry disk d d'') := by
  have hseen := hmaps.seen
  rcases h with ⟨herr, rfl, hk⟩ | ⟨v, hv, herr, rfl⟩
  · refine Or.inl ⟨herr, hseen, ?_⟩
    intro hwilling hready
    have hex := hmaps.exists_of_willing hwilling hready.1
    rw [hk hwilling] at hex
    cases hex
  · obtain ⟨rfl, hready⟩ := hmaps.resolves v hv
    simp only [Disks.seen, Prod.mk.injEq] at hseen
    obtain ⟨hnum, hreg, hmounts⟩ := hseen
    refine Or.inr ⟨herr, hready, ⟨entry, dev, rootVolume disk, mntPoint, ro⟩, rfl, ?_⟩
    simp [Disks.seen, hnum, hreg, hmounts]

theorem lklMountRootDisk_spec (entry : Nat) (disk : DiskConfig) (d : Disks)
    (hnone : d.mappings = fun _ => none) :
    ⦃fun st => ⌜st.core = d⌝⦄ lklMountRootDisk k entry disk
      ⦃post⟨fun _ st => ⌜RootMounted entry disk d st.core⌝,
        fun _ st => ⌜(st.core.seen = d.seen ∨ RootMounted entry disk d st.core)
          ∧ (k.Willing → ¬ RootReady disk d)⌝⟩⦄ := by
  have hverity := mapVerity_spec (k := k) entry disk d hnone
  have hcrypt (r : DevPath × Bool) (d' : Disks)
      (h : Maps k disk (verityVolume disk) d r.1 d' ∧ d'.mappings "cryptroot" = none) :=
    mapCrypt_spec entry disk r.1 r.2 d d' h.1 h.2
  mvcgen [lklMountRootDisk, hverity, hcrypt]
  all_goals clear hverity hcrypt
  all_goals grind [RootMounted, → Maps.mount]

def registrations (i : Nat) : List DiskConfig → List (Nat × Int)
  | [] => []
  | d :: ds => if d.fd ≠ -1 then (i, d.fd) :: registrations (i + 1) ds else registrations (i + 1) ds

theorem lklAddDisks_spec (i : Nat) (ds : List DiskConfig) (d : Disks) :
    ⦃fun st => ⌜st.core = d⌝⦄ lklAddDisks k i ds
      ⦃post⟨fun _ st => ⌜st.core = { d with registered := d.registered ++ registrations i ds }⌝,
        fun _ st => ⌜st.core.mounts = d.mounts ∧ ¬ k.Willing⌝⟩⦄ := by
  induction ds generalizing i d with
  | nil =>
    mvcgen [lklAddDisks]
    simp_all [registrations]
  | cons c ds ih =>
    mvcgen [lklAddDisks, ih]
    all_goals simp_all +zetaDelta [registrations]
    all_goals grind

def others (root i : Nat) : List DiskConfig → List Nat
  | [] => []
  | d :: ds =>
    if root = i ∨ d.fd = -1 ∨ 26 ≤ i then others root (i + 1) ds else i :: others root (i + 1) ds

theorem others_eq_nil {root i : Nat} (ds : List DiskConfig) (hi : 26 ≤ i) :
    others root i ds = [] := by
  induction ds generalizing i with
  | nil => rfl
  | cons d ds ih => simp [others, hi, ih (Nat.le_succ_of_le hi)]

def MountedAll (is : List Nat) (d d' : Disks) : Prop :=
  d'.registered = d.registered
    ∧ d'.mounts.map Mount.key = d.mounts.map Mount.key ++ is.map (fun i => (i, .disk i))

def MountedSome (k : Kernel) (is : List Nat) (d d' : Disks) : Prop :=
  ∃ done, done <+: is ∧ MountedAll done d d'
    ∧ (k.Willing → ∃ j ∈ is, d.registered.length ≤ j)

variable {is : List Nat}

theorem MountedAll.trans {js : List Nat} (h : MountedAll is d d')
    (h' : MountedAll js d' d'') : MountedAll (is ++ js) d d'' := by
  refine ⟨h'.1.trans h.1, ?_⟩
  rw [h'.2, h.2, map_append, append_assoc]

theorem MountedAll.then_some {js : List Nat} (h : MountedAll is d d')
    (h' : MountedSome k js d' d'') : MountedSome k (is ++ js) d d'' := by
  obtain ⟨done, hpre, hdone, hk⟩ := h'
  refine ⟨is ++ done, (prefix_append_right_inj is).mpr hpre, h.trans hdone, ?_⟩
  intro hwilling
  obtain ⟨j, hj, hle⟩ := hk hwilling
  exact ⟨j, mem_append_right is hj, h.1 ▸ hle⟩

theorem mountedAll_of_seen (h : d'.seen = d.seen) : MountedAll [] d d' := by
  simp_all [seen, MountedAll]

theorem MountResult.vd {i : Nat} {mntPoint : String} {ro : Bool} {err : Int}
    (h : MountResult k i (.vd i) mntPoint ro d err d') :
    (err < 0 ∧ ∀ js, MountedSome k (i :: js) d d') ∨ (0 ≤ err ∧ MountedAll [i] d d'
      ∧ d'.numDisks = d.numDisks) := by
  rcases h with ⟨herr, rfl, hk⟩ | ⟨v, hv, herr, rfl⟩
  · refine Or.inl ⟨herr, ?_⟩
    intro js
    refine ⟨[], nil_prefix, mountedAll_of_seen rfl, ?_⟩
    intro hwilling
    refine ⟨i, mem_cons_self, ?_⟩
    have hmissing := hk hwilling
    rw [resolve] at hmissing
    by_contra hlt
    rw [if_pos (by omega)] at hmissing
    cases hmissing
  · rw [resolve] at hv
    split at hv
    · cases hv
      exact Or.inr ⟨herr, ⟨rfl, by simp [Mount.key]⟩, rfl⟩
    · cases hv

@[spec]
theorem mountByLetter_spec (i : Nat) (c : DiskConfig) (d : Disks) :
    ⦃fun st => ⌜st.core = d⌝⦄ mountByLetter k i c
      ⦃post⟨fun _ st => ⌜MountedAll [i] d st.core ∧ st.core.numDisks = d.numDisks⌝,
        fun _ st => ⌜∀ js, MountedSome k (i :: js) d st.core⌝⟩⦄ := by
  mvcgen [mountByLetter]
  all_goals grind [→ MountResult.vd, MountedAll, seen]

@[spec]
theorem devicePath_spec (i : Nat) (d : Disks) :
    ⦃fun st => ⌜st.core = d⌝⦄ devicePath i
      ⦃post⟨fun _ st => ⌜MountedAll [] d st.core ∧ (i < 26 → st.core.numDisks = d.numDisks)⌝,
        fun _ _ => ⌜False⌝⟩⦄ := by
  mvcgen [devicePath, fprintf] <;> simp_all +zetaDelta [MountedAll]

/-- **The other disks are mounted by their letters.** Induction on the entries. -/
theorem mountOthers_spec (root i : Nat) (ds : List DiskConfig) (d : Disks)
    (hnum : i < 26 → d.numDisks = i + ds.length) :
    ⦃fun st => ⌜st.core = d⌝⦄ mountOthers k root i ds
      ⦃post⟨fun _ st => ⌜MountedAll (others root i ds) d st.core⌝,
        fun _ st => ⌜MountedSome k (others root i ds) d st.core⌝⟩⦄ := by
  induction ds generalizing i d with
  | nil =>
    mvcgen [mountOthers]
    simp_all [others, MountedAll]
  | cons c ds ih =>
    have hskip (h : root = i ∨ c.fd = -1) : others root i (c :: ds) = [] ++ others root (i + 1) ds :=
      if_pos (h.imp_right Or.inl)
    have htake (h : ¬ (root = i ∨ c.fd = -1)) (hi : ¬ 26 ≤ i) :
        others root i (c :: ds) = [i] ++ others root (i + 1) ds := by
      simp_all [others]
    rw [length_cons] at hnum
    mvcgen [mountOthers, ih, fprintf]
    all_goals clear ih
    all_goals subst_vars
    case vc1.cons.isTrue.post.success.isTrue.post.success h _ hpath _ _ =>
      intro hrest
      exact hskip h ▸ hpath.1.trans hrest
    case vc2.cons.isTrue.post.success.isTrue.post.except.handle h _ hpath _ _ =>
      intro hrest
      exact hskip h ▸ hpath.1.then_some hrest
    case vc3 =>
      rintro st hall hpath hi
      have hsame := hpath (by omega)
      have hlen := hnum (by omega)
      omega
    case vc4.cons.isTrue.post.success.isFalse.isTrue hi _ hpath _ _ =>
      rw [others_eq_nil _ hi]
      exact hpath.1
    case vc5.cons.isTrue.post.success.isFalse.isFalse.post.success.post.success
        h hi _ hpath _ _ hmount _ _ =>
      intro hrest
      exact htake h hi ▸ (hpath.1.trans hmount.1).trans hrest
    case vc6.cons.isTrue.post.success.isFalse.isFalse.post.success.post.except.handle
        h hi _ hpath _ _ hmount _ _ =>
      intro hrest
      exact htake h hi ▸ (hpath.1.trans hmount.1).then_some hrest
    case vc7 hpath _ =>
      rintro st hall hmount hi
      have hsame := hpath.2 (by omega)
      have hlen := hnum (by omega)
      omega
    case vc8.cons.isTrue.post.success.isFalse.isFalse.post.except.handle h hi _ hpath _ _ =>
      intro hrest
      exact htake h hi ▸ hpath.1.then_some (hrest _)
    case vc9.cons.isFalse hge =>
      -- only after entry 26 has been met
      rw [others_eq_nil _ (by grind)]
      exact mountedAll_of_seen rfl

/-! ## The whole run -/

def mountPlan (disks : List DiskConfig) : List (Nat × Volume) :=
  match disks[rootEntry disks]? with
  | none => []
  | some rootDisk =>
    (rootEntry disks, rootVolume rootDisk)
      :: (others (rootEntry disks) 0 disks).map (fun i => (i, .disk i))

def RootHashValid (disks : List DiskConfig) : Prop :=
  ∀ rootDisk, disks[rootEntry disks]? = some rootDisk →
    ∀ roothash, rootDisk.roothash = some roothash → HashValid roothash

/-- Every mount of the plan can be made: there is a root disk, its root hash has the right size,
and every disk has a letter. -/
structure PlanReady (disks : List DiskConfig) : Prop where
  root : disks[rootEntry disks]? ≠ none
  hash : RootHashValid disks
  first : registrations 0 disks ≠ []
  letters : ∀ i ∈ others (rootEntry disks) 0 disks, i < (registrations 0 disks).length

/-- What a run leaves behind in any case: if anything has been mounted, then mounts of the plan
after all disks were registered, and the root hash was of the right size. -/
def PlanKept (disks : List DiskConfig) (d : Disks) : Prop :=
  d.mounts = [] ∨ (d.registered = registrations 0 disks ∧ RootHashValid disks
    ∧ d.mounts.map Mount.key <+: mountPlan disks)

def PlanDone (disks : List DiskConfig) (d : Disks) : Prop :=
  PlanKept disks d ∧ d.mounts.map Mount.key = mountPlan disks

def PlanCut (k : Kernel) (disks : List DiskConfig) (d : Disks) : Prop :=
  PlanKept disks d ∧ (k.Willing → ¬ PlanReady disks)

section FromRoot

/-! The run from the root disk on: `d` is the state after the disks have been registered. -/

variable {disks : List DiskConfig} {rootDisk : DiskConfig} {d d₁ d₂ : Disks}

theorem rootHashValid_of_ready (hroot : disks[rootEntry disks]? = some rootDisk)
    (hready : RootReady rootDisk d) : RootHashValid disks := by
  intro rootDisk' hroot'
  rw [hroot, Option.some.injEq] at hroot'
  exact hroot' ▸ hready.2

theorem RootMounted.then_all (hmounts : d.mounts = []) (hreg : d.registered = registrations 0 disks)
    (hfirst : RootMounted (rootEntry disks) rootDisk d d₁) (hrest : MountedAll is d₁ d₂) :
    d₂.registered = registrations 0 disks ∧ d₂.mounts.map Mount.key
      = (rootEntry disks, rootVolume rootDisk) :: is.map (fun i => (i, .disk i)) := by
  obtain ⟨-, m, hkey, hseen⟩ := hfirst
  simp only [seen, Prod.mk.injEq, hmounts, nil_append] at hseen
  obtain ⟨-, hreg₁, hmounts₁⟩ := hseen
  refine ⟨by rw [hrest.1, hreg₁, hreg], ?_⟩
  rw [hrest.2, hmounts₁, map_cons, map_nil, hkey, cons_append, nil_append]

section

variable (hmounts : d.mounts = []) (hreg : d.registered = registrations 0 disks)
  (hroot : disks[rootEntry disks]? = some rootDisk)

include hmounts hreg hroot

theorem planDone_of_mountedAll (hfirst : RootMounted (rootEntry disks) rootDisk d d₁)
    (hrest : MountedAll (others (rootEntry disks) 0 disks) d₁ d₂) : PlanDone disks d₂ := by
  obtain ⟨hreg₂, hkeys⟩ := hfirst.then_all hmounts hreg hrest
  have hplan : d₂.mounts.map Mount.key = mountPlan disks := by rw [hkeys, mountPlan, hroot]
  exact ⟨Or.inr ⟨hreg₂, rootHashValid_of_ready hroot hfirst.1, hplan ▸ prefix_refl _⟩, hplan⟩

theorem planCut_of_mountedSome (hfirst : RootMounted (rootEntry disks) rootDisk d d₁)
    (hrest : MountedSome k (others (rootEntry disks) 0 disks) d₁ d₂) : PlanCut k disks d₂ := by
  obtain ⟨done, hpre, hdone, hk⟩ := hrest
  obtain ⟨hreg₂, hkeys⟩ := hfirst.then_all hmounts hreg hdone
  refine ⟨Or.inr ⟨hreg₂, rootHashValid_of_ready hroot hfirst.1, ?_⟩, ?_⟩
  · rw [hkeys, mountPlan, hroot]
    exact (prefix_cons_inj _).mpr (hpre.map _)
  · intro hwilling hready
    obtain ⟨j, hj, hle⟩ := hk hwilling
    have hlt := hready.letters j hj
    rw [← hdone.1, hreg₂] at hle
    omega

theorem planCut_of_root (hcut : d₁.seen = d.seen ∨ RootMounted (rootEntry disks) rootDisk d d₁)
    (hk : k.Willing → ¬ RootReady rootDisk d) : PlanCut k disks d₁ := by
  refine ⟨?_, ?_⟩
  · rcases hcut with hseen | hfirst
    · exact Or.inl ((congrArg (fun s => s.2.2) hseen).trans hmounts)
    · obtain ⟨hreg₂, hkeys⟩ := hfirst.then_all hmounts hreg (mountedAll_of_seen rfl)
      refine Or.inr ⟨hreg₂, rootHashValid_of_ready hroot hfirst.1, ?_⟩
      rw [hkeys, mountPlan, hroot]
      exact (prefix_cons_inj _).mpr nil_prefix
  · intro hwilling hready
    exact hk hwilling ⟨hreg ▸ hready.first, hready.hash rootDisk hroot⟩

end

theorem mountFromRoot_spec (cwd : Option String) (d : Disks) (hnone : d.mappings = fun _ => none)
    (hmounts : d.mounts = []) (hnum : d.numDisks = disks.length)
    (hreg : d.registered = registrations 0 disks)
    (hroot : disks[rootEntry disks]? = some rootDisk) :
    ⦃fun st => ⌜st.core = d⌝⦄ mountFromRoot k disks rootDisk cwd
      ⦃post⟨fun _ st => ⌜PlanDone disks st.core⌝, fun _ st => ⌜PlanCut k disks st.core⌝⟩⦄ := by
  have hrootSpec := lklMountRootDisk_spec (k := k) (rootEntry disks) rootDisk d hnone
  have hothers (d₁ : Disks) (h : RootMounted (rootEntry disks) rootDisk d d₁) :=
    mountOthers_spec (k := k) (rootEntry disks) 0 disks d₁ (by grind [RootMounted, seen])
  mvcgen [mountFromRoot, hrootSpec, hothers]
  all_goals clear hrootSpec hothers
  case vc7.post.success.post.except.handle hfirst _ _ =>
    exact planCut_of_mountedSome hmounts hreg hroot hfirst
  case vc8.post.except.handle => exact planCut_of_root hmounts hreg hroot
  all_goals have hdone := planDone_of_mountedAll hmounts hreg hroot ‹_› ‹MountedAll ..›
  all_goals grind [PlanCut, PlanDone]

end FromRoot

/-- **A run makes the mounts of the plan**, or exits with some of them made; a willing kernel
makes it exit only if the plan is not ready. -/
theorem lklMountDisks_spec (disks : List DiskConfig) (cwd : Option String) :
    ⦃fun st => ⌜st = {}⌝⦄ lklMountDisks k disks cwd
      ⦃post⟨fun _ st => ⌜PlanDone disks st.core⌝, fun _ st => ⌜PlanCut k disks st.core⌝⟩⦄ := by
  have hadd (d : Disks) := lklAddDisks_spec (k := k) 0 disks d
  mvcgen [lklMountDisks, hadd, mountFromRoot_spec]
  all_goals clear hadd
  all_goals subst_vars
  all_goals simp_all +zetaDelta [PlanCut, PlanKept]
  -- without a root disk nothing is ready
  all_goals exact fun _ _ hready => hready.root (by simp_all)

end RktIo.Lkl.Setup
