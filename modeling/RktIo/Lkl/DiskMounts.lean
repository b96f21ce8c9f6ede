import RktIo.Lkl.SetupSpec

/-!
# Which device a disk is mounted from

Two properties of whole runs of `lkl_mount_disks`, for every answer of LKL.
-/

namespace RktIo.Lkl.Setup

open Std.Do Shared List

variable {k : Kernel} {disks : List DiskConfig} {cwd : Option String}

def disksAfter (k : Kernel) (disks : List DiskConfig) (cwd : Option String) : Disks :=
  match (lklMountDisks k disks cwd).run {} with
  | .ok _ st => st.core
  | .error _ st => st.core

theorem disksAfter_cases (k : Kernel) (disks : List DiskConfig) (cwd : Option String) :
    PlanDone disks (disksAfter k disks cwd) ∨ PlanCut k disks (disksAfter k disks cwd) := by
  have hwp := lklMountDisks_spec (k := k) disks cwd {} rfl
  unfold disksAfter
  cases hrun : (lklMountDisks k disks cwd).run {} with
  | ok a st =>
    simp only [WP.wp, PredTrans.apply, hrun] at hwp
    exact Or.inl hwp
  | error e st =>
    simp only [WP.wp, PredTrans.apply, hrun] at hwp
    exact Or.inr hwp

theorem planKept_disksAfter (k : Kernel) (disks : List DiskConfig) (cwd : Option String) :
    PlanKept disks (disksAfter k disks cwd) := by
  rcases disksAfter_cases k disks cwd with h | h
  · exact h.1
  · exact h.1

/-! ## The plan -/

variable {ds : List DiskConfig} {i : Nat}

theorem mem_others {root j : Nat} :
    j ∈ others root i ds
      ↔ i ≤ j ∧ j < 26 ∧ j ≠ root ∧ ∃ c, ds[j - i]? = some c ∧ c.fd ≠ -1 := by
  induction ds generalizing i with
  | nil => simp [others]
  | cons d ds ih =>
    rcases Nat.lt_trichotomy j i with hlt | rfl | hgt
    · -- an entry before `i` is not met any more
      have hnot : ¬ (i + 1 ≤ j) := by omega
      unfold others
      split <;> simp [ih, hnot] <;> omega
    · unfold others
      split <;> simp [ih] <;> grind
    · have hsub : j - i = (j - (i + 1)) + 1 := by omega
      have hne : j ≠ i := by omega
      unfold others
      rw [hsub, getElem?_cons_succ]
      split <;> simp [ih, hne] <;> grind

theorem others_nodup (root i : Nat) (ds : List DiskConfig) : (others root i ds).Nodup := by
  induction ds generalizing i with
  | nil => exact nodup_nil
  | cons d ds ih =>
    unfold others
    split
    · exact ih (i + 1)
    · refine nodup_cons.mpr ⟨?_, ih (i + 1)⟩
      intro hmem
      have hle := (mem_others.mp hmem).1
      omega

theorem mem_mountPlan {key : Nat × Volume} :
    key ∈ mountPlan disks ↔ ∃ rootDisk, disks[rootEntry disks]? = some rootDisk
      ∧ (key = (rootEntry disks, rootVolume rootDisk)
        ∨ ∃ i ∈ others (rootEntry disks) 0 disks, key = (i, .disk i)) := by
  unfold mountPlan
  cases disks[rootEntry disks]? with
  | none => simp
  | some rootDisk => simp [eq_comm]

theorem mount_cases {m : Mount} (hm : m ∈ (disksAfter k disks cwd).mounts) :
    (disksAfter k disks cwd).registered = registrations 0 disks ∧ RootHashValid disks
      ∧ ∃ rootDisk, disks[rootEntry disks]? = some rootDisk
        ∧ ((m.entry = rootEntry disks ∧ m.volume = rootVolume rootDisk)
          ∨ (m.entry ∈ others (rootEntry disks) 0 disks ∧ m.volume = .disk m.entry)) := by
  rcases planKept_disksAfter k disks cwd with hnil | ⟨hreg, hhash, hpre⟩
  · rw [hnil] at hm
    cases hm
  · have hplan : m.key ∈ mountPlan disks := hpre.subset (mem_map_of_mem hm)
    obtain ⟨rootDisk, hroot, hkey | ⟨i, hi, hkey⟩⟩ := mem_mountPlan.mp hplan
    · exact ⟨hreg, hhash, rootDisk, hroot, Or.inl (Prod.mk.inj hkey)⟩
    · obtain ⟨rfl, hvol⟩ := Prod.mk.inj hkey
      exact ⟨hreg, hhash, rootDisk, hroot, Or.inr ⟨hi, hvol⟩⟩

/-! ## Protection -/

structure Protected (c : DiskConfig) (volume : Volume) : Prop where
  crypt : c.enc = true → ∃ under, volume = .crypt c.key under
  verity : ∀ roothash, c.roothash = some roothash →
    ∃ hash under, hexToBytes roothash = some hash
      ∧ (volume = .verity hash c.roothashOffset under
        ∨ ∃ key, volume = .crypt key (.verity hash c.roothashOffset under))
  raw : ∀ letter, volume = .disk letter → c.enc = false ∧ c.roothash = none

theorem protected_rootVolume {c : DiskConfig}
    (hhash : ∀ roothash, c.roothash = some roothash → HashValid roothash) :
    Protected c (rootVolume c) where
  crypt := by
    intro henc
    exact ⟨verityVolume c, if_pos henc⟩
  verity := by
    intro roothash hsome
    obtain ⟨hash, hbytes, -⟩ := Option.map_eq_some_iff.mp (hhash roothash hsome)
    refine ⟨hash, .disk 0, hbytes, ?_⟩
    have hverity : verityVolume c = .verity hash c.roothashOffset (.disk 0) := by
      simp [verityVolume, hsome, hbytes]
    unfold rootVolume
    split
    · exact Or.inr ⟨c.key, by rw [hverity]⟩
    · exact Or.inl hverity
  raw := by
    intro letter hraw
    unfold rootVolume verityVolume at hraw
    split at hraw
    · cases hraw
    · rename_i henc
      split at hraw
      · cases hraw
      · rename_i hnone
        exact ⟨Bool.eq_false_iff.mpr henc, hnone⟩

/-- **Protected disks are mounted raw if they are not the root disk.** In every run, whatever LKL
answers, every mount has the dm-crypt and dm-verity layers that the configuration of its disk asks
for, exactly if every disk besides the root disk that is mounted asks for none. -/
theorem mounts_protected_iff (k : Kernel) (disks : List DiskConfig) (cwd : Option String) :
    (∀ m ∈ (disksAfter k disks cwd).mounts,
        ∃ c, disks[m.entry]? = some c ∧ Protected c m.volume)
      ↔ ∀ m ∈ (disksAfter k disks cwd).mounts, m.entry ≠ rootEntry disks →
          ∀ c, disks[m.entry]? = some c → c.enc = false ∧ c.roothash = none := by
  constructor
  · intro hprot m hm hne c hc
    obtain ⟨-, -, rootDisk, -, ⟨hroot, -⟩ | ⟨-, hvol⟩⟩ := mount_cases hm
    · exact absurd hroot hne
    · obtain ⟨c', hc', hprot⟩ := hprot m hm
      rw [hc, Option.some.injEq] at hc'
      subst hc'
      exact hprot.raw m.entry hvol
  · intro hothers m hm
    obtain ⟨-, hhash, rootDisk, hrootDisk, ⟨hroot, hvol⟩ | ⟨hmem, hvol⟩⟩ := mount_cases hm
    · refine ⟨rootDisk, hroot ▸ hrootDisk, ?_⟩
      rw [hvol]
      exact protected_rootVolume (hhash rootDisk hrootDisk)
    · obtain ⟨-, -, hne, c, hc, -⟩ := mem_others.mp hmem
      obtain ⟨henc, hnone⟩ := hothers m hm hne c hc
      refine ⟨c, hc, ?_, ?_, fun _ _ => ⟨henc, hnone⟩⟩
      · intro h
        rw [henc] at h
        cases h
      · intro roothash h
        rw [hnone] at h
        cases h

def willingKernel : Kernel := ⟨fun _ c => c.success⟩

/-- The second disk asks for encryption and is mounted raw. -/
theorem encrypted_disk_mounted_raw :
    (disksAfter willingKernel
        [⟨3, false, "/", false, [], none, 0, false⟩, ⟨4, true, "/data", false, [7], none, 0, false⟩]
        none).mounts.map Mount.key
      = [(0, .disk 0), (1, .disk 1)] := by
  decide +kernel

/-! ## Own devices -/

def HasFd (disks : List DiskConfig) (i : Nat) : Prop := ∃ c, disks[i]? = some c ∧ c.fd ≠ -1

theorem hasFd_cons_succ {d : DiskConfig} : HasFd (d :: ds) (i + 1) ↔ HasFd ds i := by
  simp [HasFd]

theorem hasFd_cons_zero {d : DiskConfig} : HasFd (d :: ds) 0 ↔ d.fd ≠ -1 := by
  simp [HasFd]

theorem le_of_getElem?_registrations {p j : Nat} {f : Int}
    (h : (registrations i ds)[p]? = some (j, f)) : i + p ≤ j := by
  induction ds generalizing i p with
  | nil => simp [registrations] at h
  | cons d ds ih =>
    unfold registrations at h
    split at h
    · cases p with
      | zero =>
        simp only [getElem?_cons_zero, Option.some.injEq, Prod.mk.injEq] at h
        omega
      | succ p =>
        have hle := ih h
        omega
    · have hle := ih h
      omega

/-- **When a disk is registered under its own letter**: all entries up to it have descriptors. -/
theorem getElem?_registrations_self {p : Nat} {f : Int} :
    (registrations i ds)[p]? = some (i + p, f)
      ↔ (∀ q ≤ p, HasFd ds q) ∧ ds[p]?.map DiskConfig.fd = some f := by
  induction ds generalizing i p with
  | nil =>
    simp only [registrations, getElem?_nil, Option.map_none, reduceCtorEq, and_false]
  | cons d ds ih =>
    unfold registrations
    split
    · rename_i hfd
      cases p with
      | zero => simp [hasFd_cons_zero, hfd]
      | succ p =>
        have hsum : i + (p + 1) = (i + 1) + p := by omega
        rw [getElem?_cons_succ, getElem?_cons_succ, hsum, ih]
        refine and_congr_left' ⟨?_, ?_⟩
        · intro hall q hq
          cases q with
          | zero => exact hasFd_cons_zero.mpr hfd
          | succ q => exact hasFd_cons_succ.mpr (hall q (by omega))
        · intro hall q hq
          exact hasFd_cons_succ.mp (hall (q + 1) (by omega))
    · rename_i hfd
      constructor
      · intro h
        have hle := le_of_getElem?_registrations h
        omega
      · rintro ⟨hall, -⟩
        exact absurd (hasFd_cons_zero.mp (hall 0 (Nat.zero_le p))) hfd

theorem mem_registrations {j : Nat} {f : Int} :
    (j, f) ∈ registrations i ds
      ↔ i ≤ j ∧ ∃ c, ds[j - i]? = some c ∧ c.fd ≠ -1 ∧ c.fd = f := by
  induction ds generalizing i with
  | nil => simp [registrations]
  | cons d ds ih =>
    rcases Nat.lt_trichotomy j i with hlt | rfl | hgt
    · unfold registrations
      split <;> simp [ih] <;> omega
    · unfold registrations
      split <;> simp [ih] <;> grind
    · have hsub : j - i = (j - (i + 1)) + 1 := by omega
      have hne : j ≠ i := by omega
      unfold registrations
      rw [hsub, getElem?_cons_succ]
      split <;> simp [ih, hne] <;> grind

def OwnDevice (disks : List DiskConfig) (d : Disks) (m : Mount) : Prop :=
  ∃ c, disks[m.entry]? = some c ∧ d.registered[m.volume.base]? = some (m.entry, c.fd)

def LettersAgree (disks : List DiskConfig) : Prop :=
  (rootEntry disks = 0 ∧ ∀ i, HasFd disks i → ∀ j < i, HasFd disks j)
    ∨ ∀ i, HasFd disks i → i = rootEntry disks

theorem base_rootVolume (c : DiskConfig) : (rootVolume c).base = 0 := by
  unfold rootVolume verityVolume
  split <;> split <;> rfl

theorem LettersAgree.root (h : LettersAgree disks) {rootDisk : DiskConfig}
    (hroot : disks[rootEntry disks]? = some rootDisk) (hfd : rootDisk.fd ≠ -1) :
    (registrations 0 disks)[0]? = some (rootEntry disks, rootDisk.fd) := by
  rcases h with ⟨hzero, -⟩ | honly
  · have hself := @getElem?_registrations_self disks 0 0 rootDisk.fd
    rw [hzero] at hroot ⊢
    refine hself.mpr ⟨?_, by rw [hroot]; rfl⟩
    intro q hq
    obtain rfl : q = 0 := Nat.le_zero.mp hq
    exact ⟨rootDisk, hroot, hfd⟩
  · have hmem : (rootEntry disks, rootDisk.fd) ∈ registrations 0 disks :=
      mem_registrations.mpr ⟨Nat.zero_le _, rootDisk, hroot, hfd, rfl⟩
    obtain ⟨⟨j, f⟩, rest, hcons⟩ := exists_cons_of_ne_nil (ne_nil_of_mem hmem)
    have hhead : (j, f) ∈ registrations 0 disks := by simp [hcons]
    obtain ⟨-, c, hc, hcfd, rfl⟩ := mem_registrations.mp hhead
    obtain rfl : j = rootEntry disks := honly j ⟨c, hc, hcfd⟩
    rw [Nat.sub_zero, hroot, Option.some.injEq] at hc
    rw [hcons, hc]
    rfl

theorem LettersAgree.other (h : LettersAgree disks) {c : DiskConfig} (hne : i ≠ rootEntry disks)
    (hc : disks[i]? = some c) (hcfd : c.fd ≠ -1) :
    (registrations 0 disks)[i]? = some (i, c.fd) := by
  have hhas : HasFd disks i := ⟨c, hc, hcfd⟩
  rcases h with ⟨-, hbefore⟩ | honly
  · have hself := @getElem?_registrations_self disks 0 i c.fd
    rw [Nat.zero_add] at hself
    refine hself.mpr ⟨?_, by rw [hc]; rfl⟩
    intro q hq
    rcases Nat.lt_or_eq_of_le hq with hlt | rfl
    · exact hbefore i hhas q hlt
    · exact hhas
  · exact absurd (honly i hhas) hne

theorem lettersAgree_of_registered (rootDisk : DiskConfig)
    (hfirst : (registrations 0 disks)[0]? = some (rootEntry disks, rootDisk.fd))
    (hothers : ∀ i c, disks[i]? = some c → c.fd ≠ -1 → i ≠ rootEntry disks →
      (registrations 0 disks)[i]? = some (i, c.fd)) : LettersAgree disks := by
  by_cases honly : ∀ i, HasFd disks i → i = rootEntry disks
  · exact Or.inr honly
  · push Not at honly
    obtain ⟨i, ⟨c, hc, hcfd⟩, hne⟩ := honly
    have hupto : ∀ i c, disks[i]? = some c → c.fd ≠ -1 → i ≠ rootEntry disks →
        ∀ q ≤ i, HasFd disks q := by
      intro i c hc hcfd hne
      have hself := @getElem?_registrations_self disks 0 i c.fd
      rw [Nat.zero_add] at hself
      exact (hself.mp (hothers i c hc hcfd hne)).1
    -- the first entry has a descriptor, so it is the first to be registered
    obtain ⟨c₀, hc₀, hfd₀⟩ := hupto i c hc hcfd hne 0 (Nat.zero_le i)
    have hself₀ : (registrations 0 disks)[0]? = some (0 + 0, c₀.fd) := by
      refine getElem?_registrations_self.mpr ⟨?_, by rw [hc₀]; rfl⟩
      intro q hq
      obtain rfl : q = 0 := Nat.le_zero.mp hq
      exact ⟨c₀, hc₀, hfd₀⟩
    rw [hfirst, Option.some.injEq, Prod.mk.injEq] at hself₀
    refine Or.inl ⟨hself₀.1, ?_⟩
    rintro j ⟨c', hc', hfd'⟩ q hq
    refine hupto j c' hc' hfd' ?_ q (Nat.le_of_lt hq)
    rw [hself₀.1]
    omega

/-- **A willing kernel makes every mount of a plan that is ready.** -/
theorem mounts_of_ready (hk : k.Willing) (hready : PlanReady disks) :
    (disksAfter k disks cwd).mounts.map Mount.key = mountPlan disks := by
  rcases disksAfter_cases k disks cwd with hdone | hcut
  · exact hdone.2
  · exact absurd hready (hcut.2 hk)

def timesMounted (d : Disks) (i : Nat) : Nat := (d.mounts.map Mount.entry).count i

theorem count_mountPlan {rootDisk : DiskConfig} (hlen : disks.length ≤ 26)
    (hroot : disks[rootEntry disks]? = some rootDisk) (hi : HasFd disks i) :
    ((mountPlan disks).map Prod.fst).count i = 1 := by
  have hentries : (mountPlan disks).map Prod.fst
      = rootEntry disks :: others (rootEntry disks) 0 disks := by
    simp [mountPlan, hroot, Function.comp_def]
  have hnotin : rootEntry disks ∉ others (rootEntry disks) 0 disks := by
    intro hmem
    exact (mem_others.mp hmem).2.2.1 rfl
  have hnodup := List.nodup_cons.mpr ⟨hnotin, others_nodup (rootEntry disks) 0 disks⟩
  rw [hentries]
  refine List.count_eq_one_of_mem hnodup ?_
  obtain ⟨c, hc, hfd⟩ := hi
  have hlt : i < disks.length := (List.getElem?_eq_some_iff.mp hc).1
  rcases eq_or_ne i (rootEntry disks) with rfl | hne
  · exact List.mem_cons_self
  · exact List.mem_cons_of_mem _ (mem_others.mpr ⟨Nat.zero_le i, by omega, hne, c, hc, hfd⟩)

theorem planReady_of_lettersAgree {rootDisk : DiskConfig}
    (hroot : disks[rootEntry disks]? = some rootDisk) (hfd : rootDisk.fd ≠ -1)
    (hhash : RootHashValid disks) (hletters : LettersAgree disks) : PlanReady disks where
  root := by
    rw [hroot]
    exact Option.some_ne_none rootDisk
  hash := hhash
  first := by
    intro hnil
    have hfirst := hletters.root hroot hfd
    rw [hnil] at hfirst
    cases hfirst
  letters := by
    intro i hi
    obtain ⟨-, -, hne, c, hc, hcfd⟩ := mem_others.mp hi
    exact (List.getElem?_eq_some_iff.mp (hletters.other hne hc hcfd)).1

/-- **Each disk is mounted once and from its own device, if the letters agree.** For every array
of at most 26 disks whose root disk has a descriptor: every mount, whatever LKL answers, is made
from the device that was registered for its entry, and every disk with a descriptor is mounted
exactly once if LKL does what it is asked for, exactly if the root hash of the root disk has the
right size and

* the root disk is the first of the array, and all disks before one with a descriptor have one, or
* no other disk has a descriptor. -/
theorem mounts_own_device_iff (disks : List DiskConfig) (rootDisk : DiskConfig)
    (hlen : disks.length ≤ 26) (hroot : disks[rootEntry disks]? = some rootDisk)
    (hfd : rootDisk.fd ≠ -1) :
    ((∀ k cwd, ∀ m ∈ (disksAfter k disks cwd).mounts, OwnDevice disks (disksAfter k disks cwd) m)
        ∧ ∀ k cwd, k.Willing → ∀ i, HasFd disks i → timesMounted (disksAfter k disks cwd) i = 1)
      ↔ RootHashValid disks ∧ LettersAgree disks := by
  constructor
  · rintro ⟨hown, honce⟩
    have hwilling : willingKernel.Willing := fun _ _ => rfl
    -- a willing kernel mounts every entry with a descriptor, each from its own device
    have hmounted : ∀ i, HasFd disks i → ∃ m ∈ (disksAfter willingKernel disks none).mounts,
        m.entry = i := by
      intro i hi
      have hcount := honce willingKernel none hwilling i hi
      have hmem : i ∈ (disksAfter willingKernel disks none).mounts.map Mount.entry := by
        refine List.count_pos_iff.mp ?_
        rw [timesMounted] at hcount
        omega
      exact List.mem_map.mp hmem
    obtain ⟨m, hm, hentry⟩ := hmounted (rootEntry disks) ⟨rootDisk, hroot, hfd⟩
    obtain ⟨hreg, hhash, -⟩ := mount_cases hm
    refine ⟨hhash, lettersAgree_of_registered rootDisk ?_ ?_⟩
    · obtain ⟨-, -, rootDisk', hroot', ⟨-, hvol⟩ | ⟨hmem, -⟩⟩ := mount_cases hm
      · obtain ⟨c, hc, hregistered⟩ := hown willingKernel none m hm
        rw [hentry, hroot, Option.some.injEq] at hc
        rw [hvol, base_rootVolume, hreg, hentry, ← hc] at hregistered
        exact hregistered
      · exact absurd hentry (mem_others.mp hmem).2.2.1
    · intro i c hc hcfd hne
      obtain ⟨m', hm', rfl⟩ := hmounted i ⟨c, hc, hcfd⟩
      obtain ⟨-, -, -, -, ⟨heq, -⟩ | ⟨-, hvol⟩⟩ := mount_cases hm'
      · exact absurd heq hne
      · obtain ⟨c', hc', hregistered⟩ := hown willingKernel none m' hm'
        rw [hc, Option.some.injEq] at hc'
        rw [hvol, hreg, ← hc'] at hregistered
        exact hregistered
  · rintro ⟨hhash, hletters⟩
    constructor
    · intro k cwd m hm
      obtain ⟨hreg, -, rootDisk', hroot', ⟨hentry, hvol⟩ | ⟨hmem, hvol⟩⟩ := mount_cases hm
      · refine ⟨rootDisk, hentry ▸ hroot, ?_⟩
        rw [hvol, base_rootVolume, hreg, hentry]
        exact hletters.root hroot hfd
      · obtain ⟨-, -, hne, c, hc, hcfd⟩ := mem_others.mp hmem
        refine ⟨c, hc, ?_⟩
        rw [hvol, hreg]
        exact hletters.other hne hc hcfd
    · intro k cwd hk i hi
      have hready := planReady_of_lettersAgree hroot hfd hhash hletters
      have hentries : (disksAfter k disks cwd).mounts.map Mount.entry
          = (mountPlan disks).map Prod.fst := by
        rw [← mounts_of_ready hk hready, List.map_map]
        rfl
      rw [timesMounted, hentries]
      exact count_mountPlan hlen hroot hi

def threeDisks : List DiskConfig :=
  [⟨3, false, "/", false, [], none, 0, false⟩, ⟨4, false, "/data", false, [], none, 0, false⟩,
    ⟨-1, false, "/spare", false, [], none, 0, false⟩]

theorem mounts_own_device_iff_three :
    threeDisks.length ≤ 26
      ∧ ∀ k cwd, k.Willing → timesMounted (disksAfter k threeDisks cwd) 1 = 1 := by
  refine ⟨by decide, ?_⟩
  intro k cwd hk
  refine ((mounts_own_device_iff threeDisks ⟨3, false, "/", false, [], none, 0, false⟩ (by decide)
    rfl (by decide)).mpr ⟨?_, Or.inl ⟨rfl, ?_⟩⟩).2 k cwd hk 1 ⟨_, rfl, by decide⟩
  · intro rootDisk hroot roothash hsome
    cases hroot
    cases hsome
  · rintro i ⟨c, hc, hcfd⟩ j hj
    match i with
    | 0 => omega
    | 1 =>
      obtain rfl : j = 0 := by omega
      exact ⟨_, rfl, by decide⟩
    | 2 =>
      cases hc
      exact absurd rfl hcfd
    | n + 3 => cases hc

/-- The root disk is the second of the array: it is mounted from the device of the first disk,
which is mounted from it as well. -/
theorem root_disk_mounted_from_first :
    (disksAfter willingKernel
        [⟨3, false, "/data", false, [], none, 0, false⟩, ⟨4, false, "/", false, [], none, 0, false⟩]
        none).mounts.map Mount.key = [(1, .disk 0), (0, .disk 0)]
      ∧ (disksAfter willingKernel
        [⟨3, false, "/data", false, [], none, 0, false⟩, ⟨4, false, "/", false, [], none, 0, false⟩]
        none).registered = [(0, 3), (1, 4)] := by
  decide +kernel

end RktIo.Lkl.Setup
