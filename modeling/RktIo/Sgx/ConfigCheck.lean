import RktIo.Lib.Region

/-!
# The check of the untrusted configuration (`sgx/sgx_enclave_config.c`)

`enclave_config_copy_and_check` copies the configuration that the host supplies and tests the
buffers it refers to with `in_enclave_range`. The range test is a parameter of the model, so
that the check can also be looked at with another one. Allocations succeed.
-/

namespace RktIo.Sgx

abbrev Word := BitVec 64

/-! ## The enclave and the memory around it -/

structure EnclaveParms where
  base : Word
  enclaveSize : Word

def EnclaveParms.Contains (p : EnclaveParms) (x : Word) : Prop :=
  p.base.toNat ≤ x.toNat ∧ x.toNat < p.base.toNat + p.enclaveSize.toNat

instance (p : EnclaveParms) (x : Word) : Decidable (p.Contains x) :=
  inferInstanceAs (Decidable (_ ∧ _))

def inEnclaveRange (p : EnclaveParms) (addr len : Word) : Bool :=
  decide (p.base ≤ addr ∧ addr + len < p.base + p.enclaveSize)

abbrev Memory := Word → BitVec 8

def Memory.load64 (mem : Memory) (a : Word) : Word :=
  mem (a + 7) ++ mem (a + 6) ++ mem (a + 5) ++ mem (a + 4) ++ mem (a + 3) ++ mem (a + 2) ++
    mem (a + 1) ++ mem a

def Memory.strlenFrom (mem : Memory) (s : Word) : Nat → Option Nat
  | 0 => none
  | fuel + 1 => if mem s = 0 then some 0 else (mem.strlenFrom (s + 1) fuel).map (· + 1)

def Memory.strlen (mem : Memory) (s : Word) : Option Nat := mem.strlenFrom s (2 ^ 64)

def Memory.bytes (mem : Memory) (s : Word) (n : Nat) : List (BitVec 8) :=
  (List.range n).map fun j => mem (s + BitVec.ofNat 64 j)

/-! ## The configuration -/

/-- `enclave_config_t`, as far as it is checked here or used for host calls. -/
structure EnclaveConfig where
  syscallpage : Word
  maxsyscalls : Word
  syscallq : Word
  returnq : Word
  numDisks : Word
  disks : Word
  vvar : Word
  kernelCmd : Word
  sysctl : Word
  wgKey : Word
  numPeers : Word
  peers : Word
  quoteTargetInfo : Word
  report : Word

abbrev SafeStr := Option (List (BitVec 8))

structure SafePeer where
  key : SafeStr
  allowedIps : SafeStr
  endpoint : SafeStr

structure SafeConfig where
  base : Word
  untrusted : EnclaveConfig
  kernelCmd : SafeStr
  sysctl : SafeStr
  wgKey : SafeStr
  peers : List SafePeer

def pageSize : Nat := 4096

/-- `sizeof(struct mpmcq)`, `sizeof(enclave_disk_config_t)`, `sizeof(enclave_wg_peer_config_t)`,
`sizeof(sgx_target_info_t)` and `sizeof(sgx_report_t)` -/
def mpmcqSize : Nat := 576
def diskConfigSize : Nat := 328
def peerSize : Nat := 24
def targetInfoSize : Nat := 512
def reportSize : Nat := 432

section Check

variable (test : Word → Word → Bool) (mem : Memory)

def failIfInside (addr : Word) (len : Nat) : Option Unit :=
  if test addr (BitVec.ofNat 64 len) then none else some ()

def enclaveSafeStrCopy (s : Word) : Option SafeStr :=
  if s = 0 then some none
  else do
    let len ← mem.strlen s
    failIfInside test s len
    return some (mem.bytes s len)

def peerAddr (peers : Word) (i : Nat) : Word := peers + BitVec.ofNat 64 (peerSize * i)

def copyPeer (peers : Word) (i : Nat) : Option SafePeer := do
  let key ← enclaveSafeStrCopy test mem (mem.load64 (peerAddr peers i))
  let allowedIps ← enclaveSafeStrCopy test mem (mem.load64 (peerAddr peers i + 8))
  let endpoint ← enclaveSafeStrCopy test mem (mem.load64 (peerAddr peers i + 16))
  return ⟨key, allowedIps, endpoint⟩

/-- `enclave_config_copy_and_check`; `none` when it does not return. The loop over the peers
counts with an `int`, which overflows from `2 ^ 31` peers on. -/
def enclaveConfigCopyAndCheck (p : EnclaveParms) (c : EnclaveConfig) : Option SafeConfig := do
  failIfInside test c.syscallpage pageSize
  failIfInside test c.syscallq mpmcqSize
  failIfInside test c.returnq mpmcqSize
  failIfInside test c.disks (diskConfigSize * c.numDisks.toNat)
  if c.vvar ≠ 0 then failIfInside test c.vvar pageSize
  let kernelCmd ← enclaveSafeStrCopy test mem c.kernelCmd
  let sysctl ← enclaveSafeStrCopy test mem c.sysctl
  let wgKey ← enclaveSafeStrCopy test mem c.wgKey
  guard (c.numPeers.toNat < 2 ^ 31)
  let peers ← (List.range c.numPeers.toNat).mapM (copyPeer test mem c.peers)
  failIfInside test c.quoteTargetInfo targetInfoSize
  failIfInside test c.report reportSize
  return ⟨p.base, c, kernelCmd, sysctl, wgKey, peers⟩

end Check

/-! ## What it tests -/

structure Range where
  start : Word
  len : Nat

namespace EnclaveConfig

def buffers (c : EnclaveConfig) : List Range :=
  [⟨c.syscallpage, pageSize⟩, ⟨c.syscallq, mpmcqSize⟩, ⟨c.returnq, mpmcqSize⟩,
    ⟨c.disks, diskConfigSize * c.numDisks.toNat⟩, ⟨c.quoteTargetInfo, targetInfoSize⟩,
    ⟨c.report, reportSize⟩] ++ if c.vvar = 0 then [] else [⟨c.vvar, pageSize⟩]

def peerStrings (mem : Memory) (peers : Word) (i : Nat) : List Word :=
  [mem.load64 (peerAddr peers i), mem.load64 (peerAddr peers i + 8),
    mem.load64 (peerAddr peers i + 16)]

def strings (c : EnclaveConfig) (mem : Memory) : List Word :=
  [c.kernelCmd, c.sysctl, c.wgKey] ++
    (List.range c.numPeers.toNat).flatMap (peerStrings mem c.peers)

def Tested (c : EnclaveConfig) (mem : Memory) (r : Range) : Prop :=
  r ∈ c.buffers ∨ r.start ∈ c.strings mem ∧ r.start ≠ 0 ∧ mem.strlen r.start = some r.len

/-- The check comes to an end: its strings do, and its loop does not overflow. -/
structure Terminates (c : EnclaveConfig) (mem : Memory) : Prop where
  strings : ∀ s ∈ c.strings mem, s ≠ 0 → ∃ n, mem.strlen s = some n
  peers : c.numPeers.toNat < 2 ^ 31

end EnclaveConfig

variable {p : EnclaveParms}

section Check

variable {test : Word → Word → Bool} {mem : Memory}

def StrPasses (test : Word → Word → Bool) (mem : Memory) (s : Word) : Prop :=
  s ≠ 0 → ∃ n, mem.strlen s = some n ∧ test s (BitVec.ofNat 64 n) = false

theorem failIfInside_isSome {addr : Word} {len : Nat} :
    (failIfInside test addr len).isSome ↔ test addr (BitVec.ofNat 64 len) = false := by
  unfold failIfInside
  split <;> simp_all

theorem enclaveSafeStrCopy_isSome {s : Word} :
    (enclaveSafeStrCopy test mem s).isSome ↔ StrPasses test mem s := by
  unfold enclaveSafeStrCopy StrPasses
  by_cases hs : s = 0
  · simp [hs]
  · cases hlen : mem.strlen s with
    | none => simp
    | some n =>
      have hfail : (failIfInside test s n).isSome ↔ test s (BitVec.ofNat 64 n) = false :=
        failIfInside_isSome
      cases hcase : failIfInside test s n <;> simp_all

theorem isSome_mapM {α β : Type} {f : α → Option β} (l : List α) :
    (l.mapM f).isSome ↔ ∀ x ∈ l, (f x).isSome := by
  induction l with
  | nil => simp
  | cons x l ih =>
    cases hx : f x with
    | none => simp [hx]
    | some y =>
      cases hl : l.mapM f with
      | none => simp_all
      | some ys => simp_all

theorem isSome_bind {α β : Type} {o : Option α} {f : α → Option β} {q : Prop}
    (hf : ∀ x, (f x).isSome ↔ q) : (o.bind f).isSome ↔ o.isSome ∧ q := by
  cases o with
  | none => simp
  | some x => simp [hf x]

theorem copyPeer_isSome {peers : Word} {i : Nat} : (copyPeer test mem peers i).isSome ↔
    ∀ s ∈ EnclaveConfig.peerStrings mem peers i, StrPasses test mem s := by
  have h : (copyPeer test mem peers i).isSome ↔
      (enclaveSafeStrCopy test mem (mem.load64 (peerAddr peers i))).isSome ∧
      (enclaveSafeStrCopy test mem (mem.load64 (peerAddr peers i + 8))).isSome ∧
      (enclaveSafeStrCopy test mem (mem.load64 (peerAddr peers i + 16))).isSome := by
    refine isSome_bind fun key => isSome_bind fun ips => ?_
    cases enclaveSafeStrCopy test mem (mem.load64 (peerAddr peers i + 16)) <;> simp
  rw [h]
  simp [EnclaveConfig.peerStrings, enclaveSafeStrCopy_isSome]

theorem isSome_guard {q : Prop} [Decidable q] : (guard q : Option Unit).isSome ↔ q := by
  by_cases hq : q <;> simp [guard, hq]

theorem copyAndCheck_isSome_iff_passes {c : EnclaveConfig} :
    (enclaveConfigCopyAndCheck test mem p c).isSome ↔
      (∀ r ∈ c.buffers, test r.start (BitVec.ofNat 64 r.len) = false) ∧
      (∀ s ∈ c.strings mem, StrPasses test mem s) ∧ c.numPeers.toNat < 2 ^ 31 := by
  have h : (enclaveConfigCopyAndCheck test mem p c).isSome ↔
      (failIfInside test c.syscallpage pageSize).isSome ∧
      (failIfInside test c.syscallq mpmcqSize).isSome ∧
      (failIfInside test c.returnq mpmcqSize).isSome ∧
      (failIfInside test c.disks (diskConfigSize * c.numDisks.toNat)).isSome ∧
      (if c.vvar ≠ 0 then failIfInside test c.vvar pageSize else some ()).isSome ∧
      (enclaveSafeStrCopy test mem c.kernelCmd).isSome ∧
      (enclaveSafeStrCopy test mem c.sysctl).isSome ∧
      (enclaveSafeStrCopy test mem c.wgKey).isSome ∧
      (guard (c.numPeers.toNat < 2 ^ 31) : Option Unit).isSome ∧
      ((List.range c.numPeers.toNat).mapM (copyPeer test mem c.peers)).isSome ∧
      (failIfInside test c.quoteTargetInfo targetInfoSize).isSome ∧
      (failIfInside test c.report reportSize).isSome := by
    unfold enclaveConfigCopyAndCheck
    refine isSome_bind fun _ => isSome_bind fun _ => isSome_bind fun _ => isSome_bind fun _ => ?_
    have hrest : ∀ u : Unit, Option.isSome (do
        let kernelCmd ← enclaveSafeStrCopy test mem c.kernelCmd
        let sysctl ← enclaveSafeStrCopy test mem c.sysctl
        let wgKey ← enclaveSafeStrCopy test mem c.wgKey
        guard (c.numPeers.toNat < 2 ^ 31)
        let peers ← (List.range c.numPeers.toNat).mapM (copyPeer test mem c.peers)
        failIfInside test c.quoteTargetInfo targetInfoSize
        failIfInside test c.report reportSize
        return (⟨p.base, c, kernelCmd, sysctl, wgKey, peers⟩ : SafeConfig)) ↔ _ := fun _ =>
      isSome_bind fun _ => isSome_bind fun _ => isSome_bind fun _ => isSome_bind fun _ =>
        isSome_bind fun _ => isSome_bind fun _ => (isSome_bind (q := True) fun _ => by simp).trans
          (iff_of_eq (and_true _))
    by_cases hv : c.vvar = 0
    · simp only [hv, ne_eq, not_true_eq_false, if_false, Option.isSome_some, true_and]
      exact hrest ()
    · simp only [hv, ne_eq, not_false_eq_true, if_true]
      exact isSome_bind hrest
  rw [h]
  simp only [failIfInside_isSome, enclaveSafeStrCopy_isSome, isSome_guard, isSome_mapM,
    copyPeer_isSome, EnclaveConfig.buffers, EnclaveConfig.strings]
  have hvvar : (if c.vvar ≠ 0 then failIfInside test c.vvar pageSize else some ()).isSome ↔
      ∀ r ∈ (if c.vvar = 0 then [] else [⟨c.vvar, pageSize⟩] : List Range),
        test r.start (BitVec.ofNat 64 r.len) = false := by
    by_cases hv : c.vvar = 0
    · rw [if_neg (not_not.mpr hv), if_pos hv]
      simp
    · rw [if_pos hv, if_neg hv, failIfInside_isSome]
      simp
  rw [hvvar]
  simp only [List.forall_mem_append, List.forall_mem_cons, List.mem_flatMap]
  constructor
  · rintro ⟨h₁, h₂, h₃, h₄, hv, s₁, s₂, s₃, hg, hp, h₅, h₆⟩
    exact ⟨⟨⟨h₁, h₂, h₃, h₄, h₅, h₆, by simp⟩, hv⟩,
      ⟨⟨s₁, s₂, s₃, by simp⟩, fun s ⟨i, hi, hs⟩ => hp i hi s hs⟩, hg⟩
  · rintro ⟨⟨⟨h₁, h₂, h₃, h₄, h₅, h₆, -⟩, hv⟩, ⟨⟨s₁, s₂, s₃, -⟩, hp⟩, hg⟩
    exact ⟨h₁, h₂, h₃, h₄, hv, s₁, s₂, s₃, hg, fun i hi s hs => hp s ⟨i, hi, hs⟩, h₅, h₆⟩

theorem copyAndCheck_isSome_iff {c : EnclaveConfig} :
    (enclaveConfigCopyAndCheck test mem p c).isSome ↔
      c.Terminates mem ∧ ∀ r, c.Tested mem r → test r.start (BitVec.ofNat 64 r.len) = false := by
  rw [copyAndCheck_isSome_iff_passes]
  constructor
  · rintro ⟨hbuffers, hstrings, hpeers⟩
    refine ⟨⟨fun s hs hne => ?_, hpeers⟩, ?_⟩
    · obtain ⟨n, hn, -⟩ := hstrings s hs hne
      exact ⟨n, hn⟩
    · rintro r (hr | ⟨hs, hne, hlen⟩)
      · exact hbuffers r hr
      · obtain ⟨n, hn, hpass⟩ := hstrings r.start hs hne
        cases hn.symm.trans hlen
        exact hpass
  · rintro ⟨hterm, htested⟩
    refine ⟨fun r hr => htested r (.inl hr), fun s hs hne => ?_, hterm.peers⟩
    obtain ⟨n, hn⟩ := hterm.strings s hs hne
    exact ⟨n, hn, htested ⟨s, n⟩ (.inr ⟨hs, hne, hn⟩)⟩

end Check

/-! ## What the range test says -/

def Range.Outside (r : Range) (p : EnclaveParms) : Prop :=
  ∀ x, Region.Mem r.start r.len x → ¬ p.Contains x

/-- The range meets the enclave and does not lie in it as `in_enclave_range` tests it: it starts
below and reaches beyond `base`; or it starts inside and its end, modulo `2 ^ 64`, is not below
the end of the enclave; or it starts above and comes round beyond `base`. -/
def Range.Crosses (r : Range) (p : EnclaveParms) : Prop :=
  0 < r.len ∧ 0 < p.enclaveSize.toNat ∧
    (r.start.toNat < p.base.toNat ∧ p.base.toNat < r.start.toNat + r.len ∨
      p.Contains r.start ∧ (p.base.toNat + p.enclaveSize.toNat) % 2 ^ 64 ≤
        (r.start.toNat + r.len) % 2 ^ 64 ∨
      p.base.toNat + p.enclaveSize.toNat ≤ r.start.toNat ∧
        2 ^ 64 + p.base.toNat < r.start.toNat + r.len)

theorem inEnclaveRange_iff {addr : Word} {n : Nat} :
    inEnclaveRange p addr (BitVec.ofNat 64 n) = true ↔ p.base.toNat ≤ addr.toNat ∧
      (addr.toNat + n) % 2 ^ 64 < (p.base.toNat + p.enclaveSize.toNat) % 2 ^ 64 := by
  simp only [inEnclaveRange, decide_eq_true_eq, BitVec.le_def, BitVec.lt_def, BitVec.toNat_add,
    BitVec.toNat_ofNat, Nat.add_mod_mod]

theorem Range.outside_iff {r : Range} : r.Outside p ↔
    r.len = 0 ∨ p.enclaveSize.toNat = 0 ∨ r.start.toNat + r.len ≤ p.base.toNat ∨
      p.base.toNat + p.enclaveSize.toNat ≤ r.start.toNat ∧
        r.start.toNat + r.len ≤ 2 ^ 64 + p.base.toNat :=
  Region.disjoint_interval_iff p.base.isLt

theorem Range.outside_iff_not_crosses {r : Range}
    (hpass : inEnclaveRange p r.start (BitVec.ofNat 64 r.len) = false) :
    r.Outside p ↔ ¬ r.Crosses p := by
  have hnot : ¬ (p.base.toNat ≤ r.start.toNat ∧ (r.start.toNat + r.len) % 2 ^ 64 <
      (p.base.toNat + p.enclaveSize.toNat) % 2 ^ 64) := by
    rw [← inEnclaveRange_iff, hpass]
    simp
  rw [Range.outside_iff, Range.Crosses, EnclaveParms.Contains]
  omega

/-! ## What the check says -/

/-- **The configuration check.** A configuration that it returns keeps all that it has tested
outside the enclave, exactly if the check does not come to an end, or finds a range inside the
enclave, or no range that it tests crosses the bounds of the enclave. -/
theorem config_check_keeps_out_iff (p : EnclaveParms) (mem : Memory) (c : EnclaveConfig) :
    ((enclaveConfigCopyAndCheck (inEnclaveRange p) mem p c).isSome →
        ∀ r, c.Tested mem r → r.Outside p) ↔
      (c.Terminates mem →
        (∃ r, c.Tested mem r ∧ inEnclaveRange p r.start (BitVec.ofNat 64 r.len) = true) ∨
        ∀ r, c.Tested mem r → ¬ r.Crosses p) := by
  rw [copyAndCheck_isSome_iff]
  constructor
  · intro h hterm
    by_cases hin : ∃ r, c.Tested mem r ∧ inEnclaveRange p r.start (BitVec.ofNat 64 r.len) = true
    · exact .inl hin
    · push Not at hin
      have hpass := fun r hr => Bool.eq_false_of_not_eq_true (hin r hr)
      exact .inr fun r hr =>
        (Range.outside_iff_not_crosses (hpass r hr)).mp (h ⟨hterm, hpass⟩ r hr)
  · rintro h ⟨hterm, hpass⟩ r hr
    rcases h hterm with ⟨r', hr', hin⟩ | hcross
    · cases (hpass r' hr').symm.trans hin
    · exact (Range.outside_iff_not_crosses (hpass r hr)).mpr (hcross r hr)

def plainConfig (syscallpage : Word) : EnclaveConfig where
  syscallpage := syscallpage
  maxsyscalls := 1
  syscallq := 0x1000
  returnq := 0x2000
  numDisks := 0
  disks := 0x3000
  vvar := 0
  kernelCmd := 0
  sysctl := 0
  wgKey := 0
  numPeers := 0
  peers := 0
  quoteTargetInfo := 0x3000
  report := 0x3000

/-- **A buffer that straddles the start of the enclave passes.** -/
theorem config_check_passes_straddling :
    (enclaveConfigCopyAndCheck (inEnclaveRange ⟨0x100000, 0x100000⟩) (fun _ => 0)
      ⟨0x100000, 0x100000⟩ (plainConfig 0xff800)).isSome ∧
    (plainConfig 0xff800).Tested (fun _ => 0) ⟨0xff800, pageSize⟩ ∧
    ¬ (⟨0xff800, pageSize⟩ : Range).Outside ⟨0x100000, 0x100000⟩ := by
  refine ⟨by decide, .inl (by simp [plainConfig, EnclaveConfig.buffers]), ?_⟩
  intro h
  exact h 0x100000 (by unfold Region.Mem; decide) (by decide)

end RktIo.Sgx
