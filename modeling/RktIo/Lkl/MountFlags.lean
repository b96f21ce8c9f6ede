import RktIo.Lkl.DiskMounts

/-!
# The flags that mounting leaves behind

`lkl_mount_disks` sets the field `mounted` of the root disk and of every disk that it mounts by its
letter, and lowers `num_disks` to 26 if there are more disks. Both are all that `lkl_exit` knows
about the mounts later.

The field is not initialised where the disks are registered, so nothing is assumed about the flags
before the run.
-/

set_option mvcgen.warning false

namespace RktIo.Lkl.Setup

open Std.Do Shared List

variable {k : Kernel}

def DiskConfig.flag (c : DiskConfig) : String × Bool := (c.mnt, c.mounted)

def Disks.flags (d : Disks) : Nat × List (String × Bool) :=
  (d.numDisks, d.disks.map DiskConfig.flag)

def setFlags (entries : List Nat) (flags : List (String × Bool)) : List (String × Bool) :=
  entries.foldl (fun flags i => flags.modify i fun f => (f.1, true)) flags

theorem setFlags_append (is js : List Nat) (flags : List (String × Bool)) :
    setFlags (is ++ js) flags = setFlags js (setFlags is flags) := foldl_append

theorem length_setFlags (is : List Nat) (flags : List (String × Bool)) :
    (setFlags is flags).length = flags.length := by
  induction is generalizing flags with
  | nil => rfl
  | cons i is ih =>
    show (setFlags is (flags.modify i fun f => (f.1, true))).length = flags.length
    rw [ih, length_modify]

theorem getElem?_setFlags (is : List Nat) (flags : List (String × Bool)) (j : Nat) :
    (setFlags is flags)[j]? = flags[j]?.map fun f => (f.1, f.2 || decide (j ∈ is)) := by
  induction is generalizing flags with
  | nil => simp [setFlags]
  | cons i is ih =>
    show (setFlags is (flags.modify i fun f => (f.1, true)))[j]? = _
    rw [ih, getElem?_modify]
    cases flags[j]? with
    | none => rfl
    | some f =>
      rcases eq_or_ne i j with rfl | hne
      · simp
      · simp [hne, hne.symm]

/-! ## Programs and flags -/

def KeepsFlags {α : Type} (m : SetupM α) : Prop :=
  ∀ flags, ⦃fun st => ⌜st.core.flags = flags⌝⦄ m
    ⦃post⟨fun _ st => ⌜st.core.flags = flags⌝, fun _ _ => ⌜True⌝⟩⦄

theorem map_flag_modify {f : DiskConfig → DiskConfig} {g : String × Bool → String × Bool}
    (hf : ∀ c, (f c).flag = g c.flag) (l : List DiskConfig) (i : Nat) :
    (l.modify i f).map DiskConfig.flag = (l.map DiskConfig.flag).modify i g := by
  apply ext_getElem?
  intro j
  rw [getElem?_map, getElem?_modify, getElem?_modify, getElem?_map]
  cases l[j]? with
  | none => rfl
  | some c => by_cases h : i = j <;> simp [h, hf]

theorem flags_mapped (d : Disks) (name : String) (dev : DevPath) (layer : Volume → Volume) :
    (d.mapped name dev layer).flags = d.flags := rfl

theorem keepsFlags_setKey (entry : Nat) (key : List UInt8) : KeepsFlags (setKey entry key) := by
  intro flags
  have hkeep := map_flag_modify (f := fun c => { c with key := key }) (g := id) (fun _ => rfl)
  simp only [modify_id] at hkeep
  mvcgen [setKey]
  grind [Disks.flags]

theorem keepsFlags_setReadonly (entry : Nat) : KeepsFlags (setReadonly entry) := by
  intro flags
  have hkeep := map_flag_modify (f := fun c => { c with ro := true }) (g := id) (fun _ => rfl)
  simp only [modify_id] at hkeep
  mvcgen [setReadonly]
  grind [Disks.flags]

theorem keepsFlags_crypto (dev : DevPath) (name : String) (ro : Bool) (entry : Nat)
    (disk : DiskConfig) : KeepsFlags (lklActivateCryptoDiskThread k dev name ro entry disk) := by
  intro flags
  have hkey := keepsFlags_setKey entry [] flags
  mvcgen [lklActivateCryptoDiskThread, hkey]
  all_goals grind [flags_mapped]

theorem keepsFlags_verity (dev : DevPath) (ro : Bool) (roothash : List Char)
    (roothashOffset : Nat) :
    KeepsFlags (lklActivateVerityDiskThread k dev ro roothash roothashOffset) := by
  intro flags
  mvcgen [lklActivateVerityDiskThread] <;> grind [flags_mapped]

theorem KeepsFlags.runInKernelStack {startRoutine : SetupM Unit} (h : KeepsFlags startRoutine) :
    KeepsFlags (lklRunInKernelStack k startRoutine) := by
  intro flags
  have hroutine := h flags
  mvcgen [lklRunInKernelStack, hroutine] <;> grind

theorem keepsFlags_mapVerity (entry : Nat) (disk : DiskConfig) :
    KeepsFlags (mapVerity k entry disk) := by
  intro flags
  have hrun (roothash : List Char) :=
    (keepsFlags_verity (k := k) (.vd 0) disk.ro roothash disk.roothashOffset).runInKernelStack
      (k := k) flags
  have hreadonly := keepsFlags_setReadonly entry flags
  mvcgen [mapVerity, hreadonly, hrun]

theorem keepsFlags_mapCrypt (entry : Nat) (disk : DiskConfig) (dev : DevPath) (ro : Bool) :
    KeepsFlags (mapCrypt k entry disk dev ro) := by
  intro flags
  have hrun := (keepsFlags_crypto (k := k) dev "cryptroot" ro entry disk).runInKernelStack
    (k := k) flags
  mvcgen [mapCrypt, hrun]

def SetsFlag (entry : Nat) {α : Type} (m : SetupM α) : Prop :=
  ∀ num flags, ⦃fun st => ⌜st.core.flags = (num, flags)⌝⦄ m
    ⦃post⟨fun _ st => ⌜st.core.flags = (num, setFlags [entry] flags)⌝, fun _ _ => ⌜True⌝⟩⦄

theorem setsFlag_setMounted (entry : Nat) : SetsFlag entry (setMounted entry) := by
  intro num flags
  have hset := map_flag_modify (f := fun c => { c with mounted := true })
    (g := fun f => (f.1, true)) (fun _ => rfl)
  mvcgen [-setMounted_spec, setMounted]
  grind [Disks.flags, setFlags]

theorem MountResult.flags {entry : Nat} {dev : DevPath} {mntPoint : String} {ro : Bool} {err : Int}
    {d d' : Disks} (h : MountResult k entry dev mntPoint ro d err d') : d'.flags = d.flags := by
  rcases h with ⟨-, rfl, -⟩ | ⟨v, -, -, rfl⟩
  · rfl
  · rfl

theorem setsFlag_mountRootDisk (entry : Nat) (disk : DiskConfig) :
    SetsFlag entry (lklMountRootDisk k entry disk) := by
  intro num flags
  have hverity := keepsFlags_mapVerity (k := k) entry disk (num, flags)
  have hcrypt (dev : DevPath) (ro : Bool) :=
    keepsFlags_mapCrypt (k := k) entry disk dev ro (num, flags)
  have hmounted := setsFlag_setMounted entry num flags
  mvcgen [lklMountRootDisk, hverity, hcrypt, -setMounted_spec, hmounted]
  all_goals clear hverity hcrypt hmounted
  all_goals grind [→ MountResult.flags]

theorem setsFlag_mountByLetter (i : Nat) (c : DiskConfig) :
    SetsFlag i (mountByLetter k i c) := by
  intro num flags
  have hmounted := setsFlag_setMounted i num flags
  mvcgen [-mountByLetter_spec, mountByLetter, -setMounted_spec, hmounted]
  all_goals clear hmounted
  all_goals grind [→ MountResult.flags]

theorem devicePath_flags (i num : Nat) (flags : List (String × Bool)) :
    ⦃fun st => ⌜st.core.flags = (num, flags)⌝⦄ devicePath i
      ⦃post⟨fun _ st => ⌜st.core.flags = (if 26 ≤ i then 26 else num, flags)⌝,
        fun _ _ => ⌜True⌝⟩⦄ := by
  mvcgen [devicePath, -devicePath_spec, fprintf] <;> simp_all +zetaDelta [Disks.flags]

/-! ## The whole run -/

/-- **The flags of the disks that the loop mounts are set.** Induction on the entries. -/
theorem mountOthers_flags (root i num : Nat) (ds : List DiskConfig) (flags : List (String × Bool))
    (hnum : num = if i ≤ 26 then i + ds.length else 26) :
    ⦃fun st => ⌜st.core.flags = (num, flags)⌝⦄ mountOthers k root i ds
      ⦃post⟨fun _ st => ⌜st.core.flags
          = (min (i + ds.length) 26, setFlags (others root i ds) flags)⌝,
        fun _ _ => ⌜True⌝⟩⦄ := by
  induction ds generalizing i num flags with
  | nil =>
    mvcgen [mountOthers]
    simp_all [others, setFlags]
    grind
  | cons c ds ih =>
    have hpath := devicePath_flags i num flags
    have hmount (num : Nat) (flags : List (String × Bool)) :=
      setsFlag_mountByLetter (k := k) i c num flags
    have hskip (h : root = i ∨ c.fd = -1) : others root i (c :: ds) = others root (i + 1) ds :=
      if_pos (h.imp_right Or.inl)
    have htake (h : ¬ (root = i ∨ c.fd = -1)) (hi : ¬ 26 ≤ i) :
        others root i (c :: ds) = [i] ++ others root (i + 1) ds := by
      simp_all [others]
    rw [length_cons] at hnum ⊢
    mvcgen [mountOthers, -devicePath_spec, hpath, ih, -mountByLetter_spec, hmount, fprintf]
    all_goals clear ih hpath hmount
    case vc2.cons.isTrue.post.success.isTrue.post.success h _ hflags _ _ =>
      intro hrest
      rw [hrest, hflags, hskip h, Nat.add_right_comm, Nat.add_assoc]
    case vc3 =>
      intro st hflags
      rw [hflags]
      grind
    case vc4.cons.isTrue.post.success.isFalse.isTrue hi _ hflags _ _ =>
      rw [others_eq_nil _ hi]
      simp_all +zetaDelta [Disks.flags, setFlags]
      omega
    case vc5.cons.isTrue.post.success.isFalse.isFalse.post.success.post.success
        h hi _ hflags _ _ hset _ _ =>
      intro hrest
      rw [hrest, hset, hflags, htake h hi, setFlags_append, Nat.add_right_comm, Nat.add_assoc]
    case vc6 hi _ hflags _ =>
      intro st hset
      rw [hset, hflags]
      grind
    case vc7.cons.isFalse hflags hge =>
      -- the number of disks has been adjusted, at entry 26
      obtain ⟨rfl, -⟩ := Prod.mk.inj hflags
      have hlate : 26 < i := by
        by_contra hle
        rw [if_pos (by omega)] at hnum
        omega
      rw [hflags, others_eq_nil _ hlate.le, hnum, if_neg (by omega), Nat.min_eq_right (by omega)]
      rfl

def mountEntries (disks : List DiskConfig) : List Nat :=
  rootEntry disks :: others (rootEntry disks) 0 disks

def flagsAfter (disks : List DiskConfig) : Nat × List (String × Bool) :=
  (min disks.length 26, setFlags (mountEntries disks) (disks.map DiskConfig.flag))

theorem mountFromRoot_flags (disks : List DiskConfig) (rootDisk : DiskConfig)
    (cwd : Option String) :
    ⦃fun st => ⌜st.core.flags = (disks.length, disks.map DiskConfig.flag)⌝⦄
      mountFromRoot k disks rootDisk cwd
      ⦃post⟨fun _ st => ⌜st.core.flags = flagsAfter disks⌝, fun _ _ => ⌜True⌝⟩⦄ := by
  have hroot := setsFlag_mountRootDisk (k := k) (rootEntry disks) rootDisk disks.length
    (disks.map DiskConfig.flag)
  have hothers := mountOthers_flags (k := k) (rootEntry disks) 0 disks.length disks
    (setFlags [rootEntry disks] (disks.map DiskConfig.flag)) (by simp)
  mvcgen [mountFromRoot, hroot, hothers]
  all_goals clear hroot hothers
  all_goals rw [Nat.zero_add, ← setFlags_append] at *
  all_goals grind [flagsAfter, mountEntries]

/-- **A run that returns has set the flags of the disks that it has mounted**, and no others. -/
theorem lklMountDisks_flags (disks : List DiskConfig) (cwd : Option String) :
    ⦃fun st => ⌜st = {}⌝⦄ lklMountDisks k disks cwd
      ⦃post⟨fun _ st => ⌜st.core.flags = flagsAfter disks ∧ disks[rootEntry disks]? ≠ none⌝,
        fun _ _ => ⌜True⌝⟩⦄ := by
  have hadd := lklAddDisks_spec (k := k) 0 disks
  have hroot := mountFromRoot_flags (k := k) disks
  mvcgen [lklMountDisks, hadd, hroot]
  all_goals clear hadd hroot
  all_goals simp_all +zetaDelta [Disks.flags]

section Returned

/-! A run that has returned, from the side of the array that it was given. -/

variable {disks : List DiskConfig} {cwd : Option String} {st : SetupState}

section

variable (hrun : (lklMountDisks k disks cwd).run {} = .ok () st)

include hrun

theorem flags_of_returned : st.core.flags = flagsAfter disks ∧ disks[rootEntry disks]? ≠ none := by
  have hwp := lklMountDisks_flags (k := k) disks cwd {} rfl
  simp only [WP.wp, PredTrans.apply, hrun] at hwp
  exact hwp

theorem numDisks_of_returned : st.core.numDisks = min disks.length 26 :=
  congrArg Prod.fst (flags_of_returned hrun).1

theorem numDisks_le_of_returned : st.core.numDisks ≤ st.core.disks.length := by
  have hlen := congrArg (fun flags => flags.2.length) (flags_of_returned hrun).1
  simp only [Disks.flags, flagsAfter, length_setFlags, length_map] at hlen
  rw [numDisks_of_returned hrun, hlen]
  exact Nat.min_le_left _ _

theorem disk_of_returned {i : Nat} {c : DiskConfig} (hc : disks[i]? = some c) :
    ∃ c', st.core.disks[i]? = some c' ∧ c'.mnt = c.mnt
      ∧ (c'.mounted = true ↔ c.mounted = true ∨ i ∈ mountEntries disks) := by
  have hflags : st.core.disks.map DiskConfig.flag = (flagsAfter disks).2 :=
    congrArg Prod.snd (flags_of_returned hrun).1
  have hentry := congrArg (fun l => l[i]?) hflags
  simp only [flagsAfter, getElem?_setFlags, getElem?_map, hc, Option.map_some] at hentry
  obtain ⟨c', hc', hflag⟩ := Option.map_eq_some_iff.mp hentry
  obtain ⟨hmnt, hmounted⟩ := Prod.mk.inj hflag
  refine ⟨c', hc', hmnt, ?_⟩
  rw [hmounted, Bool.or_eq_true, decide_eq_true_iff]
  exact Iff.rfl

theorem root_of_returned :
    ∃ rootDisk, disks[rootEntry disks]? = some rootDisk ∧ rootDisk.mnt = "/" := by
  obtain ⟨rootDisk, hroot⟩ := Option.ne_none_iff_exists'.mp (flags_of_returned hrun).2
  obtain ⟨hlt, rfl⟩ := List.getElem?_eq_some_iff.mp hroot
  exact ⟨_, hroot, of_decide_eq_true (List.findIdx_getElem (w := hlt))⟩

theorem mounts_of_returned : st.core.mounts.map Mount.entry = mountEntries disks := by
  obtain ⟨rootDisk, hroot, -⟩ := root_of_returned hrun
  have hwp := lklMountDisks_spec (k := k) disks cwd {} rfl
  simp only [WP.wp, PredTrans.apply, hrun] at hwp
  have hplan : st.core.mounts.map Mount.key = mountPlan disks := hwp.2
  calc st.core.mounts.map Mount.entry
      = (st.core.mounts.map Mount.key).map Prod.fst := by rw [map_map]; rfl
    _ = mountEntries disks := by simp [hplan, mountPlan, hroot, mountEntries, Function.comp_def]

end

end Returned

end RktIo.Lkl.Setup
