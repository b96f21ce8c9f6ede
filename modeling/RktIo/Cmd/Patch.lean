import RktIo.Cmd.AppConfig

/-!
# What a document assigns

The parsers of the application configuration never look at what the structure holds. So a
document is a `Patch`: the fields that it assigns, with their values, and the messages that it
prints; parsing it into a structure applies the patch (`parseJson_eq_apply`).

A document that is accepted assigns a field exactly if it has a member for it
(`assigned_docPatch`).
-/

namespace RktIo.Cmd

open CString Shared

/-! ## Patches -/

/-- The fields that are assigned; `argc` is assigned with `argv`, and the length of an array with
the array. -/
structure Patch where
  run : Option (List Char) := none
  cwd : Option (List Char) := none
  args : Option (Nat × List Slot) := none
  envp : Option (List Slot) := none
  disks : Option (List EnclaveDiskConfig) := none
  peers : Option (List EnclaveWgPeerConfig) := none
  stderr : List Message := []

def Patch.applyVal (p : Patch) (c : AppConfig) : AppConfig where
  run := p.run.or c.run
  cwd := p.cwd.or c.cwd
  argc := (p.args.map Prod.fst).getD c.argc
  argv := (p.args.map Prod.snd).or c.argv
  envp := p.envp.or c.envp
  numDisks := (p.disks.map List.length).getD c.numDisks
  disks := p.disks.or c.disks
  numPeers := (p.peers.map List.length).getD c.numPeers
  peers := p.peers.or c.peers

def Patch.apply (p : Patch) (s : Parsing AppConfig) : Parsing AppConfig where
  val := p.applyVal s.val
  stderr := s.stderr ++ p.stderr

def Patch.andThen (p q : Patch) : Patch where
  run := q.run.or p.run
  cwd := q.cwd.or p.cwd
  args := q.args.or p.args
  envp := q.envp.or p.envp
  disks := q.disks.or p.disks
  peers := q.peers.or p.peers
  stderr := p.stderr ++ q.stderr

theorem Patch.apply_nothing (s : Parsing AppConfig) : Patch.apply {} s = s := by
  obtain ⟨c, stderr⟩ := s
  simp [Patch.apply, Patch.applyVal]

theorem Patch.apply_andThen (p q : Patch) (s : Parsing AppConfig) :
    (p.andThen q).apply s = q.apply (p.apply s) := by
  simp only [Patch.apply, Patch.andThen, Parsing.mk.injEq, List.append_assoc, and_true]
  ext1 <;> simp only [Patch.applyVal, Option.or_assoc, Option.map_or]
  · cases q.args <;> rfl
  · cases q.disks <;> rfl
  · cases q.peers <;> rfl

/-! ## The patch of a member -/

def patchDisks : Json → Option (Int × Patch)
  | .array vals => do
    let (ret, disks, stderr) ← parseElements parseEnclaveDiskConfigEntry {} vals
    if ret ≠ 0 then return (ret, { stderr := stderr })
    return (0, { disks := some disks, stderr := stderr })
  | _ => some (1, {})

def patchNetworkMembers : List (String × Json) → Option (Int × Patch)
  | [] => some (0, {})
  | (key, value) :: members =>
    if value.isNull then some (0, {})
    else if key ≠ "peers" then patchNetworkMembers members
    else if assertEntryType key value then
      some (1, { stderr := [("Type mismatch for '%s' configuration.\n", key)] })
    else do
      let (ret, peers, stderr) ← parseElements parseEnclaveWgPeerConfigEntry {} (elems value)
      if ret ≠ 0 then return (ret, { stderr := stderr })
      return (0, { peers := some peers, stderr := stderr })

def entryPatch (key : String) (value : Json) : Option (Int × Patch) :=
  if key = "run" then
    if isString value then some (0, { run := some (getString value) })
    else some (1, { stderr := [("String expected for 'run' configuration.\n", key)] })
  else if key = "cwd" then
    if isString value then some (0, { cwd := some (getString value) })
    else some (1, { stderr := [("String expected for 'cwd' configuration.\n", key)] })
  else if key = "args" then
    match value with
    | .array vals =>
      some (if (argSlots vals).2 then 0 else 1,
        { args := some (vals.length + 1, .uninit :: (argSlots vals).1) })
    | _ => some (1, {})
  else if key = "environment" then
    match value with
    | .object members =>
      some (if (envSlots members).2 then 0 else 1, { envp := some (envSlots members).1 })
    | _ => some (1, {})
  else if key = "disk_config" then patchDisks value
  else if key = "network_config" then
    match value with
    | .object members => patchNetworkMembers members
    | _ => some (1, {})
  else some (1, { stderr := [("Unknown configuration entry: %s\n", key)] })

def applyTo (s : Parsing AppConfig) (r : Int × Patch) : Int × Parsing AppConfig :=
  (r.1, r.2.apply s)

theorem parseDisks_eq (s : Parsing AppConfig) (value : Json) :
    parseDisks s value = (patchDisks value).map (applyTo s) := by
  cases value with
  | array vals =>
    cases hparse : parseElements parseEnclaveDiskConfigEntry {} vals with
    | none => simp [parseDisks, patchDisks, hparse]
    | some r =>
      obtain ⟨ret, disks, stderr⟩ := r
      by_cases hret : ret = 0 <;>
        simp [parseDisks, patchDisks, hparse, hret, applyTo, Patch.apply, Patch.applyVal]
  | _ => simp [parseDisks, patchDisks, applyTo, Patch.apply_nothing]

theorem parseNetworkMembers_eq (s : Parsing AppConfig) (members : List (String × Json)) :
    parseNetworkMembers s members = (patchNetworkMembers members).map (applyTo s) := by
  induction members with
  | nil => simp [parseNetworkMembers, patchNetworkMembers, applyTo, Patch.apply_nothing]
  | cons m members ih =>
    obtain ⟨key, value⟩ := m
    unfold parseNetworkMembers patchNetworkMembers
    split_ifs with hnull hkey htype
    · simp [applyTo, Patch.apply_nothing]
    · exact ih
    · simp [applyTo, Patch.apply, Patch.applyVal, Parsing.fprintf]
    · cases hparse : parseElements parseEnclaveWgPeerConfigEntry {} (elems value) with
      | none => simp
      | some r =>
        obtain ⟨ret, peers, stderr⟩ := r
        by_cases hret : ret = 0 <;> simp [hret, applyTo, Patch.apply, Patch.applyVal]

theorem parseEntry_eq (key : String) (value : Json) (s : Parsing AppConfig) :
    parseSgxlklAppConfigEntry key value s = (entryPatch key value).map (applyTo s) := by
  unfold parseSgxlklAppConfigEntry entryPatch
  split_ifs with hrun hstr hcwd hstr hargs henv hdisk hnet
  · simp [applyTo, Patch.apply, Patch.applyVal]
  · simp [applyTo, Patch.apply, Patch.applyVal, Parsing.fprintf]
  · simp [applyTo, Patch.apply, Patch.applyVal]
  · simp [applyTo, Patch.apply, Patch.applyVal, Parsing.fprintf]
  · cases value <;> simp [parseArgs, applyTo, Patch.apply, Patch.applyVal]
  · cases value <;> simp [parseEnv, applyTo, Patch.apply, Patch.applyVal]
  · exact parseDisks_eq s value
  · cases value with
    | object members => exact parseNetworkMembers_eq s members
    | _ => simp [parseNetwork, applyTo, Patch.apply_nothing]
  · simp [applyTo, Patch.apply, Patch.applyVal, Parsing.fprintf]

/-! ## The patch of a document -/

def docPatch : List (String × Json) → Option (Int × Patch)
  | [] => some (0, {})
  | (key, value) :: members =>
    if value.isNull then some (0, {})
    else do
      let (ret, p) ← entryPatch key value
      if ret ≠ 0 then return (ret, p)
      let (ret, q) ← docPatch members
      return (ret, p.andThen q)

/-- **A document is a patch.** Induction on the members. -/
theorem parseJson_eq_apply (members : List (String × Json)) (s : Parsing AppConfig) :
    parseJson parseSgxlklAppConfigEntry members s = (docPatch members).map (applyTo s) := by
  induction members generalizing s with
  | nil => simp [parseJson, docPatch, applyTo, Patch.apply_nothing]
  | cons m members ih =>
    obtain ⟨key, value⟩ := m
    unfold parseJson docPatch
    split_ifs with hnull
    · simp [applyTo, Patch.apply_nothing]
    · rw [parseEntry_eq]
      cases entryPatch key value with
      | none => rfl
      | some r =>
        obtain ⟨ret, p⟩ := r
        by_cases hret : ret = 0
        · have htail := ih (p.apply s)
          cases hq : docPatch members with
          | none => simp [hret, applyTo, htail, hq]
          | some r' => simp [hret, applyTo, htail, hq, Patch.apply_andThen]
        · simp [hret, applyTo]

/-! ## Which fields are assigned -/

inductive Field where
  | run | cwd | args | environment | disks | peers
  deriving Repr, DecidableEq

def Field.key : Field → String
  | run => "run"
  | cwd => "cwd"
  | args => "args"
  | environment => "environment"
  | disks => "disk_config"
  | peers => "network_config"

def Patch.assigned (p : Patch) : Field → Bool
  | .run => p.run.isSome
  | .cwd => p.cwd.isSome
  | .args => p.args.isSome
  | .environment => p.envp.isSome
  | .disks => p.disks.isSome
  | .peers => p.peers.isSome

def membersOf : Json → List (String × Json)
  | .object members => members
  | _ => []

def isFor (f : Field) (m : String × Json) : Bool :=
  m.1 == f.key
    && (f != .peers || (visited (membersOf m.2)).any (fun n => n.1 == "peers"))

def sets (f : Field) (members : List (String × Json)) : Bool :=
  (visited members).any (isFor f)

theorem assigned_andThen (p q : Patch) (f : Field) :
    (p.andThen q).assigned f = (p.assigned f || q.assigned f) := by
  cases f <;> simp [Patch.andThen, Patch.assigned, Option.isSome_or, Bool.or_comm]

theorem assigned_nothing (f : Field) : Patch.assigned {} f = false := by
  cases f <;> rfl

theorem assigned_patchDisks {value : Json} {p : Patch} (h : patchDisks value = some (0, p))
    (f : Field) : p.assigned f = (f == .disks) := by
  cases value with
  | array vals =>
    cases hparse : parseElements parseEnclaveDiskConfigEntry {} vals with
    | none => simp [patchDisks, hparse] at h
    | some r =>
      obtain ⟨ret, disks, stderr⟩ := r
      by_cases hret : ret = 0
      · obtain rfl : _ = p := by simpa [patchDisks, hparse, hret] using h
        cases f <;> rfl
      · simp [patchDisks, hparse, hret] at h
  | _ => simp [patchDisks] at h

theorem assigned_patchNetworkMembers {members : List (String × Json)} {p : Patch}
    (h : patchNetworkMembers members = some (0, p)) (f : Field) :
    p.assigned f = (f == .peers && (visited members).any (fun n => n.1 == "peers")) := by
  induction members with
  | nil =>
    obtain rfl : _ = p := by simpa [patchNetworkMembers] using h
    simp [assigned_nothing, visited]
  | cons m members ih =>
    obtain ⟨key, value⟩ := m
    unfold patchNetworkMembers at h
    split_ifs at h with hnull hkey htype
    · obtain rfl : _ = p := by simpa using h
      simp [assigned_nothing, visited, hnull]
    · rw [ih h]
      simp [visited, hnull, beq_eq_false_iff_ne.mpr hkey]
    · simp at h
    · obtain rfl : key = "peers" := not_not.mp hkey
      cases hparse : parseElements parseEnclaveWgPeerConfigEntry {} (elems value) with
      | none => simp [hparse] at h
      | some r =>
        obtain ⟨ret, peers, stderr⟩ := r
        by_cases hret : ret = 0
        · obtain rfl : _ = p := by simpa [hparse, hret] using h
          cases f <;> simp [Patch.assigned, visited, hnull]
        · simp [hparse, hret] at h

theorem assigned_entryPatch {key : String} {value : Json} {p : Patch}
    (h : entryPatch key value = some (0, p)) (f : Field) :
    p.assigned f = isFor f (key, value) := by
  unfold entryPatch at h
  split_ifs at h with hrun hstr hcwd hstr hargs henv hdisk hnet
  · obtain rfl : _ = p := by simpa using h
    subst hrun
    cases f <;> rfl
  · simp at h
  · obtain rfl : _ = p := by simpa using h
    subst hcwd
    cases f <;> rfl
  · simp at h
  · subst hargs
    cases value with
    | array vals =>
      obtain ⟨-, rfl⟩ : _ ∧ _ = p := by simpa using h
      cases f <;> rfl
    | _ => simp at h
  · subst henv
    cases value with
    | object members =>
      obtain ⟨-, rfl⟩ : _ ∧ _ = p := by simpa using h
      cases f <;> rfl
    | _ => simp at h
  · subst hdisk
    rw [assigned_patchDisks h]
    cases f <;> rfl
  · subst hnet
    cases value with
    | object members =>
      rw [assigned_patchNetworkMembers h]
      cases f <;> rfl
    | _ => simp at h
  · simp at h

/-- **An accepted document assigns the fields that it has members for.** Induction on the
members. -/
theorem assigned_docPatch {members : List (String × Json)} {p : Patch}
    (h : docPatch members = some (0, p)) (f : Field) : p.assigned f = sets f members := by
  induction members generalizing p with
  | nil =>
    obtain rfl : _ = p := by simpa [docPatch] using h
    simp [assigned_nothing, sets, visited]
  | cons m members ih =>
    obtain ⟨key, value⟩ := m
    unfold docPatch at h
    split_ifs at h with hnull
    · obtain rfl : _ = p := by simpa using h
      simp [assigned_nothing, sets, visited, hnull]
    · cases hentry : entryPatch key value with
      | none => simp [hentry] at h
      | some r =>
        obtain ⟨ret, p₁⟩ := r
        by_cases hret : ret = 0
        · subst hret
          cases hdoc : docPatch members with
          | none => simp [hentry, hdoc] at h
          | some r' =>
            obtain ⟨ret', p₂⟩ := r'
            obtain ⟨rfl, rfl⟩ : ret' = 0 ∧ p₁.andThen p₂ = p := by
              simpa [hentry, hdoc] using h
            rw [assigned_andThen, assigned_entryPatch hentry, ih hdoc]
            simp [sets, visited, hnull]
        · simp [hentry, hret] at h

end RktIo.Cmd
