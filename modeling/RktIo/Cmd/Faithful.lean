import RktIo.Cmd.DiskKeys
import RktIo.Cmd.Isolation

/-!
# What an application configuration says

A document that is accepted should be what it says, whatever the order of its members, and one with
an unknown member or a value of the wrong type should be refused. `JSON_OBJECT_FOREACH` takes a
member that is `null` for the end of an object, so that neither it nor what stands behind it is
looked at; and an element of an array of disks or peers that is not an object is undefined
behaviour.

A member is taken, refused, or undefined (`MemberTaken`, `MemberRefused`), and so is a document. If
all values are of the right type, the patch of an accepted document (`Patch`) is given by looking up
its members, which does not depend on their order.
-/

namespace RktIo.Cmd

open CString Shared List Patch

variable {m : String × Json} {members members' : List (String × Json)} {vals : List Json}
  {value : Json} {p : Patch}

/-! ## Members -/

def PEER_KEYS : List String := ["key", "allowedips", "endpoint"]

def PeerMemberAccepted (m : String × Json) : Prop :=
  assertEntryType m.1 m.2 = false ∧ m.1 ∈ PEER_KEYS

theorem peerEntry_checks : Checks parseEnclaveWgPeerConfigEntry PeerMemberAccepted where
  takes {m} h peer := by
    obtain ⟨htype, hname⟩ := h
    unfold parseEnclaveWgPeerConfigEntry
    rw [htype]
    simp only [PEER_KEYS, mem_cons, not_mem_nil, or_false] at hname
    rcases hname with hname | hname | hname <;> simp [hname]
  refuses {m} h peer := by
    unfold parseEnclaveWgPeerConfigEntry
    cases htype : assertEntryType m.1 m.2 with
    | true => simp
    | false =>
      have hname : m.1 ∉ PEER_KEYS := fun hname => h ⟨htype, hname⟩
      simp only [PEER_KEYS, mem_cons, not_mem_nil, or_false, not_or] at hname
      simp [hname]

def CONFIG_KEYS : List String :=
  ["run", "cwd", "args", "environment", "disk_config", "network_config"]

/-- A member that is taken. What stands behind a `null` does not matter. -/
inductive MemberTaken : String × Json → Prop where
  | run (s : List Char) : MemberTaken ("run", .string s)
  | cwd (s : List Char) : MemberTaken ("cwd", .string s)
  | args {vals : List Json} (h : ∀ v ∈ vals, isString v = true) : MemberTaken ("args", .array vals)
  | environment {env : List (String × Json)} (h : ∀ m ∈ visited env, isString m.2 = true) :
      MemberTaken ("environment", .object env)
  | disks {vals : List Json} (h : AllAccepted MemberAccepted vals) :
      MemberTaken ("disk_config", .array vals)
  | network {net : List (String × Json)}
      (h : ∀ v, (visited net).lookup "peers" = some v →
        ∃ vals, v = .array vals ∧ AllAccepted PeerMemberAccepted vals) :
      MemberTaken ("network_config", .object net)

inductive MemberRefused : String × Json → Prop where
  | unknown {key : String} {value : Json} (h : key ∉ CONFIG_KEYS) : MemberRefused (key, value)
  | string {key : String} {value : Json} (hkey : key = "run" ∨ key = "cwd")
      (h : isString value = false) : MemberRefused (key, value)
  | args {value : Json} (h : ∀ vals, value = .array vals → ∃ v ∈ vals, isString v = false) :
      MemberRefused ("args", value)
  | environment {value : Json}
      (h : ∀ env, value = .object env → ∃ m ∈ visited env, isString m.2 = false) :
      MemberRefused ("environment", value)
  | disks {value : Json} (h : ∀ vals, value = .array vals → SomeRefused MemberAccepted vals) :
      MemberRefused ("disk_config", value)
  | network {value : Json}
      (h : ∀ net, value = .object net → ∃ v, (visited net).lookup "peers" = some v
        ∧ ∀ vals, v = .array vals → SomeRefused PeerMemberAccepted vals) :
      MemberRefused ("network_config", value)

theorem argSlots_ok_iff (vals : List Json) :
    (argSlots vals).2 = true ↔ ∀ v ∈ vals, isString v = true := by
  induction vals with
  | nil => simp [argSlots]
  | cons v vals ih =>
    cases hv : isString v with
    | true => simp [argSlots, hv, ih]
    | false => simp [argSlots, hv]

theorem envSlots_ok_iff (env : List (String × Json)) :
    (envSlots env).2 = true ↔ ∀ m ∈ visited env, isString m.2 = true := by
  induction env with
  | nil => simp [envSlots, visited]
  | cons m env ih =>
    obtain ⟨key, value⟩ := m
    cases value <;> simp_all [envSlots, visited, isString, Json.isNull]

/-! ### The network configuration -/

def patchPeers (value : Json) : Option (Int × Patch) :=
  if isArray value then do
    let (ret, peers, stderr) ← parseElements parseEnclaveWgPeerConfigEntry {} (elems value)
    if ret ≠ 0 then return (ret, { stderr := stderr })
    return (0, { peers := some peers, stderr := stderr })
  else some (1, { stderr := [("Type mismatch for '%s' configuration.\n", "peers")] })

theorem lookup_cons_self (m : String × Json) (members : List (String × Json)) :
    (m :: members).lookup m.1 = some m.2 := by
  rw [lookup_cons, beq_self_eq_true]

theorem lookup_cons_of_ne {key : String} (h : m.1 ≠ key) (members : List (String × Json)) :
    (m :: members).lookup key = members.lookup key := by
  rw [lookup_cons, beq_false_of_ne (Ne.symm h)]

theorem patchNetworkMembers_eq (members : List (String × Json)) :
    patchNetworkMembers members
      = ((visited members).lookup "peers").elim (some (0, {})) patchPeers := by
  induction members with
  | nil => rfl
  | cons m members ih =>
    obtain ⟨key, value⟩ := m
    cases hnull : value.isNull with
    | true =>
      rw [visited_of_null hnull]
      simp [patchNetworkMembers, hnull]
    | false =>
      rw [visited_of_not_null hnull, patchNetworkMembers, if_neg (by simp [hnull])]
      by_cases hkey : key = "peers"
      · subst hkey
        have htype : assertEntryType "peers" value = !isArray value := by
          simp [assertEntryType, ARRAY_KEYS]
        rw [if_neg (by simp), lookup_cons_self ("peers", value), Option.elim_some, patchPeers,
          htype]
        cases isArray value <;> simp
      · rw [if_pos hkey, ih, lookup_cons_of_ne hkey]

theorem patchPeers_taken (h : AllAccepted PeerMemberAccepted vals) :
    ∃ stderr, patchPeers (.array vals) = some (0,
      { peers := some (vals.map (parsedElement parseEnclaveWgPeerConfigEntry {}))
        stderr := stderr }) := by
  obtain ⟨stderr, hparse⟩ := peerEntry_checks.parseElements_of_objects {} h
  exact ⟨stderr, by simp [patchPeers, isArray, elems, hparse]⟩

theorem patchDisks_taken (h : AllAccepted MemberAccepted vals) :
    ∃ stderr, patchDisks (.array vals) = some (0,
      { disks := some (vals.map (parsedElement parseEnclaveDiskConfigEntry {}))
        stderr := stderr }) := by
  obtain ⟨stderr, hparse⟩ := diskEntry_checks.parseElements_of_objects {} h
  exact ⟨stderr, by simp [patchDisks, hparse]⟩

/-! ### The three cases -/

theorem MemberTaken.allAccepted (h : MemberTaken ("disk_config", .array vals)) :
    AllAccepted MemberAccepted vals := by
  generalize hm : ("disk_config", Json.array vals) = m at h
  cases h <;> simp_all

theorem MemberTaken.peers {net : List (String × Json)}
    (h : MemberTaken ("network_config", .object net))
    (hv : (visited net).lookup "peers" = some value) :
    ∃ vals, value = .array vals ∧ AllAccepted PeerMemberAccepted vals := by
  generalize hm : ("network_config", Json.object net) = m at h
  cases h <;> simp_all

theorem entryPatch_taken (h : MemberTaken m) : ∃ p, entryPatch m.1 m.2 = some (0, p) := by
  cases h with
  | run s | cwd s => exact ⟨_, rfl⟩
  | args h => exact ⟨_, by simp [entryPatch, (argSlots_ok_iff _).mpr h]; rfl⟩
  | environment h => exact ⟨_, by simp [entryPatch, (envSlots_ok_iff _).mpr h]; rfl⟩
  | disks h =>
    obtain ⟨stderr, hdisks⟩ := patchDisks_taken h
    exact ⟨_, hdisks⟩
  | @network net h =>
    have hnet : entryPatch "network_config" (.object net) = patchNetworkMembers net := rfl
    rw [hnet, patchNetworkMembers_eq]
    cases hpeers : (visited net).lookup "peers" with
    | none => exact ⟨_, rfl⟩
    | some v =>
      obtain ⟨vals, rfl, hvals⟩ := h v hpeers
      obtain ⟨stderr, hpatch⟩ := patchPeers_taken hvals
      exact ⟨_, hpatch⟩

theorem patchDisks_refused (h : ∀ vals, value = .array vals → SomeRefused MemberAccepted vals) :
    ∃ ret p, patchDisks value = some (ret, p) ∧ ret ≠ 0 := by
  cases value with
  | array vals =>
    obtain ⟨disks, stderr, hparse⟩ := diskEntry_checks.parseElements_of_refused {} (h vals rfl)
    exact ⟨1, { stderr := stderr }, by simp [patchDisks, hparse], by decide⟩
  | _ => exact ⟨1, {}, rfl, by decide⟩

theorem patchPeers_refused (h : ∀ vals, value = .array vals → SomeRefused PeerMemberAccepted vals) :
    ∃ ret p, patchPeers value = some (ret, p) ∧ ret ≠ 0 := by
  cases value with
  | array vals =>
    obtain ⟨peers, stderr, hparse⟩ := peerEntry_checks.parseElements_of_refused {} (h vals rfl)
    exact ⟨1, { stderr := stderr }, by simp [patchPeers, isArray, elems, hparse], by decide⟩
  | _ => exact ⟨1, _, rfl, by decide⟩

theorem entryPatch_refused (h : MemberRefused m) :
    ∃ ret p, entryPatch m.1 m.2 = some (ret, p) ∧ ret ≠ 0 := by
  cases h with
  | @unknown key value h =>
    simp only [CONFIG_KEYS, mem_cons, not_mem_nil, or_false, not_or] at h
    exact ⟨1, _, by simp [entryPatch, h]; rfl, by decide⟩
  | @string key value hkey h =>
    rcases hkey with rfl | rfl
    · exact ⟨1, _, by simp [entryPatch, h]; rfl, by decide⟩
    · exact ⟨1, _, by simp [entryPatch, h]; rfl, by decide⟩
  | @args value h =>
    cases value with
    | array vals =>
      obtain ⟨v, hv, hstring⟩ := h vals rfl
      have hok : ¬ (argSlots vals).2 = true := fun hok => by
        simp [(argSlots_ok_iff vals).mp hok v hv] at hstring
      exact ⟨1, _, by simp [entryPatch, hok]; rfl, by decide⟩
    | _ => exact ⟨1, {}, rfl, by decide⟩
  | @environment value h =>
    cases value with
    | object env =>
      obtain ⟨v, hv, hstring⟩ := h env rfl
      have hok : ¬ (envSlots env).2 = true := fun hok => by
        simp [(envSlots_ok_iff env).mp hok v hv] at hstring
      exact ⟨1, _, by simp [entryPatch, hok]; rfl, by decide⟩
    | _ => exact ⟨1, {}, rfl, by decide⟩
  | disks h => exact patchDisks_refused h
  | @network value h =>
    cases value with
    | object net =>
      obtain ⟨v, hv, hpeers⟩ := h net rfl
      obtain ⟨ret, p, hpatch, hret⟩ := patchPeers_refused hpeers
      refine ⟨ret, p, ?_, hret⟩
      have hnet : entryPatch "network_config" (.object net) = patchNetworkMembers net := rfl
      rw [hnet, patchNetworkMembers_eq, hv, Option.elim_some, hpatch]
    | _ => exact ⟨1, {}, rfl, by decide⟩

theorem eq_string_of_isString (h : isString value = true) : ∃ s, value = .string s := by
  cases value <;> simp_all [isString]

theorem patchDisks_undefined (htaken : ¬ AllAccepted MemberAccepted vals)
    (hrefused : ¬ SomeRefused MemberAccepted vals) : patchDisks (.array vals) = none := by
  simp [patchDisks, diskEntry_checks.parseElements_eq_none {} hrefused htaken]

theorem patchPeers_undefined (htaken : ¬ AllAccepted PeerMemberAccepted vals)
    (hrefused : ¬ SomeRefused PeerMemberAccepted vals) : patchPeers (.array vals) = none := by
  simp [patchPeers, isArray, elems, peerEntry_checks.parseElements_eq_none {} hrefused htaken]

theorem entryPatch_undefined (htaken : ¬ MemberTaken m) (hrefused : ¬ MemberRefused m) :
    entryPatch m.1 m.2 = none := by
  obtain ⟨key, value⟩ := m
  by_cases hkey : key ∈ CONFIG_KEYS
  · simp only [CONFIG_KEYS, mem_cons, not_mem_nil, or_false] at hkey
    rcases hkey with rfl | rfl | rfl | rfl | rfl | rfl
    · cases hstring : isString value with
      | false => exact absurd (.string (Or.inl rfl) hstring) hrefused
      | true =>
        obtain ⟨s, rfl⟩ := eq_string_of_isString hstring
        exact absurd (.run s) htaken
    · cases hstring : isString value with
      | false => exact absurd (.string (Or.inr rfl) hstring) hrefused
      | true =>
        obtain ⟨s, rfl⟩ := eq_string_of_isString hstring
        exact absurd (.cwd s) htaken
    · refine absurd (.args fun vals heq => ?_) hrefused
      subst heq
      by_contra hall
      push Not at hall
      exact htaken (.args (by simpa using hall))
    · refine absurd (.environment fun env heq => ?_) hrefused
      subst heq
      by_contra hall
      push Not at hall
      exact htaken (.environment (by simpa using hall))
    · cases value with
      | array vals =>
        refine patchDisks_undefined (fun h => htaken (.disks h)) fun h => hrefused (.disks ?_)
        rintro vals' ⟨⟩
        exact h
      | _ => exact absurd (.disks (by simp)) hrefused
    · cases value with
      | object net =>
        have hnet : entryPatch "network_config" (.object net) = patchNetworkMembers net := rfl
        rw [hnet, patchNetworkMembers_eq]
        cases hpeers : (visited net).lookup "peers" with
        | none => exact absurd (.network (by simp [hpeers])) htaken
        | some v =>
          cases v with
          | array vals =>
            refine patchPeers_undefined (fun h => htaken (.network ?_)) fun h =>
              hrefused (.network ?_)
            · intro v hv
              rw [hpeers] at hv
              cases hv
              exact ⟨vals, rfl, h⟩
            · rintro net' ⟨⟩
              refine ⟨_, hpeers, ?_⟩
              rintro vals' ⟨⟩
              exact h
          | _ =>
            refine absurd (.network ?_) hrefused
            rintro net' ⟨⟩
            exact ⟨_, hpeers, by simp⟩
      | _ => exact absurd (.network (by simp)) hrefused
  · exact absurd (.unknown hkey) hrefused

/-! ## Documents -/

def DocRefused (members : List (String × Json)) : Prop :=
  ∃ pre m post, visited members = pre ++ m :: post ∧ (∀ x ∈ pre, MemberTaken x) ∧ MemberRefused m

theorem docPatch_cons_taken {q : Patch} (hnull : m.2.isNull = false)
    (hentry : entryPatch m.1 m.2 = some (0, p)) {ret : Int}
    (hrest : docPatch members = some (ret, q)) :
    docPatch (m :: members) = some (ret, p.andThen q) := by
  simp [docPatch, hnull, hentry, hrest]

theorem docPatch_taken (h : ∀ m ∈ visited members, MemberTaken m) :
    ∃ p, docPatch members = some (0, p) := by
  induction members with
  | nil => exact ⟨{}, rfl⟩
  | cons m members ih =>
    cases hnull : m.2.isNull with
    | true => exact ⟨{}, by simp [docPatch, hnull]⟩
    | false =>
      rw [visited_of_not_null hnull, forall_mem_cons] at h
      obtain ⟨p, hentry⟩ := entryPatch_taken h.1
      obtain ⟨q, hrest⟩ := ih h.2
      exact ⟨p.andThen q, docPatch_cons_taken hnull hentry hrest⟩

theorem docPatch_refused (h : DocRefused members) :
    ∃ ret p, docPatch members = some (ret, p) ∧ ret ≠ 0 := by
  obtain ⟨pre, m, post, hvisited, hpre, hm⟩ := h
  induction members generalizing pre with
  | nil => simp [visited] at hvisited
  | cons m' members ih =>
    cases hnull : m'.2.isNull with
    | true => simp [visited_of_null hnull] at hvisited
    | false =>
      rw [visited_of_not_null hnull] at hvisited
      cases pre with
      | nil =>
        obtain ⟨rfl, -⟩ : m' = m ∧ visited members = post := by simpa using hvisited
        obtain ⟨ret, p, hentry, hret⟩ := entryPatch_refused hm
        exact ⟨ret, p, by simp [docPatch, hnull, hentry, hret], hret⟩
      | cons x pre =>
        obtain ⟨rfl, hrest⟩ : m' = x ∧ visited members = pre ++ m :: post := by
          simpa using hvisited
        rw [forall_mem_cons] at hpre
        obtain ⟨p, hentry⟩ := entryPatch_taken hpre.1
        obtain ⟨ret, q, htail, hret⟩ := ih pre hrest hpre.2
        exact ⟨ret, p.andThen q, docPatch_cons_taken hnull hentry htail, hret⟩

theorem not_docRefused_cons (hnull : m.2.isNull = false) (h : ¬ DocRefused (m :: members)) :
    ¬ MemberRefused m ∧ (MemberTaken m → ¬ DocRefused members) := by
  constructor
  · exact fun hm => h ⟨[], m, visited members, visited_of_not_null hnull, by simp, hm⟩
  · rintro htake ⟨pre, m', post, hvisited, hpre, hm'⟩
    refine h ⟨m :: pre, m', post, ?_, forall_mem_cons.mpr ⟨htake, hpre⟩, hm'⟩
    rw [visited_of_not_null hnull, hvisited]
    rfl

theorem docPatch_undefined (htaken : ¬ ∀ m ∈ visited members, MemberTaken m)
    (hrefused : ¬ DocRefused members) : docPatch members = none := by
  induction members with
  | nil => exact absurd (by simp [visited]) htaken
  | cons m members ih =>
    cases hnull : m.2.isNull with
    | true => exact absurd (by simp [visited_of_null hnull]) htaken
    | false =>
      rw [visited_of_not_null hnull, forall_mem_cons, not_and] at htaken
      obtain ⟨hm, htail⟩ := not_docRefused_cons hnull hrefused
      by_cases htake : MemberTaken m
      · obtain ⟨p, hentry⟩ := entryPatch_taken htake
        simp [docPatch, hnull, hentry, ih (htaken htake) (htail htake)]
      · simp [docPatch, hnull, entryPatch_undefined htake hm]

/-! ## Types -/

inductive WellTyped : String × Json → Prop where
  | run (s : List Char) : WellTyped ("run", .string s)
  | cwd (s : List Char) : WellTyped ("cwd", .string s)
  | args {vals : List Json} (h : ∀ v ∈ vals, isString v = true) : WellTyped ("args", .array vals)
  | environment {env : List (String × Json)} (h : ∀ m ∈ env, isString m.2 = true) :
      WellTyped ("environment", .object env)
  | disks {vals : List Json}
      (h : ∀ v ∈ vals, ∃ members, v = .object members
        ∧ ∀ m ∈ members, m.1 ∈ DISK_KEYS → assertEntryType m.1 m.2 = false) :
      WellTyped ("disk_config", .array vals)
  | network {net : List (String × Json)}
      (h : ∀ v, net.lookup "peers" = some v → ∃ vals, v = .array vals
        ∧ ∀ v ∈ vals, ∃ members, v = .object members
          ∧ ∀ m ∈ members, m.1 ∈ PEER_KEYS → assertEntryType m.1 m.2 = false) :
      WellTyped ("network_config", .object net)

theorem WellTyped.isNull_eq_false (h : WellTyped m) : m.2.isNull = false := by
  cases h <;> rfl

theorem visited_eq_self (h : ∀ m ∈ members, WellTyped m) : visited members = members := by
  rw [visited, takeWhile_eq_self_iff]
  intro m hm
  rw [(h m hm).isNull_eq_false]
  rfl

theorem lookup_of_visited {key : String} (h : (visited members).lookup key = some value) :
    members.lookup key = some value := by
  have hsplit := @takeWhile_append_dropWhile _ (fun m : String × Json => !m.2.isNull) members
  rw [← hsplit, lookup_append]
  rw [visited] at h
  rw [h, Option.some_or]

theorem WellTyped.taken (h : WellTyped m) (hrefused : ¬ MemberRefused m) : MemberTaken m := by
  cases h with
  | run s => exact .run s
  | cwd s => exact .cwd s
  | args h => exact .args h
  | environment h => exact .environment fun m hm => h m (mem_of_visited hm)
  | @disks vals h =>
    refine .disks (allAccepted_of_not_refused ?_ ?_)
    · exact fun hsome => hrefused (.disks fun vals' heq => by cases heq; exact hsome)
    · intro v hv
      obtain ⟨members, heq, -⟩ := h v hv
      exact ⟨members, heq⟩
  | @network net h =>
    refine .network fun v hv => ?_
    obtain ⟨vals, rfl, hvals⟩ := h v (lookup_of_visited hv)
    refine ⟨vals, rfl, allAccepted_of_not_refused ?_ ?_⟩
    · intro hsome
      refine hrefused (.network fun net' heq => ?_)
      cases heq
      exact ⟨_, hv, fun vals' heq => by cases heq; exact hsome⟩
    · intro v hv
      obtain ⟨members, heq, -⟩ := hvals v hv
      exact ⟨members, heq⟩

theorem taken_of_wellTyped (h : ∀ m ∈ members, WellTyped m) (hrefused : ¬ DocRefused members) :
    ∀ m ∈ members, MemberTaken m := by
  induction members with
  | nil => simp
  | cons m members ih =>
    rw [forall_mem_cons] at h ⊢
    obtain ⟨hm, htail⟩ := not_docRefused_cons h.1.isNull_eq_false hrefused
    have htaken := h.1.taken hm
    exact ⟨htaken, ih h.2 (htail htaken)⟩

/-! ## What a document says -/

def argTexts (value : Json) : List (List Char) := (elems value).map getString

def envTexts (value : Json) : List (List Char) :=
  (membersOf value).map fun m => m.1.toList ++ '=' :: getString m.2

def diskEntries (value : Json) : List EnclaveDiskConfig :=
  (elems value).map (parsedElement parseEnclaveDiskConfigEntry {})

def peerEntries (value : Json) : List EnclaveWgPeerConfig :=
  (elems value).map (parsedElement parseEnclaveWgPeerConfigEntry {})

def saysPatch (given : String → Option Json) : Patch where
  run := (given "run").map getString
  cwd := (given "cwd").map getString
  args := (given "args").map fun v =>
    ((argTexts v).length + 1, .uninit :: ((argTexts v).map Slot.str ++ [.null]))
  envp := (given "environment").map fun v => (envTexts v).map Slot.str ++ [.null]
  disks := (given "disk_config").map diskEntries
  peers := (given "network_config").bind fun v =>
    ((visited (membersOf v)).lookup "peers").map peerEntries

def Patch.quiet (p : Patch) : Patch := { p with stderr := [] }

theorem Patch.quiet_andThen (p q : Patch) : (p.andThen q).quiet = p.quiet.andThen q.quiet := rfl

theorem Patch.quiet_applyVal (p : Patch) (c : AppConfig) : p.quiet.applyVal c = p.applyVal c := rfl

theorem argSlots_of_strings (h : ∀ v ∈ vals, isString v = true) :
    (argSlots vals).1 = (vals.map getString).map Slot.str ++ [.null] := by
  induction vals with
  | nil => rfl
  | cons v vals ih =>
    rw [forall_mem_cons] at h
    simp [argSlots, h.1, ih h.2]

theorem envSlots_of_strings {env : List (String × Json)} (h : ∀ m ∈ env, isString m.2 = true) :
    (envSlots env).1 = (envTexts (.object env)).map Slot.str ++ [.null] := by
  induction env with
  | nil => rfl
  | cons m env ih =>
    rw [forall_mem_cons] at h
    simp [envSlots, h.1, ih h.2, envTexts, membersOf]

def only (m : String × Json) (key : String) : Option Json := if key = m.1 then some m.2 else none

/-- **The patch of a member** whose value is of the right type. -/
theorem entryPatch_quiet (h : WellTyped m) (htaken : MemberTaken m)
    (hentry : entryPatch m.1 m.2 = some (0, p)) : p.quiet = saysPatch (only m) := by
  cases h with
  | run s =>
    cases hentry
    rfl
  | cwd s =>
    cases hentry
    rfl
  | @args vals h =>
    obtain ⟨-, rfl⟩ := Prod.mk.inj (Option.some.inj hentry)
    rw [argSlots_of_strings h, ← length_map getString]
    rfl
  | @environment env h =>
    obtain ⟨-, rfl⟩ := Prod.mk.inj (Option.some.inj hentry)
    rw [envSlots_of_strings h]
    rfl
  | @disks vals h =>
    obtain ⟨stderr, hpatch⟩ := patchDisks_taken htaken.allAccepted
    have hdisks : entryPatch "disk_config" (.array vals) = patchDisks (.array vals) := rfl
    rw [hdisks, hpatch] at hentry
    cases hentry
    rfl
  | @network net h =>
    have hnet : entryPatch "network_config" (.object net) = patchNetworkMembers net := rfl
    have hstated : saysPatch (only ("network_config", .object net))
        = { peers := ((visited net).lookup "peers").map peerEntries } := rfl
    rw [hnet, patchNetworkMembers_eq] at hentry
    cases hpeers : (visited net).lookup "peers" with
    | none =>
      rw [hpeers] at hentry hstated
      cases hentry
      exact hstated.symm
    | some v =>
      obtain ⟨vals, rfl, hvals⟩ := htaken.peers hpeers
      obtain ⟨stderr, hpatch⟩ := patchPeers_taken hvals
      rw [hpeers] at hentry hstated
      rw [Option.elim_some, hpatch] at hentry
      cases hentry
      exact hstated.symm

theorem saysPatch_andThen {given given' : String → Option Json}
    (h : ∀ key, given key = none ∨ given' key = none) :
    (saysPatch given).andThen (saysPatch given')
      = saysPatch fun key => (given key).or (given' key) := by
  have hmap (key : String) {β : Type} (f : Json → Option β) :
      ((given' key).bind f).or ((given key).bind f) = ((given key).or (given' key)).bind f := by
    rcases h key with hnone | hnone <;> simp [hnone]
  simp only [saysPatch, andThen, append_nil, Option.map_eq_bind, hmap]

theorem lookup_cons_or (members : List (String × Json)) (key : String) :
    (m :: members).lookup key = (only m key).or (members.lookup key) := by
  unfold only
  split_ifs with h
  · rw [h, lookup_cons_self, Option.some_or]
  · rw [lookup_cons_of_ne (Ne.symm h), Option.none_or]

theorem lookup_eq_none (hkeys : ((m :: members).map Prod.fst).Nodup) :
    members.lookup m.1 = none := by
  rw [map_cons, nodup_cons] at hkeys
  rw [lookup_eq_none_iff]
  intro m' hm'
  rw [bne_iff_ne]
  intro heq
  exact hkeys.1 (heq ▸ mem_map_of_mem hm')

/-- **The patch of a document** whose values are of the right types. Induction on the members. -/
theorem docPatch_quiet (h : ∀ m ∈ members, WellTyped m) (htaken : ∀ m ∈ members, MemberTaken m)
    (hkeys : (members.map Prod.fst).Nodup) (hdoc : docPatch members = some (0, p)) :
    p.quiet = saysPatch (members.lookup ·) := by
  induction members generalizing p with
  | nil =>
    obtain rfl : {} = p := by simpa [docPatch] using hdoc
    rfl
  | cons m members ih =>
    rw [forall_mem_cons] at h htaken
    have hnone := lookup_eq_none hkeys
    have hnull := h.1.isNull_eq_false
    obtain ⟨p₁, hentry⟩ := entryPatch_taken htaken.1
    obtain ⟨q, hrest⟩ := docPatch_taken fun m hm => htaken.2 m (mem_of_visited hm)
    rw [docPatch_cons_taken hnull hentry hrest] at hdoc
    obtain rfl : p₁.andThen q = p := by simpa using hdoc
    have hq := ih h.2 htaken.2 (nodup_cons.mp hkeys).2 hrest
    rw [quiet_andThen, entryPatch_quiet h.1 htaken.1 hentry, hq, saysPatch_andThen]
    · exact congrArg saysPatch (funext fun key => (lookup_cons_or members key).symm)
    · intro key
      unfold only
      split_ifs with hkey
      · exact Or.inr (hkey ▸ hnone)
      · exact Or.inl rfl

theorem lookup_perm (hperm : members.Perm members') (hkeys : (members.map Prod.fst).Nodup)
    (key : String) : members.lookup key = members'.lookup key := by
  induction hperm with
  | nil => rfl
  | @cons m l l' hperm ih =>
    rw [lookup_cons_or, lookup_cons_or l', ih (nodup_cons.mp hkeys).2]
  | swap m m' l =>
    have hne : m'.1 ≠ m.1 := by simp_all
    rw [lookup_cons_or, lookup_cons_or l, lookup_cons_or (m' :: l), lookup_cons_or l]
    unfold only
    split_ifs with h h' <;> simp_all
  | trans hperm hperm' ih ih' =>
    rw [ih hkeys, ih' ((hperm.map Prod.fst).nodup_iff.mp hkeys)]

/-! ## The configuration -/

def valueOf (members : List (String × Json)) (key : String) : Json :=
  (members.lookup key).getD .null

def networkOf (members : List (String × Json)) : List (String × Json) :=
  membersOf (valueOf members "network_config")

structure Says (members : List (String × Json)) (path : List Char) (c : AppConfig) : Prop where
  given : members.lookup "run" = some (.string path)
  run : c.run = some path
  cwd : c.cwd = (members.lookup "cwd").map getString
  argc : c.argc = (argTexts (valueOf members "args")).length + 1
  argv : c.argv = some (.str path :: ((argTexts (valueOf members "args")).map Slot.str ++ [.null]))
  envp : c.envp = some ((envTexts (valueOf members "environment")).map Slot.str ++ [.null])
  numDisks : c.numDisks = (elems (valueOf members "disk_config")).length
  disks : c.disks.getD [] = diskEntries (valueOf members "disk_config")
  numPeers : c.numPeers = (elems (valueOf (networkOf members) "peers")).length
  peers : c.peers.getD [] = peerEntries (valueOf (networkOf members) "peers")

def PeersSeen (members : List (String × Json)) : Prop :=
  ∀ v, (networkOf members).lookup "peers" = some v → elems v ≠ [] →
    (visited (networkOf members)).lookup "peers" = some v

def docConfig (members : List (String × Json)) (run : List Char) : AppConfig :=
  fixArgs run ((saysPatch (members.lookup ·)).applyVal {})

theorem docConfig_peers (members : List (String × Json)) (run : List Char) :
    (docConfig members run).peers
      = ((visited (networkOf members)).lookup "peers").map peerEntries := by
  cases hnet : members.lookup "network_config" with
  | none => simp [docConfig, fixArgs_eq, applyVal, saysPatch, networkOf, valueOf, hnet,
      membersOf, visited]
  | some v => simp [docConfig, fixArgs_eq, applyVal, saysPatch, networkOf, valueOf, hnet]

theorem docConfig_numPeers (members : List (String × Json)) (run : List Char) :
    (docConfig members run).numPeers = ((docConfig members run).peers.getD []).length := by
  simp only [docConfig, fixArgs_eq, applyVal, Option.or_none]
  cases (saysPatch (members.lookup ·)).peers <;> rfl

theorem docConfig_peers_iff (members : List (String × Json)) (run : List Char) :
    (docConfig members run).peers.getD [] = peerEntries (valueOf (networkOf members) "peers")
      ↔ PeersSeen members := by
  rw [docConfig_peers]
  unfold PeersSeen valueOf
  cases hvisited : (visited (networkOf members)).lookup "peers" with
  | some v => simp [lookup_of_visited hvisited]
  | none =>
    cases hpeers : (networkOf members).lookup "peers" with
    | none => simp [peerEntries, elems]
    | some v =>
      have hempty : [] = peerEntries v ↔ elems v = [] := by
        rw [eq_comm, peerEntries, map_eq_nil_iff]
      simp [hempty]

theorem docConfig_says_iff {run : List Char} (hrun : members.lookup "run" = some (.string run)) :
    Says members run (docConfig members run) ↔ PeersSeen members := by
  constructor
  · exact fun h => (docConfig_peers_iff members run).mp h.peers
  · intro hseen
    have hpeers := (docConfig_peers_iff members run).mpr hseen
    exact
      { given := hrun
        run := by simp [docConfig, fixArgs_eq, applyVal, saysPatch, hrun, getString]
        cwd := by simp [docConfig, fixArgs_eq, applyVal, saysPatch]
        argc := by
          cases hargs : members.lookup "args" <;>
            simp [docConfig, fixArgs_eq, applyVal, saysPatch, valueOf, hargs, argTexts, elems]
        argv := by
          cases hargs : members.lookup "args" <;>
            simp [docConfig, fixArgs_eq, applyVal, saysPatch, valueOf, hargs, argTexts, elems,
              setArgv0]
        envp := by
          cases henv : members.lookup "environment" <;>
            simp [docConfig, fixArgs_eq, applyVal, saysPatch, valueOf, henv, envTexts,
              membersOf]
        numDisks := by
          cases hdisks : members.lookup "disk_config" <;>
            simp [docConfig, fixArgs_eq, applyVal, saysPatch, valueOf, hdisks, diskEntries,
              elems]
        disks := by
          cases hdisks : members.lookup "disk_config" <;>
            simp [docConfig, fixArgs_eq, applyVal, saysPatch, valueOf, hdisks, diskEntries,
              elems]
        numPeers := by rw [docConfig_numPeers, hpeers, peerEntries, length_map]
        peers := hpeers }

/-! ## Faithfulness -/

variable {tokener : Tokener} {str : List Char}

theorem parseFromStr_of_none (hobj : IsObject tokener str members) (hdoc : docPatch members = none)
    (s : Parsing AppConfig) : parseSgxlklAppConfigFromStr tokener str s = none := by
  obtain ⟨hbrace, htok⟩ := hobj
  unfold parseSgxlklAppConfigFromStr parseJsonFromStr
  rw [if_neg (not_not.mpr hbrace), htok]
  simp only [parseJson_eq_apply, hdoc]
  rfl

theorem parseFromStr_of_refused (hobj : IsObject tokener str members) {ret : Int}
    (hdoc : docPatch members = some (ret, p)) (hret : ret ≠ 0) (s : Parsing AppConfig) :
    ∃ err, parseSgxlklAppConfigFromStr tokener str s = some (-1, err, p.apply s) := by
  obtain ⟨hbrace, htok⟩ := hobj
  have hread : parseJsonFromStr tokener parseSgxlklAppConfigEntry str none s
      = some (-1, none, p.apply s) := by
    unfold parseJsonFromStr
    rw [if_neg (not_not.mpr hbrace), htok]
    simp [parseJson_eq_apply, hdoc, applyTo, hret]
  unfold parseSgxlklAppConfigFromStr
  rw [hread]
  exact ⟨_, rfl⟩

def DocRejected (members : List (String × Json)) : Prop :=
  DocRefused members
    ∨ (∀ m ∈ visited members, MemberTaken m) ∧ ∀ m ∈ visited members, m.1 ≠ "run"

theorem run_isSome_iff (hdoc : docPatch members = some (0, p)) :
    p.run.isSome = true ↔ ∃ m ∈ visited members, m.1 = "run" := by
  have hassigned := assigned_docPatch hdoc .run
  rw [assigned] at hassigned
  simp [hassigned, sets, isFor, Field.key]

theorem parseFromStr_of_run (hobj : IsObject tokener str members)
    (hdoc : docPatch members = some (0, p)) {path : List Char} (hrun : p.run = some path) :
    parseSgxlklAppConfigFromStr tokener str ⟨{}, []⟩
      = some (0, none, ⟨fixArgs path (p.applyVal {}), p.stderr⟩) := by
  rw [parseFromStr_of_patch hobj hdoc]
  simp [finish, apply, applyVal, hrun]

theorem finish_of_none {c : Parsing AppConfig} (h : c.val.run = none) :
    ∃ err, finish c = (1, err, c) :=
  ⟨_, by rw [finish, h]⟩

theorem parseFromStr_of_rejected (hobj : IsObject tokener str members) (h : DocRejected members) :
    ∃ ret err c, parseSgxlklAppConfigFromStr tokener str ⟨{}, []⟩ = some (ret, err, c)
      ∧ ret ≠ 0 := by
  rcases h with hrefused | ⟨htaken, hrun⟩
  · obtain ⟨ret, p, hdoc, hret⟩ := docPatch_refused hrefused
    obtain ⟨err, hparse⟩ := parseFromStr_of_refused hobj hdoc hret ⟨{}, []⟩
    exact ⟨-1, err, _, hparse, by decide⟩
  · obtain ⟨p, hdoc⟩ := docPatch_taken htaken
    have hnone : p.run = none := by
      rw [← Option.not_isSome_iff_eq_none, run_isSome_iff hdoc]
      rintro ⟨m, hm, hkey⟩
      exact hrun m hm hkey
    obtain ⟨err, hfinish⟩ := finish_of_none (c := p.apply ⟨{}, []⟩)
      (by simp [apply, applyVal, hnone])
    exact ⟨1, err, _, by rw [parseFromStr_of_patch hobj hdoc, hfinish], by decide⟩

theorem lookup_of_mem (hkeys : (members.map Prod.fst).Nodup) (hm : m ∈ members) :
    members.lookup m.1 = some m.2 := by
  obtain ⟨before, behind, rfl⟩ := append_of_mem hm
  rw [lookup_perm perm_middle hkeys, lookup_cons_self]

theorem WellTyped.eq_string (h : WellTyped ("run", value)) : ∃ path, value = .string path := by
  generalize hm : ("run", value) = m at h
  cases h <;> simp_all

theorem exists_run_of_not_rejected (hwell : ∀ m ∈ members, WellTyped m)
    (hkeys : (members.map Prod.fst).Nodup) (htaken : ∀ m ∈ members, MemberTaken m)
    (h : ¬ DocRejected members) : ∃ path, members.lookup "run" = some (.string path) := by
  have hrun : ∃ m ∈ members, m.1 = "run" := by
    by_contra hnone
    push Not at hnone
    rw [← visited_eq_self hwell] at htaken hnone
    exact h (Or.inr ⟨htaken, hnone⟩)
  obtain ⟨⟨key, value⟩, hm, rfl⟩ := hrun
  obtain ⟨path, rfl⟩ := (hwell _ hm).eq_string
  exact ⟨path, lookup_of_mem hkeys hm⟩

theorem parseFromStr_of_wellTyped (hobj : IsObject tokener str members)
    (hwell : ∀ m ∈ members, WellTyped m) (hkeys : (members.map Prod.fst).Nodup)
    (htaken : ∀ m ∈ members, MemberTaken m) {path : List Char}
    (hrun : members.lookup "run" = some (.string path)) :
    ∃ c, parseSgxlklAppConfigFromStr tokener str ⟨{}, []⟩ = some (0, none, c)
      ∧ c.val = docConfig members path := by
  obtain ⟨p, hdoc⟩ := docPatch_taken fun m hm => htaken m (mem_of_visited hm)
  have hquiet := docPatch_quiet hwell htaken hkeys hdoc
  have hpath : p.run = some path := by
    have hfield : p.quiet.run = some path := by simp [hquiet, saysPatch, hrun, getString]
    exact hfield
  refine ⟨_, parseFromStr_of_run hobj hdoc hpath, ?_⟩
  rw [docConfig, ← hquiet, quiet_applyVal]

/-- A document is accepted for what it says, in every order of its members, and refused if a member
is unknown or of the wrong type. -/
structure ConfigFaithful (tokener : Tokener) (str : List Char) (members : List (String × Json)) :
    Prop where
  defined : ∃ ret err c, parseSgxlklAppConfigFromStr tokener str ⟨{}, []⟩ = some (ret, err, c)
  stated {err : Option ErrDesc} {c : Parsing AppConfig}
    (h : parseSgxlklAppConfigFromStr tokener str ⟨{}, []⟩ = some (0, err, c)) :
    ∃ path, Says members path c.val
  permuted {err : Option ErrDesc} {c : Parsing AppConfig}
    (h : parseSgxlklAppConfigFromStr tokener str ⟨{}, []⟩ = some (0, err, c))
    {str' : List Char} {members' : List (String × Json)} (hobj : IsObject tokener str' members')
    (hperm : members.Perm members') :
    ∃ c', parseSgxlklAppConfigFromStr tokener str' ⟨{}, []⟩ = some (0, err, c') ∧ c'.val = c.val
  rejects (h : ∃ m ∈ members, ¬ WellTyped m) {ret : Int} {err : Option ErrDesc}
    {c : Parsing AppConfig}
    (hparse : parseSgxlklAppConfigFromStr tokener str ⟨{}, []⟩ = some (ret, err, c)) : ret ≠ 0

theorem configFaithful_of_rejected (hobj : IsObject tokener str members)
    (h : DocRejected members) : ConfigFaithful tokener str members := by
  obtain ⟨ret, err, c, hparse, hret⟩ := parseFromStr_of_rejected hobj h
  have hnot {err' : Option ErrDesc} {c' : Parsing AppConfig}
      (h : parseSgxlklAppConfigFromStr tokener str ⟨{}, []⟩ = some (0, err', c')) : False := by
    rw [hparse, Option.some.injEq, Prod.mk.injEq] at h
    exact hret h.1
  exact
    { defined := ⟨ret, err, c, hparse⟩
      stated := fun h => (hnot h).elim
      permuted := fun h => (hnot h).elim
      rejects := by
        rintro - ret' err' c' hparse' rfl
        exact hnot hparse' }

theorem configFaithful_of_wellTyped (hobj : IsObject tokener str members)
    (hkeys : (members.map Prod.fst).Nodup) (hwell : ∀ m ∈ members, WellTyped m)
    (hseen : PeersSeen members) (hrejected : ¬ DocRejected members) :
    ConfigFaithful tokener str members := by
  have htaken := taken_of_wellTyped hwell fun h => hrejected (Or.inl h)
  obtain ⟨path, hrun⟩ := exists_run_of_not_rejected hwell hkeys htaken hrejected
  obtain ⟨c, hparse, hval⟩ := parseFromStr_of_wellTyped hobj hwell hkeys htaken hrun
  exact
    { defined := ⟨0, none, c, hparse⟩
      stated := by
        intro err c' hparse'
        obtain ⟨rfl, rfl⟩ : none = err ∧ c = c' := by simpa [hparse] using hparse'
        exact ⟨path, hval ▸ (docConfig_says_iff hrun).mpr hseen⟩
      permuted := by
        intro err c' hparse' str' members' hobj' hperm
        obtain ⟨rfl, rfl⟩ : none = err ∧ c = c' := by simpa [hparse] using hparse'
        have hlookup := lookup_perm hperm hkeys
        obtain ⟨c', hparse', hval'⟩ := parseFromStr_of_wellTyped hobj'
          (fun m hm => hwell m (hperm.mem_iff.mpr hm))
          ((hperm.map Prod.fst).nodup_iff.mp hkeys)
          (fun m hm => htaken m (hperm.mem_iff.mpr hm))
          (hlookup "run" ▸ hrun)
        refine ⟨c', hparse', ?_⟩
        rw [hval, hval', docConfig, docConfig]
        simp only [hlookup]
      rejects := by
        rintro ⟨m, hm, hnot⟩
        exact absurd (hwell m hm) hnot }

theorem ConfigFaithful.wellTyped (hf : ConfigFaithful tokener str members)
    (hobj : IsObject tokener str members) (hkeys : (members.map Prod.fst).Nodup)
    (hrejected : ¬ DocRejected members) :
    (∀ m ∈ members, WellTyped m) ∧ PeersSeen members := by
  have hrefused : ¬ DocRefused members := fun h => hrejected (Or.inl h)
  have htaken : ∀ m ∈ visited members, MemberTaken m := by
    by_contra htaken
    obtain ⟨ret, err, c, hparse⟩ := hf.defined
    rw [parseFromStr_of_none hobj (docPatch_undefined htaken hrefused)] at hparse
    cases hparse
  have hwell : ∀ m ∈ members, WellTyped m := by
    by_contra hwell
    push Not at hwell
    obtain ⟨p, hdoc⟩ := docPatch_taken htaken
    have hrun : p.run.isSome = true := by
      rw [run_isSome_iff hdoc]
      by_contra hnone
      push Not at hnone
      exact hrejected (Or.inr ⟨htaken, hnone⟩)
    obtain ⟨path, hpath⟩ := Option.isSome_iff_exists.mp hrun
    exact hf.rejects hwell (parseFromStr_of_run hobj hdoc hpath) rfl
  refine ⟨hwell, ?_⟩
  have htaken := taken_of_wellTyped hwell hrefused
  obtain ⟨path, hrun⟩ := exists_run_of_not_rejected hwell hkeys htaken hrejected
  obtain ⟨c, hparse, hval⟩ := parseFromStr_of_wellTyped hobj hwell hkeys htaken hrun
  obtain ⟨path', hstated⟩ := hf.stated hparse
  obtain rfl : path' = path := by simpa [hstated.given] using hrun
  rw [hval] at hstated
  exact (docConfig_says_iff hrun).mp hstated

/-- **The documents that are taken for what they say.** A document with distinct members is
faithful exactly if it is refused, or its members are known and of the right types and no `null`
hides its peers. -/
theorem config_faithful_iff (hobj : IsObject tokener str members)
    (hkeys : (members.map Prod.fst).Nodup) :
    ConfigFaithful tokener str members
      ↔ DocRejected members ∨ (∀ m ∈ members, WellTyped m) ∧ PeersSeen members := by
  constructor
  · intro hf
    by_cases hrejected : DocRejected members
    · exact Or.inl hrejected
    · exact Or.inr (hf.wellTyped hobj hkeys hrejected)
  · rintro (hrejected | ⟨hwell, hseen⟩)
    · exact configFaithful_of_rejected hobj hrejected
    · by_cases hrejected : DocRejected members
      · exact configFaithful_of_rejected hobj hrejected
      · exact configFaithful_of_wellTyped hobj hkeys hwell hseen hrejected

def argsFirst : List (String × Json) :=
  [("args", .array [.string "-v".toList]), ("run", .string "/bin/app".toList)]

theorem config_faithful_iff_args_first :
    ConfigFaithful (fun _ => .ok argsFirst) ['\x7b'] argsFirst := by
  refine (config_faithful_iff ⟨by decide, rfl⟩ (by decide)).mpr (Or.inr ⟨?_, ?_⟩)
  · simp only [argsFirst, List.forall_mem_cons]
    exact ⟨.args (by simp [isString]), .run _, by simp⟩
  · intro v hv
    cases hv

def unknownNull : List (String × Json) := [("run", .string "/bin/app".toList), ("foo", .null)]

/-- The document is accepted. -/
theorem unknown_null_accepted :
    IsObject (fun _ => .ok unknownNull) ['\x7b'] unknownNull
      ∧ (unknownNull.map Prod.fst).Nodup
      ∧ ¬ ConfigFaithful (fun _ => .ok unknownNull) ['\x7b'] unknownNull := by
  refine ⟨⟨by decide, rfl⟩, by decide, fun hf => ?_⟩
  have hunknown : ¬ WellTyped ("foo", .null) := fun h => by cases h.isNull_eq_false
  exact hf.rejects ⟨("foo", .null), by simp [unknownNull], hunknown⟩ rfl rfl

end RktIo.Cmd
