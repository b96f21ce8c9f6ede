import RktIo.Config.Options

/-!
# Where the value of an option comes from

The value of an option is to come from the environment, then from the last fitting entry of the
configuration documents, then from the table. What a run of documents does to one option is a fold
of `ElemState.step` over the entries for its key (`parseDocuments_elem`).

Two things break the rule: a number with a fraction or an array for an option that has no value
yet marks it as initialised, and a `null` hides the rest of its document.
`config_precedence_iff` says that nothing else does.
-/

namespace RktIo.Config

open CString Shared List ConfigState OptKind

/-! ## What the value is to be -/

def unknownType : Json → Bool
  | .double | .array _ | .null => true
  | _ => false

def OptKind.read (toJsonString : Json → List Char) : OptKind → Json → Option OptVal
  | .bool _, .boolean b => some (.bool b)
  | .uint _ _, .int v => some (.uint (u64OfInt v))
  | .uint val max, .string s => some (.uint (sizeStrToUint64 s val max))
  | .char _, .string s => some (.char (some s))
  | .json _, .object members => some (.char (some (toJsonString (.object members))))
  | _, _ => none

def OptKind.envVal : OptKind → List Char → OptVal
  | .bool _, v => .bool (v.head? == some '1')
  | .uint _ _, v => .uint (numeral 10 v)
  | .char _, v | .json _, v => .char (some v)

def OptKind.dflt : OptKind → OptVal
  | .bool b => .bool b
  | .uint val _ => .uint val
  | .char s | .json s => .char (s.map String.toList)

def OptKind.WellSet : OptKind → List Char → Prop
  | .bool _, v => v.head? = some '0' ∨ v.head? = some '1'
  | .uint _ max, v => v ≠ [] ∧ (∀ c ∈ v, digitVal c < 10) ∧ numeral 10 v ≤ max
  | .char _, _ | .json _, _ => True

def WellSetEnv (env : Environ) : Prop :=
  ∀ e ∈ sgxlklConfig, ∀ v, env e.envKey = some v → e.kind.WellSet v

def orEnv (env : Environ) (e : ConfigElem) (b : OptVal) : OptVal :=
  ((env e.envKey).map e.kind.envVal).getD b

def entriesFor (key : String) (members : List (String × Json)) : List Json :=
  (members.filter (fun m => m.1 == key)).map Prod.snd

def allMembers (tokener : Tokener) (docs : List (List Char)) : List (String × Json) :=
  docs.flatMap (docMembers tokener)

def readMembers (tokener : Tokener) (docs : List (List Char)) : List (String × Json) :=
  docs.flatMap (fun str => visited (docMembers tokener str))

/-! ## The environment -/

variable {out : Outside} {e : ConfigElem}

theorem getenvBool_orEnv {dflt b : Bool} (hkind : e.kind = .bool dflt)
    (hset : ∀ v, out.env e.envKey = some v → e.kind.WellSet v) :
    OptVal.bool (getenvBool out.env e.envKey b) = orEnv out.env e (.bool b) := by
  unfold getenvBool orEnv
  cases hv : out.env e.envKey with
  | none => rfl
  | some v =>
    have hwell := hset v hv
    rw [hkind] at hwell ⊢
    cases v with
    | nil => simp [OptKind.WellSet] at hwell
    | cons c v =>
      rcases hwell with h | h
      · obtain rfl : c = '0' := by simpa using h
        cases b <;> rfl
      · obtain rfl : c = '1' := by simpa using h
        cases b <;> rfl

theorem getenvUint64_orEnv {val max n : Nat} (hkind : e.kind = .uint val max)
    (hmax : max < 2 ^ 64) (hset : ∀ v, out.env e.envKey = some v → e.kind.WellSet v) :
    OptVal.uint (getenvUint64 out.env e.envKey n max) = orEnv out.env e (.uint n) := by
  unfold getenvUint64 orEnv
  cases hv : out.env e.envKey with
  | none => rfl
  | some v =>
    have hwell := hset v hv
    rw [hkind] at hwell ⊢
    obtain ⟨hne, hdigits, hle⟩ := hwell
    simp [envVal, sizeStrToUint64_of_decimal hne hdigits hle hmax]

theorem getenvStr_orEnv {s : Option (List Char)}
    (hkind : (∃ dflt, e.kind = .char dflt) ∨ ∃ dflt, e.kind = .json dflt) :
    OptVal.char (getenvStr out.env e.envKey s) = orEnv out.env e (.char s) := by
  unfold getenvStr orEnv
  cases out.env e.envKey with
  | none => rfl
  | some v => rcases hkind with ⟨dflt, hkind⟩ | ⟨dflt, hkind⟩ <;> simp [hkind, envVal]

/-! ## One entry -/

def ElemState.step (out : Outside) (e : ConfigElem) (s : ElemState) (value : Json) : ElemState :=
  match e.kind.read out.toJsonString value with
  | some b => ⟨true, true, orEnv out.env e b⟩
  | none => if unknownType value then ⟨true, true, s.val⟩ else s

def OptKind.max : OptKind → Nat
  | .uint _ max => max
  | _ => 0

theorem max_lt_of_mem : ∀ e ∈ sgxlklConfig, e.kind.max < 2 ^ 64 := by
  decide +kernel

theorem parseEntryAt_elems {i : Nat} {key : String} {value : Json} {st : ConfigState}
    (he : e ∈ sgxlklConfig) (hset : ∀ v, out.env e.envKey = some v → e.kind.WellSet v) :
    (parseEntryAt out i e key value st).elems
      = Function.update st.elems i ((st.elems i).step out e value) := by
  have hmax := max_lt_of_mem e he
  unfold parseEntryAt ElemState.step
  cases value with
  | boolean b =>
    cases hkind : e.kind with
    | bool dflt => simp [OptKind.read, ConfigState.setElem, getenvBool_orEnv hkind hset]
    | _ => simp [OptKind.read, unknownType, ConfigState.warn]
  | int v =>
    cases hkind : e.kind with
    | uint val max =>
      rw [hkind] at hmax
      simp [OptKind.read, ConfigState.setElem, getenvUint64_orEnv hkind hmax hset]
    | _ => simp [OptKind.read, unknownType, ConfigState.warn]
  | string s =>
    cases hkind : e.kind with
    | uint val max =>
      rw [hkind] at hmax
      simp [OptKind.read, ConfigState.setElem, getenvUint64_orEnv hkind hmax hset]
    | char dflt => simp [OptKind.read, ConfigState.setElem, getenvStr_orEnv (.inl ⟨dflt, hkind⟩)]
    | _ => simp [OptKind.read, unknownType, ConfigState.warn]
  | object members =>
    cases hkind : e.kind with
    | json dflt => simp [OptKind.read, ConfigState.setElem, getenvStr_orEnv (.inr ⟨dflt, hkind⟩)]
    | _ => simp [OptKind.read, unknownType, ConfigState.warn]
  | _ => cases e.kind <;> simp [OptKind.read, unknownType, ConfigState.warn, ConfigState.setElem]

/-! ## Documents -/

theorem jsonKeys_nodup : (sgxlklConfig.map ConfigElem.jsonKey).Nodup := by
  decide +kernel

theorem configElemByKey_some {i : Nat} {key : String} (h : configElemByKey key = some (e, i)) :
    sgxlklConfig[i]? = some e ∧ e.jsonKey = key := by
  refine ⟨?_, by simpa using find?_some h⟩
  exact mk_mem_zipIdx_iff_getElem?.mp (mem_of_find?_eq_some h)

theorem index_eq_of_jsonKey_eq {i j : Nat} {e' : ConfigElem} (hi : sgxlklConfig[i]? = some e)
    (hj : sgxlklConfig[j]? = some e') (hkey : e.jsonKey = e'.jsonKey) : i = j := by
  have hlt : i < (sgxlklConfig.map ConfigElem.jsonKey).length := by
    rw [List.length_map]
    exact (List.getElem?_eq_some_iff.mp hi).1
  exact (List.getElem?_inj hlt jsonKeys_nodup).mp (by simp [hi, hj, hkey])

theorem configElemByKey_jsonKey {i : Nat} (hi : sgxlklConfig[i]? = some e) :
    configElemByKey e.jsonKey = some (e, i) := by
  have hsome : (configElemByKey e.jsonKey).isSome := by
    rw [configElemByKey, find?_isSome]
    exact ⟨(e, i), mk_mem_zipIdx_iff_getElem?.mpr hi, by simp⟩
  obtain ⟨⟨e', j⟩, hfind⟩ := Option.isSome_iff_exists.mp hsome
  obtain ⟨hj, hkey⟩ := configElemByKey_some hfind
  obtain rfl := index_eq_of_jsonKey_eq hi hj hkey.symm
  rw [hi, Option.some.injEq] at hj
  rw [hfind, hj]

def afterMember (out : Outside) (st : ConfigState) (m : String × Json) : ConfigState :=
  ((parseSgxlklConfigEntry out m.1 m.2 st).map Prod.snd).getD st

def afterMembers (out : Outside) (members : List (String × Json)) : ConfigState :=
  members.foldl (afterMember out) ConfigState.initial

theorem parseSgxlklConfigEntry_eq (key : String) (value : Json) (st : ConfigState) :
    parseSgxlklConfigEntry out key value st = some (0, afterMember out st (key, value)) := by
  unfold afterMember parseSgxlklConfigEntry
  cases configElemByKey key <;> rfl

theorem parseEntryAt_elems_of_ne {i j : Nat} (h : i ≠ j) (key : String) (value : Json)
    (st : ConfigState) : (parseEntryAt out j e key value st).elems i = st.elems i := by
  unfold parseEntryAt
  cases value <;> cases e.kind <;> simp [setElem, warn, h]

theorem afterMember_elems {i : Nat} (hi : sgxlklConfig[i]? = some e) (st : ConfigState)
    (m : String × Json) :
    (afterMember out st m).elems i
      = if m.1 = e.jsonKey then (parseEntryAt out i e m.1 m.2 st).elems i else st.elems i := by
  unfold afterMember parseSgxlklConfigEntry
  by_cases hkey : m.1 = e.jsonKey
  · rw [if_pos hkey, hkey, configElemByKey_jsonKey hi]
    rfl
  · rw [if_neg hkey]
    cases hfind : configElemByKey m.1 with
    | none => rfl
    | some r =>
      obtain ⟨e', j⟩ := r
      obtain ⟨hj, hkey'⟩ := configElemByKey_some hfind
      have hne : i ≠ j := by
        rintro rfl
        rw [hi, Option.some.injEq] at hj
        exact hkey (hj ▸ hkey'.symm)
      exact parseEntryAt_elems_of_ne hne m.1 m.2 st

theorem afterMember_elem {i : Nat} (hi : sgxlklConfig[i]? = some e) (henv : WellSetEnv out.env)
    (st : ConfigState) (m : String × Json) :
    (afterMember out st m).elems i
      = if m.1 = e.jsonKey then (st.elems i).step out e m.2 else st.elems i := by
  have hmem : e ∈ sgxlklConfig := mem_of_getElem? hi
  rw [afterMember_elems hi, parseEntryAt_elems hmem (henv e hmem), Function.update_self]

theorem parseJson_eq (members : List (String × Json)) (st : ConfigState) :
    parseJson (parseSgxlklConfigEntry out) members st
      = some (0, (visited members).foldl (afterMember out) st) := by
  induction members generalizing st with
  | nil => rfl
  | cons m members ih =>
    obtain ⟨key, value⟩ := m
    cases hnull : value.isNull with
    | true => simp [parseJson, visited, hnull]
    | false =>
      have htail := ih (afterMember out st (key, value))
      simp only [visited] at htail
      simp [parseJson, visited, hnull, parseSgxlklConfigEntry_eq, htail]

/-- **A run of documents**: the members that are read, one after another. Induction on the
documents. -/
theorem parseDocuments_eq (tokener : Tokener) (docs : List (List Char)) :
    parseDocuments tokener out docs = some (afterMembers out (readMembers tokener docs)) := by
  have hdocs : ∀ docs st,
      docs.foldlM (fun st str => (parseSgxlklConfigFromStr tokener out str st).map (fun r => r.2.2))
        st = some ((readMembers tokener docs).foldl (afterMember out) st) := by
    intro docs
    induction docs with
    | nil =>
      intro st
      rfl
    | cons str docs ih =>
      intro st
      have hcons : readMembers tokener (str :: docs)
          = visited (docMembers tokener str) ++ readMembers tokener docs := flatMap_cons ..
      rw [foldlM_cons, parseSgxlklConfigFromStr, parseJsonFromStr_arg, parseJson_eq, hcons,
        foldl_append]
      exact ih _
  exact hdocs docs initial

/-! ## One option over a run of documents -/

variable {i : Nat} {members pre post : List (String × Json)} {m : String × Json}

def fits (out : Outside) (e : ConfigElem) (members : List (String × Json)) : List OptVal :=
  (entriesFor e.jsonKey members).filterMap (e.kind.read out.toJsonString)

theorem fits_snoc : fits out e (members ++ [m])
    = fits out e members
      ++ (if m.1 = e.jsonKey then (e.kind.read out.toJsonString m.2).toList else []) := by
  unfold fits entriesFor
  by_cases hkey : m.1 = e.jsonKey
  · cases hread : e.kind.read out.toJsonString m.2 with
    | none | some b => simp [hkey, hread]
  · simp [hkey]

section

variable (hi : sgxlklConfig[i]? = some e)

include hi

theorem afterMembers_nil_elem : (afterMembers out []).elems i = e.kind.initial := by
  simp [afterMembers, ConfigState.initial, hi]

theorem afterMembers_snoc_elem (henv : WellSetEnv out.env) (members : List (String × Json))
    (m : String × Json) :
    (afterMembers out (members ++ [m])).elems i
      = if m.1 = e.jsonKey then ((afterMembers out members).elems i).step out e m.2
        else (afterMembers out members).elems i := by
  rw [afterMembers, foldl_append]
  exact afterMember_elem hi henv _ m

theorem afterMembers_of_fit (henv : WellSetEnv out.env) {b : OptVal}
    (hfit : (fits out e members).getLast? = some b) :
    (afterMembers out members).elems i = ⟨true, true, orEnv out.env e b⟩ := by
  induction members using List.reverseRecOn with
  | nil => cases hfit
  | append_singleton members m ih =>
    rw [fits_snoc] at hfit
    rw [afterMembers_snoc_elem hi henv]
    by_cases hkey : m.1 = e.jsonKey
    · rw [if_pos hkey] at hfit ⊢
      unfold ElemState.step
      cases hread : e.kind.read out.toJsonString m.2 with
      | some b' =>
        rw [hread] at hfit
        obtain rfl : b' = b := by simpa using hfit
        rfl
      | none =>
        rw [hread, Option.toList_none, append_nil] at hfit
        rw [ih hfit]
        dsimp only
        split <;> rfl
    · rw [if_neg hkey, append_nil] at hfit
      rw [if_neg hkey]
      exact ih hfit

end

def UnknownIn (e : ConfigElem) (members : List (String × Json)) : Prop :=
  ∃ m ∈ members, m.1 = e.jsonKey ∧ unknownType m.2 = true

theorem afterMembers_of_untouched (hi : sgxlklConfig[i]? = some e) (henv : WellSetEnv out.env)
    (hfit : fits out e members = []) (hunknown : ¬ UnknownIn e members) :
    (afterMembers out members).elems i = e.kind.initial := by
  induction members using List.reverseRecOn with
  | nil => exact afterMembers_nil_elem hi
  | append_singleton members m ih =>
    rw [fits_snoc, append_eq_nil_iff] at hfit
    have hbefore : ¬ UnknownIn e members := by
      rintro ⟨m', hm', h⟩
      exact hunknown ⟨m', mem_append_left _ hm', h⟩
    rw [afterMembers_snoc_elem hi henv, ih hfit.1 hbefore]
    by_cases hkey : m.1 = e.jsonKey
    · have hread : e.kind.read out.toJsonString m.2 = none := by simpa [hkey] using hfit.2
      have htype : ¬ unknownType m.2 = true := by
        intro h
        exact hunknown ⟨m, by simp, hkey, h⟩
      rw [if_pos hkey, ElemState.step, hread]
      exact if_neg htype
    · rw [if_neg hkey]

/-! ## Precedence -/

def precedenceVal (out : Outside) (e : ConfigElem) (members : List (String × Json)) : OptVal :=
  orEnv out.env e ((fits out e members).getLast?.getD e.kind.dflt)

theorem reader_val (hi : sgxlklConfig[i]? = some e) (henv : WellSetEnv out.env) (st : ConfigState) :
    (e.kind.reader out i st).map Prod.fst
      = some (if (st.elems i).inited then (st.elems i).val else orEnv out.env e e.kind.dflt) := by
  have hmem : e ∈ sgxlklConfig := List.mem_of_getElem? hi
  have hmax := max_lt_of_mem e hmem
  have hset := henv e hmem
  obtain ⟨envKey, jsonKey, kind⟩ := e
  cases kind with
  | bool dflt =>
    have hval := getenvBool_orEnv (b := dflt) rfl hset
    cases h : (st.elems i).inited <;>
      simp [OptKind.reader, sgxlklConfigBool, hi, h, OptKind.dflt, ← hval]
  | uint val max =>
    have hval := getenvUint64_orEnv (n := val) rfl hmax hset
    cases h : (st.elems i).inited <;>
      simp [OptKind.reader, sgxlklConfigUint64, hi, h, OptKind.dflt, OptKind.max, ← hval]
  | char dflt =>
    have hval := @getenvStr_orEnv out ⟨envKey, jsonKey, .char dflt⟩ (dflt.map String.toList)
      (.inl ⟨dflt, rfl⟩)
    cases h : (st.elems i).inited <;>
      simp [OptKind.reader, sgxlklConfigStr, hi, h, OptKind.dflt, ← hval]
  | json dflt =>
    have hval := @getenvStr_orEnv out ⟨envKey, jsonKey, .json dflt⟩ (dflt.map String.toList)
      (.inr ⟨dflt, rfl⟩)
    cases h : (st.elems i).inited <;>
      simp [OptKind.reader, sgxlklConfigStr, hi, h, OptKind.dflt, ← hval]

/-- The option has the value it is to have, counts as configured if a variable or a fitting entry
sets it, and is not touched by an entry that does not fit. -/
structure Precedence (tokener : Tokener) (out : Outside) (docs : List (List Char)) (i : Nat)
    (e : ConfigElem) (st : ConfigState) : Prop where
  value : (e.kind.reader out i st).map Prod.fst
    = some (precedenceVal out e (allMembers tokener docs))
  configured : sgxlklConfigured out i st
    = some ((out.env e.envKey).isSome || !(fits out e (allMembers tokener docs)).isEmpty)
  kept : ∀ pre m post, readMembers tokener docs = pre ++ m :: post → m.1 = e.jsonKey →
    e.kind.read out.toJsonString m.2 = none →
    (afterMembers out (pre ++ [m])).elems i = (afterMembers out pre).elems i

def UnknownAfterFit (out : Outside) (e : ConfigElem) (members : List (String × Json)) : Prop :=
  ∀ pre m post, members = pre ++ m :: post → m.1 = e.jsonKey → unknownType m.2 = true →
    fits out e pre ≠ []

theorem fits_append (pre post : List (String × Json)) :
    fits out e (pre ++ post) = fits out e pre ++ fits out e post := by
  simp [fits, entriesFor]

theorem UnknownAfterFit.not_unknownIn (h : UnknownAfterFit out e members)
    (hfit : fits out e members = []) : ¬ UnknownIn e members := by
  rintro ⟨m, hm, hkey, htype⟩
  obtain ⟨pre, post, rfl⟩ := append_of_mem hm
  rw [fits_append, append_eq_nil_iff] at hfit
  exact h pre m post rfl hkey htype hfit.1

theorem read_eq_none_of_unknownType {value : Json} (h : unknownType value = true) (kind : OptKind)
    (toJsonString : Json → List Char) : kind.read toJsonString value = none := by
  cases value <;> cases kind <;> first | rfl | cases h

theorem fits_ne_nil_of_inited (hi : sgxlklConfig[i]? = some e) (henv : WellSetEnv out.env)
    (hkept : ∀ pre m post, members = pre ++ m :: post → m.1 = e.jsonKey →
      e.kind.read out.toJsonString m.2 = none →
      (afterMembers out (pre ++ [m])).elems i = (afterMembers out pre).elems i)
    (hmembers : members = pre ++ post) (hinit : ((afterMembers out pre).elems i).inited = true) :
    fits out e pre ≠ [] := by
  induction pre using List.reverseRecOn generalizing post with
  | nil =>
    rw [afterMembers_nil_elem hi] at hinit
    cases hinit
  | append_singleton pre m ih =>
    rw [append_assoc, singleton_append] at hmembers
    rw [fits_snoc]
    by_cases hkey : m.1 = e.jsonKey
    · rw [if_pos hkey]
      cases hread : e.kind.read out.toJsonString m.2 with
      | some b => simp
      | none =>
        rw [hkept pre m post hmembers hkey hread] at hinit
        simpa using ih hmembers hinit
    · rw [afterMembers_snoc_elem hi henv, if_neg hkey] at hinit
      simpa [hkey] using ih hmembers hinit

/-- **Precedence of the configuration.** For every option, every environment that is set well and
every sequence of documents: the option is read as the environment, the last fitting entry or
the default says, and counts as configured accordingly, and no other entry touches it, exactly if

* every entry of unknown type for its key comes after one that fits, and
* its variable is set, or the last fitting entry that is read has the value of the last fitting
  entry at all (a `null` hides the entries behind it). -/
theorem config_precedence_iff (tokener : Tokener) (out : Outside) (docs : List (List Char)) (i : Nat)
    (e : ConfigElem) (hi : sgxlklConfig[i]? = some e) (henv : WellSetEnv out.env) :
    (∃ st, parseDocuments tokener out docs = some st ∧ Precedence tokener out docs i e st)
      ↔ UnknownAfterFit out e (readMembers tokener docs)
        ∧ ((out.env e.envKey).isSome = true
          ∨ (fits out e (readMembers tokener docs)).getLast?
            = (fits out e (allMembers tokener docs)).getLast?) := by
  have hread := reader_val hi henv (afterMembers out (readMembers tokener docs))
  have hconf : sgxlklConfigured out i (afterMembers out (readMembers tokener docs))
      = some (((afterMembers out (readMembers tokener docs)).elems i).configured
        || (out.env e.envKey).isSome) := by
    simp [sgxlklConfigured, hi]
  constructor
  · rintro ⟨st, hst, hprec⟩
    rw [parseDocuments_eq, Option.some.injEq] at hst
    subst hst
    have hunknown : UnknownAfterFit out e (readMembers tokener docs) := by
      intro pre m post hsplit hkey htype
      have hnone := read_eq_none_of_unknownType htype e.kind out.toJsonString
      refine fits_ne_nil_of_inited hi henv hprec.kept hsplit ?_
      rw [← hprec.kept pre m post hsplit hkey hnone, afterMembers_snoc_elem hi henv, if_pos hkey,
        ElemState.step, hnone]
      exact congrArg ElemState.inited (if_pos htype)
    refine ⟨hunknown, ?_⟩
    have hvalue := hprec.value
    have hconfigured := hprec.configured
    rw [hconf, Option.some.injEq] at hconfigured
    rw [hread, Option.some.injEq, precedenceVal] at hvalue
    cases hset : out.env e.envKey with
    | some v => exact Or.inl rfl
    | none =>
      refine Or.inr ?_
      rw [hset] at hconfigured
      cases hlast : (fits out e (readMembers tokener docs)).getLast? with
      | some b =>
        rw [afterMembers_of_fit hi henv hlast] at hvalue hconfigured
        cases hall : (fits out e (allMembers tokener docs)).getLast? with
        | some b' => simpa [orEnv, hset, hall] using hvalue
        | none =>
          rw [List.getLast?_eq_none_iff] at hall
          simp [hall] at hconfigured
      | none =>
        rw [List.getLast?_eq_none_iff] at hlast
        rw [afterMembers_of_untouched hi henv hlast (hunknown.not_unknownIn hlast)] at hconfigured
        have hnil : fits out e (allMembers tokener docs) = [] := by
          simpa [OptKind.initial] using hconfigured
        rw [hnil, List.getLast?_nil]
  · rintro ⟨hunknown, henvOr⟩
    refine ⟨_, parseDocuments_eq tokener docs, ?_, ?_, ?_⟩
    · rw [hread, precedenceVal]
      cases hlast : (fits out e (readMembers tokener docs)).getLast? with
      | some b =>
        rw [afterMembers_of_fit hi henv hlast]
        rcases henvOr with hset | hsame
        · obtain ⟨v, hv⟩ := Option.isSome_iff_exists.mp hset
          simp [orEnv, hv]
        · rw [← hsame, hlast]
          rfl
      | none =>
        have hnil := List.getLast?_eq_none_iff.mp hlast
        rw [afterMembers_of_untouched hi henv hnil (hunknown.not_unknownIn hnil)]
        rcases henvOr with hset | hsame
        · obtain ⟨v, hv⟩ := Option.isSome_iff_exists.mp hset
          simp [orEnv, hv, OptKind.initial]
        · rw [← hsame, hlast]
          rfl
    · rw [hconf, Option.some.injEq]
      rcases henvOr with hset | hsame
      · simp [hset]
      · cases hlast : (fits out e (readMembers tokener docs)).getLast? with
        | some b =>
          have hne : fits out e (allMembers tokener docs) ≠ [] := by
            rw [hlast] at hsame
            exact fun hnil => by simp [hnil] at hsame
          simp [afterMembers_of_fit hi henv hlast, hne]
        | none =>
          have hnil := List.getLast?_eq_none_iff.mp hlast
          have hnil' : fits out e (allMembers tokener docs) = [] := by
            rw [hlast] at hsame
            exact List.getLast?_eq_none_iff.mp hsame.symm
          simp [afterMembers_of_untouched hi henv hnil (hunknown.not_unknownIn hnil), hnil',
            OptKind.initial]
    · intro pre m post hsplit hkey hnone
      rw [afterMembers_snoc_elem hi henv, if_pos hkey, ElemState.step, hnone]
      dsimp only
      split
      · rename_i htype
        obtain ⟨b, hlast⟩ := Option.ne_none_iff_exists'.mp
          (mt List.getLast?_eq_none_iff.mp (hunknown pre m post hsplit hkey htype))
        rw [afterMembers_of_fit hi henv hlast]
      · rfl

/-- A document sets `verbose`. -/
theorem config_precedence_iff_verbose :
    ∃ st, parseDocuments (fun _ => .ok [("verbose", .boolean true)]) ⟨fun _ => none, fun _ => []⟩
        ["\x7b\"verbose\": true\x7d".toList] = some st
      ∧ Precedence (fun _ => .ok [("verbose", .boolean true)]) ⟨fun _ => none, fun _ => []⟩
        ["\x7b\"verbose\": true\x7d".toList] 68 ⟨"SGXLKL_VERBOSE", "verbose", .bool false⟩ st := by
  refine (config_precedence_iff _ _ _ 68 ⟨"SGXLKL_VERBOSE", "verbose", .bool false⟩ rfl ?_).mpr
    ⟨?_, Or.inr rfl⟩
  · intro e he v hv
    cases hv
  · intro pre m post hsplit hkey htype
    have hone : [("verbose", Json.boolean true)] = pre ++ m :: post := hsplit
    have hmem : m ∈ [("verbose", Json.boolean true)] := by
      rw [hone]
      simp
    obtain rfl : m = ("verbose", Json.boolean true) := List.mem_singleton.mp hmem
    cases htype

/-- An array for `gettime_vdso` turns the option off, which is on by default, and marks it as
configured; a `null` hides the entry for `verbose` behind it. -/
theorem array_and_null_entries_break_precedence :
    (((parseDocuments (fun _ => .ok [("gettime_vdso", .array [])]) ⟨fun _ => none, fun _ => []⟩
        ["\x7b\"gettime_vdso\": []\x7d".toList]).bind fun st =>
          (sgxlklConfigBool ⟨fun _ => none, fun _ => []⟩ 17 st).map fun r =>
            (r.1, sgxlklConfigured ⟨fun _ => none, fun _ => []⟩ 17 st))
      = some (.bool false, some true))
    ∧ (((parseDocuments (fun _ => .ok [("key", .null), ("verbose", .boolean true)])
        ⟨fun _ => none, fun _ => []⟩
        ["\x7b\"key\": null, \"verbose\": true\x7d".toList]).bind fun st =>
          (sgxlklConfigBool ⟨fun _ => none, fun _ => []⟩ 68 st).map fun r =>
            (r.1, sgxlklConfigured ⟨fun _ => none, fun _ => []⟩ 68 st))
      = some (.bool false, some false)) := by
  decide +kernel

end RktIo.Config
